/-
# Export to pcapng and import again

A packet-capture session is exported to pcapng and the file is imported again. Payloads
and their order survive. The exporter declares nanoseconds as the resolution of its
interfaces and the file stores counts in that resolution; the importer passes over the
declaration and takes every count as one of microseconds, so a time of origin comes back
multiplied by a thousand. Only zero and the largest time there is are left as they were.

The layout of the blocks is that of the pcapng library. What the importer does not look
at, the bodies of interface descriptions and what follows the data of a packet, is
arbitrary, up to its size.
-/

import Mathlib.Data.Int.ConditionallyCompleteOrder
import Mathlib.Data.List.Perm.Subperm
import TraceMux.Base.Transition
import TraceMux.Core.Exporter.PcapngSession
import TraceMux.Core.Importer.Pcapng
import TraceMux.Core.Log.DecimalRows
import TraceMux.Core.Log.Rfc3339

namespace TraceMux.Core.PcapngRoundTrip

open Base Base.Transition Core.Log Core.FileSink List
open Core.Exporter.Pcapng Core.Importer Core.Importer.Pcapng

/-- How the library lays out what the importer does not look at. -/
structure BlockFormat where
  /-- What follows the byte order in a section header. -/
  sectionHeader : Bytes
  /-- The body of an interface description: link type, length limit, resolution and name. -/
  interfaceDescription : ℕ → ℕ → ℕ → String → Bytes
  /-- What follows the data of a packet: padding and options. -/
  trailer : Bytes → Bytes
  sectionHeader_le : sectionHeader.length ≤ 2 ^ 16
  interfaceDescription_le : ∀ linktype snaplen ifTsResol ifName,
    (interfaceDescription linktype snaplen ifTsResol ifName).length ≤
      2 ^ 16 + ifName.utf8ByteSize
  trailer_le : ∀ data, (trailer data).length ≤ 2 ^ 16

/-- A time in nanoseconds as a count in the resolution of an interface. -/
def storedCount (ifTsResol timestamp : ℕ) : ℕ := timestamp * 10 ^ ifTsResol / 10 ^ 9

namespace BlockFormat

variable (fmt : BlockFormat)

/-- A block of a section whose interfaces have declared the given resolutions. An interface
without a resolution has microseconds. -/
def rawBlock (resolutions : List ℕ) : Block → RawBlock
  | .sectionHeader => ⟨0x0A0D0D0A, toLeBytes 4 0x1A2B3C4D ++ fmt.sectionHeader⟩
  | .interfaceDescription linktype snaplen ifTsResol ifName =>
    ⟨0x00000001, fmt.interfaceDescription linktype snaplen ifTsResol ifName⟩
  | .enhancedPacket interfaceId timestamp originalLen data =>
    let count := storedCount (resolutions.getD interfaceId 6) timestamp
    ⟨0x00000006, toLeBytes 4 interfaceId ++ (toLeBytes 4 (count / 2 ^ 32) ++
      (toLeBytes 4 (count % 2 ^ 32) ++ (toLeBytes 4 data.length ++
        (toLeBytes 4 originalLen ++ (data ++ fmt.trailer data)))))⟩

def declared (resolutions : List ℕ) : Block → List ℕ
  | .sectionHeader => []
  | .interfaceDescription _ _ ifTsResol _ => resolutions ++ [ifTsResol]
  | .enhancedPacket .. => resolutions

def rawBlocks : List ℕ → List Block → List RawBlock
  | _, [] => []
  | resolutions, block :: rest =>
    fmt.rawBlock resolutions block :: rawBlocks (declared resolutions block) rest

def fileBytes (blocks : List Block) : Bytes := (fmt.rawBlocks [] blocks).flatMap RawBlock.bytes

end BlockFormat

structure Packet where
  tsOriginNs : ℤ
  data : Bytes
  deriving DecidableEq, Repr

/-- The row of a packet. The time of origin is a nonnegative 64-bit number of nanoseconds. A
capture cuts its packets at a length that is a positive 32-bit signed number. -/
structure IsPacketRow (metadata : MetadataMap) (raw : Bytes) (row : IndexEntry)
    (packet : Packet) : Prop where
  kind_eq : row.kind = .datagram
  is_pcap : isPcapDatagram row (metadata.lookup (row.off, row.len)) = true
  isFinite : F32.isFinite row.driftPpm = true
  tsOrigin_eq : row.tsOrigin = formatRfc3339Ns packet.tsOriginNs
  nonneg : 0 ≤ packet.tsOriginNs
  lt : packet.tsOriginNs < 2 ^ 63
  read_eq : readAt raw row.off row.len = .ok packet.data
  data_lt : packet.data.length < 2 ^ 31

/-- A packet-capture session: every row of the index is of a packet, and the packets are of
fewer interfaces than pcapng can number. -/
structure PacketSession (lib : ExportLib) (codec : RowCodec) where
  files : SessionFiles
  raw : DiskFile
  index : DiskFile
  metadata : MetadataMap
  rows : List IndexEntry
  packets : List Packet
  interfaces : List InterfaceKey
  raw_eq : files.raw = some raw
  index_eq : files.index = some index
  metadata_eq : readPacketMetadata lib files = .ok metadata
  index_bytes : index.bytes = rows.flatMap codec.line
  rows_packets : List.Forall₂ (IsPacketRow metadata raw.bytes) rows packets
  interface_mem : ∀ row ∈ rows,
    packetInterface row (metadata.lookup (row.off, row.len)) ∈ interfaces
  interfaces_le : interfaces.length ≤ u32Max
  label_lt : ∀ key ∈ interfaces, key.label.utf8ByteSize < 2 ^ 31

/-- What is needed of the parser of timestamps: it reads what the index is written with. -/
def ReadsTimestamps (lib : ExportLib) : Prop :=
  ∀ ns : ℤ, 0 ≤ ns → ns < 2 ^ 63 → lib.parseRfc3339 (formatRfc3339Ns ns) = some ns

/-- Export a session and import the file into a fresh directory. -/
def roundTrip (lib : ExportLib) (codec : RowCodec) (fmt : BlockFormat) (files : SessionFiles)
    (disk : Disk) (dst : List Text) (sid : Uuid) (clock : ℕ → ℤ) :
    Except TraceMuxError Unit × Destination :=
  match exportSession lib codec files disk dst with
  | (.error e, _) => (.error e, {})
  | (.ok (), disk) => importFile codec sid clock (fmt.fileBytes ((disk dst).getD []))

def comesBack (p : CapturedPacket) : ℤ × Bytes := (originNs p.timestamp, p.data)

def readStep (r : Reading) (block : Block) : Option Reading := some (readBlock r block)

/-- What the exporter sees to: nanoseconds for every interface, and packets of interfaces that are
described. -/
def BlockOk (r : Reading) : Block → Prop
  | .sectionHeader => True
  | .interfaceDescription _ _ ifTsResol ifName =>
    ifTsResol = nanosecondTsresol ∧ ifName.utf8ByteSize < 2 ^ 31
  | .enhancedPacket interfaceId timestamp _ data =>
    interfaceId < r.1.length ∧ timestamp < 2 ^ 63 ∧ data.length < 2 ^ 31

def nanoseconds (r : Reading) : List ℕ := List.replicate r.1.length nanosecondTsresol

theorem exec_readStep (r : Reading) (blocks : List Block) :
    exec readStep r blocks = some (blocks.foldl readBlock r) := by
  induction blocks generalizing r with
  | nil => rfl
  | cons block rest ih => exact ih (readBlock r block)

theorem storedCount_nanoseconds (timestamp : ℕ) :
    storedCount nanosecondTsresol timestamp = timestamp := by
  rw [storedCount, nanosecondTsresol, Nat.mul_div_cancel _ (by decide)]

theorem take_drop_toLeBytes (n : ℕ) (rest : Bytes) :
    (toLeBytes 4 n ++ rest).take 4 = toLeBytes 4 n ∧ (toLeBytes 4 n ++ rest).drop 4 = rest :=
  ⟨take_left' (toLeBytes_length 4 n), drop_left' (toLeBytes_length 4 n)⟩

variable {n : ℕ} {lib : ExportLib} {codec : RowCodec}

theorem fromLeBytes_four (h : n < 2 ^ 32) : fromLeBytes (toLeBytes 4 n) = n :=
  fromLeBytes_toLeBytes h

theorem join_halves (h : n < 2 ^ 64) :
    fromLeBytes (toLeBytes 4 (n / 2 ^ 32)) <<< 32 ||| fromLeBytes (toLeBytes 4 (n % 2 ^ 32)) =
      n := by
  have hlow : n % 2 ^ 32 < 2 ^ 32 := Nat.mod_lt _ (by decide)
  rw [fromLeBytes_four hlow, fromLeBytes_four (by omega), ← Nat.shiftLeft_add_eq_or_of_lt hlow,
    Nat.shiftLeft_eq]
  omega

/-- The fields of an enhanced packet are found where they stand. -/
theorem enhancedPacket_fields (a b c d e : ℕ) (rest : Bytes) :
    let body := toLeBytes 4 a ++ (toLeBytes 4 b ++ (toLeBytes 4 c ++ (toLeBytes 4 d ++
      (toLeBytes 4 e ++ rest))))
    body.length = 20 + rest.length ∧ body.take 4 = toLeBytes 4 a ∧
      (body.drop 4).take 4 = toLeBytes 4 b ∧ (body.drop 8).take 4 = toLeBytes 4 c ∧
      (body.drop 12).take 4 = toLeBytes 4 d ∧ (body.drop 16).take 4 = toLeBytes 4 e ∧
      body.drop 20 = rest := by
  -- The offsets the readers use, one field behind the other.
  have hoffsets : ∀ bytes : Bytes, bytes.drop 8 = (bytes.drop 4).drop 4 ∧
      bytes.drop 12 = ((bytes.drop 4).drop 4).drop 4 ∧
      bytes.drop 16 = (((bytes.drop 4).drop 4).drop 4).drop 4 ∧
      bytes.drop 20 = ((((bytes.drop 4).drop 4).drop 4).drop 4).drop 4 := fun bytes => by
    simp only [drop_drop, and_self]
  simp only [hoffsets, take_drop_toLeBytes, and_true]
  simp only [length_append, toLeBytes_length]
  omega

theorem packetOf_enhancedPacket (interfaceId originalLen : ℕ) {count : ℕ} (hcount : count < 2 ^ 64)
    {data : Bytes} (hdata : data.length < 2 ^ 32) (trailer : Bytes) :
    packetOf ⟨0x00000006, toLeBytes 4 interfaceId ++ (toLeBytes 4 (count / 2 ^ 32) ++
        (toLeBytes 4 (count % 2 ^ 32) ++ (toLeBytes 4 data.length ++
          (toLeBytes 4 originalLen ++ (data ++ trailer)))))⟩ =
      .ok (some (originNs count, data)) := by
  obtain ⟨hlength, -, hhigh, hlow, hcap, -, hrest⟩ := enhancedPacket_fields interfaceId
    (count / 2 ^ 32) (count % 2 ^ 32) data.length originalLen (data ++ trailer)
  have hlong : ¬ 20 + (data ++ trailer).length < 20 := by omega
  have hfits : ¬ 20 + (data ++ trailer).length < 20 + data.length := by
    rw [length_append]
    omega
  simp only [packetOf, blockShb, blockEpb, hlength, hhigh, hlow, hcap, hrest, join_halves hcount,
    fromLeBytes_four hdata, take_left, if_neg hlong, if_neg hfits]
  rfl

variable {r : Reading} {block : Block} {blocks : List Block} {disk : Disk}

variable (fmt : BlockFormat)

/-- The variable parts of a block are shorter than a block can be, and interfaces have
nanoseconds. -/
def InRange : Block → Prop
  | .sectionHeader => True
  | .interfaceDescription _ _ ifTsResol ifName =>
    ifTsResol = nanosecondTsresol ∧ ifName.utf8ByteSize < 2 ^ 31
  | .enhancedPacket _ timestamp _ data => timestamp < 2 ^ 63 ∧ data.length < 2 ^ 31

theorem BlockOk.inRange (h : BlockOk r block) : InRange block := by
  cases block with
  | sectionHeader => trivial
  | interfaceDescription => exact h
  | enhancedPacket => exact h.2

theorem fits_rawBlock (h : InRange block) (resolutions : List ℕ) :
    (fmt.rawBlock resolutions block).Fits := by
  cases block with
  | sectionHeader =>
    have hle := fmt.sectionHeader_le
    refine ⟨(by decide : 0x0A0D0D0A < 2 ^ 32), ?_⟩
    simp only [BlockFormat.rawBlock, length_append, toLeBytes_length]
    omega
  | interfaceDescription linktype snaplen ifTsResol ifName =>
    have hle := fmt.interfaceDescription_le linktype snaplen ifTsResol ifName
    refine ⟨(by decide : 0x00000001 < 2 ^ 32), ?_⟩
    have hname := h.2
    simp only [BlockFormat.rawBlock]
    omega
  | enhancedPacket interfaceId timestamp originalLen data =>
    have hle := fmt.trailer_le data
    refine ⟨(by decide : 0x00000006 < 2 ^ 32), ?_⟩
    have hdata := h.2
    simp only [BlockFormat.rawBlock, length_append, toLeBytes_length]
    omega

theorem declared_nanoseconds (h : InRange block) :
    BlockFormat.declared (nanoseconds r) block = nanoseconds (readBlock r block) := by
  cases block with
  | sectionHeader => rfl
  | interfaceDescription =>
    simp [BlockFormat.declared, readBlock, nanoseconds, h.1, replicate_succ']
  | enhancedPacket =>
    rw [readBlock, BlockFormat.declared]
    split <;> rfl

/-- A block that the exporter makes is read by the importer as by any other reader, but for the
time of a packet. -/
theorem packetOf_rawBlock (h : BlockOk r block) :
    ∃ found, packetOf (fmt.rawBlock (nanoseconds r) block) = .ok found ∧
      (readBlock r block).2.map comesBack = r.2.map comesBack ++ found.toList := by
  cases block with
  | sectionHeader =>
    refine ⟨none, ?_, (append_nil _).symm⟩
    have hlong : ¬ (toLeBytes 4 0x1A2B3C4D ++ fmt.sectionHeader).length < 4 := by simp
    have hmagic : fromLeBytes (toLeBytes 4 0x1A2B3C4D) = shbMagic := by decide
    simp only [packetOf, BlockFormat.rawBlock, take_drop_toLeBytes, if_neg hlong, hmagic]
    rfl
  | interfaceDescription linktype snaplen ifTsResol ifName =>
    exact ⟨none, rfl, (append_nil _).symm⟩
  | enhancedPacket interfaceId timestamp originalLen data =>
    obtain ⟨hid, htimestamp, hdata⟩ := h
    have hresolution : (nanoseconds r).getD interfaceId 6 = nanosecondTsresol := by
      simp [nanoseconds, getD_eq_getElem?_getD, hid]
    refine ⟨some (originNs timestamp, data), ?_, ?_⟩
    · simp only [BlockFormat.rawBlock, hresolution, storedCount_nanoseconds]
      apply packetOf_enhancedPacket
      · omega
      · omega
    · simp [readBlock, getElem?_eq_getElem hid, comesBack]

theorem packetOf_rawBlocks (h : Guarded readStep BlockOk r blocks) :
    ∃ found : List (Option (ℤ × Bytes)),
      (fmt.rawBlocks (nanoseconds r) blocks).map packetOf = found.map .ok ∧
      (∀ block ∈ fmt.rawBlocks (nanoseconds r) blocks, block.Fits) ∧
      (blocks.foldl readBlock r).2.map comesBack = r.2.map comesBack ++ found.reduceOption := by
  induction blocks generalizing r with
  | nil => exact ⟨[], rfl, by simp [BlockFormat.rawBlocks], (append_nil _).symm⟩
  | cons block rest ih =>
    obtain ⟨first, hfirst, hpackets⟩ := packetOf_rawBlock fmt h.1
    have hdeclared := declared_nanoseconds (r := r) h.1.inRange
    obtain ⟨found, hfound, hlater, hrest⟩ := ih h.2
    refine ⟨first :: found, ?_, ?_, ?_⟩
    · rw [BlockFormat.rawBlocks, map_cons, map_cons, hfirst, hdeclared, hfound]
    · intro b hb
      rw [BlockFormat.rawBlocks, hdeclared, mem_cons] at hb
      rcases hb with rfl | hb
      · exact fits_rawBlock fmt h.1.inRange _
      · exact hlater b hb
    · rw [foldl_cons, hrest, hpackets, append_assoc]
      cases first <;> rfl

/-- The state of an export to `dst` that has written the given packets. -/
structure ExportOk (interfaces : List InterfaceKey) (dst : List Text) (s : Export)
    (packets : List Packet) : Prop where
  path_eq : s.part.path = dst
  part_ok : PartOk s.disk s.part
  blocks_ok : Guarded readStep BlockOk ([], []) ((s.disk dst).getD [])
  nodup : (read s.disk dst).1.Nodup
  subset : (read s.disk dst).1 ⊆ interfaces
  packets_eq : (packetsAt s.disk dst).map (fun p => (p.timestamp, p.data)) =
    packets.map fun p => (p.tsOriginNs.toNat, p.data)
  exported_eq : s.exported = packets.length

theorem exportOk_create (interfaces : List InterfaceKey) (disk : Disk) (dst : List Text) :
    ExportOk interfaces dst ⟨(PcapngPartWriter.create (fun _ => 0) disk dst).1,
      (PcapngPartWriter.create (fun _ => 0) disk dst).2, 0⟩ [] where
  path_eq := rfl
  part_ok := partOk_create (fun _ => 0) disk dst
  blocks_ok := by simp [PcapngPartWriter.create, Guarded, BlockOk, readStep]
  nodup := by simp [PcapngPartWriter.create, Exporter.Pcapng.read, readBlock]
  subset := by simp [PcapngPartWriter.create, Exporter.Pcapng.read, readBlock]
  packets_eq := by rw [packetsAt_create]; rfl
  exported_eq := rfl

/-- A block that is in order can be written behind those of a file. -/
theorem guarded_appendBlock {dst : List Text}
    (h : Guarded readStep BlockOk ([], []) ((disk dst).getD []))
    (hblock : BlockOk (read disk dst) block) :
    Guarded readStep BlockOk ([], []) ((appendBlock disk dst block dst).getD []) := by
  have hblocks : (appendBlock disk dst block dst).getD [] = (disk dst).getD [] ++ [block] := by
    simp [appendBlock]
  rw [hblocks]
  apply h.append (exec_readStep _ _)
  exact ⟨hblock, trivial⟩

section ExportOk

variable {interfaces : List InterfaceKey} {dst : List Text} {s : Export} {packets : List Packet}

variable (h : ExportOk interfaces dst s packets)
include h

theorem ExportOk.interfaces_le : s.part.interfaces.length ≤ interfaces.length := by
  have hnumbers := h.part_ok
  rw [PartOk, h.path_eq] at hnumbers
  rw [hnumbers, length_zipIdx]
  exact (h.nodup.subperm h.subset).length_le

/-- The interface of a packet is looked up, or described first. -/
theorem ExportOk.ensureInterface (hroom : interfaces.length ≤ u32Max) {key : InterfaceKey}
    (hkey : key ∈ interfaces) (hlabel : key.label.utf8ByteSize < 2 ^ 31) :
    ∃ id part disk, s.part.ensureInterface (fun _ => 0) s.disk key = (.ok id, part, disk) ∧
      id < (read disk dst).1.length ∧ ExportOk interfaces dst { s with part, disk } packets := by
  obtain ⟨id, part, disk, hensure, hid, happends⟩ :=
    (ensureInterface_spec (fun _ => 0) h.part_ok key).resolve_right fun hmany =>
      Nat.not_lt.mpr (h.interfaces_le.trans hroom) hmany.1
  rw [h.path_eq] at hid
  have hpackets := happends.packetsAt_eq
  rw [h.path_eq, append_nil] at hpackets
  have hlt : id < (read disk dst).1.length := (List.getElem?_eq_some_iff.mp hid).1
  refine ⟨id, part, disk, hensure, hlt, ?_⟩
  have hrest : Guarded readStep BlockOk ([], []) ((disk dst).getD []) ∧
      (read disk dst).1.Nodup ∧ (read disk dst).1 ⊆ interfaces := by
    unfold PcapngPartWriter.ensureInterface at hensure
    split at hensure
    · cases hensure
      exact ⟨h.blocks_ok, h.nodup, h.subset⟩
    · next hnone =>
      simp only at hensure
      split at hensure
      swap
      · cases hensure
      obtain rfl := (Prod.mk.inj (Prod.mk.inj hensure).2).2
      simp only [PcapngPartWriter.writePcapngBlock]
      rw [h.path_eq, read_appendBlock]
      have hnew : key ∉ (read s.disk dst).1 := by
        have hnumbers := h.part_ok
        rw [PartOk, h.path_eq] at hnumbers
        rw [hnumbers, lookup_eq_none_iff] at hnone
        intro hmem
        obtain ⟨k, hk⟩ := mem_iff_getElem?.mp hmem
        simpa using hnone (key, k) (mem_zipIdx_iff_getElem?.mpr hk)
      refine ⟨guarded_appendBlock h.blocks_ok ⟨rfl, hlabel⟩, ?_, ?_⟩
      · have hnodup := h.nodup.concat hnew
        rw [concat_eq_append] at hnodup
        exact hnodup
      · intro other hother
        rcases mem_append.mp hother with hother | hother
        · exact h.subset hother
        · exact mem_singleton.mp hother ▸ hkey
  exact {
    path_eq := happends.path_eq.trans h.path_eq
    part_ok := happends.part_ok
    blocks_ok := hrest.1
    nodup := hrest.2.1
    subset := hrest.2.2
    packets_eq := by rw [hpackets]; exact h.packets_eq
    exported_eq := h.exported_eq }

/-- A packet is written behind the others. -/
theorem ExportOk.write {id : ℕ} (hid : id < (read s.disk dst).1.length) {packet : Packet}
    (hlt : packet.tsOriginNs < 2 ^ 63) (hdata : packet.data.length < 2 ^ 31) (originalLen : ℕ) :
    ExportOk interfaces dst
      ⟨(s.part.writePcapngBlock (fun _ => 0) s.disk
          (.enhancedPacket id packet.tsOriginNs.toNat originalLen packet.data)).1,
        (s.part.writePcapngBlock (fun _ => 0) s.disk
          (.enhancedPacket id packet.tsOriginNs.toNat originalLen packet.data)).2,
        s.exported + 1⟩ (packets ++ [packet]) := by
  have hread : read (appendBlock s.disk dst
      (.enhancedPacket id packet.tsOriginNs.toNat originalLen packet.data)) dst =
      ((read s.disk dst).1, (read s.disk dst).2 ++
        [⟨(read s.disk dst).1[id], packet.tsOriginNs.toNat, originalLen, packet.data⟩]) := by
    rw [read_appendBlock, readBlock, getElem?_eq_getElem hid]
  have hnumbers := h.part_ok
  rw [PartOk, h.path_eq] at hnumbers
  have htimestamp : packet.tsOriginNs.toNat < 2 ^ 63 := by omega
  constructor
  · exact h.path_eq
  · simp only [PartOk, PcapngPartWriter.writePcapngBlock, h.path_eq, hread]
    exact hnumbers
  · simp only [PcapngPartWriter.writePcapngBlock, h.path_eq]
    exact guarded_appendBlock h.blocks_ok ⟨hid, htimestamp, hdata⟩
  · simp only [PcapngPartWriter.writePcapngBlock, h.path_eq, hread]
    exact h.nodup
  · simp only [PcapngPartWriter.writePcapngBlock, h.path_eq, hread]
    exact h.subset
  · simp only [PcapngPartWriter.writePcapngBlock, h.path_eq, packetsAt, hread, map_append]
    exact congrArg (· ++ _) h.packets_eq
  · simp [h.exported_eq]

end ExportOk

/-- The time of origin of a packet is exported as it is. -/
theorem timestampDuration_format (hdates : ReadsTimestamps lib) {ns : ℤ} (hnonneg : 0 ≤ ns)
    (hlt : ns < 2 ^ 63) : timestampDuration lib (formatRfc3339Ns ns) = .ok ns.toNat := by
  rw [timestampDuration, hdates ns hnonneg hlt]
  obtain ⟨n, rfl⟩ := Int.eq_ofNat_of_zero_le hnonneg
  have hseconds : n / 1000000000 < 2 ^ 64 := by omega
  exact if_pos hseconds

section Export

variable {interfaces : List InterfaceKey} {dst : List Text} {metadata : MetadataMap} {raw : Bytes}
  {s : Export} {packets : List Packet}

theorem ExportOk.exportPacket (hdates : ReadsTimestamps lib)
    (h : ExportOk interfaces dst s packets) {row : IndexEntry} {packet : Packet}
    (hrow : IsPacketRow metadata raw row packet) (hroom : interfaces.length ≤ u32Max)
    (hkey : packetInterface row (metadata.lookup (row.off, row.len)) ∈ interfaces)
    (hlabel : ∀ key ∈ interfaces, key.label.utf8ByteSize < 2 ^ 31) :
    ∃ s', Exporter.Pcapng.exportPacket lib raw row (metadata.lookup (row.off, row.len)) s =
        (.ok (), s') ∧
      ExportOk interfaces dst s' (packets ++ [packet]) := by
  obtain ⟨id, part, disk, hensure, hid, hok⟩ := h.ensureInterface hroom hkey (hlabel _ hkey)
  have htimestamp := timestampDuration_format hdates hrow.nonneg hrow.lt
  rw [← hrow.tsOrigin_eq] at htimestamp
  unfold Exporter.Pcapng.exportPacket
  simp only [hrow.read_eq, hensure, htimestamp]
  refine ⟨_, rfl, ?_⟩
  apply hok.write hid hrow.lt hrow.data_lt

theorem ExportOk.exportEntries (hcodec : codec.Lawful) (hdates : ReadsTimestamps lib)
    {rows : List IndexEntry} {more : List Packet}
    (hrows : List.Forall₂ (IsPacketRow metadata raw) rows more)
    (hroom : interfaces.length ≤ u32Max)
    (hkeys : ∀ row ∈ rows, packetInterface row (metadata.lookup (row.off, row.len)) ∈ interfaces)
    (hlabel : ∀ key ∈ interfaces, key.label.utf8ByteSize < 2 ^ 31)
    (h : ExportOk interfaces dst s packets) :
    ∃ s', Exporter.Pcapng.exportEntries lib codec metadata raw (rows.map codec.text) s =
        (.ok (), s') ∧
      ExportOk interfaces dst s' (packets ++ more) := by
  induction hrows generalizing s packets with
  | nil =>
    rw [append_nil]
    exact ⟨s, rfl, h⟩
  | @cons row packet rows more hrow _ ih =>
    obtain ⟨drift, hparse⟩ := hcodec.roundTrip row hrow.isFinite
    obtain ⟨s₁, hfirst, hok⟩ := h.exportPacket hdates hrow hroom
      (hkeys row mem_cons_self) hlabel
    obtain ⟨s', hrest, hok'⟩ := ih (fun r hr => hkeys r (mem_cons_of_mem _ hr)) hok
    rw [append_assoc] at hok'
    refine ⟨s', ?_, hok'⟩
    have hdrift : Exporter.Pcapng.exportPacket lib raw { row with driftPpm := drift }
        (metadata.lookup (row.off, row.len)) s = (.ok (), s₁) := hfirst
    have hpacket : ¬ (row.kind ≠ .datagram ∨
        isPcapDatagram { row with driftPpm := drift }
          (metadata.lookup (row.off, row.len)) = false) := by
      have hpcap : isPcapDatagram { row with driftPpm := drift }
        (metadata.lookup (row.off, row.len)) = true := hrow.is_pcap
      rintro (hkind | hno)
      · exact hkind hrow.kind_eq
      · rw [hpcap] at hno
        cases hno
    rw [map_cons, Exporter.Pcapng.exportEntries, if_neg (hcodec.ne_nil row), hparse]
    simp only [if_neg hpacket, hdrift]
    exact hrest

theorem exportSession_packets (hcodec : codec.Lawful) (hdates : ReadsTimestamps lib)
    (session : PacketSession lib codec) (hne : session.packets ≠ []) (disk : Disk)
    (dst : List Text) :
    ∃ disk', exportSession lib codec session.files disk dst = (.ok (), disk') ∧
      Guarded readStep BlockOk ([], []) ((disk' dst).getD []) ∧
      (packetsAt disk' dst).map (fun p => (p.timestamp, p.data)) =
        session.packets.map fun p => (p.tsOriginNs.toNat, p.data) := by
  obtain ⟨s, hexport, hok⟩ := ExportOk.exportEntries hcodec hdates session.rows_packets
    session.interfaces_le session.interface_mem session.label_lt
    (exportOk_create session.interfaces disk dst)
  rw [nil_append] at hok
  have hsplit := RowCodec.split_rows hcodec session.rows []
  rw [append_nil, Lines.split_nil, append_nil, ← session.index_bytes] at hsplit
  have hexported : s.exported ≠ 0 := by
    rw [hok.exported_eq]
    exact mt length_eq_zero_iff.mp hne
  refine ⟨s.disk, ?_, hok.blocks_ok, hok.packets_eq⟩
  unfold exportSession
  simp only [session.metadata_eq, session.index_eq, session.raw_eq, hsplit, hexport,
    if_neg hexported]

end Export

theorem PacketSession.packet_bounds (session : PacketSession lib codec) :
    ∀ p ∈ session.packets, 0 ≤ p.tsOriginNs ∧ p.tsOriginNs < 2 ^ 63 ∧ p.data.length < 2 ^ 31 := by
  have hrows := session.rows_packets
  generalize session.rows = rows, session.packets = packets at hrows
  induction hrows with
  | nil => simp
  | cons hrow _ ih => exact forall_mem_cons.mpr ⟨⟨hrow.nonneg, hrow.lt, hrow.data_lt⟩, ih⟩

/-- What the session itself yields. -/
theorem PacketSession.sessionPayloads_eq (hcodec : codec.Lawful)
    (session : PacketSession lib codec) :
    sessionPayloads codec session.raw.bytes session.index.bytes =
      some (session.packets.map fun p => (formatRfc3339Ns p.tsOriginNs, p.data)) := by
  have hrows := session.rows_packets
  have hfacts : (∀ row ∈ session.rows, F32.isFinite row.driftPpm = true) ∧
      session.rows.map (fun row => readAt session.raw.bytes row.off row.len) =
        (session.packets.map Packet.data).map .ok ∧
      session.rows.map IndexEntry.tsOrigin =
        session.packets.map fun p => formatRfc3339Ns p.tsOriginNs := by
    generalize session.rows = rows, session.packets = packets at hrows
    induction hrows with
    | nil => simp
    | cons hrow _ ih =>
      refine ⟨forall_mem_cons.mpr ⟨hrow.isFinite, ih.1⟩, ?_, ?_⟩
      · rw [map_cons, map_cons, map_cons, ih.2.1, hrow.read_eq]
      · rw [map_cons, map_cons, ih.2.2, hrow.tsOrigin_eq]
  rw [sessionPayloads_rows hcodec session.index_bytes hfacts.1 hfacts.2.1, hfacts.2.2, zip_map']

/-- The round trip of a session with a packet ends well, with every payload in its place, and with
the times of origin the importer makes of them. -/
theorem roundTrip_packets (hcodec : codec.Lawful) (hdates : ReadsTimestamps lib)
    (fmt : BlockFormat) (session : PacketSession lib codec) (hne : session.packets ≠ [])
    (disk : Disk) (dst : List Text) (sid : Uuid) (clock : ℕ → ℤ) :
    ∃ d, roundTrip lib codec fmt session.files disk dst sid clock = (.ok (), d) ∧
      sessionPayloads codec d.raw d.index = some (session.packets.map fun p =>
        (formatRfc3339Ns (originNs p.tsOriginNs.toNat), p.data)) := by
  obtain ⟨disk', hexport, hblocks, hpackets⟩ :=
    exportSession_packets hcodec hdates session hne disk dst
  obtain ⟨blocks, hfoundBlocks, hfits, hread⟩ := packetOf_rawBlocks fmt hblocks
  have hremaining : (⟨fmt.fileBytes ((disk' dst).getD []), 0⟩ : OpenFile).remaining =
      (fmt.rawBlocks [] ((disk' dst).getD [])).flatMap RawBlock.bytes := rfl
  obtain ⟨d, himport, hholds⟩ : ∃ d, importFile codec sid clock
      (fmt.fileBytes ((disk' dst).getD [])) = (.ok (), d) ∧ d.Holds codec sid _ :=
    importBlocks_bytes hfits hfoundBlocks hremaining (Destination.holds_nil codec sid)
  -- The packets the importer finds are those any reader of the file finds.
  rw [map_nil, nil_append] at hread
  rw [← hread, nil_append] at hholds
  have hfound : (((disk' dst).getD []).foldl readBlock ([], [])).2.map comesBack =
      session.packets.map fun p => (originNs p.tsOriginNs.toNat, p.data) := by
    have hmap := congrArg (map (Prod.map originNs id)) hpackets
    rw [map_map, map_map] at hmap
    exact hmap
  rw [hfound] at hholds
  have htexts := map_takenAt clock importedPacket
    (fun p => (formatRfc3339Ns p.tsOriginNs, p.data.take u32Max))
    (fun packet => (formatRfc3339Ns packet.1, packet.2.take u32Max)) (fun _ _ => rfl) 0
    (session.packets.map fun p => (originNs p.tsOriginNs.toNat, p.data))
  refine ⟨d, ?_, ?_⟩
  · rw [roundTrip, hexport]
    exact himport
  · rw [hholds.sessionPayloads hcodec, htexts, map_map, Option.some_inj]
    apply map_congr_left
    intro p hp
    have hbound := (session.packet_bounds p hp).2.2
    have hwhole : p.data.take u32Max = p.data := by
      apply take_of_length_le
      rw [u32Max]
      omega
    simp only [Function.comp_apply, hwhole]

/-- Export and import of a session with a packet always end well and keep the payloads and their
order. The session that comes back is the one that was exported exactly when every time of origin
is zero or the largest there is. -/
theorem roundTrip_same_iff {lib : ExportLib} {codec : RowCodec} (hcodec : codec.Lawful)
    (hdates : ReadsTimestamps lib) (fmt : BlockFormat) (session : PacketSession lib codec)
    (hne : session.packets ≠ []) (disk : Disk) (dst : List Text) (sid : Uuid) (clock : ℕ → ℤ) :
    ∃ d, roundTrip lib codec fmt session.files disk dst sid clock = (.ok (), d) ∧
      (sessionPayloads codec d.raw d.index).map (List.map Prod.snd) =
        (sessionPayloads codec session.raw.bytes session.index.bytes).map (List.map Prod.snd) ∧
      (sessionPayloads codec d.raw d.index =
          sessionPayloads codec session.raw.bytes session.index.bytes ↔
        ∀ p ∈ session.packets, p.tsOriginNs = 0 ∨ p.tsOriginNs = 2 ^ 63 - 1) := by
  obtain ⟨d, htrip, hback⟩ := roundTrip_packets hcodec hdates fmt session hne disk dst sid clock
  refine ⟨d, htrip, ?_, ?_⟩
  · rw [hback, session.sessionPayloads_eq hcodec]
    simp
  · rw [hback, session.sessionPayloads_eq hcodec, Option.some_inj, map_inj_left]
    apply forall₂_congr
    intro p hp
    obtain ⟨hnonneg, hlt, -⟩ := session.packet_bounds p hp
    obtain ⟨n, hn⟩ := Int.eq_ofNat_of_zero_le hnonneg
    have hlt' : n < 2 ^ 63 := by omega
    have hrange : 0 ≤ originNs n ∧ originNs n < 2 ^ 63 := by
      rw [originNs, saturatingMul, asI64, if_pos hlt']
      omega
    -- Only zero and the largest time come back from the importer as they were exported.
    have hiff : originNs n = n ↔ n = 0 ∨ n = 2 ^ 63 - 1 := by
      rw [originNs, saturatingMul, asI64, if_pos hlt']
      omega
    rw [hn, Int.toNat_natCast, Prod.mk.injEq, and_iff_left rfl]
    constructor
    · intro heq
      have hsame := formatRfc3339Ns_inj ⟨by omega, hrange.2⟩ ⟨by omega, by omega⟩ heq
      omega
    · intro hcases
      rw [hiff.mpr (by omega)]

/-- The layout without options, with the data of a packet padded to four bytes. -/
def plainFormat : BlockFormat where
  sectionHeader := toLeBytes 2 1 ++ toLeBytes 2 0 ++ toLeBytes 8 (2 ^ 64 - 1)
  interfaceDescription linktype snaplen ifTsResol ifName :=
    toLeBytes 2 linktype ++ toLeBytes 2 0 ++ toLeBytes 4 snaplen ++
      (toLeBytes 2 9 ++ toLeBytes 2 1 ++ toLeBytes 4 ifTsResol) ++
      (toLeBytes 2 2 ++ toLeBytes 2 ifName.utf8ByteSize ++ ifName.toByteArray.data.toList ++
        List.replicate ((4 - ifName.utf8ByteSize % 4) % 4) 0) ++ toLeBytes 4 0
  trailer data := List.replicate ((4 - data.length % 4) % 4) 0
  sectionHeader_le := by decide
  interfaceDescription_le linktype snaplen ifTsResol ifName := by
    have hname : ifName.toByteArray.data.toList.length = ifName.utf8ByteSize := rfl
    simp only [List.length_append, toLeBytes_length, List.length_replicate, hname]
    omega
  trailer_le data := by
    rw [List.length_replicate]
    omega

/-- The parser of timestamps, and no records of packets. -/
def plainLib : ExportLib := ⟨fun _ => .error "", parseRfc3339Ns⟩

theorem plainLib_readsTimestamps : ReadsTimestamps plainLib := fun _ hnonneg hlt =>
  parseRfc3339Ns_format (by omega) hlt

def packetRow (ns : ℤ) : IndexEntry :=
  { IndexEntry.fromEnvelope ⟨ns, 0, 0, 0, 0, 0, .imported, 0, .imported⟩ 7 .in .datagram 0 3 with
    source := some "pcap:eth0"
    schemaId := some pcapPacketSchemaId }

def onePacket (ns : ℤ) (hnonneg : 0 ≤ ns) (hlt : ns < 2 ^ 63) :
    PacketSession plainLib DecimalRows.codec where
  files := { raw := some ⟨[1, 2, 3], 0⟩
             index := some ⟨DecimalRows.codec.line (packetRow ns), 0⟩ }
  raw := ⟨[1, 2, 3], 0⟩
  index := ⟨DecimalRows.codec.line (packetRow ns), 0⟩
  metadata := []
  rows := [packetRow ns]
  packets := [⟨ns, [1, 2, 3]⟩]
  interfaces := [⟨1, "eth0"⟩]
  raw_eq := rfl
  index_eq := rfl
  metadata_eq := rfl
  index_bytes := by simp
  rows_packets := .cons
    { kind_eq := rfl
      is_pcap := rfl
      isFinite := (by decide : F32.isFinite 0 = true)
      tsOrigin_eq := rfl
      nonneg := hnonneg
      lt := hlt
      read_eq := rfl
      data_lt := (by decide : 3 < 2 ^ 31) } .nil
  interface_mem row hrow := by
    rw [List.mem_singleton.mp hrow]
    exact List.mem_singleton.mpr rfl
  interfaces_le := by decide
  label_lt key hkey := by
    rw [List.mem_singleton.mp hkey]
    decide

/-- A packet from the epoch comes back as it was. -/
theorem roundTrip_same_epoch :
    ∃ d, roundTrip plainLib DecimalRows.codec plainFormat (onePacket 0 le_rfl (by decide)).files
        (fun _ => none) ["out.pcapng".toList] 9 (fun _ => 5) = (.ok (), d) ∧
      sessionPayloads DecimalRows.codec d.raw d.index =
        some [("1970-01-01T00:00:00Z", [1, 2, 3])] := by
  obtain ⟨d, htrip, -, hiff⟩ := roundTrip_same_iff DecimalRows.codec_lawful
    plainLib_readsTimestamps plainFormat (onePacket 0 le_rfl (by decide)) (cons_ne_nil _ _)
    (fun _ => none) ["out.pcapng".toList] 9 (fun _ => 5)
  refine ⟨d, htrip, ?_⟩
  rw [hiff.mpr fun p hp => .inl (mem_singleton.mp hp ▸ rfl),
    PacketSession.sessionPayloads_eq DecimalRows.codec_lawful]
  decide

/-- A packet from one nanosecond after the epoch comes back as one from a microsecond after it. -/
theorem roundTrip_nanosecond_to_microsecond :
    ∃ d, roundTrip plainLib DecimalRows.codec plainFormat
        (onePacket 1 (by decide) (by decide)).files (fun _ => none) ["out.pcapng".toList] 9
        (fun _ => 5) = (.ok (), d) ∧
      sessionPayloads DecimalRows.codec (onePacket 1 (by decide) (by decide)).raw.bytes
          (onePacket 1 (by decide) (by decide)).index.bytes =
        some [("1970-01-01T00:00:00.000000001Z", [1, 2, 3])] ∧
      sessionPayloads DecimalRows.codec d.raw d.index =
        some [("1970-01-01T00:00:00.000001Z", [1, 2, 3])] := by
  obtain ⟨d, htrip, hback⟩ := roundTrip_packets DecimalRows.codec_lawful plainLib_readsTimestamps
    plainFormat (onePacket 1 (by decide) (by decide)) (cons_ne_nil _ _) (fun _ => none)
    ["out.pcapng".toList] 9 (fun _ => 5)
  refine ⟨d, htrip, ?_, ?_⟩
  · rw [PacketSession.sessionPayloads_eq DecimalRows.codec_lawful]
    decide
  · rw [hback]
    decide

end TraceMux.Core.PcapngRoundTrip
