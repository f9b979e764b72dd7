/-
# The files of a pcapng stream, byte by byte

The parts of a stream are read from their bytes, block by block. A packet counts with the
interface description that stands before it in the same part, and with the link type and
the name in there. A link type has 16 bits in a file, and so has the length of a name; what
is larger does not come back.
-/

import TraceMux.Core.PcapngRoundTrip

namespace TraceMux.Core.PcapngStream

open Base Core.Log Core.Exporter.Pcapng Core.Importer Core.Importer.Pcapng PcapngRoundTrip List

/-- A layout of blocks whose interface descriptions can be read. -/
structure ReadableFormat extends BlockFormat where
  /-- The interface in the body of a description, and its resolution. -/
  interface : Bytes → InterfaceKey × ℕ
  interface_eq : ∀ {linktype ifTsResol : ℕ} {ifName : String} (snaplen : ℕ),
    linktype < 2 ^ 16 → ifTsResol < 2 ^ 7 → ifName.utf8ByteSize < 2 ^ 16 →
      interface (interfaceDescription linktype snaplen ifTsResol ifName) =
        (⟨linktype, ifName⟩, ifTsResol)

/-- The blocks of a file, up to its end or to one that cannot be read. -/
def blocksOf (rd : OpenFile) : List RawBlock :=
  match _h : nextBlock rd with
  | .ok (some (block, rd')) => block :: blocksOf rd'
  | _ => []
termination_by rd.remaining.length
decreasing_by exact remaining_lt_of_nextBlock _h

theorem blocksOf_bytes {blocks : List RawBlock} (hfits : ∀ block ∈ blocks, block.Fits)
    {rd : OpenFile} (hrd : rd.remaining = blocks.flatMap RawBlock.bytes) :
    blocksOf rd = blocks := by
  induction blocks generalizing rd with
  | nil => rw [blocksOf, nextBlock_end hrd]
  | cons block blocks ih =>
    obtain ⟨hblock, hlater⟩ := forall_mem_cons.mp hfits
    obtain ⟨rd', hnext, hrest⟩ := nextBlock_bytes hblock hrd
    rw [blocksOf, hnext]
    exact congrArg (block :: ·) (ih hlater hrest)

/-- What a reader of the bytes knows: the interfaces of the section with their resolutions,
and the packets. -/
abbrev FileReading := List (InterfaceKey × ℕ) × List CapturedPacket

namespace ReadableFormat

variable (fmt : ReadableFormat)

def readRaw (r : FileReading) (block : RawBlock) : FileReading :=
  let body := block.body
  if block.blockType = blockShb then ([], r.2)
  else if block.blockType = 0x00000001 then (r.1 ++ [fmt.interface body], r.2)
  else if block.blockType = blockEpb then
    match r.1[fromLeBytes (body.take 4)]? with
    | none => r
    | some (key, resolution) =>
      let count := fromLeBytes ((body.drop 4).take 4) <<< 32 ||| fromLeBytes ((body.drop 8).take 4)
      (r.1, r.2 ++ [⟨key, count * 10 ^ 9 / 10 ^ resolution, fromLeBytes ((body.drop 16).take 4),
        (body.drop 20).take (fromLeBytes ((body.drop 12).take 4))⟩])
  else r

/-- The packets in the bytes of a file. -/
def packets (bytes : Bytes) : List CapturedPacket :=
  ((blocksOf ⟨bytes, 0⟩).foldl fmt.readRaw ([], [])).2

end ReadableFormat

/-- The fields of the block have room for what is to be in them. -/
def Sized : Block → Prop
  | .sectionHeader => True
  | .interfaceDescription linktype _ ifTsResol ifName =>
    linktype < 2 ^ 16 ∧ ifTsResol = nanosecondTsresol ∧ ifName.utf8ByteSize < 2 ^ 16
  | .enhancedPacket interfaceId timestamp originalLen data =>
    interfaceId < 2 ^ 32 ∧ originalLen < 2 ^ 32 ∧ timestamp < 2 ^ 63 ∧ data.length < 2 ^ 31

section Reader

variable (fmt : ReadableFormat) {r : Reading} {block : Block} {blocks : List Block}

theorem Sized.inRange (h : Sized block) : InRange block := by
  cases block with
  | sectionHeader => trivial
  | interfaceDescription => exact ⟨h.2.1, h.2.2.trans (by decide)⟩
  | enhancedPacket => exact h.2.2

/-- The reading of the bytes that goes with a reading of the blocks. -/
def stamped (r : Reading) : FileReading := (r.1.map (·, nanosecondTsresol), r.2)

theorem readRaw_rawBlock (h : Sized block) :
    fmt.readRaw (stamped r) (fmt.rawBlock (nanoseconds r) block) = stamped (readBlock r block) := by
  cases block with
  | sectionHeader => rfl
  | interfaceDescription linktype snaplen ifTsResol ifName =>
    obtain ⟨hlinktype, rfl, hname⟩ := h
    have hread := fmt.interface_eq snaplen hlinktype (by decide : nanosecondTsresol < 2 ^ 7) hname
    change ((stamped r).1 ++
      [fmt.interface (fmt.interfaceDescription linktype snaplen nanosecondTsresol ifName)], r.2) = _
    rw [hread]
    simp [stamped, readBlock]
  | enhancedPacket interfaceId timestamp originalLen data =>
    obtain ⟨hid, horiginal, htimestamp, hdata⟩ := h
    simp only [ReadableFormat.readRaw, BlockFormat.rawBlock]
    generalize hcount : storedCount ((nanoseconds r).getD interfaceId 6) timestamp = count
    obtain ⟨-, hfirst, hhigh, hlow, hcap, horiginalLen, hrest⟩ := enhancedPacket_fields interfaceId
      (count / 2 ^ 32) (count % 2 ^ 32) data.length originalLen (data ++ fmt.trailer data)
    have hdataLen : data.length < 2 ^ 32 := by omega
    simp only [blockShb, blockEpb, hfirst, hhigh, hlow, hcap, horiginalLen, hrest,
      fromLeBytes_four hid, fromLeBytes_four horiginal, fromLeBytes_four hdataLen, take_left,
      stamped, getElem?_map, readBlock]
    cases hkey : r.1[interfaceId]? with
    | none => rfl
    | some key =>
      have hresolution : (nanoseconds r).getD interfaceId 6 = nanosecondTsresol := by
        simp [nanoseconds, getD_eq_getElem?_getD, (List.getElem?_eq_some_iff.mp hkey).1]
      rw [hresolution, storedCount_nanoseconds] at hcount
      subst hcount
      have hjoin := join_halves (show timestamp < 2 ^ 64 by omega)
      have hback : timestamp * 10 ^ 9 / 10 ^ nanosecondTsresol = timestamp :=
        Nat.mul_div_cancel _ (by decide)
      simp only [Option.map_some, hjoin, hback]
      rfl

theorem foldl_readRaw (h : ∀ block ∈ blocks, Sized block) :
    (fmt.rawBlocks (nanoseconds r) blocks).foldl fmt.readRaw (stamped r) =
      stamped (blocks.foldl readBlock r) := by
  induction blocks generalizing r with
  | nil => rfl
  | cons block rest ih =>
    obtain ⟨hblock, hrest⟩ := forall_mem_cons.mp h
    rw [BlockFormat.rawBlocks, foldl_cons, readRaw_rawBlock fmt hblock,
      declared_nanoseconds hblock.inRange, foldl_cons]
    exact ih hrest

theorem fits_rawBlocks (h : ∀ block ∈ blocks, InRange block) (resolutions : List ℕ) :
    ∀ raw ∈ fmt.rawBlocks resolutions blocks, raw.Fits := by
  induction blocks generalizing resolutions with
  | nil => rintro raw ⟨⟩
  | cons block rest ih =>
    obtain ⟨hblock, hrest⟩ := forall_mem_cons.mp h
    exact forall_mem_cons.mpr ⟨fits_rawBlock fmt.toBlockFormat hblock _, ih hrest _⟩

theorem packets_fileBytes (h : ∀ block ∈ blocks, InRange block) :
    fmt.packets (fmt.fileBytes blocks) =
      ((fmt.rawBlocks [] blocks).foldl fmt.readRaw ([], [])).2 := by
  rw [ReadableFormat.packets, blocksOf_bytes (fits_rawBlocks fmt h []) rfl]

/-- The packets in the bytes are those in the blocks. -/
theorem packets_fileBytes_of_sized (h : ∀ block ∈ blocks, Sized block) :
    fmt.packets (fmt.fileBytes blocks) = (blocks.foldl readBlock ([], [])).2 := by
  rw [packets_fileBytes fmt fun block hblock => (h block hblock).inRange]
  exact congrArg Prod.snd (foldl_readRaw fmt (r := ([], [])) h)

end Reader

/-- What a file has room for. -/
structure HasRoom (interfaceLabel : String) (packet : PcapPacket) : Prop where
  linktype_lt : packet.linktype < 2 ^ 16
  label_lt : interfaceLabel.utf8ByteSize < 2 ^ 16
  originalLen_lt : packet.originalLen < 2 ^ 32
  tsOriginNs_lt : packet.tsOriginNs < 2 ^ 63
  data_lt : packet.data.length < 2 ^ 31

theorem HasRoom.allows {interfaceLabel : String} {packet : PcapPacket}
    (h : HasRoom interfaceLabel packet) : Allows Sized interfaceLabel packet := by
  refine ⟨⟨h.linktype_lt, rfl, h.label_lt⟩, fun id hid hts => ⟨?_, h.originalLen_lt, ?_, h.data_lt⟩⟩
  · exact Nat.lt_succ_of_le hid
  · have hlt := h.tsOriginNs_lt
    omega

/-- The packets in the bytes of the artifacts, one part behind the other. -/
def written (fmt : ReadableFormat) (w : PcapngStreamWriter) (disk : Disk) : List CapturedPacket :=
  w.artifacts.flatMap fun path => fmt.packets (fmt.fileBytes ((disk path).getD []))

theorem written_eq (fmt : ReadableFormat) {disk₀ disk : Disk} {base : List Text}
    {w : PcapngStreamWriter} {taken : List CapturedPacket} (h : StreamOk base w disk taken)
    (hframe : StreamFrame Sized disk₀ base w disk) : written fmt w disk = taken := by
  calc
    written fmt w disk = w.artifacts.flatMap (packetsAt disk) :=
      flatMap_congr fun path hpath => packets_fileBytes_of_sized fmt (hframe.allowed path hpath)
    _ = taken := by rw [h.artifacts_eq, flatMap_map, h.packets_eq]

/-- Whatever packets are appended to a new stream, as long as its parts can be numbered and the
fields of a file have room for link types, labels and sizes: the parts have different paths, and
their bytes hold, one part behind the other, exactly the packets that were appended, each with the
link type and the label of an interface that is described before it in the same part. Unless there
are more packets than interfaces can be numbered, all packets are appended that are not from before
the epoch. -/
theorem stream_artifacts (fmt : ReadableFormat) {size : Block → ℕ} {disk disk' : Disk}
    {options : PcapngStreamOptions} {packets appended : List (String × PcapPacket)}
    {w : PcapngStreamWriter} (hstream : stream size disk options packets = (appended, w, disk'))
    (hparts : w.artifacts.length < 2 ^ 32) (hroom : ∀ p ∈ packets, HasRoom p.1 p.2) :
    w.artifacts.Nodup ∧ written fmt w disk' = appended.map (fun p => p.2.captured p.1) ∧
      ((∀ p ∈ packets, 0 ≤ p.2.tsOriginNs) → packets.length ≤ 2 ^ 32 → appended = packets) := by
  obtain ⟨h, -, -, hall⟩ := stream_spec hstream (Nat.le_pred_of_lt hparts)
  have hframe := stream_frame size (P := Sized) trivial (fun p hp => (hroom p hp).allows) disk
    options
  rw [hstream] at hframe
  exact ⟨h.artifacts_nodup, written_eq fmt h hframe, hall⟩

theorem toList_toByteArray (s : String) : s.toByteArray.data.toList = Lines.encode s.toList := by
  have hbytes := @String.toByteArray_ofList s.toList
  rw [String.ofList_toList] at hbytes
  rw [hbytes]
  simp [List.utf8Encode, Lines.encode]

/-- The layout of the library: the option with the resolution stands before the name. -/
def libraryFormat : ReadableFormat where
  toBlockFormat := plainFormat
  interface body :=
    let name := (body.drop 20).take (fromLeBytes ((body.drop 18).take 2))
    (⟨fromLeBytes (body.take 2), (Lines.decode name).toOption.getD ""⟩,
      fromLeBytes ((body.drop 12).take 4))
  interface_eq {linktype ifTsResol ifName} snaplen hlinktype hresol hname := by
    have hlength : (Lines.encode ifName.toList).length = ifName.utf8ByteSize := by
      rw [← toList_toByteArray]
      rfl
    -- The fields of the body that are read, and what stands between them.
    obtain ⟨between, behind, hbetween, hbody⟩ : ∃ between behind : Bytes, between.length = 10 ∧
        plainFormat.interfaceDescription linktype snaplen ifTsResol ifName =
          toLeBytes 2 linktype ++ between ++ (toLeBytes 4 ifTsResol ++ toLeBytes 2 2 ++
            (toLeBytes 2 ifName.utf8ByteSize ++ (Lines.encode ifName.toList ++ behind))) :=
      ⟨toLeBytes 2 0 ++ toLeBytes 4 snaplen ++ toLeBytes 2 9 ++ toLeBytes 2 1,
        replicate ((4 - ifName.utf8ByteSize % 4) % 4) 0 ++ toLeBytes 4 0, by simp, by
        simp only [plainFormat, toList_toByteArray, append_assoc]⟩
    generalize plainFormat.interfaceDescription linktype snaplen ifTsResol ifName = body at hbody
    have hresol12 : body.drop 12 = toLeBytes 4 ifTsResol ++ toLeBytes 2 2 ++
        (toLeBytes 2 ifName.utf8ByteSize ++ (Lines.encode ifName.toList ++ behind)) := by
      rw [hbody, drop_left' (by simp [hbetween])]
    have hsize18 : body.drop 18 =
        toLeBytes 2 ifName.utf8ByteSize ++ (Lines.encode ifName.toList ++ behind) := by
      rw [show body.drop 18 = (body.drop 12).drop 6 by rw [drop_drop], hresol12,
        drop_left' (by simp)]
    have hname20 : body.drop 20 = Lines.encode ifName.toList ++ behind := by
      rw [show body.drop 20 = (body.drop 18).drop 2 by rw [drop_drop], hsize18,
        drop_left' (by simp)]
    have hlinktype2 : body.take 2 = toLeBytes 2 linktype := by
      rw [hbody, append_assoc, take_left' (by simp)]
    have hresol4 : (body.drop 12).take 4 = toLeBytes 4 ifTsResol := by
      rw [hresol12, append_assoc, take_left' (by simp)]
    have hsize2 : (body.drop 18).take 2 = toLeBytes 2 ifName.utf8ByteSize := by
      rw [hsize18, take_left' (by simp)]
    simp only [hlinktype2, hresol4, hsize2, hname20]
    rw [fromLeBytes_toLeBytes hlinktype, fromLeBytes_toLeBytes hname, fromLeBytes_four (by omega),
      take_left' hlength, Lines.decode_encode, String.ofList_toList]
    rfl

/-- Parts of at most five blocks. -/
def smallParts : PcapngStreamOptions := ⟨["a.pcapng".toList], { sizeBytes := some 5 }⟩

def threePackets : List (String × PcapPacket) :=
  [("eth0", ⟨7, 4, 1, [1, 2]⟩), ("wlan0", ⟨8, 60, 105, [3]⟩), ("eth0", ⟨9, 4, 1, [4]⟩)]

/-- Two interfaces in the first part, and one of them again in the second. -/
theorem stream_artifacts_two_parts :
    let s := stream (fun _ => 1) (fun _ => none) smallParts threePackets
    s.2.1.artifacts = [["a.pcapng".toList], ["a.0001.pcapng".toList]] ∧
      written libraryFormat s.2.1 s.2.2 = threePackets.map fun p => p.2.captured p.1 := by
  have hparts : (stream (fun _ => 1) (fun _ => none) smallParts threePackets).2.1.artifacts =
      [["a.pcapng".toList], ["a.0001.pcapng".toList]] := by decide
  have hroom : ∀ p ∈ threePackets, HasRoom p.1 p.2 := by
    simp only [threePackets, forall_mem_cons]
    refine ⟨⟨?_, ?_, ?_, ?_, ?_⟩, ⟨?_, ?_, ?_, ?_, ?_⟩, ⟨?_, ?_, ?_, ?_, ?_⟩, by simp⟩ <;> decide
  rcases hstream : stream (fun _ => 1) (fun _ => none) smallParts threePackets with
    ⟨appended, w, disk'⟩
  rw [hstream] at hparts
  simp only at hparts
  obtain ⟨-, hwritten, hall⟩ := stream_artifacts libraryFormat hstream (by simp [hparts]) hroom
  exact ⟨hparts, by rw [hwritten, hall (by decide) (by decide)]⟩

/-- Of a link type of more than 16 bits, the file has the last 16. -/
theorem stream_wide_linktype :
    let s := stream (fun _ => 1) (fun _ => none) smallParts [("eth0", ⟨7, 4, 65536, [1, 2]⟩)]
    s.1 = [("eth0", ⟨7, 4, 65536, [1, 2]⟩)] ∧
      (written libraryFormat s.2.1 s.2.2).map (fun p => p.interface.linktype) = [0] := by
  intro s
  have hblocks : (s.2.2 ["a.pcapng".toList]).getD [] = [.sectionHeader,
      .interfaceDescription 65536 0 9 "eth0", .enhancedPacket 0 7 4 [1, 2]] := rfl
  have hrange : ∀ block ∈ (s.2.2 ["a.pcapng".toList]).getD [], InRange block := by
    rw [hblocks]
    simp only [forall_mem_cons]
    exact ⟨trivial, ⟨rfl, by decide⟩, ⟨by decide, by decide⟩, by simp⟩
  refine ⟨rfl, ?_⟩
  have hwritten : written libraryFormat s.2.1 s.2.2 =
      libraryFormat.packets (libraryFormat.fileBytes ((s.2.2 ["a.pcapng".toList]).getD [])) :=
    append_nil _
  rw [hwritten, packets_fileBytes libraryFormat hrange, hblocks]
  rfl

end TraceMux.Core.PcapngStream
