/-
# The pcapng stream writer

A live packet capture is written to pcapng files as it comes in. The first file has the
configured name; when a file has become too large or too old, the next packet opens
another one beside it, whose name carries the number of the part. Every file is one
section: a header, interface descriptions in the order in which they are needed, and the
packets, each with the number of its interface.

A block counts as in its file when it is written. The buffer in between reaches the file
when the writer is flushed, goes on to the next part or is dropped.
-/

import Mathlib.Data.List.Nodup
import TraceMux.Base.PathName
import TraceMux.Core.ErrorId
import TraceMux.Core.Log.Raw

namespace TraceMux.Core.Exporter.Pcapng

open Base Core.Log List

/-! ## Files of blocks -/

/-- What a packet refers to: a link type and the label of an interface. -/
structure InterfaceKey where
  linktype : ℕ
  label : String
  deriving DecidableEq, Repr

/-- The blocks the writer makes. -/
inductive Block
  | sectionHeader
  | interfaceDescription (linktype snaplen ifTsResol : ℕ) (ifName : String)
  | enhancedPacket (interfaceId timestamp originalLen : ℕ) (data : Bytes)
  deriving DecidableEq, Repr

/-- A packet as a reader of the file sees it. -/
structure CapturedPacket where
  interface : InterfaceKey
  timestamp : ℕ
  originalLen : ℕ
  data : Bytes
  deriving DecidableEq, Repr

abbrev Disk := List Text → Option (List Block)

/-- What a reader knows after some blocks: the interfaces of the section, and the packets. -/
abbrev Reading := List InterfaceKey × List CapturedPacket

/-- Read one block more. A packet of an interface that is not described is passed over. -/
def readBlock (r : Reading) : Block → Reading
  | .sectionHeader => ([], r.2)
  | .interfaceDescription linktype _ _ ifName => (r.1 ++ [⟨linktype, ifName⟩], r.2)
  | .enhancedPacket interfaceId timestamp originalLen data =>
    match r.1[interfaceId]? with
    | none => r
    | some key => (r.1, r.2 ++ [⟨key, timestamp, originalLen, data⟩])

def read (disk : Disk) (path : List Text) : Reading :=
  ((disk path).getD []).foldl readBlock ([], [])

def packetsAt (disk : Disk) (path : List Text) : List CapturedPacket := (read disk path).2

/-- Write a block at the end of a file. -/
def appendBlock (disk : Disk) (path : List Text) (block : Block) : Disk :=
  Function.update disk path (some ((disk path).getD [] ++ [block]))

@[simp]
theorem read_appendBlock (disk : Disk) (path : List Text) (block : Block) :
    read (appendBlock disk path block) path = readBlock (read disk path) block := by
  simp [read, appendBlock]

variable {disk disk' : Disk} {path : List Text}

theorem packetsAt_congr (h : disk' path = disk path) :
    packetsAt disk' path = packetsAt disk path := by
  rw [packetsAt, read, h, packetsAt, read]

variable {other : List Text}

theorem appendBlock_of_ne (disk : Disk) (block : Block) (h : other ≠ path) :
    appendBlock disk path block other = disk other :=
  Function.update_of_ne h _ _

/-! ## Rotation -/

/-- When to go on to the next part; times are in nanoseconds. -/
structure RotatePolicy where
  sizeBytes : Option ℕ := some (256 * 1024 * 1024)
  duration : Option ℕ := some (60 * 60 * 24 * 10 ^ 9)
  deriving DecidableEq, Repr

/-- What the decision is made from. -/
structure RotateStats where
  sizeBytes : ℕ
  age : ℕ
  deriving DecidableEq, Repr

/-- Whether to go on to the next part. -/
def shouldRotate (stats : RotateStats) (policy : RotatePolicy) : Bool :=
  policy.sizeBytes.any (fun limit => limit ≤ stats.sizeBytes) ||
    policy.duration.any (fun limit => limit ≤ stats.age)

def rotatedPartPath (base : List Text) (partIndex : ℕ) : List Text :=
  let stem := ((PathName.fileStem base).filter (· ≠ [])).getD "capture".toList
  let extension := ((PathName.extension base).filter (· ≠ [])).getD "pcapng".toList
  PathName.withFileName base
    (stem ++ ['.'] ++ Text.ofIntPadded 4 partIndex ++ ['.'] ++ extension)

/-! ## One part -/

/-- A captured packet, as far as the writer reads it. -/
structure PcapPacket where
  tsOriginNs : ℤ
  originalLen : ℕ
  linktype : ℕ
  data : Bytes
  deriving DecidableEq, Repr

def nanosecondTsresol : ℕ := 9

def simple (message : String) : TraceMuxError := ⟨.E1001PipelineGeneric, message⟩

/-- The timestamp of a packet as a count of nanoseconds. -/
def timestampNsDuration (tsOriginNs : ℤ) : Except TraceMuxError ℕ :=
  match tsOriginNs with
  | .ofNat ns => .ok ns
  | .negSucc _ => .error (simple
      s!"pcapng-stream: ts_origin before UNIX epoch is not supported: {tsOriginNs}")

structure PcapngPartWriter where
  path : List Text
  interfaces : List (InterfaceKey × ℕ)
  firstTsOriginNs : Option ℤ
  packets : ℕ
  bytesWritten : ℕ
  deriving DecidableEq, Repr

namespace PcapngPartWriter

variable (size : Block → ℕ)

/-- Create the file of a part, or empty the one that is there, and write the header. -/
def create (disk : Disk) (path : List Text) : PcapngPartWriter × Disk :=
  (⟨path, [], none, 0, size .sectionHeader⟩, Function.update disk path (some [.sectionHeader]))

def writePcapngBlock (p : PcapngPartWriter) (disk : Disk) (block : Block) :
    PcapngPartWriter × Disk :=
  ({ p with bytesWritten := p.bytesWritten + size block }, appendBlock disk p.path block)

/-- The number of an interface, which is described first if it is new. -/
def ensureInterface (p : PcapngPartWriter) (disk : Disk) (key : InterfaceKey) :
    Except TraceMuxError ℕ × PcapngPartWriter × Disk :=
  match p.interfaces.lookup key with
  | some id => (.ok id, p, disk)
  | none =>
    let id := p.interfaces.length
    if id ≤ u32Max then
      let written := p.writePcapngBlock size disk
        (.interfaceDescription key.linktype 0 nanosecondTsresol key.label)
      (.ok id, { written.1 with interfaces := p.interfaces ++ [(key, id)] }, written.2)
    else (.error (simple "pcapng-export: too many pcapng interfaces"), p, disk)

def appendPacket (p : PcapngPartWriter) (disk : Disk) (interfaceLabel : String)
    (packet : PcapPacket) : Except TraceMuxError Unit × PcapngPartWriter × Disk :=
  match p.ensureInterface size disk ⟨packet.linktype, interfaceLabel⟩ with
  | (.error e, p, disk) => (.error e, p, disk)
  | (.ok interfaceId, p, disk) =>
    match timestampNsDuration packet.tsOriginNs with
    | .error e => (.error e, p, disk)
    | .ok timestamp =>
      let written := p.writePcapngBlock size disk
        (.enhancedPacket interfaceId timestamp packet.originalLen packet.data)
      (.ok (),
        { written.1 with
          firstTsOriginNs := p.firstTsOriginNs.or (some packet.tsOriginNs)
          packets := p.packets + 1 },
        written.2)

/-- The time from the first packet of the part to the next one. -/
def ageFor (p : PcapngPartWriter) (nextTsOriginNs : ℤ) : ℕ :=
  match p.firstTsOriginNs with
  | none => 0
  | some first => (min (nextTsOriginNs - first) (2 ^ 63 - 1)).toNat

def shouldRotateFor (p : PcapngPartWriter) (nextTsOriginNs : ℤ) (policy : RotatePolicy) : Bool :=
  if p.packets = 0 then false
  else shouldRotate ⟨p.bytesWritten, p.ageFor nextTsOriginNs⟩ policy

end PcapngPartWriter

/-! ## The stream -/

structure PcapngStreamOptions where
  path : List Text
  rotate : RotatePolicy := {}
  deriving DecidableEq, Repr

structure PcapngStreamWriter where
  basePath : List Text
  rotatePolicy : RotatePolicy
  nextPartIndex : ℕ
  artifacts : List (List Text)
  current : PcapngPartWriter
  deriving DecidableEq, Repr

namespace PcapngStreamWriter

variable (size : Block → ℕ)

def create (disk : Disk) (options : PcapngStreamOptions) : PcapngStreamWriter × Disk :=
  let part := PcapngPartWriter.create size disk options.path
  (⟨options.path, options.rotate, 1, [options.path], part.1⟩, part.2)

def rotate (w : PcapngStreamWriter) (disk : Disk) : PcapngStreamWriter × Disk :=
  let path := rotatedPartPath w.basePath w.nextPartIndex
  let part := PcapngPartWriter.create size disk path
  ({ w with
      nextPartIndex := min (w.nextPartIndex + 1) u32Max
      artifacts := w.artifacts ++ [path]
      current := part.1 },
    part.2)

/-- Append a packet, to a new part if it is time. -/
def appendPacket (w : PcapngStreamWriter) (disk : Disk) (interfaceLabel : String)
    (packet : PcapPacket) : Except TraceMuxError Unit × PcapngStreamWriter × Disk :=
  let rotated :=
    if w.current.shouldRotateFor packet.tsOriginNs w.rotatePolicy then w.rotate size disk
    else (w, disk)
  let appended := rotated.1.current.appendPacket size rotated.2 interfaceLabel packet
  (appended.1, { rotated.1 with current := appended.2.1 }, appended.2.2)

end PcapngStreamWriter

/-! ## The parts of a stream have different paths -/

def partPath (base : List Text) : ℕ → List Text
  | 0 => base
  | k + 1 => rotatedPartPath base (k + 1)

theorem rotatedPartPath_inj {base : List Text} {k l : ℕ}
    (h : rotatedPartPath base k = rotatedPartPath base l) : k = l := by
  have hname := PathName.withFileName_inj h
  simp only [append_assoc, append_cancel_left_eq] at hname
  exact Text.ofIntPadded_natCast_inj (append_cancel_right hname)

theorem length_le_getD_filter (text : Option Text) (other : Text) :
    (text.getD []).length ≤ ((text.filter (· ≠ [])).getD other).length := by
  cases text with
  | none => simp
  | some t =>
    by_cases h : t = []
    · simp [h]
    · simp [Option.filter, h]

theorem rotatedPartPath_ne_base (base : List Text) (k : ℕ) : rotatedPartPath base k ≠ base := by
  apply PathName.withFileName_ne
  intro old hold
  have hlength := PathName.length_le_stem_extension old
  have hstem := length_le_getD_filter (PathName.fileStem base) "capture".toList
  have hextension := length_le_getD_filter (PathName.extension base) "pcapng".toList
  rw [PathName.fileStem, hold, Option.map_some, Option.getD_some] at hstem
  rw [PathName.extension, hold, Option.bind_some] at hextension
  simp only [length_append, length_singleton, PathName.fileStem, PathName.extension, hold,
    Option.map_some, Option.bind_some]
  omega

theorem partPath_injective (base : List Text) : Function.Injective (partPath base) := by
  intro k l h
  cases k with
  | zero =>
    cases l with
    | zero => rfl
    | succ l => exact absurd h.symm (rotatedPartPath_ne_base base (l + 1))
  | succ k =>
    cases l with
    | zero => exact absurd h (rotatedPartPath_ne_base base (k + 1))
    | succ l => exact rotatedPartPath_inj h

/-! ## What an append does to a part -/

/-- The packet as it can be read from the file. -/
def PcapPacket.captured (packet : PcapPacket) (interfaceLabel : String) : CapturedPacket :=
  ⟨⟨packet.linktype, interfaceLabel⟩, packet.tsOriginNs.toNat, packet.originalLen, packet.data⟩

/-- What comes into the file of a packet: nothing if it is from before the epoch. -/
def PcapPacket.accepted (packet : PcapPacket) (interfaceLabel : String) : List CapturedPacket :=
  if 0 ≤ packet.tsOriginNs then [packet.captured interfaceLabel] else []

/-- The writer numbers the interfaces as the section does. -/
def PartOk (disk : Disk) (p : PcapngPartWriter) : Prop :=
  p.interfaces = (read disk p.path).1.zipIdx

/-- All that an append can do to a part. -/
structure PartAppends (disk : Disk) (p : PcapngPartWriter) (new : List CapturedPacket)
    (disk' : Disk) (p' : PcapngPartWriter) : Prop where
  part_ok : PartOk disk' p'
  path_eq : p'.path = p.path
  packets_eq : p'.packets = p.packets + new.length
  packetsAt_eq : packetsAt disk' p.path = packetsAt disk p.path ++ new
  interfaces_le : p'.interfaces.length ≤ p.interfaces.length + 1
  others : ∀ other, other ≠ p.path → disk' other = disk other

variable (size : Block → ℕ) {p : PcapngPartWriter} {ns : ℤ}

theorem partOk_create (disk : Disk) (path : List Text) :
    PartOk (PcapngPartWriter.create size disk path).2
      (PcapngPartWriter.create size disk path).1 := by
  simp [PartOk, PcapngPartWriter.create, read, readBlock]

theorem packetsAt_create (disk : Disk) (path : List Text) :
    packetsAt (PcapngPartWriter.create size disk path).2 path = [] := by
  simp [PcapngPartWriter.create, packetsAt, read, readBlock]

theorem getElem?_of_lookup_zipIdx {keys : List InterfaceKey} {key : InterfaceKey} {id : ℕ}
    (h : keys.zipIdx.lookup key = some id) : keys[id]? = some key := by
  obtain ⟨before, after, heq, -⟩ := lookup_eq_some_iff.mp h
  have hmem : (key, id) ∈ keys.zipIdx := by
    rw [heq]
    simp
  exact mem_zipIdx_iff_getElem?.mp hmem

/-- Looking up an interface leaves the packets alone, and its number is the one under which
the section describes it. -/
theorem ensureInterface_spec (hok : PartOk disk p) (key : InterfaceKey) :
    (∃ id p' disk', p.ensureInterface size disk key = (.ok id, p', disk') ∧
      (read disk' p.path).1[id]? = some key ∧ PartAppends disk p [] disk' p') ∨
      u32Max < p.interfaces.length ∧
        ∃ e, p.ensureInterface size disk key = (.error e, p, disk) := by
  fun_cases p.ensureInterface size disk key with
  | case1 id hid =>
    refine .inl ⟨id, p, disk, rfl, ?_, hok, rfl, rfl, by simp, Nat.le_succ _, fun _ _ => rfl⟩
    rw [hok] at hid
    exact getElem?_of_lookup_zipIdx hid
  | case2 _ number _ described =>
    have hlength : p.interfaces.length = (read disk p.path).1.length := by
      rw [hok, length_zipIdx]
    refine .inl ⟨_, _, _, rfl, ?_, ?_, rfl, rfl, ?_, by simp, fun other h => ?_⟩
    · simp [described, number, PcapngPartWriter.writePcapngBlock, readBlock, hlength]
    · simp [described, number, PartOk, PcapngPartWriter.writePcapngBlock, readBlock, zipIdx_append,
        hlength, ← show p.interfaces = _ from hok]
    · simp [described, packetsAt, PcapngPartWriter.writePcapngBlock, readBlock]
    · exact appendBlock_of_ne disk _ h
  | case3 _ _ hroom => exact .inr ⟨Nat.lt_of_not_le hroom, _, rfl⟩

theorem timestampNsDuration_of_nonneg (h : 0 ≤ ns) : timestampNsDuration ns = .ok ns.toNat := by
  cases ns with
  | ofNat n => rfl
  | negSucc n => exact absurd h (by simp)

theorem timestampNsDuration_of_neg (h : ¬ 0 ≤ ns) : ∃ e, timestampNsDuration ns = .error e := by
  cases ns with
  | ofNat n => exact absurd (Int.natCast_nonneg n) h
  | negSucc n => exact ⟨_, rfl⟩

/-- An append puts the packet behind those of the part, unless the packet is from before the epoch
or there are too many interfaces. -/
theorem appendPacket_part (hok : PartOk disk p) (interfaceLabel : String) (packet : PcapPacket) :
    ∃ res p' disk', p.appendPacket size disk interfaceLabel packet = (res, p', disk') ∧
      (res.isOk = true → 0 ≤ packet.tsOriginNs) ∧
      (0 ≤ packet.tsOriginNs → p.interfaces.length ≤ u32Max → res.isOk = true) ∧
      PartAppends disk p (if res.isOk then [packet.captured interfaceLabel] else []) disk' p' := by
  rw [PcapngPartWriter.appendPacket]
  rcases ensureInterface_spec size hok ⟨packet.linktype, interfaceLabel⟩ with
    ⟨id, p₁, disk₁, hensure, hid, happ⟩ | ⟨hmany, e, hensure⟩ <;> simp only [hensure]
  swap
  · exact ⟨_, _, _, rfl, nofun, fun _ hroom => absurd hmany (Nat.not_lt.mpr hroom), hok, rfl, rfl,
      (append_nil _).symm, Nat.le_succ _, fun _ _ => rfl⟩
  by_cases hts : 0 ≤ packet.tsOriginNs
  · rw [timestampNsDuration_of_nonneg hts]
    have hread : read (appendBlock disk₁ p.path (.enhancedPacket id packet.tsOriginNs.toNat
        packet.originalLen packet.data)) p.path =
        ((read disk₁ p.path).1, (read disk₁ p.path).2 ++ [packet.captured interfaceLabel]) := by
      rw [read_appendBlock, readBlock, hid]
      rfl
    have hnumbers : p₁.interfaces = (read disk₁ p.path).1.zipIdx := by
      rw [← happ.path_eq]
      exact happ.part_ok
    have hpackets : (read disk₁ p.path).2 = packetsAt disk p.path := by
      rw [← append_nil (packetsAt disk p.path)]
      exact happ.packetsAt_eq
    refine ⟨_, _, _, rfl, fun _ => hts, fun _ _ => rfl, ?_, happ.path_eq, ?_, ?_,
      happ.interfaces_le, fun other h => ?_⟩
    · simp only [PartOk, PcapngPartWriter.writePcapngBlock, happ.path_eq, hread]
      exact hnumbers
    · exact congrArg (· + 1) happ.packets_eq
    · simp only [packetsAt, PcapngPartWriter.writePcapngBlock, happ.path_eq, hread, hpackets]
      rfl
    · simp only [PcapngPartWriter.writePcapngBlock, happ.path_eq]
      rw [appendBlock_of_ne disk₁ _ h, happ.others other h]
  · obtain ⟨e, he⟩ := timestampNsDuration_of_neg hts
    rw [he]
    exact ⟨_, _, _, rfl, nofun, fun h => absurd h hts, happ⟩

/-! ## What an append does to a stream -/

/-- The state of a stream that has taken `written`. -/
structure StreamOk (base : List Text) (w : PcapngStreamWriter) (disk : Disk)
    (written : List CapturedPacket) : Prop where
  base_eq : w.basePath = base
  index_pos : 1 ≤ w.nextPartIndex
  artifacts_eq : w.artifacts = (List.range w.nextPartIndex).map (partPath base)
  path_eq : w.current.path = partPath base (w.nextPartIndex - 1)
  part_ok : PartOk disk w.current
  /-- The packets of the parts, one part behind the other, are those the stream has taken. -/
  packets_eq : (List.range w.nextPartIndex).flatMap (fun k => packetsAt disk (partPath base k)) =
    written
  /-- The first packet went to the first part. -/
  base_packets : written ≠ [] → packetsAt disk base ≠ []

/-- The counters of a stream that has failed no append are bounded by what it has taken. -/
structure StreamCounts (w : PcapngStreamWriter) (written : List CapturedPacket) : Prop where
  interfaces_le : w.current.interfaces.length ≤ written.length
  index_le : w.nextPartIndex ≤ written.length + 1
  index_le_of_packets : w.current.packets ≠ 0 → w.nextPartIndex ≤ written.length

section Stream

variable {base : List Text} {w : PcapngStreamWriter} {written : List CapturedPacket}

theorem streamOk_create (disk : Disk) (options : PcapngStreamOptions) :
    StreamOk options.path (PcapngStreamWriter.create size disk options).1
      (PcapngStreamWriter.create size disk options).2 [] where
  base_eq := rfl
  index_pos := le_rfl
  artifacts_eq := rfl
  path_eq := rfl
  part_ok := partOk_create size disk options.path
  packets_eq := by simp [PcapngStreamWriter.create, partPath, packetsAt_create]
  base_packets h := absurd rfl h

theorem streamCounts_create (disk : Disk) (options : PcapngStreamOptions) :
    StreamCounts (PcapngStreamWriter.create size disk options).1 [] where
  interfaces_le := le_rfl
  index_le := le_rfl
  index_le_of_packets h := absurd rfl h

variable (h : StreamOk base w disk written)
include h

theorem StreamOk.artifacts_nodup : w.artifacts.Nodup := by
  rw [h.artifacts_eq]
  exact List.Nodup.map (partPath_injective base) nodup_range

/-- Going on to the next part keeps all packets. -/
theorem StreamOk.rotate (hlimit : w.nextPartIndex < u32Max) :
    StreamOk base (w.rotate size disk).1 (w.rotate size disk).2 written := by
  have hnext : min (w.nextPartIndex + 1) u32Max = w.nextPartIndex + 1 := Nat.min_eq_left hlimit
  have hpath : rotatedPartPath w.basePath w.nextPartIndex = partPath base w.nextPartIndex := by
    obtain ⟨k, hk⟩ := Nat.exists_eq_add_of_le' h.index_pos
    rw [hk, h.base_eq, partPath]
  have hold : ∀ k, k ≠ w.nextPartIndex →
      (w.rotate size disk).2 (partPath base k) = disk (partPath base k) := by
    intro k hk
    rw [PcapngStreamWriter.rotate, hpath]
    exact Function.update_of_ne (fun heq => hk (partPath_injective base heq)) _ _
  have hnew : packetsAt (w.rotate size disk).2 (partPath base w.nextPartIndex) = [] := by
    rw [PcapngStreamWriter.rotate, hpath]
    exact packetsAt_create size disk _
  have hindex' : (w.rotate size disk).1.nextPartIndex = w.nextPartIndex + 1 := hnext
  refine ⟨h.base_eq, ?_, ?_, ?_, partOk_create size disk _, ?_, fun hne => ?_⟩
  · omega
  · rw [hindex', range_succ, map_append, ← h.artifacts_eq]
    simp [PcapngStreamWriter.rotate, hpath]
  · rw [hindex', Nat.add_sub_cancel, ← hpath]
    rfl
  · rw [hindex', range_succ, flatMap_append, flatMap_singleton, hnew, append_nil]
    calc
      _ = (range w.nextPartIndex).flatMap (fun k => packetsAt disk (partPath base k)) :=
        flatMap_congr fun k hk => packetsAt_congr (hold k (mem_range.mp hk).ne)
      _ = written := h.packets_eq
  · have hbase := packetsAt_congr (hold 0 (Nat.ne_of_lt h.index_pos))
    rw [partPath] at hbase
    rw [hbase]
    exact h.base_packets hne

theorem StreamOk.appendPart {new : List CapturedPacket} {disk' : Disk} {part : PcapngPartWriter}
    (hstarted : 1 < w.nextPartIndex → written ≠ [])
    (happ : PartAppends disk w.current new disk' part) :
    StreamOk base { w with current := part } disk' (written ++ new) := by
  obtain ⟨k, hk⟩ := Nat.exists_eq_add_of_le' h.index_pos
  have hpath : w.current.path = partPath base k := by rw [h.path_eq, hk, Nat.add_sub_cancel]
  have hold : ∀ j, j ≠ k → disk' (partPath base j) = disk (partPath base j) := by
    intro j hj
    apply happ.others
    rw [hpath]
    exact fun heq => hj (partPath_injective base heq)
  have hcurrent : packetsAt disk' (partPath base k) = packetsAt disk (partPath base k) ++ new := by
    rw [← hpath]
    exact happ.packetsAt_eq
  refine ⟨h.base_eq, h.index_pos, h.artifacts_eq, happ.path_eq.trans h.path_eq, happ.part_ok, ?_,
    fun hne => ?_⟩
  · have hparts := h.packets_eq
    rw [hk, range_succ, flatMap_append, flatMap_singleton] at hparts ⊢
    rw [hcurrent, ← append_assoc, ← hparts]
    congr 2
    exact flatMap_congr fun j hj => packetsAt_congr (hold j (mem_range.mp hj).ne)
  · cases k with
    | zero =>
      rw [partPath] at hcurrent
      rw [hcurrent]
      intro hnil
      obtain ⟨hbase, hnew⟩ := append_eq_nil_iff.mp hnil
      rw [hnew, append_nil] at hne
      exact h.base_packets hne hbase
    | succ k =>
      have hbase := packetsAt_congr (hold 0 (Nat.succ_ne_zero k).symm)
      rw [partPath] at hbase
      rw [hbase]
      exact h.base_packets (hstarted (by omega))

variable (hstarted : w.current.packets ≠ 0 ∨ 1 < w.nextPartIndex → written ≠ [])
include hstarted

/-- Whether an append succeeds, what the stream has taken then, and how its counters go on. -/
theorem StreamOk.appendPacket_cases (interfaceLabel : String) (packet : PcapPacket)
    (hlimit : w.current.packets ≠ 0 →
      w.current.shouldRotateFor packet.tsOriginNs w.rotatePolicy = true →
        w.nextPartIndex < u32Max) :
    ∃ res w' disk', w.appendPacket size disk interfaceLabel packet = (res, w', disk') ∧
      (res.isOk = true → 0 ≤ packet.tsOriginNs) ∧
      (0 ≤ packet.tsOriginNs → w.current.interfaces.length ≤ u32Max → res.isOk = true) ∧
      StreamOk base w' disk'
        (written ++ if res.isOk then [packet.captured interfaceLabel] else []) ∧
      w'.current.interfaces.length ≤ w.current.interfaces.length + 1 ∧
      (w'.nextPartIndex = w.nextPartIndex ∨
        w.current.packets ≠ 0 ∧ w'.nextPartIndex = w.nextPartIndex + 1) ∧
      (w'.current.packets ≠ 0 → written ≠ [] ∨ res.isOk = true) := by
  -- The writer is the same or has gone on to the next part; either way it has taken `written`.
  obtain ⟨w₁, disk₁, hrotated, h₁, hinterfaces, hindex, hpackets⟩ : ∃ w₁ disk₁,
      (if w.current.shouldRotateFor packet.tsOriginNs w.rotatePolicy then w.rotate size disk
        else (w, disk)) = (w₁, disk₁) ∧ StreamOk base w₁ disk₁ written ∧
      w₁.current.interfaces.length ≤ w.current.interfaces.length ∧
      (w₁.nextPartIndex = w.nextPartIndex ∨
        w.current.packets ≠ 0 ∧ w₁.nextPartIndex = w.nextPartIndex + 1) ∧
      (w₁.current.packets ≠ 0 → w.current.packets ≠ 0) := by
    split
    · next hrotate =>
      have hpackets : w.current.packets ≠ 0 := by
        intro hzero
        rw [PcapngPartWriter.shouldRotateFor, if_pos hzero] at hrotate
        cases hrotate
      have hnext := hlimit hpackets hrotate
      exact ⟨_, _, rfl, h.rotate size hnext, Nat.zero_le _, .inr ⟨hpackets, Nat.min_eq_left hnext⟩,
        fun _ => hpackets⟩
    · exact ⟨w, disk, rfl, h, le_rfl, .inl rfl, id⟩
  obtain ⟨res, part, disk', happended, hnonneg, hok, happ⟩ :=
    appendPacket_part size h₁.part_ok interfaceLabel packet
  refine ⟨res, { w₁ with current := part }, disk', ?_, hnonneg,
    fun hts hroom => hok hts (hinterfaces.trans hroom), h₁.appendPart (fun hlt => ?_) happ,
    happ.interfaces_le.trans (Nat.succ_le_succ hinterfaces), hindex, fun hne => ?_⟩
  · rw [PcapngStreamWriter.appendPacket, hrotated, happended]
  · rcases hindex with heq | ⟨hbefore, -⟩
    · exact hstarted (.inr (heq ▸ hlt))
    · exact hstarted (.inl hbefore)
  · refine or_iff_not_imp_right.mpr fun hfailed => hstarted (.inl (hpackets ?_))
    have hsame := happ.packets_eq
    rw [if_neg hfailed, length_nil, Nat.add_zero] at hsame
    exact hsame ▸ hne

omit hstarted in
/-- An append succeeds unless the packet is from before the epoch, and the stream has then
taken the packet. -/
theorem StreamOk.appendPacket (hcounts : StreamCounts w written) (hsmall : written.length < u32Max)
    (interfaceLabel : String) (packet : PcapPacket) :
    ∃ res w' disk', w.appendPacket size disk interfaceLabel packet = (res, w', disk') ∧
      (res.isOk = true ↔ 0 ≤ packet.tsOriginNs) ∧
      StreamOk base w' disk' (written ++ packet.accepted interfaceLabel) ∧
      (res.isOk = true → StreamCounts w' (written ++ packet.accepted interfaceLabel)) := by
  have hpos := h.index_pos
  have hle := hcounts.index_le
  have hindex := hcounts.index_le_of_packets
  have hbefore := hcounts.interfaces_le
  have hstarted : w.current.packets ≠ 0 ∨ 1 < w.nextPartIndex → written ≠ [] := by
    rw [← length_pos_iff]
    omega
  obtain ⟨res, w', disk', happended, hnonneg, hok, h', hinterfaces, hindex', -⟩ :=
    h.appendPacket_cases size hstarted interfaceLabel packet
      fun hpackets _ => (hindex hpackets).trans_lt hsmall
  have hres : res.isOk = true ↔ 0 ≤ packet.tsOriginNs :=
    ⟨hnonneg, fun hts => hok hts (hbefore.trans hsmall.le)⟩
  have haccepted : packet.accepted interfaceLabel =
      if res.isOk then [packet.captured interfaceLabel] else [] := by
    simp only [PcapPacket.accepted, hres]
  rw [haccepted]
  refine ⟨res, w', disk', happended, hres, h', fun hok => ?_⟩
  refine ⟨?_, ?_, fun _ => ?_⟩ <;> rw [length_append, if_pos hok, length_singleton] <;> omega

end Stream

/-! ## Any number of packets -/

def appendNext (size : Block → ℕ) (s : List (String × PcapPacket) × PcapngStreamWriter × Disk)
    (p : String × PcapPacket) : List (String × PcapPacket) × PcapngStreamWriter × Disk :=
  let appended := s.2.1.appendPacket size s.2.2 p.1 p.2
  (if appended.1.isOk then s.1 ++ [p] else s.1, appended.2)

/-- Create a stream and append packets: the ones that were appended, the writer and the files. -/
def stream (size : Block → ℕ) (disk : Disk) (options : PcapngStreamOptions) :
    List (String × PcapPacket) → List (String × PcapPacket) × PcapngStreamWriter × Disk :=
  foldl (appendNext size) ([], PcapngStreamWriter.create size disk options)

theorem stream_spec {size : Block → ℕ} {disk : Disk} {options : PcapngStreamOptions}
    {packets appended : List (String × PcapPacket)} {w : PcapngStreamWriter} {disk' : Disk}
    (hstream : stream size disk options packets = (appended, w, disk'))
    (hparts : w.artifacts.length ≤ u32Max) :
    StreamOk options.path w disk' (appended.map fun p => p.2.captured p.1) ∧
      (w.current.packets ≠ 0 ∨ 1 < w.nextPartIndex → appended ≠ []) ∧
      w.current.interfaces.length ≤ packets.length ∧
      ((∀ p ∈ packets, 0 ≤ p.2.tsOriginNs) → packets.length ≤ u32Max + 1 → appended = packets) := by
  induction packets using reverseRecOn generalizing appended w disk' with
  | nil =>
    cases hstream
    refine ⟨streamOk_create size disk options, ?_, le_rfl, fun _ _ => rfl⟩
    rintro (hne | hlt)
    · exact absurd rfl hne
    · exact absurd hlt (lt_irrefl 1)
  | append_singleton packets p ih =>
    rw [stream, foldl_append] at hstream
    change appendNext size (stream size disk options packets) p = _ at hstream
    generalize stream size disk options packets = s at ih hstream
    have hartifacts : w.artifacts =
        if s.2.1.current.shouldRotateFor p.2.tsOriginNs s.2.1.rotatePolicy then
          s.2.1.artifacts ++ [rotatedPartPath s.2.1.basePath s.2.1.nextPartIndex]
        else s.2.1.artifacts := by
      rw [← show _ = w from congrArg (fun s => s.2.1) hstream]
      show (if _ then s.2.1.rotate size s.2.2 else (s.2.1, s.2.2)).1.artifacts = _
      split <;> rfl
    have hle : s.2.1.artifacts.length ≤ w.artifacts.length := by
      rw [hartifacts]
      split <;> simp
    obtain ⟨h, hstarted, hinterfaces, hall⟩ := ih rfl (hle.trans hparts)
    have hlimit : s.2.1.current.shouldRotateFor p.2.tsOriginNs s.2.1.rotatePolicy = true →
        s.2.1.nextPartIndex < u32Max := by
      intro hrotate
      rw [hartifacts, if_pos hrotate, h.artifacts_eq] at hparts
      simp only [length_append, length_map, length_range, length_singleton] at hparts
      exact hparts
    obtain ⟨res, w', disk'', happend, hnonneg, hok, h', hinterfaces', hindex, hpackets⟩ :=
      h.appendPacket_cases size (by simpa using hstarted) p.1 p.2 fun _ => hlimit
    rw [appendNext, happend, Prod.mk.injEq] at hstream
    obtain ⟨rfl, hrest⟩ := hstream
    cases hrest
    have hmap : (if res.isOk then s.1 ++ [p] else s.1).map (fun p => p.2.captured p.1) =
        s.1.map (fun p => p.2.captured p.1) ++ if res.isOk then [p.2.captured p.1] else [] := by
      split <;> simp
    rw [hmap, length_append, length_singleton]
    refine ⟨h', fun hnow => ?_, by omega, fun hts hcount => ?_⟩
    · have hbefore : s.1 ≠ [] ∨ res.isOk = true := by
        rcases hnow with hne | hlt
        · simpa using hpackets hne
        · refine .inl (hstarted (hindex.symm.imp And.left fun heq => ?_))
          exact heq ▸ hlt
      split
      · exact append_ne_nil_of_right_ne_nil _ (cons_ne_nil _ _)
      · next hfailed => exact hbefore.resolve_right hfailed
    · rw [if_pos (hok (hts p (mem_append_right _ mem_cons_self)) (by omega)),
        hall (fun q hq => hts q (mem_append_left _ hq)) (by omega)]

/-! ## What every stream does to the disk

A stream of more parts than can be numbered writes over its last part. What follows holds of
every stream, however long.
-/

/-- Blocks of a kind were written behind those of a file. -/
structure Extends (P : Block → Prop) (disk : Disk) (path : List Text) (disk' : Disk) : Prop where
  others : ∀ other, other ≠ path → disk' other = disk other
  blocks : ∃ new, (disk' path).getD [] = (disk path).getD [] ++ new ∧ ∀ block ∈ new, P block

/-- What a stream writes for a packet is of a kind. -/
structure Allows (P : Block → Prop) (interfaceLabel : String) (packet : PcapPacket) : Prop where
  interface : P (.interfaceDescription packet.linktype 0 nanosecondTsresol interfaceLabel)
  packet : ∀ id ≤ u32Max, 0 ≤ packet.tsOriginNs →
    P (.enhancedPacket id packet.tsOriginNs.toNat packet.originalLen packet.data)

/-- The numbers of the interfaces have 32 bits. -/
def Numbered (p : PcapngPartWriter) : Prop := ∀ e ∈ p.interfaces, e.2 ≤ u32Max

/-- A stream that was created on `disk₀` has written to its artifacts only, and blocks of a
kind. -/
structure StreamFrame (P : Block → Prop) (disk₀ : Disk) (base : List Text)
    (w : PcapngStreamWriter) (disk : Disk) : Prop where
  base_eq : w.basePath = base
  base_mem : base ∈ w.artifacts
  path_mem : w.current.path ∈ w.artifacts
  numbered : Numbered w.current
  allowed : ∀ path ∈ w.artifacts, ∀ block ∈ (disk path).getD [], P block
  untouched : ∀ path, path ∉ w.artifacts → disk path = disk₀ path

section Frame

variable {P : Block → Prop} {disk₀ : Disk} {base : List Text} {w : PcapngStreamWriter}
  {block : Block} {interfaceLabel : String} {packet : PcapPacket}

theorem Extends.refl (disk : Disk) (path : List Text) : Extends P disk path disk :=
  ⟨fun _ _ => rfl, [], (append_nil _).symm, by simp⟩

theorem Extends.appendBlock (h : Extends P disk path disk') (hblock : P block) :
    Extends P disk path (appendBlock disk' path block) := by
  obtain ⟨new, hnew, hall⟩ := h.blocks
  refine ⟨fun other hne => ?_, new ++ [block], by simp [Pcapng.appendBlock, hnew], ?_⟩
  · rw [appendBlock_of_ne disk' block hne, h.others other hne]
  · exact forall_mem_append.mpr ⟨hall, by simpa using hblock⟩

/-- No packet goes when blocks are read on. -/
theorem prefix_foldl_readBlock (r : Reading) (blocks : List Block) :
    r.2 <+: (blocks.foldl readBlock r).2 := by
  induction blocks generalizing r with
  | nil => exact prefix_rfl
  | cons block rest ih =>
    refine IsPrefix.trans ?_ (ih _)
    cases block with
    | sectionHeader => exact prefix_rfl
    | interfaceDescription => exact prefix_rfl
    | enhancedPacket interfaceId timestamp originalLen data =>
      rw [readBlock]
      split
      · exact prefix_rfl
      · exact prefix_append _ _

/-- A file that holds packets still does. -/
theorem Extends.packets_ne_nil (h : Extends P disk path disk') (hne : packetsAt disk other ≠ []) :
    packetsAt disk' other ≠ [] := by
  by_cases heq : other = path
  · obtain ⟨new, hnew, -⟩ := h.blocks
    rw [heq] at hne ⊢
    rw [packetsAt, read, hnew, foldl_append]
    exact (prefix_foldl_readBlock _ new).ne_nil hne
  · rwa [packetsAt_congr (h.others other heq)]

variable (hallows : Allows P interfaceLabel packet)
include hallows

theorem extends_ensureInterface (hnumbered : Numbered p) (disk : Disk) :
    ∃ res p' disk', p.ensureInterface size disk ⟨packet.linktype, interfaceLabel⟩ =
        (res, p', disk') ∧ (∀ id, res = .ok id → id ≤ u32Max) ∧
      p'.path = p.path ∧ Numbered p' ∧ Extends P disk p.path disk' := by
  fun_cases p.ensureInterface size disk ⟨packet.linktype, interfaceLabel⟩ with
  | case1 id hid =>
    refine ⟨_, _, _, rfl, ?_, rfl, hnumbered, .refl _ _⟩
    rintro _ ⟨⟩
    obtain ⟨before, after, heq, -⟩ := lookup_eq_some_iff.mp hid
    exact hnumbered (⟨packet.linktype, interfaceLabel⟩, id) (by simp [heq])
  | case2 _ number hroom =>
    refine ⟨_, _, _, rfl, ?_, rfl, ?_, (Extends.refl _ _).appendBlock hallows.interface⟩
    · rintro _ ⟨⟩
      exact hroom
    · exact forall_mem_append.mpr ⟨hnumbered, by simpa using hroom⟩
  | case3 => exact ⟨_, _, _, rfl, nofun, rfl, hnumbered, .refl _ _⟩

theorem extends_appendPacket (hnumbered : Numbered p) (disk : Disk) :
    ∃ res p' disk', p.appendPacket size disk interfaceLabel packet = (res, p', disk') ∧
      p'.path = p.path ∧ Numbered p' ∧ Extends P disk p.path disk' := by
  obtain ⟨res, p₁, disk₁, hensure, hid, hpath, hnumbered₁, hextends⟩ :=
    extends_ensureInterface size hallows hnumbered disk
  rw [PcapngPartWriter.appendPacket, hensure]
  cases res with
  | error e => exact ⟨_, _, _, rfl, hpath, hnumbered₁, hextends⟩
  | ok id =>
    by_cases hts : 0 ≤ packet.tsOriginNs
    · simp only [timestampNsDuration_of_nonneg hts]
      refine ⟨_, _, _, rfl, hpath, hnumbered₁, ?_⟩
      simp only [PcapngPartWriter.writePcapngBlock, hpath]
      exact hextends.appendBlock (hallows.packet id (hid id rfl) hts)
    · obtain ⟨e, he⟩ := timestampNsDuration_of_neg hts
      simp only [he]
      exact ⟨_, _, _, rfl, hpath, hnumbered₁, hextends⟩

omit hallows

variable (hheader : P .sectionHeader)
include hheader

theorem streamFrame_create (disk : Disk) (options : PcapngStreamOptions) :
    StreamFrame P disk options.path (PcapngStreamWriter.create size disk options).1
      (PcapngStreamWriter.create size disk options).2 := by
  refine ⟨rfl, mem_singleton_self _, mem_singleton_self _, by rintro e ⟨⟩, ?_, fun path hp => ?_⟩
  · simpa [PcapngStreamWriter.create, PcapngPartWriter.create] using hheader
  · exact Function.update_of_ne (fun heq => hp (mem_singleton.mpr heq)) _ _

theorem StreamFrame.rotate (h : StreamFrame P disk₀ base w disk) :
    StreamFrame P disk₀ base (w.rotate size disk).1 (w.rotate size disk).2 ∧
      packetsAt (w.rotate size disk).2 base = packetsAt disk base := by
  have hother : ∀ path, path ≠ rotatedPartPath w.basePath w.nextPartIndex →
      (w.rotate size disk).2 path = disk path := fun path hne => Function.update_of_ne hne _ _
  refine ⟨⟨h.base_eq, mem_append_left _ h.base_mem, mem_append_right _ (mem_singleton_self _),
    by rintro e ⟨⟩, fun path hp => ?_, fun path hp => ?_⟩, ?_⟩
  · by_cases hnew : path = rotatedPartPath w.basePath w.nextPartIndex
    · simpa [hnew, PcapngStreamWriter.rotate, PcapngPartWriter.create] using hheader
    · rw [hother path hnew]
      exact h.allowed path ((mem_append.mp hp).resolve_right fun hlast =>
        hnew (mem_singleton.mp hlast))
  · have hsplit : path ∉ w.artifacts ∧ path ≠ rotatedPartPath w.basePath w.nextPartIndex := by
      simpa [PcapngStreamWriter.rotate] using hp
    rw [hother path hsplit.2, h.untouched path hsplit.1]
  · apply packetsAt_congr
    apply hother
    rw [h.base_eq]
    exact (rotatedPartPath_ne_base base w.nextPartIndex).symm

include hallows

/-- An append writes to the artifacts only, and leaves a packet in the first part there. -/
theorem StreamFrame.appendPacket (h : StreamFrame P disk₀ base w disk) :
    StreamFrame P disk₀ base (w.appendPacket size disk interfaceLabel packet).2.1
        (w.appendPacket size disk interfaceLabel packet).2.2 ∧
      (packetsAt disk base ≠ [] →
        packetsAt (w.appendPacket size disk interfaceLabel packet).2.2 base ≠ []) := by
  obtain ⟨w₁, disk₁, hrotated, h₁, hbase⟩ : ∃ w₁ disk₁,
      (if w.current.shouldRotateFor packet.tsOriginNs w.rotatePolicy then w.rotate size disk
        else (w, disk)) = (w₁, disk₁) ∧
      StreamFrame P disk₀ base w₁ disk₁ ∧ packetsAt disk₁ base = packetsAt disk base := by
    split
    · exact ⟨_, _, rfl, h.rotate size hheader⟩
    · exact ⟨w, disk, rfl, h, rfl⟩
  obtain ⟨res, part, disk', happended, hpath, hnumbered, hextends⟩ :=
    extends_appendPacket size hallows h₁.numbered disk₁
  rw [PcapngStreamWriter.appendPacket, hrotated, happended]
  refine ⟨⟨h₁.base_eq, h₁.base_mem, hpath ▸ h₁.path_mem, hnumbered, fun path hp => ?_,
    fun path hp => ?_⟩, fun hne => hextends.packets_ne_nil (by rwa [hbase])⟩
  · change ∀ block ∈ (disk' path).getD [], P block
    by_cases hcurrent : path = w₁.current.path
    · obtain ⟨new, hnew, hall⟩ := hextends.blocks
      rw [hcurrent, hnew]
      exact forall_mem_append.mpr ⟨h₁.allowed _ h₁.path_mem, hall⟩
    · rw [hextends.others path hcurrent]
      exact h₁.allowed path hp
  · rw [← h₁.untouched path hp]
    apply hextends.others
    rintro rfl
    exact hp h₁.path_mem

end Frame

theorem stream_frame {P : Block → Prop} (hheader : P .sectionHeader)
    {packets : List (String × PcapPacket)} (hallows : ∀ p ∈ packets, Allows P p.1 p.2)
    (disk : Disk) (options : PcapngStreamOptions) :
    StreamFrame P disk options.path (stream size disk options packets).2.1
      (stream size disk options packets).2.2 := by
  induction packets using reverseRecOn with
  | nil => exact streamFrame_create size hheader disk options
  | append_singleton packets p ih =>
    rw [stream, foldl_append]
    have hframe := ih fun q hq => hallows q (mem_append_left _ hq)
    exact (hframe.appendPacket size (hallows p (by simp)) hheader).1

end TraceMux.Core.Exporter.Pcapng
