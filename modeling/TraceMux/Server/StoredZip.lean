/-
# The archive of a bundle

Files are appended to an archive one after the other and the directory is written at the end.
Each file is read twice, once for its checksum and once to be copied, in whatever pieces the
reads return. Numbers that do not fit their fields are refused before they are written, some
when a file is appended and the others at the end.
-/

import TraceMux.Base.Zip
import TraceMux.Server.ExportApi

namespace TraceMux.Server.StoredZip

open Base Server.ExportApi List

/-- An error of the operating system. -/
def ioError (context reason : String) : ExportApiError :=
  ⟨.internalServerError, "E-1001", context ++ ": " ++ reason⟩

def tooLarge : ExportApiError := ⟨.badRequest, "E-1001", "ZIP32 bundle export is too large"⟩

/-- What was written to the archive, and with how many calls. -/
structure Output where
  written : Bytes := []
  calls : ℕ := 0
  deriving DecidableEq, Repr

/-- Why a call fails, if it does. -/
abbrev Faults := ℕ → Option String

/-- One call that writes, and what it does when it fails. -/
structure Write where
  context : String
  data : Bytes

def writeU16 (value : ℕ) : Write := ⟨"writing ZIP", toLeBytes 2 value⟩

def writeU32 (value : ℕ) : Write := ⟨"writing ZIP", toLeBytes 4 value⟩

def Output.writeAll (faults : Faults) (out : Output) (write : Write) :
    Except ExportApiError Output :=
  match faults out.calls with
  | some reason => .error (ioError write.context reason)
  | none => .ok ⟨out.written ++ write.data, out.calls + 1⟩

/-- Calls one after the other, up to the first that fails. -/
def Output.writeEach (faults : Faults) (out : Output) (writes : List Write) :
    Except ExportApiError Output := writes.foldlM (Output.writeAll faults) out

/-- What the calls that read a file return, if it can be opened. -/
abbrev Opened := Except String (List (Except String Bytes))

/-- The reads return a content from its beginning to its end, in pieces, or up to an error. -/
inductive ReadsOf : Bytes → List (Except String Bytes) → Prop
  | done : ReadsOf [] []
  | eof (rest : List (Except String Bytes)) : ReadsOf [] (.ok [] :: rest)
  | piece {piece content : Bytes} {reads : List (Except String Bytes)} (hne : piece ≠ [])
      (hrest : ReadsOf content reads) : ReadsOf (piece ++ content) (.ok piece :: reads)
  | error (content : Bytes) (reason : String) (rest : List (Except String Bytes)) :
      ReadsOf content (.error reason :: rest)

def Opened.Reads (opened : Opened) (content : Bytes) : Prop :=
  ∀ reads, opened = .ok reads → ReadsOf content reads

/-- A file that does not change while it is read, with its two readings. -/
structure ExportFile where
  content : Bytes
  checking : Opened
  copying : Opened
  checking_reads : checking.Reads content
  copying_reads : copying.Reads content

/-- The checksum and the size, behind what was read so far. -/
def crc32Loop : List (Except String Bytes) → UInt32 → ℕ → Except ExportApiError (UInt32 × ℕ)
  | [], crc, size => .ok (crc ^^^ 0xFFFFFFFF, size)
  | .error reason :: _, _, _ => .error (ioError "reading export" reason)
  | .ok piece :: rest, crc, size =>
    if piece.length = 0 then .ok (crc ^^^ 0xFFFFFFFF, size)
    else crc32Loop rest (piece.foldl crc32Byte crc) (size + piece.length)

def crc32File (opened : Opened) : Except ExportApiError (UInt32 × ℕ) :=
  match opened with
  | .error reason => .error (ioError "opening export" reason)
  | .ok reads => crc32Loop reads 0xFFFFFFFF 0

/-- Copy what is read; `copied` bytes were copied so far. -/
def copyLoop (faults : Faults) : List (Except String Bytes) → ℕ → Output →
    Except ExportApiError (ℕ × Output)
  | [], copied, out => .ok (copied, out)
  | .error reason :: _, _, _ => .error (ioError "writing ZIP entry" reason)
  | .ok piece :: rest, copied, out =>
    if piece.length = 0 then .ok (copied, out)
    else
      match out.writeAll faults ⟨"writing ZIP entry", piece⟩ with
      | .error e => .error e
      | .ok out => copyLoop faults rest (copied + piece.length) out

/-- What the directory will say about a file. -/
structure CentralDirectoryEntry where
  name : Bytes
  crc32 : UInt32
  size : ℕ
  localOffset : ℕ
  deriving DecidableEq, Repr

structure StoredZipWriter where
  out : Output := {}
  central : List CentralDirectoryEntry := []
  offset : ℕ := 0
  deriving DecidableEq, Repr

def u32Max : ℕ := 2 ^ 32 - 1

namespace StoredZipWriter

/-- A new archive. -/
def create (opening : Option String) : Except ExportApiError StoredZipWriter :=
  match opening with
  | some reason => .error (ioError "creating bundle zip" reason)
  | none => .ok {}

def withSlashes (name : Text) : Text := name.map fun c => if c = '\\' then '/' else c

/-- The header in front of a file. -/
def localWrites (name : Bytes) (crc32 : UInt32) (size : ℕ) : List Write :=
  [writeU32 0x04034b50, writeU16 20, writeU16 0x0800, writeU16 0, writeU16 0, writeU16 33,
    writeU32 crc32.toNat, writeU32 size, writeU32 size, writeU16 name.length, writeU16 0,
    ⟨"writing ZIP local header", name⟩]

def appendFileFromPath (faults : Faults) (zip : StoredZipWriter) (name : Text)
    (checking copying : Opened) : Except ExportApiError StoredZipWriter := do
  let name := withSlashes name
  let nameBytes := Lines.encode name
  if 0xFFFF < nameBytes.length then
    .error ⟨.badRequest, "E-1001", "ZIP entry name is too long: " ++ String.ofList name⟩
  let (crc32, size) ← crc32File checking
  if u32Max < size ∨ u32Max < zip.offset then .error tooLarge
  let out ← zip.out.writeEach faults (localWrites nameBytes crc32 size)
  let reads ← copying.mapError (ioError "opening export")
  let (copied, out) ← copyLoop faults reads 0 out
  if copied ≠ size then
    .error ⟨.internalServerError, "E-1001",
      "ZIP entry changed while writing: " ++ String.ofList name⟩
  return {
    out
    central := zip.central ++ [⟨nameBytes, crc32, size, zip.offset⟩]
    offset := zip.offset + (30 + nameBytes.length) + copied }

/-- The header of a file in the directory. -/
def centralWrites (entry : CentralDirectoryEntry) : List Write :=
  [writeU32 0x02014b50, writeU16 20, writeU16 20, writeU16 0x0800, writeU16 0, writeU16 0,
    writeU16 33, writeU32 entry.crc32.toNat, writeU32 entry.size, writeU32 entry.size,
    writeU16 entry.name.length, writeU16 0, writeU16 0, writeU16 0, writeU16 0, writeU32 0,
    writeU32 entry.localOffset, ⟨"writing ZIP central directory", entry.name⟩]

def writeCentral (faults : Faults) :
    List CentralDirectoryEntry → ℕ → Output → Except ExportApiError (ℕ × Output)
  | [], centralSize, out => .ok (centralSize, out)
  | entry :: rest, centralSize, out => do
      if u32Max < entry.size ∨ u32Max < entry.localOffset then .error tooLarge
      if 0xFFFF < entry.name.length then
        .error ⟨.badRequest, "E-1001", "ZIP entry name is too long"⟩
      let out ← out.writeEach faults (centralWrites entry)
      writeCentral faults rest (centralSize + (46 + entry.name.length)) out

def endWrites (count centralSize centralOffset : ℕ) : List Write :=
  [writeU32 0x06054b50, writeU16 0, writeU16 0, writeU16 count, writeU16 count,
    writeU32 centralSize, writeU32 centralOffset, writeU16 0]

/-- Write the directory and the end record. What was written is then in the file. -/
def finish (faults : Faults) (zip : StoredZipWriter) : Except ExportApiError Bytes := do
  let centralOffset := zip.offset
  let (centralSize, out) ← writeCentral faults zip.central 0 zip.out
  if 0xFFFF < zip.central.length ∨ u32Max < centralSize ∨ u32Max < centralOffset then
    .error tooLarge
  let out ← out.writeEach faults (endWrites zip.central.length centralSize centralOffset)
  let out ← out.writeAll faults ⟨"flushing bundle zip", []⟩
  return out.written

end StoredZipWriter

def appendFiles (faults : Faults) (zip : StoredZipWriter) (files : List (Text × ExportFile)) :
    Except ExportApiError StoredZipWriter :=
  files.foldlM (fun zip file =>
    zip.appendFileFromPath faults file.1 file.2.checking file.2.copying) zip

/-- Write an archive of files. -/
def storedZip (faults : Faults) (opening : Option String) (files : List (Text × ExportFile)) :
    Except ExportApiError Bytes := do
  let zip ← StoredZipWriter.create opening
  let zip ← appendFiles faults zip files
  zip.finish faults

section Written

variable {faults : Faults} {out : Output} {content : Bytes} {out' : Output}
  {reads : List (Except String Bytes)} {result : UInt32 × ℕ}

theorem written_of_writeAll {write : Write} (h : out.writeAll faults write = .ok out') :
    out'.written = out.written ++ write.data := by
  unfold Output.writeAll at h
  split at h
  · cases h
  · cases h
    rfl

theorem written_of_writeEach {writes : List Write} (h : out.writeEach faults writes = .ok out') :
    out'.written = out.written ++ (writes.map Write.data).flatten := by
  induction writes generalizing out with
  | nil =>
    cases h
    exact (append_nil _).symm
  | cons write writes ih =>
    obtain ⟨mid, hfirst, hrest⟩ := exists_of_bind_eq_ok h
    rw [ih hrest, written_of_writeAll hfirst, append_assoc, map_cons, flatten_cons]

/-- However a file is read, its checksum is that of its content. -/
theorem eq_of_crc32Loop (hreads : ReadsOf content reads) {crc : UInt32} {size : ℕ}
    (h : crc32Loop reads crc size = .ok result) :
    result = (content.foldl crc32Byte crc ^^^ 0xFFFFFFFF, size + content.length) := by
  induction hreads generalizing crc size with
  | done =>
    cases h
    rfl
  | eof rest =>
    cases h
    rfl
  | piece hne _ ih =>
    rw [crc32Loop, if_neg (fun hzero => hne (length_eq_zero_iff.mp hzero))] at h
    rw [ih h, foldl_append, length_append, Nat.add_assoc]
  | error content reason rest => cases h

theorem eq_of_crc32File {opened : Opened} (hopened : opened.Reads content)
    (h : crc32File opened = .ok result) : result = (crc32Ieee content, content.length) := by
  unfold crc32File at h
  split at h
  · cases h
  · next reads =>
    rw [eq_of_crc32Loop (hopened reads rfl) h, Nat.zero_add]
    rfl

theorem written_of_copyLoop (hreads : ReadsOf content reads) {copied : ℕ} {result : ℕ × Output}
    (h : copyLoop faults reads copied out = .ok result) :
    result.1 = copied + content.length ∧ result.2.written = out.written ++ content := by
  induction hreads generalizing copied out with
  | done | eof rest =>
    cases h
    exact ⟨rfl, (append_nil _).symm⟩
  | piece hne _ ih =>
    rw [copyLoop, if_neg (fun hzero => hne (length_eq_zero_iff.mp hzero))] at h
    split at h
    · cases h
    · next mid hwrite =>
      obtain ⟨hcopied, hwritten⟩ := ih h
      rw [hcopied, hwritten, written_of_writeAll hwrite, length_append, Nat.add_assoc, append_assoc]
      exact ⟨rfl, rfl⟩
  | error content reason rest => cases h

end Written

theorem exists_reads (opened : Opened) : ∃ content, opened.Reads content := by
  have hreads (reads : List (Except String Bytes)) : ∃ content, ReadsOf content reads := by
    induction reads with
    | nil => exact ⟨[], .done⟩
    | cons read reads ih =>
      obtain ⟨content, hcontent⟩ := ih
      rcases read with reason | piece
      · exact ⟨[], .error [] reason reads⟩
      · rcases eq_or_ne piece [] with rfl | hne
        · exact ⟨[], .eof reads⟩
        · exact ⟨piece ++ content, .piece hne hcontent⟩
  rcases opened with reason | reads
  · exact ⟨[], nofun⟩
  · obtain ⟨content, hcontent⟩ := hreads reads
    refine ⟨content, ?_⟩
    rintro _ ⟨⟩
    exact hcontent

namespace StoredZipWriter

variable (offset : ℕ) (member : Zip.Member)

theorem localWrites_data :
    ((localWrites member.nameBytes member.crc member.data.length).map Write.data).flatten =
      Zip.localHeader 0 33 member := by
  simp only [localWrites, writeU16, writeU32, map_cons, map_nil, flatten_cons, flatten_nil,
    Zip.localHeader, Zip.writeFields, flatMap_cons, flatMap_nil, append_assoc, append_nil]

def entryAt (offset : ℕ) (member : Zip.Member) : CentralDirectoryEntry :=
  ⟨member.nameBytes, member.crc, member.data.length, offset⟩

theorem centralWrites_data :
    ((centralWrites (entryAt offset member)).map Write.data).flatten =
      Zip.centralHeader 0 33 offset member := by
  simp only [centralWrites, entryAt, writeU16, writeU32, map_cons, map_nil,
    flatten_cons, flatten_nil, Zip.centralHeader, Zip.writeFields, flatMap_cons,
    flatMap_nil, append_assoc, append_nil]

theorem endWrites_data (count size offset : ℕ) :
    ((endWrites count size offset).map Write.data).flatten = Zip.endRecord count size offset := by
  simp only [endWrites, writeU16, writeU32, map_cons, map_nil, flatten_cons,
    flatten_nil, Zip.endRecord, Zip.writeFields, flatMap_cons, flatMap_nil]

/-- What the directory says about files that begin at an offset. -/
def entriesFrom : ℕ → List Zip.Member → List CentralDirectoryEntry
  | _, [] => []
  | offset, member :: members =>
    entryAt offset member :: entriesFrom (offset + member.localLength) members

theorem entriesFrom_concat (members : List Zip.Member) (member : Zip.Member) :
    entriesFrom offset (members ++ [member]) =
      entriesFrom offset members ++ [entryAt (offset + Zip.localLength members) member] := by
  induction members generalizing offset with
  | nil => rfl
  | cons first members ih =>
    rw [cons_append, entriesFrom, ih, Zip.localLength_cons, entriesFrom, cons_append,
      Nat.add_assoc offset]

theorem length_entriesFrom (members : List Zip.Member) :
    (entriesFrom offset members).length = members.length := by
  induction members generalizing offset with
  | nil => rfl
  | cons first members ih => rw [entriesFrom, length_cons, ih, length_cons]

/-- The files that were appended. -/
structure Holds (zip : StoredZipWriter) (members : List Zip.Member) : Prop where
  written : zip.out.written = Zip.localPart 0 33 members
  offset : zip.offset = Zip.localLength members
  central : zip.central = entriesFrom 0 members
  fits : ∀ member ∈ members, member.Fits

theorem holds_create {opening : Option String} {zip : StoredZipWriter}
    (h : create opening = .ok zip) : Holds zip [] := by
  unfold create at h
  split at h
  · cases h
  · cases h
    exact ⟨rfl, rfl, rfl, nofun⟩

variable {faults : Faults} {zip zip' : StoredZipWriter} {members : List Zip.Member}

/-- A file that is appended comes last, with the checksum of what was read first and the content
that was read then. -/
theorem Holds.append (hzip : Holds zip members) {name : Text} {checking copying : Opened}
    {checked copied : Bytes} (hchecking : checking.Reads checked) (hcopying : copying.Reads copied)
    (h : zip.appendFileFromPath faults name checking copying = .ok zip') :
    Holds zip' (members ++ [⟨withSlashes name, crc32Ieee checked, copied⟩]) := by
  unfold appendFileFromPath at h
  obtain ⟨hname, h⟩ := of_check_eq_ok h
  obtain ⟨result, hresult, h⟩ := exists_of_bind_eq_ok h
  obtain rfl := eq_of_crc32File hchecking hresult
  obtain ⟨hsize, h⟩ := of_check_eq_ok h
  obtain ⟨headed, hheaded, h⟩ := exists_of_bind_eq_ok h
  obtain ⟨reads, hopened, h⟩ := exists_of_bind_eq_ok h
  obtain ⟨copy, hcopy, h⟩ := exists_of_bind_eq_ok h
  obtain ⟨hsame, h⟩ := of_check_eq_ok h
  cases h
  obtain ⟨hlength, hwritten⟩ :=
    written_of_copyLoop (hcopying reads (mapError_eq_ok hopened)) hcopy
  have hheader := written_of_writeEach hheaded
  rw [not_or, Nat.not_lt] at hsize
  rw [ne_eq, not_not, hlength, Nat.zero_add] at hsame
  rw [← hsame] at hheader hsize
  refine ⟨?_, ?_, ?_, ?_⟩
  · rw [hwritten, hheader, hzip.written, Zip.localPart_concat, append_assoc, ← localWrites_data]
    rfl
  · rw [hlength, hzip.offset, Nat.zero_add, Nat.add_assoc, Zip.localLength_concat]
    rfl
  · rw [entriesFrom_concat, hzip.central, hzip.offset, Nat.zero_add, ← hsame]
    rfl
  · refine forall_mem_append.mpr ⟨hzip.fits, forall_mem_singleton.mpr ⟨?_, ?_⟩⟩
    · exact Nat.lt_succ_of_le (Nat.not_lt.mp hname)
    · exact Nat.lt_succ_of_le hsize.1

theorem Holds.appendFiles {files : List (Text × ExportFile)} (hzip : Holds zip members)
    (h : appendFiles faults zip files = .ok zip') :
    Holds zip' (members ++ files.map fun file => .ofFile (withSlashes file.1, file.2.content)) := by
  induction files generalizing zip members with
  | nil =>
    cases h
    rw [map_nil, append_nil]
    exact hzip
  | cons file files ih =>
    rw [StoredZip.appendFiles, foldlM_cons] at h
    obtain ⟨mid, hfirst, hrest⟩ := exists_of_bind_eq_ok h
    have hend := ih (hzip.append file.2.checking_reads file.2.copying_reads hfirst) hrest
    rw [append_assoc] at hend
    exact hend

/-- The directory is that of the files, and its size is counted as it is written. -/
theorem written_of_writeCentral {offset centralSize : ℕ} {out : Output} {result : ℕ × Output}
    (h : writeCentral faults (entriesFrom offset members) centralSize out = .ok result) :
    result.1 = centralSize + Zip.directoryLength members ∧
      result.2.written = out.written ++ Zip.directory 0 33 offset members := by
  induction members generalizing offset centralSize out with
  | nil =>
    cases h
    exact ⟨rfl, (append_nil _).symm⟩
  | cons member members ih =>
    obtain ⟨_, h⟩ := of_check_eq_ok h
    obtain ⟨_, h⟩ := of_check_eq_ok h
    obtain ⟨mid, hfirst, hrest⟩ := exists_of_bind_eq_ok h
    obtain ⟨hsize, hwritten⟩ := ih hrest
    refine ⟨?_, ?_⟩
    · rw [hsize, Nat.add_assoc]
      rfl
    · rw [hwritten, written_of_writeEach hfirst, centralWrites_data, Zip.directory, append_assoc]

/-- A finished archive is laid out as a reader expects it, and its numbers fit. -/
theorem Holds.finish (hzip : Holds zip members) {bytes : Bytes}
    (h : zip.finish faults = .ok bytes) :
    bytes = Zip.archive 0 33 members ∧ Zip.Fits members := by
  unfold StoredZipWriter.finish at h
  obtain ⟨central, hcentral, h⟩ := exists_of_bind_eq_ok h
  obtain ⟨hlimits, h⟩ := of_check_eq_ok h
  obtain ⟨ended, hended, h⟩ := exists_of_bind_eq_ok h
  obtain ⟨flushed, hflushed, h⟩ := exists_of_bind_eq_ok h
  cases h
  rw [hzip.central] at hcentral hended hlimits
  obtain ⟨hsize, hwritten⟩ := written_of_writeCentral hcentral
  rw [Nat.zero_add] at hsize
  rw [length_entriesFrom, hsize, hzip.offset] at hended hlimits
  rw [not_or, not_or, Nat.not_lt, Nat.not_lt, Nat.not_lt] at hlimits
  refine ⟨?_, ⟨hzip.fits, ?_, ?_, ?_⟩⟩
  · rw [written_of_writeAll hflushed, written_of_writeEach hended, endWrites_data, hwritten,
      hzip.written, append_nil, Zip.archive, Zip.length_directory, Zip.length_localPart,
      append_assoc]
  · exact Nat.lt_succ_of_le hlimits.1
  · exact Nat.lt_succ_of_le hlimits.2.2
  · exact Nat.lt_succ_of_le hlimits.2.1

end StoredZipWriter

/-- From a finished archive a reader recovers the files. -/
theorem read_of_storedZip {faults : Faults} {opening : Option String}
    {files : List (Text × ExportFile)} {bytes : Bytes}
    (h : storedZip faults opening files = .ok bytes) :
    Zip.read bytes = some (files.map fun file =>
      (StoredZipWriter.withSlashes file.1, file.2.content)) := by
  unfold storedZip at h
  obtain ⟨zip, hcreate, h⟩ := exists_of_bind_eq_ok h
  obtain ⟨zip', happend, h⟩ := exists_of_bind_eq_ok h
  have hzip := (StoredZipWriter.holds_create hcreate).appendFiles happend
  rw [nil_append] at hzip
  obtain ⟨rfl, hfits⟩ := hzip.finish h
  have hcrc : ∀ member ∈ files.map (fun file =>
      Zip.Member.ofFile (StoredZipWriter.withSlashes file.1, file.2.content)),
      member.crc = crc32Ieee member.data := by
    intro member hmember
    obtain ⟨file, -, rfl⟩ := mem_map.mp hmember
    rfl
  rw [Zip.read_archive hfits hcrc, map_map]
  rfl

/-- Three bytes, read in one piece for the checksum and in two to be copied. -/
def threeBytes : ExportFile where
  content := [1, 2, 3]
  checking := .ok [.ok [1, 2, 3], .ok []]
  copying := .ok [.ok [1, 2], .ok [3], .ok []]
  checking_reads := by
    rintro _ ⟨⟩
    exact ReadsOf.piece (List.cons_ne_nil 1 [2, 3]) (.eof [])
  copying_reads := by
    rintro _ ⟨⟩
    exact ReadsOf.piece (List.cons_ne_nil 1 [2]) (.piece (List.cons_ne_nil 3 []) (.eof []))

def noBytes : ExportFile where
  content := []
  checking := .ok [.ok []]
  copying := .ok [.ok []]
  checking_reads := by
    rintro _ ⟨⟩
    exact .eof []
  copying_reads := by
    rintro _ ⟨⟩
    exact .eof []

theorem read_of_storedZip_three :
    ∃ bytes, storedZip (fun _ => none) none
        [(['a', '\\', 'b'], threeBytes), (['c'], noBytes), (['d'], threeBytes)] = .ok bytes ∧
      Zip.read bytes = some [(['a', '/', 'b'], [1, 2, 3]), (['c'], []), (['d'], [1, 2, 3])] := by
  refine ⟨_, rfl, ?_⟩
  have hfinished : storedZip (fun _ => none) none
    [(['a', '\\', 'b'], threeBytes), (['c'], noBytes), (['d'], threeBytes)] = .ok _ := rfl
  exact read_of_storedZip hfinished

end TraceMux.Server.StoredZip
