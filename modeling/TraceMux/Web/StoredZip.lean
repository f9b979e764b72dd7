/-
# The archive of the web client

The client packs small exports itself. It fills a buffer for each header, collects the buffers
and copies them into one. Names are strings of the engine: a backslash is written as a slash,
and a surrogate on its own as the replacement character. Numbers are checked before each file;
the offset and the size of the directory are written as they are, and a number that does not
fit is cut.
-/

import TraceMux.Base.Fallible
import TraceMux.Base.JsString
import TraceMux.Base.Zip

namespace TraceMux.Web.StoredZip

open Base List

/-- A new buffer. -/
def zeros (length : ℕ) : Bytes := List.replicate length 0

/-- Put bytes into a buffer. Everything that is put below is inside its buffer. -/
def setAt (buffer : Bytes) (offset : ℕ) (data : Bytes) : Bytes :=
  buffer.take offset ++ (data ++ buffer.drop (offset + data.length))

/-- Put numbers into a buffer, each with its offset and its width. -/
def setFields (buffer : Bytes) (fields : List (ℕ × ℕ × ℕ)) : Bytes :=
  fields.foldl (fun buffer field => setAt buffer field.1 (toLeBytes field.2.1 field.2.2)) buffer

def setU16 (offset value : ℕ) : ℕ × ℕ × ℕ := (offset, 2, value)

/-- A number of four bytes at an offset. -/
def setU32 (offset value : ℕ) : ℕ × ℕ × ℕ := (offset, 4, value)

structure Engine where
  maxLength : ℕ
  rangeError : JsString
  deriving DecidableEq, Repr

/-- Copy chunks into one buffer. -/
def concatChunks (engine : Engine) (chunks : List Bytes) (length : ℕ) : Except JsString Bytes :=
  if engine.maxLength < length then .error engine.rangeError
  else
    .ok (chunks.foldl (fun out chunk => (setAt out.1 out.2 chunk, out.2 + chunk.length))
      (zeros length, 0)).1

/-- Eight places of each octet. -/
def crc32Table : List UInt32 := (List.range 256).map fun i => crc32Bit^[8] (UInt32.ofNat i)

def crc32Step (crc : UInt32) (byte : UInt8) : UInt32 :=
  (crc32Table[((crc ^^^ byte.toUInt32) &&& 255).toNat]?.getD 0) ^^^ (crc >>> 8)

def crc32 (body : Bytes) : UInt32 := body.foldl crc32Step 0xFFFFFFFF ^^^ 0xFFFFFFFF

/-- The parts of a date in local time. Months count from 0. -/
structure LocalDate where
  year : ℤ
  month : ℕ
  day : ℕ
  hours : ℕ
  minutes : ℕ
  seconds : ℕ
  deriving DecidableEq, Repr

/-- The date and the time in an archive, both 0 for an invalid date. -/
def dosDateTime : Option LocalDate → ℕ × ℕ
  | none => (0, 0)
  | some d =>
    let year := (max 1980 (min 2107 d.year)).toNat
    (((year - 1980) <<< 9) ||| ((d.month + 1) <<< 5) ||| d.day,
      (d.hours <<< 11) ||| (d.minutes <<< 5) ||| (d.seconds / 2))

structure ZipFile where
  name : JsString
  body : Bytes
  deriving DecidableEq, Repr

def withSlashes (name : JsString) : JsString :=
  name.map fun unit => if unit = 0x5C then 0x2F else unit

/-- The header in front of a file. -/
def localChunk (date time : ℕ) (checksum : UInt32) (nameBytes body : Bytes) : Bytes :=
  let buffer := setFields (zeros (30 + nameBytes.length))
    [setU32 0 0x04034b50, setU16 4 20, setU16 6 0x0800, setU16 8 0, setU16 10 time,
      setU16 12 date, setU32 14 checksum.toNat, setU32 18 body.length, setU32 22 body.length,
      setU16 26 nameBytes.length, setU16 28 0]
  setAt buffer 30 nameBytes

/-- The header of a file in the directory. -/
def centralChunk (date time : ℕ) (checksum : UInt32) (nameBytes body : Bytes)
    (localOffset : ℕ) : Bytes :=
  let buffer := setFields (zeros (46 + nameBytes.length))
    [setU32 0 0x02014b50, setU16 4 20, setU16 6 20, setU16 8 0x0800, setU16 10 0,
      setU16 12 time, setU16 14 date, setU32 16 checksum.toNat, setU32 20 body.length,
      setU32 24 body.length, setU16 28 nameBytes.length, setU16 30 0, setU16 32 0, setU16 34 0,
      setU16 36 0, setU32 38 0, setU32 42 localOffset]
  setAt buffer 46 nameBytes

/-- The end of an archive. -/
def eocdChunk (count centralSize centralOffset : ℕ) : Bytes :=
  setFields (zeros 22)
    [setU32 0 0x06054b50, setU16 4 0, setU16 6 0, setU16 8 count, setU16 10 count,
      setU32 12 centralSize, setU32 16 centralOffset, setU16 20 0]

structure Collected where
  chunks : List Bytes := []
  centralChunks : List Bytes := []
  offset : ℕ := 0
  centralSize : ℕ := 0
  deriving DecidableEq, Repr

def addFile (date time : ℕ) (c : Collected) (file : ZipFile) : Except JsString Collected := do
  let name := withSlashes file.name
  let nameBytes := Lines.encode name.toText
  if 0xFFFF < nameBytes.length then
    .error (JsString.ofText "ZIP entry name is too long: ".toList ++ name)
  if 0xFFFFFFFF < file.body.length then
    .error (JsString.ofText "ZIP entry is too large: ".toList ++ name)
  if 0xFFFFFFFF < c.offset then
    .error (JsString.ofText "ZIP export is too large for ZIP32".toList)
  let checksum := crc32 file.body
  let first := localChunk date time checksum nameBytes file.body
  let central := centralChunk date time checksum nameBytes file.body c.offset
  return {
    chunks := c.chunks ++ [first, file.body]
    centralChunks := c.centralChunks ++ [central]
    offset := c.offset + first.length + file.body.length
    centralSize := c.centralSize + central.length }

def createStoredZip (engine : Engine) (files : List ZipFile) (modifiedAt : Option LocalDate) :
    Except JsString Bytes := do
  if 0xFFFF < files.length then
    .error (JsString.ofText "too many files for ZIP32 export".toList)
  let (date, time) := dosDateTime modifiedAt
  let c ← files.foldlM (addFile date time) {}
  let centralOffset := c.offset
  let offset := c.offset + (c.centralChunks.map List.length).sum
  let eocd := eocdChunk files.length c.centralSize centralOffset
  concatChunks engine (c.chunks ++ c.centralChunks ++ [eocd]) (offset + eocd.length)

theorem crc32Table_get {i : ℕ} (h : i < 256) :
    crc32Table[i]? = some (crc32Bit^[8] (UInt32.ofNat i)) := by
  rw [crc32Table, getElem?_map, getElem?_range h]
  rfl

theorem crc32Step_eq (crc : UInt32) (byte : UInt8) : crc32Step crc byte = crc32Byte crc byte := by
  have hindex : ((crc ^^^ byte.toUInt32) &&& 255).toNat < 256 := by
    exact Nat.lt_succ_of_le Nat.and_le_right
  rw [crc32Step, crc32Table_get hindex, Option.getD_some, UInt32.ofNat_toNat, crc32Byte_eq]

theorem crc32_eq (body : Bytes) : crc32 body = crc32Ieee body := by
  rw [crc32, crc32Ieee, funext₂ crc32Step_eq]

/-- Each field begins where the one before it ends. -/
def Consecutive : ℕ → List (ℕ × ℕ × ℕ) → Prop
  | _, [] => True
  | offset, field :: fields => field.1 = offset ∧ Consecutive (offset + field.2.1) fields

/-- What is put behind what was put so far. -/
theorem setAt_append (filled data : Bytes) (rest : ℕ) :
    setAt (filled ++ zeros (data.length + rest)) filled.length data =
      filled ++ data ++ zeros rest := by
  have hdrop : (filled ++ zeros (data.length + rest)).drop (filled.length + data.length) =
      zeros rest := by
    rw [drop_length_add_append, zeros, drop_replicate, Nat.add_sub_cancel_left, zeros]
  rw [setAt, hdrop, take_left, append_assoc]

theorem setFields_append {filled : Bytes} {fields : List (ℕ × ℕ × ℕ)}
    (h : Consecutive filled.length fields) (rest : ℕ) :
    setFields (filled ++ zeros ((Zip.writeFields (fields.map Prod.snd)).length + rest)) fields =
      filled ++ Zip.writeFields (fields.map Prod.snd) ++ zeros rest := by
  induction fields generalizing filled with
  | nil =>
    simp only [setFields, Zip.writeFields, map_nil, flatMap_nil, foldl_nil,
      length_nil, Nat.zero_add, append_nil]
  | cons field fields ih =>
    obtain ⟨hoffset, hrest⟩ := h
    have hbytes : Zip.writeFields ((field :: fields).map Prod.snd) =
        toLeBytes field.2.1 field.2.2 ++ Zip.writeFields (fields.map Prod.snd) := rfl
    have hfilled : (filled ++ toLeBytes field.2.1 field.2.2).length =
        filled.length + field.2.1 := by
      rw [length_append, toLeBytes_length]
    rw [← hfilled] at hrest
    have hstep := ih hrest
    rw [setFields, foldl_cons, hbytes, length_append, Nat.add_assoc, hoffset, setAt_append]
    rw [setFields] at hstep
    rw [hstep, ← append_assoc]

/-- Consecutive fields fill the front of a new buffer. -/
theorem setFields_zeros {fields : List (ℕ × ℕ × ℕ)} (h : Consecutive 0 fields) (rest : ℕ) :
    setFields (zeros ((fields.map fun field => field.2.1).sum + rest)) fields =
      Zip.writeFields (fields.map Prod.snd) ++ zeros rest := by
  have hfields := @setFields_append [] fields h rest
  rw [nil_append, nil_append, Zip.length_writeFields, map_map] at hfields
  exact hfields

theorem setAt_setFields {fields : List (ℕ × ℕ × ℕ)} {width : ℕ} (h : Consecutive 0 fields)
    (hwidth : (fields.map fun field => field.2.1).sum = width) (name : Bytes) :
    setAt (setFields (zeros (width + name.length)) fields) width name =
      Zip.writeFields (fields.map Prod.snd) ++ name := by
  have hlength : (Zip.writeFields (fields.map Prod.snd)).length = width := by
    rw [Zip.length_writeFields, map_map]
    exact hwidth
  have hname := setAt_append (Zip.writeFields (fields.map Prod.snd)) name 0
  rw [hlength, Nat.add_zero] at hname
  rw [← hwidth, setFields_zeros h, hwidth, hname]
  exact append_nil _

def ZipFile.member (file : ZipFile) : Zip.Member :=
  .ofFile ((withSlashes file.name).toText, file.body)

theorem localChunk_eq (date time : ℕ) (file : ZipFile) :
    localChunk date time (crc32 file.body) (Lines.encode (withSlashes file.name).toText)
      file.body = Zip.localHeader time date file.member := by
  rw [localChunk, setAt_setFields, crc32_eq]
  · rfl
  · exact ⟨rfl, rfl, rfl, rfl, rfl, rfl, rfl, rfl, rfl, rfl, rfl, trivial⟩
  · simp only [map_cons, map_nil, sum_cons, sum_nil, setU16, setU32, Nat.reduceAdd]

theorem centralChunk_eq (date time : ℕ) (file : ZipFile) (offset : ℕ) :
    centralChunk date time (crc32 file.body) (Lines.encode (withSlashes file.name).toText)
      file.body offset = Zip.centralHeader time date offset file.member := by
  rw [centralChunk, setAt_setFields, crc32_eq]
  · rfl
  · exact ⟨rfl, rfl, rfl, rfl, rfl, rfl, rfl, rfl, rfl, rfl, rfl, rfl, rfl, rfl, rfl, rfl, rfl,
      trivial⟩
  · simp only [map_cons, map_nil, sum_cons, sum_nil, setU16, setU32, Nat.reduceAdd]

theorem eocdChunk_eq (count size offset : ℕ) :
    eocdChunk count size offset = Zip.endRecord count size offset := by
  have hfields : Consecutive 0 [setU32 0 0x06054b50, setU16 4 0, setU16 6 0, setU16 8 count,
      setU16 10 count, setU32 12 size, setU32 16 offset, setU16 20 0] :=
    ⟨rfl, rfl, rfl, rfl, rfl, rfl, rfl, rfl, trivial⟩
  exact (setFields_zeros hfields 0).trans (append_nil _)

/-- Chunks that fill a buffer are copied one behind the other. -/
theorem foldl_setAt (filled : Bytes) (chunks : List Bytes) (rest : ℕ) :
    (chunks.foldl (fun out chunk => (setAt out.1 out.2 chunk, out.2 + chunk.length))
      (filled ++ zeros ((chunks.map List.length).sum + rest), filled.length)).1 =
      filled ++ chunks.flatten ++ zeros rest := by
  induction chunks generalizing filled with
  | nil =>
    rw [map_nil, sum_nil, Nat.zero_add, flatten_nil, append_nil]
    rfl
  | cons chunk chunks ih =>
    have hstep := ih (filled ++ chunk)
    rw [length_append] at hstep
    rw [foldl_cons, map_cons, sum_cons, Nat.add_assoc, setAt_append, hstep,
      flatten_cons, ← append_assoc]

structure Holds (date time : ℕ) (c : Collected) (members : List Zip.Member) : Prop where
  chunks : c.chunks.flatten = Zip.localPart time date members
  central : c.centralChunks.flatten = Zip.directory time date 0 members
  offset : c.offset = Zip.localLength members
  centralSize : c.centralSize = Zip.directoryLength members
  fits : ∀ member ∈ members, member.Fits

variable {date time : ℕ} {c c' : Collected} {members : List Zip.Member}

theorem Holds.addFile (hc : Holds date time c members) {file : ZipFile}
    (h : addFile date time c file = .ok c') : Holds date time c' (members ++ [file.member]) := by
  unfold StoredZip.addFile at h
  obtain ⟨hname, h⟩ := of_check_eq_ok h
  obtain ⟨hbody, h⟩ := of_check_eq_ok h
  obtain ⟨-, h⟩ := of_check_eq_ok h
  obtain rfl := Except.ok.inj h
  refine ⟨?_, ?_, ?_, ?_, ?_⟩
  · dsimp only
    rw [flatten_append, hc.chunks, Zip.localPart_concat, flatten_cons,
      flatten_singleton, localChunk_eq]
    rfl
  · dsimp only
    rw [flatten_append, hc.central, hc.offset, Zip.directory_concat, Nat.zero_add,
      flatten_singleton, centralChunk_eq]
  · dsimp only
    rw [hc.offset, Zip.localLength_concat, localChunk_eq, Zip.length_localHeader]
    exact Nat.add_assoc _ _ _
  · dsimp only
    rw [hc.centralSize, Zip.directoryLength_concat, centralChunk_eq, Zip.length_centralHeader]
  · refine forall_mem_append.mpr ⟨hc.fits, forall_mem_singleton.mpr ⟨?_, ?_⟩⟩
    · exact Nat.lt_succ_of_le (Nat.not_lt.mp hname)
    · exact Nat.lt_succ_of_le (Nat.not_lt.mp hbody)

theorem Holds.addFiles {files : List ZipFile} (hc : Holds date time c members)
    (h : files.foldlM (StoredZip.addFile date time) c = .ok c') :
    Holds date time c' (members ++ files.map ZipFile.member) := by
  induction files generalizing c members with
  | nil =>
    cases h
    rw [map_nil, append_nil]
    exact hc
  | cons file files ih =>
    obtain ⟨mid, hfirst, hrest⟩ := exists_of_bind_eq_ok h
    have hend := ih (hc.addFile hfirst) hrest
    rw [append_assoc] at hend
    exact hend

theorem createStoredZip_eq_ok {engine : Engine} {files : List ZipFile}
    {modifiedAt : Option LocalDate} {bytes : Bytes}
    (h : createStoredZip engine files modifiedAt = .ok bytes) :
    files.length < 2 ^ 16 ∧ (∀ member ∈ files.map ZipFile.member, member.Fits) ∧
      ∃ date time, bytes = Zip.archive time date (files.map ZipFile.member) := by
  unfold createStoredZip at h
  obtain ⟨hcount, h⟩ := of_check_eq_ok h
  generalize dosDateTime modifiedAt = modified at h
  obtain ⟨date, time⟩ := modified
  obtain ⟨c, hfiles, h⟩ := exists_of_bind_eq_ok h
  have hempty : Holds date time {} [] := ⟨rfl, rfl, rfl, rfl, nofun⟩
  have hc := hempty.addFiles hfiles
  rw [nil_append] at hc
  refine ⟨Nat.lt_succ_of_le (Nat.not_lt.mp hcount), hc.fits, date, time, ?_⟩
  have hlength : ((c.chunks ++ c.centralChunks ++
      [eocdChunk files.length c.centralSize c.offset]).map length).sum =
      c.offset + (c.centralChunks.map length).sum +
        (eocdChunk files.length c.centralSize c.offset).length := by
    have hchunks : (c.chunks.map length).sum = c.offset := by
      rw [← length_flatten, hc.chunks, Zip.length_localPart, hc.offset]
    rw [map_append, map_append, sum_append, sum_append, hchunks, map_singleton, sum_singleton]
  have hcopied := foldl_setAt [] (c.chunks ++ c.centralChunks ++
    [eocdChunk files.length c.centralSize c.offset]) 0
  rw [nil_append, nil_append, Nat.add_zero, hlength, length_nil] at hcopied
  simp only [concatChunks] at h
  split at h
  · cases h
  rw [hcopied] at h
  cases h
  rw [zeros, replicate_zero, append_nil, flatten_append, flatten_append, hc.chunks,
    hc.central, flatten_singleton, eocdChunk_eq, hc.centralSize, hc.offset, Zip.archive,
    Zip.length_directory, Zip.length_localPart, length_map, append_assoc]

theorem toText_withSlashes_ofText {text : Text} (h : '\\' ∉ text) :
    (withSlashes (JsString.ofText text)).toText = text := by
  have hkeep : withSlashes (JsString.ofText text) = JsString.ofText text := by
    have hunits : ∀ unit ∈ JsString.ofText text, (if unit = 0x5C then 0x2F else unit) = unit := by
      intro unit hunit
      refine if_neg ?_
      rintro rfl
      obtain ⟨c, hc, hmem⟩ := mem_flatMap.mp hunit
      have hcode : 0x5C = c.toNat := JsString.toNat_of_mem_ofChar hmem (by decide)
      have hbackslash : Char.ofNat 0x5C = c := by rw [hcode, Char.ofNat_toNat]
      exact h (hbackslash ▸ hc)
    exact (map_congr_left hunits).trans (map_id _)
  rw [hkeep, JsString.toText_ofText]

section Recovered

variable {engine : Engine} {files : List ZipFile} {modifiedAt : Option LocalDate} {bytes : Bytes}
  (h : createStoredZip engine files modifiedAt = .ok bytes)
  (hlocal : Zip.localLength (files.map ZipFile.member) < 2 ^ 32)
  (hdirectory : Zip.directoryLength (files.map ZipFile.member) < 2 ^ 32)

include h hlocal hdirectory

theorem read_eq_members : Zip.read bytes =
    some (files.map fun file => ((withSlashes file.name).toText, file.body)) := by
  obtain ⟨hcount, hfits, date, time, rfl⟩ := createStoredZip_eq_ok h
  have hcrc : ∀ member ∈ files.map ZipFile.member, member.crc = crc32Ieee member.data := by
    intro member hmember
    obtain ⟨file, -, rfl⟩ := mem_map.mp hmember
    rfl
  have hcount' : (files.map ZipFile.member).length < 2 ^ 16 := by
    rw [length_map]
    exact hcount
  rw [Zip.read_archive ⟨hfits, hcount', hlocal, hdirectory⟩ hcrc, map_map]
  rfl

/-- From an archive whose parts are not too long, a reader recovers the files: their contents,
and their names with slashes for backslashes and the replacement character for single
surrogates. Other names are recovered as they are. -/
theorem read_of_createStoredZip :
    Zip.read bytes = some (files.map fun file => ((withSlashes file.name).toText, file.body)) ∧
      ∀ text, '\\' ∉ text → (withSlashes (JsString.ofText text)).toText = text :=
  ⟨read_eq_members h hlocal hdirectory, fun _ => toText_withSlashes_ofText⟩

end Recovered

def smallEngine : Engine := ⟨1000, []⟩

def twoFiles : List ZipFile := [⟨[0x61, 0x2F, 0x62], [1, 2]⟩, ⟨[0x63], [3]⟩]

theorem read_of_createStoredZip_two :
    ∃ bytes, createStoredZip smallEngine twoFiles none = .ok bytes ∧
      Zip.read bytes = some [(['a', '/', 'b'], [1, 2]), (['c'], [3])] ∧
      ∀ text, '\\' ∉ text → (withSlashes (JsString.ofText text)).toText = text := by
  obtain ⟨bytes, hzip⟩ := exists_of_isOk (show
    (createStoredZip smallEngine twoFiles none).isOk = true by decide +kernel)
  exact ⟨bytes, hzip, read_of_createStoredZip hzip (by decide) (by decide)⟩

/-- A file with a backslash in its name is read back under another name. -/
theorem read_backslash :
    ∃ bytes, createStoredZip smallEngine [⟨JsString.ofText ['a', '\\', 'b'], []⟩] none =
        .ok bytes ∧
      Zip.read bytes = some [(['a', '/', 'b'], [])] ∧
      Zip.read bytes ≠ some [(['a', '\\', 'b'], [])] := by
  obtain ⟨bytes, hzip⟩ := exists_of_isOk (show
    (createStoredZip smallEngine [⟨JsString.ofText ['a', '\\', 'b'], []⟩] none).isOk = true by
      decide +kernel)
  have hread := read_eq_members hzip (by decide) (by decide)
  refine ⟨bytes, hzip, hread, ?_⟩
  rw [hread]
  decide

end TraceMux.Web.StoredZip
