/-
# Stored archives

The ZIP format without compression and without its extensions for large files. An archive is
read from its end: the end record says where the directory is, the directory where each file
is, and the header in front of a file must say the same as the directory about it.

The reader checks everything that is written twice. What a writer lays out in this order is
read back whole when every number fits the field it is written to; a number that does not fit
is cut to its low-order bytes and the archive is not the one that was meant.
-/

import TraceMux.Base.Crc32
import TraceMux.Base.StreamDecoder

namespace TraceMux.Base.Zip

open List

/-- Numbers in fields of the given widths, one after the other. -/
def writeFields (fields : List (ℕ × ℕ)) : Bytes := fields.flatMap fun field =>
  toLeBytes field.1 field.2

/-- The numbers in fields of the given widths, and what is behind them. -/
def readFields : List ℕ → Bytes → Option (List ℕ × Bytes)
  | [], bytes => some ([], bytes)
  | width :: widths, bytes =>
    if width ≤ bytes.length then
      (readFields widths (bytes.drop width)).map fun later =>
        (fromLeBytes (bytes.take width) :: later.1, later.2)
    else none

/-- A number is read back as far as its field goes. -/
theorem readFields_writeFields (fields : List (ℕ × ℕ)) (rest : Bytes) :
    readFields (fields.map Prod.fst) (writeFields fields ++ rest) =
      some (fields.map fun field => field.2 % 256 ^ field.1, rest) := by
  induction fields with
  | nil => rfl
  | cons field fields ih =>
    have hbytes : writeFields (field :: fields) ++ rest =
        toLeBytes field.1 field.2 ++ (writeFields fields ++ rest) := by
      rw [writeFields, flatMap_cons, append_assoc]
      rfl
    have hwidth : field.1 ≤ (writeFields (field :: fields) ++ rest).length := by
      rw [hbytes, length_append, toLeBytes_length]
      exact Nat.le_add_right _ _
    rw [map_cons, readFields, if_pos hwidth, hbytes, drop_left' (toLeBytes_length _ _),
      take_left' (toLeBytes_length _ _), ih, fromLeBytes_toLeBytes_mod]
    rfl

theorem length_writeFields (fields : List (ℕ × ℕ)) :
    (writeFields fields).length = (fields.map Prod.fst).sum := by
  induction fields with
  | nil => rfl
  | cons field fields ih =>
    rw [writeFields, flatMap_cons, length_append, toLeBytes_length, map_cons, sum_cons, ← ih]
    rfl

/-- What a header says about a file. -/
structure Record where
  flags : ℕ
  method : ℕ
  crc : ℕ
  compressedSize : ℕ
  size : ℕ
  name : Bytes
  deriving DecidableEq, Repr

/-- The header in front of a file, and what is behind it. -/
def readLocal (bytes : Bytes) : Option (Record × Bytes) :=
  match readFields [4, 2, 2, 2, 2, 2, 4, 4, 4, 2, 2] bytes with
  | some ([signature, _, flags, method, _, _, crc, compressedSize, size, nameLength,
        extraLength], rest) =>
      if signature = 0x04034b50 ∧ nameLength + extraLength ≤ rest.length then
        some (⟨flags, method, crc, compressedSize, size, rest.take nameLength⟩,
          rest.drop (nameLength + extraLength))
      else none
  | _ => none

/-- A header in the directory with the place of the file, and what is behind it. -/
def readCentral (bytes : Bytes) : Option ((Record × ℕ) × Bytes) :=
  match readFields [4, 2, 2, 2, 2, 2, 2, 4, 4, 4, 2, 2, 2, 2, 2, 4, 4] bytes with
  | some ([signature, _, _, flags, method, _, _, crc, compressedSize, size, nameLength,
        extraLength, commentLength, disk, _, _, offset], rest) =>
      if signature = 0x02014b50 ∧ disk = 0 ∧
          nameLength + extraLength + commentLength ≤ rest.length then
        some ((⟨flags, method, crc, compressedSize, size, rest.take nameLength⟩, offset),
          rest.drop (nameLength + extraLength + commentLength))
      else none
  | _ => none

/-- So many headers, and what is behind them. -/
def readDirectory : ℕ → Bytes → Option (List (Record × ℕ) × Bytes)
  | 0, bytes => some ([], bytes)
  | count + 1, bytes =>
    match readCentral bytes with
    | some (first, rest) =>
      (readDirectory count rest).map fun later => (first :: later.1, later.2)
    | none => none

/-- Where the directory is. -/
structure EndRecord where
  count : ℕ
  size : ℕ
  offset : ℕ
  deriving DecidableEq, Repr

/-- The end record at a position. Nothing but its comment is behind it. -/
def readEnd (archive : Bytes) (position : ℕ) : Option EndRecord :=
  match readFields [4, 2, 2, 2, 2, 4, 4, 2] (archive.drop position) with
  | some ([signature, disk, start, countHere, count, size, offset, commentLength], rest) =>
    if signature = 0x06054b50 ∧ disk = 0 ∧ start = 0 ∧ countHere = count ∧
        commentLength = rest.length then
      some ⟨count, size, offset⟩
    else none
  | _ => none

def findEnd (archive : Bytes) : Option (ℕ × EndRecord) :=
  (List.range (archive.length - 21)).reverse.findSome? fun position =>
    (readEnd archive position).map fun record => (position, record)

def decodeName (flags : ℕ) (name : Bytes) : Option Text :=
  if flags.testBit 11 ∧ StreamDecoder.hadErrors (Utf8.decoder.decode name) = false then
    some (StreamDecoder.replaced (Utf8.decoder.decode name))
  else none

/-- The file that a header of the directory is about. -/
def readEntry (archive : Bytes) (entry : Record × ℕ) : Option (Text × Bytes) :=
  match readLocal (archive.drop entry.2) with
  | some (record, rest) =>
    if record = entry.1 ∧ record.method = 0 ∧ record.compressedSize = record.size ∧
        record.size ≤ rest.length ∧ (crc32Ieee (rest.take record.size)).toNat = record.crc then
      (decodeName record.flags record.name).map fun name => (name, rest.take record.size)
    else none
  | none => none

def readEntries (archive : Bytes) : Option (List (Record × ℕ)) :=
  match findEnd archive with
  | some (position, record) =>
    if record.offset + record.size = position then
      match readDirectory record.count ((archive.drop record.offset).take record.size) with
      | some (entries, []) => some entries
      | _ => none
    else none
  | none => none

/-- The names and contents of the files of an archive, in the order of the directory. -/
def read (archive : Bytes) : Option (List (Text × Bytes)) :=
  (readEntries archive).bind fun entries => entries.mapM (readEntry archive)

/-- The names of the files of an archive, whatever their contents. -/
def readNames (archive : Bytes) : Option (List Text) :=
  (readEntries archive).bind fun entries =>
    entries.mapM fun entry => decodeName entry.1.flags entry.1.name

/-- A file of an archive with the checksum its headers give. -/
structure Member where
  name : Text
  crc : UInt32
  data : Bytes
  deriving DecidableEq, Repr

namespace Member

def ofFile (file : Text × Bytes) : Member := ⟨file.1, crc32Ieee file.2, file.2⟩

def nameBytes (member : Member) : Bytes := Lines.encode member.name

def localLength (member : Member) : ℕ := 30 + member.nameBytes.length + member.data.length

/-- What the headers of a file say. -/
def record (member : Member) : Record where
  flags := 0x0800
  method := 0
  crc := member.crc.toNat
  compressedSize := member.data.length
  size := member.data.length
  name := member.nameBytes

/-- The numbers of a file fit the fields they are written to. -/
structure Fits (member : Member) : Prop where
  name : member.nameBytes.length < 2 ^ 16
  data : member.data.length < 2 ^ 32

end Member

section Layout

variable (time date : ℕ)

/-- The header in front of a file. -/
def localHeader (member : Member) : Bytes :=
  writeFields [(4, 0x04034b50), (2, 20), (2, 0x0800), (2, 0), (2, time), (2, date),
    (4, member.crc.toNat), (4, member.data.length), (4, member.data.length),
    (2, member.nameBytes.length), (2, 0)] ++ member.nameBytes

/-- The header of a file in the directory. -/
def centralHeader (offset : ℕ) (member : Member) : Bytes :=
  writeFields [(4, 0x02014b50), (2, 20), (2, 20), (2, 0x0800), (2, 0), (2, time), (2, date),
    (4, member.crc.toNat), (4, member.data.length), (4, member.data.length),
    (2, member.nameBytes.length), (2, 0), (2, 0), (2, 0), (2, 0), (4, 0), (4, offset)] ++
      member.nameBytes

def endRecord (count size offset : ℕ) : Bytes :=
  writeFields [(4, 0x06054b50), (2, 0), (2, 0), (2, count), (2, count), (4, size), (4, offset),
    (2, 0)]

/-- The files with their headers. -/
def localPart (members : List Member) : Bytes :=
  members.flatMap fun member => localHeader time date member ++ member.data

def directory : ℕ → List Member → Bytes
  | _, [] => []
  | offset, member :: members =>
    centralHeader time date offset member ++ directory (offset + member.localLength) members

def archive (members : List Member) : Bytes :=
  localPart time date members ++ (directory time date 0 members ++
    endRecord members.length (directory time date 0 members).length
      (localPart time date members).length)

end Layout

/-- The length of files with their headers. -/
def localLength (members : List Member) : ℕ := (members.map Member.localLength).sum

def directoryLength (members : List Member) : ℕ :=
  (members.map fun member => 46 + member.nameBytes.length).sum

/-- Every number of an archive fits the field it is written to. -/
structure Fits (members : List Member) : Prop where
  member : ∀ member ∈ members, member.Fits
  count : members.length < 2 ^ 16
  offset : localLength members < 2 ^ 32
  size : directoryLength members < 2 ^ 32

section ReadBack

variable (time date : ℕ)

theorem length_localHeader (member : Member) :
    (localHeader time date member).length = 30 + member.nameBytes.length := by
  rw [localHeader, length_append, length_writeFields]
  simp only [map_cons, map_nil, sum_cons, sum_nil]
  omega

theorem length_centralHeader (offset : ℕ) (member : Member) :
    (centralHeader time date offset member).length = 46 + member.nameBytes.length := by
  rw [centralHeader, length_append, length_writeFields]
  simp only [map_cons, map_nil, sum_cons, sum_nil]
  omega

theorem length_localRecord (member : Member) :
    (localHeader time date member ++ member.data).length = member.localLength := by
  rw [length_append, length_localHeader, Member.localLength]

theorem length_localPart (members : List Member) :
    (localPart time date members).length = localLength members := by
  induction members with
  | nil => rfl
  | cons member members ih =>
    rw [localPart, flatMap_cons, length_append, length_localRecord, localLength, map_cons, sum_cons]
    exact congrArg _ ih

theorem length_directory (offset : ℕ) (members : List Member) :
    (directory time date offset members).length = directoryLength members := by
  induction members generalizing offset with
  | nil => rfl
  | cons member members ih =>
    rw [directory, length_append, length_centralHeader, ih]
    rfl

variable {time date}

theorem mod_two {n : ℕ} (h : n < 2 ^ 16) : n % 256 ^ 2 = n := Nat.mod_eq_of_lt h

theorem mod_four {n : ℕ} (h : n < 2 ^ 32) : n % 256 ^ 4 = n := Nat.mod_eq_of_lt h

variable {member : Member} {offset : ℕ} {members : List Member}

theorem readLocal_localHeader (h : member.Fits) (rest : Bytes) :
    readLocal (localHeader time date member ++ rest) = some (member.record, rest) := by
  have hcrc : member.crc.toNat % 256 ^ 4 = member.crc.toNat := mod_four member.crc.toNat_lt
  have hfields := readFields_writeFields [(4, 0x04034b50), (2, 20), (2, 0x0800), (2, 0),
    (2, time), (2, date), (4, member.crc.toNat), (4, member.data.length),
    (4, member.data.length), (2, member.nameBytes.length), (2, 0)] (member.nameBytes ++ rest)
  simp only [map_cons, map_nil] at hfields
  rw [readLocal, localHeader, append_assoc, hfields]
  simp only [hcrc, mod_four h.data, mod_two h.name]
  rw [if_pos ⟨by decide, by rw [length_append]; omega⟩, take_left]
  rw [Nat.zero_mod, Nat.add_zero, drop_left]
  rfl

theorem readCentral_centralHeader (h : member.Fits) (hoffset : offset < 2 ^ 32) (rest : Bytes) :
    readCentral (centralHeader time date offset member ++ rest) =
      some ((member.record, offset), rest) := by
  have hcrc : member.crc.toNat % 256 ^ 4 = member.crc.toNat := mod_four member.crc.toNat_lt
  have hfields := readFields_writeFields [(4, 0x02014b50), (2, 20), (2, 20), (2, 0x0800), (2, 0),
    (2, time), (2, date), (4, member.crc.toNat), (4, member.data.length),
    (4, member.data.length), (2, member.nameBytes.length), (2, 0), (2, 0), (2, 0), (2, 0), (4, 0),
    (4, offset)] (member.nameBytes ++ rest)
  simp only [map_cons, map_nil] at hfields
  rw [readCentral, centralHeader, append_assoc, hfields]
  simp only [hcrc, mod_four h.data, mod_two h.name, mod_four hoffset]
  rw [if_pos ⟨by decide, by decide, by rw [length_append]; omega⟩, take_left]
  rw [Nat.zero_mod, Nat.add_zero, drop_left]
  rfl

/-- The headers of files that begin at an offset. -/
def recordsFrom : ℕ → List Member → List (Record × ℕ)
  | _, [] => []
  | offset, member :: members =>
    (member.record, offset) :: recordsFrom (offset + member.localLength) members

theorem localLength_cons (member : Member) (members : List Member) :
    localLength (member :: members) = member.localLength + localLength members := rfl

/-! A file that comes last. -/

theorem localPart_concat (members : List Member) (member : Member) :
    localPart time date (members ++ [member]) =
      localPart time date members ++ (localHeader time date member ++ member.data) := by
  rw [localPart, flatMap_append, flatMap_singleton, localPart]

theorem localLength_concat (members : List Member) (member : Member) :
    localLength (members ++ [member]) = localLength members + member.localLength := by
  rw [localLength, map_append, sum_append, map_singleton, sum_singleton, localLength]

theorem directoryLength_concat (members : List Member) (member : Member) :
    directoryLength (members ++ [member]) =
      directoryLength members + (46 + member.nameBytes.length) := by
  rw [directoryLength, map_append, sum_append, map_singleton, sum_singleton, directoryLength]

theorem directory_concat (offset : ℕ) (members : List Member) (member : Member) :
    directory time date offset (members ++ [member]) =
      directory time date offset members ++
        centralHeader time date (offset + localLength members) member := by
  induction members generalizing offset with
  | nil => exact append_nil _
  | cons first members ih =>
    rw [cons_append, directory, ih, directory, localLength_cons, append_assoc, Nat.add_assoc]

theorem readDirectory_directory (h : ∀ member ∈ members, member.Fits)
    (hoffset : offset + localLength members < 2 ^ 32) :
    readDirectory members.length (directory time date offset members) =
      some (recordsFrom offset members, []) := by
  induction members generalizing offset with
  | nil => rfl
  | cons member members ih =>
    rw [forall_mem_cons] at h
    rw [localLength_cons, ← Nat.add_assoc] at hoffset
    rw [directory, length_cons, readDirectory, readCentral_centralHeader h.1 (by omega)]
    simp only [ih h.2 hoffset, Option.map_some]
    rfl

theorem decodeName_encode (name : Text) :
    decodeName 0x0800 (Lines.encode name) = some name := by
  have hclean : StreamDecoder.hadErrors (Utf8.decoder.decode (Lines.encode name)) = false := by
    rw [Utf8.decode_encode]
    simp [StreamDecoder.hadErrors]
  rw [decodeName, if_pos ⟨by decide, hclean⟩, Utf8.decode_encode, StreamDecoder.replaced, map_map]
  exact congrArg some (map_id name)

/-- A file is found where its record says. -/
theorem readEntry_record (h : member.Fits) (hcrc : member.crc = crc32Ieee member.data)
    (before behind : Bytes) :
    readEntry (before ++ (localHeader time date member ++ (member.data ++ behind)))
      (member.record, before.length) = some (member.name, member.data) := by
  have hfits : member.record.size ≤ (member.data ++ behind).length := by
    rw [length_append]
    exact Nat.le_add_right _ _
  have htake : (member.data ++ behind).take member.record.size = member.data := take_left
  have hchecked : (crc32Ieee member.data).toNat = member.record.crc := by
    rw [← hcrc]
    rfl
  rw [readEntry, drop_left, readLocal_localHeader h]
  simp only
  rw [if_pos ⟨trivial, rfl, rfl, hfits, by rw [htake, hchecked]⟩, htake]
  change (decodeName 0x0800 (Lines.encode member.name)).map _ = _
  rw [decodeName_encode]
  rfl

/-- So are all of them. -/
theorem mapM_readEntry (h : ∀ member ∈ members, member.Fits)
    (hcrc : ∀ member ∈ members, member.crc = crc32Ieee member.data) (before behind : Bytes) :
    (recordsFrom before.length members).mapM
      (readEntry (before ++ (localPart time date members ++ behind))) =
        some (members.map fun member => (member.name, member.data)) := by
  induction members generalizing before with
  | nil => rfl
  | cons member members ih =>
    rw [forall_mem_cons] at h hcrc
    have hlayout : before ++ (localPart time date (member :: members) ++ behind) =
        before ++ (localHeader time date member ++
          (member.data ++ (localPart time date members ++ behind))) := by
      simp only [localPart, flatMap_cons, append_assoc]
    have hbefore : (before ++ (localHeader time date member ++ member.data)).length =
        before.length + member.localLength := by
      rw [length_append, length_localRecord]
    have hrest := ih h.2 hcrc.2 (before ++ (localHeader time date member ++ member.data))
    rw [hbefore, append_assoc, append_assoc] at hrest
    rw [recordsFrom, mapM_cons, hlayout, readEntry_record h.1 hcrc.1, hrest]
    rfl

theorem mapM_decodeName (members : List Member) (offset : ℕ) :
    (recordsFrom offset members).mapM (fun entry => decodeName entry.1.flags entry.1.name) =
      some (members.map Member.name) := by
  induction members generalizing offset with
  | nil => rfl
  | cons member members ih =>
    have hname : decodeName member.record.flags member.record.name = some member.name :=
      decodeName_encode member.name
    rw [recordsFrom, mapM_cons, hname, ih]
    rfl

/-- The end record is the last thing in an archive. -/
theorem findEnd_endRecord {count size : ℕ} (hcount : count < 2 ^ 16) (hsize : size < 2 ^ 32)
    (hoffset : offset < 2 ^ 32) (before : Bytes) :
    findEnd (before ++ endRecord count size offset) =
      some (before.length, ⟨count, size, offset⟩) := by
  have hlength : (endRecord count size offset).length = 22 := by
    rw [endRecord, length_writeFields]
    simp only [map_cons, map_nil, sum_cons, sum_nil]
    omega
  have hrange : (before ++ endRecord count size offset).length - 21 = before.length + 1 := by
    rw [length_append, hlength]
    omega
  have hfields := readFields_writeFields [(4, 0x06054b50), (2, 0), (2, 0), (2, count), (2, count),
    (4, size), (4, offset), (2, 0)] []
  simp only [map_cons, map_nil, append_nil] at hfields
  have hread : readEnd (before ++ endRecord count size offset) before.length =
      some ⟨count, size, offset⟩ := by
    rw [readEnd, drop_left, endRecord, hfields]
    simp only [mod_two hcount, mod_four hsize, mod_four hoffset]
    rw [if_pos ⟨by decide, by decide, by decide, trivial, by decide⟩]
  rw [findEnd, hrange, range_succ, reverse_append, reverse_singleton,
    singleton_append, findSome?_cons, hread]
  rfl

theorem readEntries_archive (h : Fits members) :
    readEntries (archive time date members) = some (recordsFrom 0 members) := by
  have hlayout : archive time date members = localPart time date members ++
      (directory time date 0 members ++ endRecord members.length (directoryLength members)
        (localLength members)) := by
    rw [archive, length_directory, length_localPart]
  have hend : findEnd (archive time date members) =
      some (localLength members + directoryLength members,
        ⟨members.length, directoryLength members, localLength members⟩) := by
    rw [hlayout, ← append_assoc, findEnd_endRecord h.count h.size h.offset,
      length_append, length_localPart, length_directory]
  have hdirectory : ((archive time date members).drop (localLength members)).take
      (directoryLength members) = directory time date 0 members := by
    rw [hlayout, drop_left' (length_localPart time date members),
      take_left' (length_directory time date 0 members)]
  have hoffset : 0 + localLength members < 2 ^ 32 := by
    rw [Nat.zero_add]
    exact h.offset
  unfold readEntries
  rw [hend]
  dsimp only
  rw [if_pos rfl, hdirectory, readDirectory_directory h.member hoffset]

/-- An archive in which every number fits and the checksums are right is read back whole. -/
theorem read_archive (h : Fits members)
    (hcrc : ∀ member ∈ members, member.crc = crc32Ieee member.data) :
    read (archive time date members) =
      some (members.map fun member => (member.name, member.data)) := by
  rw [read, readEntries_archive h]
  exact mapM_readEntry h.member hcrc [] _

theorem readNames_archive (h : Fits members) :
    readNames (archive time date members) = some (members.map Member.name) := by
  rw [readNames, readEntries_archive h]
  exact mapM_decodeName members 0

end ReadBack

end TraceMux.Base.Zip
