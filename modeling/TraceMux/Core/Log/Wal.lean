/-
# The write-ahead log

A log file is a twelve-byte header followed by records: a length, a checksum of
the payload, and the payload, all little-endian. Opening a log for writing scans
it from the header, keeps the longest prefix of readable records and cuts the
file behind it; reading a log returns the records of that same prefix.

The checksum is a parameter. Recovery compares a stored checksum only with the
checksum of the bytes stored beside it, so nothing here depends on which
function it is.
-/

import TraceMux.Base.Crc32
import TraceMux.Core.ErrorId

namespace TraceMux.Core.Log.Wal

open Base List

/-- The bytes `WLOG` at the start of every log file. -/
def magic : Bytes := [0x57, 0x4C, 0x4F, 0x47]

def formatVersion : ℕ := 1

def headerLen : ℕ := 12

def maxPayload : ℕ := 1024 * 1024

def u32Max : ℕ := 2 ^ 32 - 1

/-- The header of a fresh log: magic, version, and six zero bytes. -/
def header : Bytes := magic ++ toLeBytes 2 formatVersion ++ List.replicate 6 0

/-- Wrap a file error. -/
def ioErr (e : IoError) : TraceMuxError :=
  ⟨.E1001PipelineGeneric, s!"wal io: {e.display}"⟩

def writeHeader (file : OpenFile) : OpenFile := file.writeAll header

/-- Check magic and version, and leave the cursor behind the header. -/
def verifyHeader (file : OpenFile) : Except TraceMuxError OpenFile :=
  match (file.seekStart 0).readExact headerLen with
  | .error e => .error (ioErr e)
  | .ok (h, file) =>
    if h.take 4 ≠ magic then
      .error ⟨.E1001PipelineGeneric, "wal: bad magic"⟩
    else
      let ver := fromLeBytes ((h.drop 4).take 2)
      if ver ≠ formatVersion then
        .error ⟨.E1001PipelineGeneric, s!"wal: unsupported version {ver}"⟩
      else .ok file

structure WalRecord where
  offset : ℕ
  payload : Bytes
  deriving DecidableEq, Repr

section Checksum

variable (crc32 : Bytes → UInt32)

/-- The reading loop. It stops at the first record that cannot be read in full,
is longer than the limit, or does not match its checksum. -/
def readLoop (file : OpenFile) (pos : ℕ) (out : List WalRecord) :
    Except TraceMuxError (List WalRecord × ℕ) :=
  match _hhdr : file.readExact 8 with
  | .error .unexpectedEof => .ok (out, pos)
  | .error e => .error (ioErr e)
  | .ok (hdr, afterHdr) =>
    let len := fromLeBytes (hdr.take 4)
    let crc := fromLeBytes (hdr.drop 4)
    if maxPayload < len then .ok (out, pos)
    else
      match hpay : afterHdr.readExact len with
      | .error .unexpectedEof => .ok (out, pos)
      | .error e => .error (ioErr e)
      | .ok (payload, afterPayload) =>
        if (crc32 payload).toNat ≠ crc then .ok (out, pos)
        else
          let payloadOff := pos + 8
          readLoop afterPayload (payloadOff + len) (out ++ [⟨payloadOff, payload⟩])
termination_by file.remaining.length
decreasing_by
  have hfirst := OpenFile.readExact_remaining _hhdr
  have hle := (OpenFile.readExact_ok _hhdr).1
  rw [OpenFile.readExact_remaining hpay, hfirst]
  simp only [List.length_drop]
  omega

/-- Open a log for reading and read every valid record. The second component is
the offset at which scanning stopped. -/
def readAll (bytes : Bytes) : Except TraceMuxError (List WalRecord × ℕ) :=
  match verifyHeader ⟨bytes, 0⟩ with
  | .error e => .error e
  | .ok file => readLoop crc32 file headerLen []

/-- The recovery loop of the writer, given the length of the file. -/
def scanLoop (len : ℕ) (file : OpenFile) (pos : ℕ) : Except TraceMuxError ℕ :=
  if pos = len then .ok pos
  else
    match _hhdr : file.readExact 8 with
    | .error .unexpectedEof => .ok pos
    | .error e => .error (ioErr e)
    | .ok (hdr, afterHdr) =>
      let rlen := fromLeBytes (hdr.take 4)
      let rcrc := fromLeBytes (hdr.drop 4)
      if maxPayload < rlen then .ok pos
      else if len < pos + 8 + rlen then .ok pos
      else
        match hpay : afterHdr.readExact rlen with
        | .error .unexpectedEof => .ok pos
        | .error e => .error (ioErr e)
        | .ok (payload, afterPayload) =>
          if (crc32 payload).toNat ≠ rcrc then .ok pos
          else scanLoop len afterPayload (pos + (8 + rlen))
termination_by file.remaining.length
decreasing_by
  have hfirst := OpenFile.readExact_remaining _hhdr
  have hle := (OpenFile.readExact_ok _hhdr).1
  rw [OpenFile.readExact_remaining hpay, hfirst]
  simp only [List.length_drop]
  omega

/-- The end of the valid prefix of a file whose header has been checked. -/
def scanValidEnd (file : OpenFile) (len : ℕ) : Except TraceMuxError ℕ :=
  scanLoop crc32 len (file.seekStart headerLen) headerLen

/-- An open log: the file with its cursor, and the logical end. -/
structure WalWriter where
  file : OpenFile
  «end» : ℕ
  deriving DecidableEq, Repr

/-- Open a log with the given contents, recovering a torn tail. A missing file
is created empty, so it is opened with no bytes. -/
def WalWriter.openWal (bytes : Bytes) : Except TraceMuxError WalWriter :=
  let file : OpenFile := ⟨bytes, 0⟩
  let len := file.bytes.length
  if len = 0 then
    let file := writeHeader file
    -- The length was taken before the header went in, so the file is resized.
    .ok ⟨(file.setLen headerLen).seekStart headerLen, headerLen⟩
  else
    match verifyHeader file with
    | .error e => .error e
    | .ok file =>
      match scanValidEnd crc32 file len with
      | .error e => .error e
      | .ok stop =>
        let file := if stop ≠ len then file.setLen stop else file
        .ok ⟨file.seekStart stop, stop⟩

/-- Append one record and return the offset of its payload. -/
def WalWriter.append (w : WalWriter) (payload : Bytes) :
    Except TraceMuxError (ℕ × WalWriter) :=
  let len := payload.length
  if u32Max < len then
    .error ⟨.E1001PipelineGeneric, s!"wal: payload {len} > u32::MAX"⟩
  else if maxPayload < len then
    .error ⟨.E1003FramerOverflow, s!"wal: payload {len} > MAX_PAYLOAD={maxPayload}"⟩
  else
    let crc := (crc32 payload).toNat
    let payloadOff := w.end + 8
    let hdr := toLeBytes 4 len ++ toLeBytes 4 crc
    let file := (w.file.writeAll hdr).writeAll payload
    .ok (payloadOff, ⟨file, payloadOff + len⟩)

/-- Append payloads one after the other, collecting the offsets. -/
def WalWriter.appendAll (w : WalWriter) : List Bytes → Except TraceMuxError (List ℕ × WalWriter)
  | [] => .ok ([], w)
  | payload :: rest =>
    match w.append crc32 payload with
    | .error e => .error e
    | .ok (off, w) =>
      match WalWriter.appendAll w rest with
      | .error e => .error e
      | .ok (offs, w) => .ok (off :: offs, w)

def written (payloads : List Bytes) : Except TraceMuxError (List ℕ × WalWriter) :=
  match WalWriter.openWal crc32 [] with
  | .error e => .error e
  | .ok w => w.appendAll crc32 payloads

variable {payloads : List Bytes}

/-- One record as it stands in the file. -/
def encodeRecord (payload : Bytes) : Bytes :=
  toLeBytes 4 payload.length ++ toLeBytes 4 (crc32 payload).toNat ++ payload

def encodeRecords (payloads : List Bytes) : Bytes :=
  (payloads.map (encodeRecord crc32)).flatten

/-- The records that `payloads` decode to when the first one starts at `pos`. -/
def recordsFrom : ℕ → List Bytes → List WalRecord
  | _, [] => []
  | pos, payload :: rest => ⟨pos + 8, payload⟩ :: recordsFrom (pos + 8 + payload.length) rest

/-- The records of a log with these payloads whose bytes lie wholly inside the
first `n` bytes of the file, in append order. -/
def wholeRecords (payloads : List Bytes) (n : ℕ) : List WalRecord :=
  (recordsFrom headerLen payloads).filter fun r => r.offset + r.payload.length ≤ n

/-- A torn tail: a proper part of one more record, possibly empty. -/
def TornTail (tail : Bytes) : Prop :=
  ∃ payload k, payload.length ≤ maxPayload ∧ k < 8 + payload.length ∧
    tail = (encodeRecord crc32 payload).take k

variable {crc32}

@[simp]
theorem encodeRecord_length (payload : Bytes) :
    (encodeRecord crc32 payload).length = 8 + payload.length := by
  simp only [encodeRecord, length_append, toLeBytes_length]

@[simp]
theorem encodeRecords_nil : encodeRecords crc32 [] = [] := rfl

theorem encodeRecords_cons (payload : Bytes) (rest : List Bytes) :
    encodeRecords crc32 (payload :: rest) =
      encodeRecord crc32 payload ++ encodeRecords crc32 rest := by
  simp [encodeRecords]

theorem behind_encodeRecord (pos : ℕ) (payload : Bytes) (rest : List Bytes) :
    pos + 8 + payload.length + (encodeRecords crc32 rest).length =
      pos + (encodeRecords crc32 (payload :: rest)).length := by
  rw [encodeRecords_cons, length_append, encodeRecord_length]
  omega

theorem encodeRecords_append (first second : List Bytes) :
    encodeRecords crc32 (first ++ second) =
      encodeRecords crc32 first ++ encodeRecords crc32 second := by
  simp [encodeRecords]

variable (crc32) in
theorem recordsFrom_append (pos : ℕ) (first second : List Bytes) :
    recordsFrom pos (first ++ second) =
      recordsFrom pos first ++
        recordsFrom (pos + (encodeRecords crc32 first).length) second := by
  induction first generalizing pos with
  | nil => simp [recordsFrom]
  | cons payload rest ih =>
    simp [recordsFrom, ih, behind_encodeRecord]

variable {pos len : ℕ} {payload hdr bytes : Bytes}

theorem offset_of_mem_recordsFrom {r : WalRecord} (h : r ∈ recordsFrom pos payloads) :
    pos + 8 ≤ r.offset := by
  induction payloads generalizing pos with
  | nil => simp [recordsFrom] at h
  | cons payload rest ih =>
    simp only [recordsFrom, mem_cons] at h
    rcases h with rfl | h
    · exact le_rfl
    · have := ih h
      omega

/-! ## One record at a time

Both loops test the bytes at the cursor in the same way. `nextRecord` is that
test on its own; each loop is stated through it once, and every later fact is
about `nextRecord`.
-/

variable {file : OpenFile}

variable (crc32) in
/-- The record at the cursor, if one can be read in full and matches its checksum. -/
def nextRecord (file : OpenFile) : Option (Bytes × OpenFile) :=
  match file.readExact 8 with
  | .error _ => none
  | .ok (hdr, afterHdr) =>
    if maxPayload < fromLeBytes (hdr.take 4) then none
    else
      match afterHdr.readExact (fromLeBytes (hdr.take 4)) with
      | .error _ => none
      | .ok (payload, afterPayload) =>
        if (crc32 payload).toNat ≠ fromLeBytes (hdr.drop 4) then none
        else some (payload, afterPayload)

/-- What a found record says about the bytes at the cursor: they begin with that record,
and the cursor moves behind it. -/
theorem nextRecord_some {after : OpenFile} (h : nextRecord crc32 file = some (payload, after)) :
    payload.length ≤ maxPayload ∧
      file.remaining = encodeRecord crc32 payload ++ after.remaining := by
  revert h
  fun_cases nextRecord crc32 file with
  | case5 hdr afterHdr hhdr hmax payload' afterPayload hpay hcrc =>
    rintro ⟨⟩
    obtain ⟨-, hhdrData, -⟩ := OpenFile.readExact_ok hhdr
    obtain ⟨-, hdata, -⟩ := OpenFile.readExact_ok hpay
    have hlen := OpenFile.readExact_length hpay
    have hhdrLen := OpenFile.readExact_length hhdr
    have hlenBytes := toLeBytes_fromLeBytes (hdr.take 4)
    have hcrcBytes := toLeBytes_fromLeBytes (hdr.drop 4)
    rw [show (hdr.take 4).length = 4 by simp [hhdrLen], ← hlen] at hlenBytes
    rw [show (hdr.drop 4).length = 4 by simp [hhdrLen], ← not_not.mp hcrc] at hcrcBytes
    have hfields : toLeBytes 4 payload.length ++ toLeBytes 4 (crc32 payload).toNat = hdr := by
      rw [hlenBytes, hcrcBytes, take_append_drop]
    refine ⟨by omega, ?_⟩
    rw [encodeRecord, hfields, hhdrData, hdata, append_assoc, OpenFile.readExact_remaining hpay,
      take_append_drop, OpenFile.readExact_remaining hhdr, take_append_drop]
  | _ => rintro ⟨⟩

/-- The reading loop goes on behind a record it finds, and stops otherwise. -/
theorem readLoop_eq (file : OpenFile) (pos : ℕ) (out : List WalRecord) :
    readLoop crc32 file pos out =
      match nextRecord crc32 file with
      | none => .ok (out, pos)
      | some (payload, after) =>
        readLoop crc32 after (pos + 8 + payload.length) (out ++ [⟨pos + 8, payload⟩]) := by
  rw [readLoop, nextRecord]
  split
  · next h => simp only [h]
  · next he h => exact absurd (OpenFile.readExact_error h).1 he
  · next hdr afterHdr h =>
    simp only [h]
    split
    · rfl
    · split
      · next hp => simp only [hp]
      · next he hp => exact absurd (OpenFile.readExact_error hp).1 he
      · next payload afterPayload hp =>
        simp only [hp]
        split
        · rfl
        · simp only [OpenFile.readExact_length hp]

/-- The recovery scan of a whole file does the same: its two extra tests against
the length of the file never decide differently. -/
theorem scanLoop_eq (hpos : pos + file.remaining.length = len) :
    scanLoop crc32 len file pos =
      match nextRecord crc32 file with
      | none => .ok pos
      | some (payload, after) => scanLoop crc32 len after (pos + (8 + payload.length)) := by
  rw [scanLoop, nextRecord]
  by_cases hend : pos = len
  · have hshort : file.readExact 8 = .error .unexpectedEof :=
      OpenFile.readExact_of_short (by omega)
    simp only [hend, if_true, hshort]
  · rw [if_neg hend]
    split
    · next h => simp only [h]
    · next he h => exact absurd (OpenFile.readExact_error h).1 he
    · next hdr afterHdr h =>
      have hrem := OpenFile.readExact_remaining h
      have hle8 := (OpenFile.readExact_ok h).1
      simp only [h]
      split
      · rfl
      · split
        · next hlong =>
          -- The record reaches behind the end of the file, so its payload cannot be read.
          have hshort : afterHdr.readExact (fromLeBytes (hdr.take 4)) =
              .error .unexpectedEof := by
            apply OpenFile.readExact_of_short
            rw [hrem, length_drop]
            omega
          simp only [hshort]
        · split
          · next hp => simp only [hp]
          · next he hp => exact absurd (OpenFile.readExact_error hp).1 he
          · next payload afterPayload hp =>
            simp only [hp]
            split
            · rfl
            · simp only [OpenFile.readExact_length hp]

/-- The writer's recovery scan stops where the reader stops. -/
theorem scanLoop_eq_readLoop (hpos : pos + file.remaining.length = len) (out : List WalRecord) :
    scanLoop crc32 len file pos = (readLoop crc32 file pos out).map Prod.snd := by
  -- Every record found shortens what remains.
  induction hn : file.remaining.length using Nat.strong_induction_on generalizing
    file pos out with
  | _ n ih =>
    rw [scanLoop_eq hpos, readLoop_eq]
    cases hnext : nextRecord crc32 file with
    | none => rfl
    | some found =>
      obtain ⟨payload, after⟩ := found
      obtain ⟨-, hrem⟩ := nextRecord_some hnext
      have hlen : file.remaining.length = 8 + payload.length + after.remaining.length := by
        rw [hrem, length_append, encodeRecord_length]
      simp only [Nat.add_assoc]
      exact ih after.remaining.length (by omega) (by omega) _ rfl

variable {tail : Bytes}

/-- A whole record at the cursor is found. -/
theorem nextRecord_encodeRecord {rest : Bytes} (hsize : payload.length ≤ maxPayload)
    (hrem : file.remaining = encodeRecord crc32 payload ++ rest) :
    nextRecord crc32 file =
      some (payload, { file with pos := file.pos + 8 + payload.length }) := by
  have hbound : payload.length < 256 ^ 4 := hsize.trans_lt (by decide)
  have hlen : fromLeBytes ((toLeBytes 4 payload.length ++
      toLeBytes 4 (crc32 payload).toNat).take 4) = payload.length := by
    rw [take_left' (toLeBytes_length 4 _), fromLeBytes_toLeBytes hbound]
  have hcrc : fromLeBytes ((toLeBytes 4 payload.length ++
      toLeBytes 4 (crc32 payload).toNat).drop 4) = (crc32 payload).toNat := by
    rw [drop_left' (toLeBytes_length 4 _), fromLeBytes_toLeBytes (crc32 payload).toNat_lt]
  have hdrLen : (toLeBytes 4 payload.length ++ toLeBytes 4 (crc32 payload).toNat).length = 8 := by
    simp
  rw [encodeRecord, append_assoc] at hrem
  have hread := OpenFile.readExact_of_remaining hrem
  rw [hdrLen] at hread
  have hafter : ({ file with pos := file.pos + 8 } : OpenFile).remaining = payload ++ rest := by
    rw [OpenFile.remaining_advance, hrem]
    exact drop_left' hdrLen
  have hpay := OpenFile.readExact_of_remaining hafter
  simp only [nextRecord, hread, hlen, hcrc, hpay, Nat.not_lt.mpr hsize, if_false, ne_eq,
    not_true_eq_false]

variable (crc32) in
/-- Bytes at whose front no whole record stands. -/
def Unreadable (bytes : Bytes) : Prop :=
  ∀ payload rest, payload.length ≤ maxPayload → bytes ≠ encodeRecord crc32 payload ++ rest

theorem nextRecord_eq_none_iff :
    nextRecord crc32 file = none ↔ Unreadable crc32 file.remaining := by
  constructor
  · intro hnone payload rest hsize hrem
    rw [nextRecord_encodeRecord hsize hrem] at hnone
    cases hnone
  · intro hun
    cases hnext : nextRecord crc32 file with
    | none => rfl
    | some found =>
      obtain ⟨hsize, hrem⟩ := nextRecord_some hnext
      exact absurd hrem (hun _ _ hsize)

theorem TornTail.unreadable (htorn : TornTail crc32 tail) : Unreadable crc32 tail := by
  obtain ⟨payload, k, hsize, hk, rfl⟩ := htorn
  intro found rest hfound heq
  have hlen : k = 8 + found.length + rest.length := by
    have := congrArg length heq
    rw [length_take, length_append, encodeRecord_length, encodeRecord_length] at this
    omega
  -- The first four bytes are the torn record's own, so the record found is as long as it.
  have hsame : (encodeRecord crc32 payload).take 4 = (encodeRecord crc32 found).take 4 := by
    have hcut := congrArg (take 4) heq
    rwa [take_take, Nat.min_eq_left (by omega),
      take_append_of_le_length (by rw [encodeRecord_length]; omega)] at hcut
  have hbound : maxPayload < 256 ^ 4 := by decide
  simp only [encodeRecord, append_assoc, take_left' (toLeBytes_length 4 _)] at hsame
  have hread := congrArg fromLeBytes hsame
  rw [fromLeBytes_toLeBytes (hsize.trans_lt hbound),
    fromLeBytes_toLeBytes (hfound.trans_lt hbound)] at hread
  omega

/-- The loop returns exactly the whole records in front of bytes that hold none. -/
theorem readLoop_encodeRecords (hsize : ∀ p ∈ payloads, p.length ≤ maxPayload)
    (htail : Unreadable crc32 tail) (hrem : file.remaining = encodeRecords crc32 payloads ++ tail)
    (pos : ℕ) (out : List WalRecord) :
    readLoop crc32 file pos out =
      .ok (out ++ recordsFrom pos payloads, pos + (encodeRecords crc32 payloads).length) := by
  induction payloads generalizing file pos out with
  | nil =>
    rw [readLoop_eq, nextRecord_eq_none_iff.mpr (hrem ▸ htail)]
    simp [recordsFrom]
  | cons payload rest ih =>
    rw [encodeRecords_cons, append_assoc] at hrem
    have hadvance := file.remaining_advance (8 + payload.length)
    rw [← Nat.add_assoc, hrem, drop_left' (encodeRecord_length payload)] at hadvance
    rw [readLoop_eq, nextRecord_encodeRecord (hsize payload (by simp)) hrem]
    simp only [ih (fun p hp => hsize p (by simp [hp])) hadvance]
    simp [recordsFrom, behind_encodeRecord]

theorem tornTail_nil : TornTail crc32 [] :=
  ⟨[], 0, by decide, by simp, by simp⟩

variable (crc32) in
/-- A cut leaves whole records and a torn tail, and the whole records are those
that end inside the cut. -/
theorem exists_take_encodeRecords (hsize : ∀ p ∈ payloads, p.length ≤ maxPayload) (m : ℕ) :
    ∃ kept tail, (∀ p ∈ kept, p.length ≤ maxPayload) ∧ TornTail crc32 tail ∧
      (encodeRecords crc32 payloads).take m = encodeRecords crc32 kept ++ tail ∧
      ∀ pos, (recordsFrom pos payloads).filter
        (fun r => r.offset + r.payload.length ≤ pos + m) = recordsFrom pos kept := by
  induction payloads generalizing m with
  | nil => exact ⟨[], [], by simp, tornTail_nil, by simp, by simp [recordsFrom]⟩
  | cons payload rest ih =>
    rw [encodeRecords_cons]
    by_cases hfit : 8 + payload.length ≤ m
    · obtain ⟨kept, tail, hkept, htorn, htake, hfilter⟩ :=
        ih (fun p hp => hsize p (by simp [hp])) (m - (8 + payload.length))
      refine ⟨payload :: kept, tail, ?_, htorn, ?_, fun pos => ?_⟩
      · simp only [forall_mem_cons]
        exact ⟨hsize payload (by simp), hkept⟩
      · rw [take_append, encodeRecord_length, htake,
          take_of_length_le (by rw [encodeRecord_length]; exact hfit),
          encodeRecords_cons, append_assoc]
      · have hcut : pos + 8 + payload.length + (m - (8 + payload.length)) = pos + m := by
          omega
        have hrest := hfilter (pos + 8 + payload.length)
        rw [hcut] at hrest
        rw [recordsFrom, filter_cons_of_pos (by simp; omega), hrest, recordsFrom]
    · refine ⟨[], (encodeRecord crc32 payload).take m, by simp,
        ⟨payload, m, hsize payload (by simp), by omega, rfl⟩, ?_, fun pos => ?_⟩
      · rw [take_append_of_le_length (by rw [encodeRecord_length]; omega)]
        simp
      · -- The first record ends behind the cut, and every later one still further.
        rw [recordsFrom, recordsFrom, filter_eq_nil_iff]
        intro r hr
        rcases mem_cons.mp hr with rfl | hr
        · simp
          omega
        · have := offset_of_mem_recordsFrom hr
          simp
          omega

/-- A header that passes the check: whatever stands behind the version is not looked at. -/
structure ValidHeader (hdr : Bytes) : Prop where
  length : hdr.length = headerLen
  magic : hdr.take 4 = magic
  version : fromLeBytes ((hdr.drop 4).take 2) = formatVersion

theorem validHeader_header : ValidHeader header where
  length := rfl
  magic := by decide
  version := by decide

theorem verifyHeader_valid (h : ValidHeader hdr) (rest : Bytes) (pos : ℕ) :
    verifyHeader ⟨hdr ++ rest, pos⟩ = .ok ⟨hdr ++ rest, headerLen⟩ := by
  have hrem : ((⟨hdr ++ rest, pos⟩ : OpenFile).seekStart 0).remaining = hdr ++ rest := rfl
  have hread := OpenFile.readExact_of_remaining hrem
  rw [h.length] at hread
  simp only [verifyHeader, hread, h.magic, h.version, ne_eq, not_true_eq_false, if_false]
  simp [OpenFile.seekStart]

theorem verifyHeader_short (hshort : bytes.length < headerLen) (pos : ℕ) :
    verifyHeader ⟨bytes, pos⟩ = .error (ioErr .unexpectedEof) := by
  have hread : ((⟨bytes, pos⟩ : OpenFile).seekStart 0).readExact headerLen =
      .error .unexpectedEof := OpenFile.readExact_of_short (by simpa using hshort)
  simp only [verifyHeader, hread]

theorem remaining_behind_header (h : ValidHeader hdr) (rest : Bytes) :
    (⟨hdr ++ rest, headerLen⟩ : OpenFile).remaining = rest :=
  drop_left' h.length

/-- Reading a log returns its whole records. -/
theorem readAll_valid (h : ValidHeader hdr) (hsize : ∀ p ∈ payloads, p.length ≤ maxPayload)
    (htail : Unreadable crc32 tail) :
    readAll crc32 (hdr ++ (encodeRecords crc32 payloads ++ tail)) =
      .ok (recordsFrom headerLen payloads,
        headerLen + (encodeRecords crc32 payloads).length) := by
  rw [readAll, verifyHeader_valid h]
  exact readLoop_encodeRecords hsize htail (remaining_behind_header h _) headerLen []

def writerAtEnd (bytes : Bytes) : WalWriter := ⟨⟨bytes, bytes.length⟩, bytes.length⟩

theorem append_writerAtEnd (bytes : Bytes) (hsize : payload.length ≤ maxPayload) :
    (writerAtEnd bytes).append crc32 payload =
      .ok (bytes.length + 8, writerAtEnd (bytes ++ encodeRecord crc32 payload)) := by
  have hu32 : ¬ u32Max < payload.length := by
    have : maxPayload < u32Max := by decide
    omega
  rw [WalWriter.append, if_neg hu32, if_neg (Nat.not_lt.mpr hsize)]
  simp [writerAtEnd, OpenFile.writeAll_at_end, encodeRecord]
  omega

/-- Appending payloads within the limit appends their records, in order. -/
theorem appendAll_writerAtEnd (bytes : Bytes) (hsize : ∀ p ∈ payloads, p.length ≤ maxPayload) :
    (writerAtEnd bytes).appendAll crc32 payloads =
      .ok ((recordsFrom bytes.length payloads).map WalRecord.offset,
        writerAtEnd (bytes ++ encodeRecords crc32 payloads)) := by
  induction payloads generalizing bytes with
  | nil => simp [WalWriter.appendAll, recordsFrom]
  | cons payload rest ih =>
    rw [WalWriter.appendAll, append_writerAtEnd bytes (hsize payload (by simp))]
    have hrest := ih (bytes ++ encodeRecord crc32 payload)
      (fun p hp => hsize p (by simp [hp]))
    have hlen : (bytes ++ encodeRecord crc32 payload).length =
        bytes.length + 8 + payload.length := by
      simp [Nat.add_assoc]
    simp only [hrest, hlen, recordsFrom, map_cons, encodeRecords_cons, append_assoc]

/-- Pairing the returned offsets with the payloads gives the records read back. -/
theorem zipWith_offset_recordsFrom (pos : ℕ) (payloads : List Bytes) :
    List.zipWith WalRecord.mk ((recordsFrom pos payloads).map WalRecord.offset) payloads =
      recordsFrom pos payloads := by
  induction payloads generalizing pos with
  | nil => rfl
  | cons payload rest ih => simp [recordsFrom, ih]

theorem openWal_nil : WalWriter.openWal crc32 [] = .ok (writerAtEnd header) := by
  rfl

/-- Opening a log drops what cannot be read and leaves the writer behind the last whole
record. -/
theorem openWal_valid (h : ValidHeader hdr) (hsize : ∀ p ∈ payloads, p.length ≤ maxPayload)
    (htail : Unreadable crc32 tail) :
    WalWriter.openWal crc32 (hdr ++ (encodeRecords crc32 payloads ++ tail)) =
      .ok (writerAtEnd (hdr ++ encodeRecords crc32 payloads)) := by
  have hlength : (hdr ++ (encodeRecords crc32 payloads ++ tail)).length =
      headerLen + (encodeRecords crc32 payloads ++ tail).length := by
    rw [length_append, h.length]
  have hne : (hdr ++ (encodeRecords crc32 payloads ++ tail)).length ≠ 0 := by
    have : 0 < headerLen := by decide
    omega
  have hscan : scanValidEnd crc32 ⟨hdr ++ (encodeRecords crc32 payloads ++ tail), headerLen⟩
      (hdr ++ (encodeRecords crc32 payloads ++ tail)).length =
        .ok (headerLen + (encodeRecords crc32 payloads).length) := by
    have hrem := remaining_behind_header h (encodeRecords crc32 payloads ++ tail)
    rw [scanValidEnd, OpenFile.seekStart, scanLoop_eq_readLoop (by rw [hrem, hlength]) [],
      readLoop_encodeRecords hsize htail hrem headerLen []]
    rfl
  rw [WalWriter.openWal, if_neg hne, verifyHeader_valid h]
  simp only [hscan]
  have hend : (hdr ++ encodeRecords crc32 payloads).length =
      headerLen + (encodeRecords crc32 payloads).length := by
    rw [length_append, h.length]
  have hkeep : (hdr ++ (encodeRecords crc32 payloads ++ tail)).take
      (headerLen + (encodeRecords crc32 payloads).length) =
        hdr ++ encodeRecords crc32 payloads := by
    rw [← append_assoc]
    exact take_left' hend
  have hle : headerLen + (encodeRecords crc32 payloads).length ≤
      (hdr ++ (encodeRecords crc32 payloads ++ tail)).length := by
    rw [hlength, length_append]
    omega
  split
  · have hcut := OpenFile.setLen_bytes_of_le
      (f := ⟨hdr ++ (encodeRecords crc32 payloads ++ tail), headerLen⟩) hle
    simp only [OpenFile.seekStart, hcut, hkeep, writerAtEnd, hend]
  · next hall =>
    -- The scan reached the end of the file: there is no tail.
    have hnone : hdr ++ (encodeRecords crc32 payloads ++ tail) =
        hdr ++ encodeRecords crc32 payloads := by
      rw [← hkeep, take_of_length_le (by omega)]
    simp only [OpenFile.seekStart, hnone, writerAtEnd, hend]

theorem openWal_short (hne : bytes ≠ []) (hshort : bytes.length < headerLen) :
    WalWriter.openWal crc32 bytes = .error (ioErr .unexpectedEof) := by
  have hlen : bytes.length ≠ 0 := by simpa using hne
  simp only [WalWriter.openWal, hlen, if_false, verifyHeader_short hshort]

/-- The bytes of a log that was created and appended to. -/
theorem written_eq (hsize : ∀ p ∈ payloads, p.length ≤ maxPayload) :
    written crc32 payloads =
      .ok ((recordsFrom headerLen payloads).map WalRecord.offset,
        writerAtEnd (header ++ encodeRecords crc32 payloads)) := by
  rw [written, openWal_nil]
  exact appendAll_writerAtEnd header hsize

variable (crc32) in
/-- The log survives a crash that leaves its first `n` bytes: it can be opened
again, the records then readable are those wholly inside the cut, and what is
appended from there on is readable behind them. -/
def RecoversAfterCrash (payloads : List Bytes) (bytes : Bytes) (n : ℕ) : Prop :=
  ∃ w, WalWriter.openWal crc32 (bytes.take n) = .ok w ∧
    readAll crc32 w.file.bytes = .ok (wholeRecords payloads n, w.end) ∧
    ∀ further : List Bytes, (∀ p ∈ further, p.length ≤ maxPayload) →
      ∃ offs w', w.appendAll crc32 further = .ok (offs, w') ∧
        readAll crc32 w'.file.bytes =
          .ok (wholeRecords payloads n ++ List.zipWith WalRecord.mk offs further, w'.end)

/-- A writer behind whole records reads back as those records, and stays so as
more is appended. -/
theorem recovers_of_openWal {kept : List Bytes} {n : ℕ}
    (hsize : ∀ p ∈ kept, p.length ≤ maxPayload)
    (hopen : WalWriter.openWal crc32 (bytes.take n) =
      .ok (writerAtEnd (header ++ encodeRecords crc32 kept)))
    (hwhole : wholeRecords payloads n = recordsFrom headerLen kept) :
    RecoversAfterCrash crc32 payloads bytes n := by
  have hreadAll : ∀ ps : List Bytes, (∀ p ∈ ps, p.length ≤ maxPayload) →
      readAll crc32 (header ++ encodeRecords crc32 ps) =
        .ok (recordsFrom headerLen ps, headerLen + (encodeRecords crc32 ps).length) := by
    intro ps hps
    simpa using readAll_valid validHeader_header hps tornTail_nil.unreadable
  refine ⟨_, hopen, ?_, fun further hfurther => ?_⟩
  · rw [hwhole]
    simp only [writerAtEnd, hreadAll kept hsize, length_append]
    rfl
  · refine ⟨_, _, appendAll_writerAtEnd _ hfurther, ?_⟩
    have hall : ∀ p ∈ kept ++ further, p.length ≤ maxPayload := by
      intro p hp
      rcases mem_append.mp hp with hp | hp
      · exact hsize p hp
      · exact hfurther p hp
    simp only [writerAtEnd]
    rw [append_assoc, ← encodeRecords_append, hreadAll _ hall, hwhole, zipWith_offset_recordsFrom,
      recordsFrom_append crc32, length_append, length_append]
    rfl

/-- A log survives a crash at `n` exactly when the cut does not fall inside the
file header: an empty file gets a new header, a part of one is refused. -/
theorem openWal_recovers_iff (crc32 : Bytes → UInt32) (payloads : List Bytes)
    (hsize : ∀ p ∈ payloads, p.length ≤ maxPayload) :
    ∃ offs w, written crc32 payloads = .ok (offs, w) ∧
      ∀ n ≤ w.file.bytes.length,
        (RecoversAfterCrash crc32 payloads w.file.bytes n ↔ n = 0 ∨ headerLen ≤ n) := by
  refine ⟨_, _, written_eq hsize, fun n hn => ?_⟩
  simp only [writerAtEnd] at hn ⊢
  have hheader : header.length = headerLen := rfl
  constructor
  · rintro ⟨w, hopen, -⟩
    by_contra hinside
    rw [not_or, not_le] at hinside
    have hlen : ((header ++ encodeRecords crc32 payloads).take n).length = n := by
      rw [length_take, Nat.min_eq_left hn]
    have hne : (header ++ encodeRecords crc32 payloads).take n ≠ [] := by
      intro hnil
      rw [hnil] at hlen
      exact hinside.1 hlen.symm
    rw [openWal_short hne (by omega)] at hopen
    cases hopen
  · rintro (rfl | hafter)
    · -- Nothing is left: no record ends at or before position zero.
      have hnone : wholeRecords payloads 0 = recordsFrom headerLen [] := by
        rw [wholeRecords, recordsFrom, filter_eq_nil_iff]
        intro r hr
        have := offset_of_mem_recordsFrom hr
        simp
        omega
      exact recovers_of_openWal (by simp) (by simpa using openWal_nil) hnone
    · obtain ⟨kept, tail, hkept, htorn, htake, hfilter⟩ :=
        exists_take_encodeRecords crc32 hsize (n - headerLen)
      have hcut : (header ++ encodeRecords crc32 payloads).take n =
          header ++ (encodeRecords crc32 kept ++ tail) := by
        rw [take_append, hheader, htake, take_of_length_le (by rw [hheader]; exact hafter)]
      have hwhole : wholeRecords payloads n = recordsFrom headerLen kept := by
        have := hfilter headerLen
        rwa [Nat.add_sub_cancel' hafter] at this
      have hopen := openWal_valid validHeader_header hkept htorn.unreadable
      exact recovers_of_openWal hkept (by rw [hcut]; exact hopen) hwhole

/-- The recovery statement at a log of one record. -/
theorem openWal_recovers_iff_single :
    (∀ p ∈ [[0x61]], p.length ≤ maxPayload) ∧
      ∃ offs w, written crc32Ieee [[0x61]] = .ok (offs, w) ∧
        ∀ n ≤ w.file.bytes.length,
          (RecoversAfterCrash crc32Ieee [[0x61]] w.file.bytes n ↔ n = 0 ∨ headerLen ≤ n) :=
  ⟨by decide, openWal_recovers_iff crc32Ieee [[0x61]] (by decide)⟩

/-- A crash five bytes into the header of a one-record log: it does not open. -/
theorem not_recovers_inside_header :
    ∃ w, written crc32Ieee [[0x61]] = .ok ([20], w) ∧ 5 ≤ w.file.bytes.length ∧
      ¬ RecoversAfterCrash crc32Ieee [[0x61]] w.file.bytes 5 := by
  refine ⟨_, rfl, by decide, ?_⟩
  rintro ⟨w, hopen, -⟩
  cases hopen

end Checksum

end TraceMux.Core.Log.Wal
