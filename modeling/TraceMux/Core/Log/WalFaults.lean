/-
# Damaged logs

What recovery makes of a log that a crash or a failed write has damaged. Two kinds of
damage are looked at.

A crash can leave zero bytes behind the last record, when the file had been made longer
before its data was on the disk. Eight zero bytes are a record: the one of the empty
payload, whose length and checksum are both zero.

A write can fail after some of its bytes have reached the file. The cursor then stands
behind these bytes, while the logical end, from which the offsets of later records are
counted, has not moved.

Cutting the file when a log is opened is taken to be done at once; a crash can only cut
what was not synced.
-/

import TraceMux.Base.Transition
import TraceMux.Core.Log.Wal

namespace TraceMux.Core.Log.Wal

open Base List

section Checksum

variable (crc32 : Bytes → UInt32)

/-- Recovery of a file finds these records: reading the file returns them, and so does
reading the log after it was opened for writing. -/
def Recovers (bytes : Bytes) (records : List WalRecord) : Prop :=
  ∃ w, WalWriter.openWal crc32 bytes = .ok w ∧
    readAll crc32 bytes = .ok (records, w.end) ∧
    readAll crc32 w.file.bytes = .ok (records, w.end)

variable {crc32} {payloads : List Bytes}

theorem recovers_log {tail : Bytes} (hsize : ∀ p ∈ payloads, p.length ≤ maxPayload)
    (htail : Unreadable crc32 tail) :
    Recovers crc32 (header ++ (encodeRecords crc32 payloads ++ tail))
      (recordsFrom headerLen payloads) := by
  refine ⟨_, openWal_valid validHeader_header hsize htail, ?_, ?_⟩
  · rw [readAll_valid validHeader_header hsize htail, writerAtEnd, length_append]
    rfl
  · have hnil : Unreadable crc32 [] := tornTail_nil.unreadable
    have hread := readAll_valid validHeader_header hsize hnil
    rw [append_nil] at hread
    rw [writerAtEnd, hread, length_append]
    rfl

/-- What recovery finds is determined by the file. -/
theorem Recovers.unique {bytes : Bytes} {first second : List WalRecord}
    (hfirst : Recovers crc32 bytes first) (hsecond : Recovers crc32 bytes second) :
    first = second := by
  obtain ⟨_, _, hread, -⟩ := hfirst
  obtain ⟨_, _, hread', -⟩ := hsecond
  rw [hread, Except.ok.injEq, Prod.mk.injEq] at hread'
  exact hread'.1

variable (crc32) in
/-- Any bytes are whole records followed by bytes that hold none at their front. -/
theorem exists_encodeRecords_append (bytes : Bytes) :
    ∃ payloads tail, (∀ p ∈ payloads, p.length ≤ maxPayload) ∧ Unreadable crc32 tail ∧
      bytes = encodeRecords crc32 payloads ++ tail := by
  induction hn : bytes.length using Nat.strong_induction_on generalizing bytes with
  | _ n ih =>
    by_cases hun : Unreadable crc32 bytes
    · exact ⟨[], bytes, by simp, hun, rfl⟩
    · simp only [Unreadable, not_forall, not_not] at hun
      obtain ⟨payload, rest, hsize, rfl⟩ := hun
      have hshort : rest.length < n := by
        rw [← hn, length_append, encodeRecord_length]
        omega
      obtain ⟨payloads, tail, hsizes, htail, rfl⟩ := ih rest.length hshort rest rfl
      refine ⟨payload :: payloads, tail, ?_, htail, ?_⟩
      · exact forall_mem_cons.mpr ⟨hsize, hsizes⟩
      · rw [encodeRecords_cons, append_assoc]

/-- Zero bytes are empty records as far as they go, and the beginning of one more. -/
theorem replicate_zero_eq_encodeRecords (zeros : ℕ) :
    List.replicate zeros (0 : UInt8) =
      encodeRecords crc32Ieee (List.replicate (zeros / 8) []) ++ List.replicate (zeros % 8) 0 := by
  have hempty : encodeRecord crc32Ieee [] = replicate 8 0 := by decide
  have hrecords : ∀ n, encodeRecords crc32Ieee (replicate n []) =
      replicate (8 * n) (0 : UInt8) := by
    intro n
    induction n with
    | zero => rfl
    | succ n ih =>
      rw [replicate_succ, encodeRecords_cons, hempty, ih, replicate_append_replicate,
        Nat.mul_succ, Nat.add_comm]
  rw [hrecords, replicate_append_replicate, Nat.div_add_mod]

theorem tornTail_replicate_zero {zeros : ℕ} (h : zeros < 8) :
    TornTail crc32Ieee (List.replicate zeros 0) := by
  have hempty : encodeRecord crc32Ieee [] = replicate 8 0 := by decide
  refine ⟨[], zeros, by decide, by simpa using h, ?_⟩
  rw [hempty, take_replicate, Nat.min_eq_left h.le]

/-- Recovery takes every eight zero bytes behind the last record for one more record. -/
theorem recovers_zeroTail (hsize : ∀ p ∈ payloads, p.length ≤ maxPayload) (zeros : ℕ) :
    Recovers crc32Ieee
      (header ++ encodeRecords crc32Ieee payloads ++ List.replicate zeros 0)
      (recordsFrom headerLen (payloads ++ List.replicate (zeros / 8) [])) := by
  have hall : ∀ p ∈ payloads ++ replicate (zeros / 8) [], p.length ≤ maxPayload := by
    intro p hp
    rcases mem_append.mp hp with hp | hp
    · exact hsize p hp
    · rw [eq_of_mem_replicate hp]
      exact Nat.zero_le _
  rw [replicate_zero_eq_encodeRecords, append_assoc, ← append_assoc (encodeRecords _ _),
    ← encodeRecords_append]
  apply recovers_log hall
  exact (tornTail_replicate_zero (Nat.mod_lt _ (by decide))).unreadable

theorem recordsFrom_length (pos : ℕ) (payloads : List Bytes) :
    (recordsFrom pos payloads).length = payloads.length := by
  induction payloads generalizing pos with
  | nil => rfl
  | cons payload rest ih => simp [recordsFrom, ih]

/-- With zero bytes behind the last record, recovery returns exactly the appended records
if and only if there are fewer than eight of them. -/
theorem recovers_appended_iff_zeros_lt (payloads : List Bytes)
    (hsize : ∀ p ∈ payloads, p.length ≤ maxPayload) (zeros : ℕ) :
    ∃ offs w, written crc32Ieee payloads = .ok (offs, w) ∧
      (Recovers crc32Ieee (w.file.bytes ++ List.replicate zeros 0)
          (List.zipWith WalRecord.mk offs payloads) ↔
        zeros < 8) := by
  refine ⟨_, _, written_eq hsize, ?_⟩
  rw [zipWith_offset_recordsFrom, writerAtEnd]
  have hfound := recovers_zeroTail hsize zeros
  constructor
  · intro hexact
    have hlen := congrArg length (hfound.unique hexact)
    rw [recordsFrom_length, recordsFrom_length, length_append, length_replicate] at hlen
    omega
  · intro hfew
    have hnone : zeros / 8 = 0 := Nat.div_eq_of_lt hfew
    rwa [hnone, replicate_zero, append_nil] at hfound

/-- The zero tail statement at a log of one record with three zero bytes. -/
theorem recovers_appended_iff_zeros_lt_three :
    (∀ p ∈ [[0x61]], p.length ≤ maxPayload) ∧
      ∃ offs w, written crc32Ieee [[0x61]] = .ok (offs, w) ∧
        (Recovers crc32Ieee (w.file.bytes ++ List.replicate 3 0)
            (List.zipWith WalRecord.mk offs [[0x61]]) ↔
          3 < 8) :=
  ⟨by decide, recovers_appended_iff_zeros_lt [[0x61]] (by decide) 3⟩

/-- One record and sixteen zero bytes: recovery returns two empty records that nobody
appended. -/
theorem not_recovers_sixteen_zeros :
    ∃ w, written crc32Ieee [[0x61]] = .ok ([20], w) ∧
      Recovers crc32Ieee (w.file.bytes ++ List.replicate 16 0)
        [⟨20, [0x61]⟩, ⟨29, []⟩, ⟨37, []⟩] ∧
      ¬ Recovers crc32Ieee (w.file.bytes ++ List.replicate 16 0) [⟨20, [0x61]⟩] := by
  have hfound : Recovers crc32Ieee
      (header ++ encodeRecords crc32Ieee [[0x61]] ++ replicate 16 0)
      [⟨20, [0x61]⟩, ⟨29, []⟩, ⟨37, []⟩] := recovers_zeroTail (by decide) 16
  refine ⟨_, rfl, hfound, fun hexact => ?_⟩
  have := hfound.unique hexact
  cases this

variable (crc32) in
/-- An append whose writes may fail: with a fault `(k, e)` the first `k` bytes of the record
get to the file before a write returns `e`. -/
def WalWriter.tryAppend (w : WalWriter) (payload : Bytes) (fault : Option (ℕ × IoError)) :
    Except TraceMuxError ℕ × WalWriter :=
  match w.append crc32 payload with
  | .error e => (.error e, w)
  | .ok (payloadOff, after) =>
    match fault with
    | none => (.ok payloadOff, after)
    | some (k, e) =>
      -- The logical end is set behind the writes, so it stays where it was.
      (.error (ioErr e),
        { w with file := w.file.writeAll ((encodeRecord crc32 payload).take k) })

inductive WalOp
  /-- An append, with the fault its writes meet. -/
  | append (payload : Bytes) (fault : Option (ℕ × IoError))
  | sync (ok : Bool)
  /-- The program ends, the first `n` bytes of the file are left, and the log is opened
  again. -/
  | reopen (n : ℕ)
  deriving DecidableEq

/-- A log in use, with what was promised to its user. -/
structure WalState where
  w : WalWriter
  /-- A failed append has left bytes in the file since the log was opened. -/
  torn : Bool
  /-- The payloads of the appends that returned, each with its offset. -/
  returned : List WalRecord
  /-- Those among them that a successful sync followed. -/
  acked : List WalRecord
  /-- How much of the file a crash cannot take away. -/
  synced : ℕ
  deriving DecidableEq

variable (crc32) in
/-- One operation on the log. A crash leaves at least what was synced. -/
def walStep (s : WalState) : WalOp → Option WalState
  | .append payload fault =>
    match s.w.tryAppend crc32 payload fault with
    | (.ok off, w) => some { s with w := w, returned := s.returned ++ [⟨off, payload⟩] }
    | (.error _, w) => some { s with w := w, torn := s.torn || w.file ≠ s.w.file }
  | .sync true => some { s with acked := s.returned, synced := s.w.file.bytes.length }
  | .sync false => some s
  | .reopen n =>
    if n < s.synced then none
    else
      match WalWriter.openWal crc32 (s.w.file.bytes.take n) with
      | .error _ => none
      | .ok w =>
        some
          { w := w
            torn := false
            returned := s.returned.filter fun r => r.offset + r.payload.length ≤ n
            acked := s.acked
            synced := min s.synced w.end }

/-- A log that was just created. Its header is synced before it is used. -/
def freshLog : WalState :=
  { w := writerAtEnd header, torn := false, returned := [], acked := [], synced := headerLen }

variable (crc32) in
/-- Wherever a crash cuts the file, recovery returns every append that returned an offset
and was followed by a successful sync, as a record with its payload at that offset. -/
def RecoversAcked (s : WalState) : Prop :=
  ∀ n, s.synced ≤ n → ∃ records, Recovers crc32 (s.w.file.bytes.take n) records ∧
    ∀ r ∈ s.acked, r ∈ records

/-- No append succeeds on a log in which a failed one has left bytes, unless the log was
opened again in between. -/
def appendsOnWholeLog (s : WalState) : WalOp → Prop
  | .append payload none => payload.length ≤ maxPayload → s.torn = false
  | _ => True

instance (s : WalState) (op : WalOp) : Decidable (appendsOnWholeLog s op) :=
  match op with
  | .append _ none => inferInstanceAs (Decidable (_ → _))
  | .append _ (some _) => inferInstanceAs (Decidable True)
  | .sync _ => inferInstanceAs (Decidable True)
  | .reopen _ => inferInstanceAs (Decidable True)

/-! ### What every operation keeps -/

variable (crc32) in
theorem end_le_of_mem_recordsFrom {pos : ℕ} {r : WalRecord} (h : r ∈ recordsFrom pos payloads) :
    r.offset + r.payload.length ≤ pos + (encodeRecords crc32 payloads).length := by
  induction payloads generalizing pos with
  | nil => cases h
  | cons payload rest ih =>
    rw [encodeRecords_cons, length_append, encodeRecord_length]
    rcases mem_cons.mp h with rfl | h
    · simp only
      omega
    · have := ih h
      omega

variable (crc32) in
/-- Behind a cut of a log, whatever followed its records, stand the records that end inside
the cut, perhaps some more, and then bytes that hold none. -/
theorem exists_log_take (tail : Bytes) {n : ℕ} (hsize : ∀ p ∈ payloads, p.length ≤ maxPayload)
    (hn : headerLen ≤ n) :
    ∃ found rest, (∀ p ∈ found, p.length ≤ maxPayload) ∧ Unreadable crc32 rest ∧
      (header ++ (encodeRecords crc32 payloads ++ tail)).take n =
        header ++ (encodeRecords crc32 found ++ rest) ∧
      ∀ r ∈ recordsFrom headerLen payloads, r.offset + r.payload.length ≤ n →
        r ∈ recordsFrom headerLen found := by
  have hheader : header.length = headerLen := rfl
  have hsplit : (header ++ (encodeRecords crc32 payloads ++ tail)).take n =
      header ++ (encodeRecords crc32 payloads ++ tail).take (n - headerLen) := by
    rw [take_append, hheader, take_of_length_le (by rw [hheader]; exact hn)]
  rw [hsplit]
  by_cases hcut : n - headerLen ≤ (encodeRecords crc32 payloads).length
  · obtain ⟨kept, torn, hkept, htorn, htake, hfilter⟩ :=
      exists_take_encodeRecords crc32 hsize (n - headerLen)
    refine ⟨kept, torn, hkept, htorn.unreadable, ?_, fun r hr hend => ?_⟩
    · rw [take_append_of_le_length hcut, htake]
    · rw [← hfilter headerLen, mem_filter]
      refine ⟨hr, ?_⟩
      rw [decide_eq_true_eq, Nat.add_sub_cancel' hn]
      exact hend
  · -- The cut falls behind the records; recovery may find more in what followed them.
    obtain ⟨more, rest, hmore, hrest, htail⟩ := exists_encodeRecords_append crc32
      (tail.take (n - headerLen - (encodeRecords crc32 payloads).length))
    refine ⟨payloads ++ more, rest, ?_, hrest, ?_, fun r hr _ => ?_⟩
    · intro p hp
      rcases mem_append.mp hp with hp | hp
      · exact hsize p hp
      · exact hmore p hp
    · rw [take_append, htail, take_of_length_le (by omega), encodeRecords_append, append_assoc]
    · rw [recordsFrom_append crc32]
      exact mem_append_left _ hr

theorem eq_writerAtEnd {w : WalWriter} (hpos : w.file.pos = w.file.bytes.length)
    (hend : w.end = w.file.bytes.length) : w = writerAtEnd w.file.bytes := by
  obtain ⟨⟨bytes, pos⟩, stop⟩ := w
  simp only at hpos hend
  subst hpos hend
  rfl

variable (crc32) in
/-- The file holds records, behind them what failed appends have left, and the promises are
among the records. -/
structure Kept (s : WalState) (payloads : List Bytes) (tail : Bytes) : Prop where
  sizes : ∀ p ∈ payloads, p.length ≤ maxPayload
  bytes : s.w.file.bytes = header ++ (encodeRecords crc32 payloads ++ tail)
  pos : s.w.file.pos = s.w.file.bytes.length
  «end» : s.w.end = headerLen + (encodeRecords crc32 payloads).length
  torn : s.torn = false → tail = []
  returned : ∀ r ∈ s.returned, r ∈ recordsFrom headerLen payloads
  acked : ∀ r ∈ s.acked,
    r ∈ recordsFrom headerLen payloads ∧ r.offset + r.payload.length ≤ s.synced
  synced : headerLen ≤ s.synced

namespace Kept

variable {s : WalState} {tail : Bytes}

variable (h : Kept crc32 s payloads tail)
include h

theorem recoversAcked : RecoversAcked crc32 s := by
  intro n hn
  obtain ⟨found, rest, hfound, hrest, htake, hmem⟩ :=
    exists_log_take crc32 tail h.sizes (h.synced.trans hn)
  refine ⟨recordsFrom headerLen found, ?_, fun r hr => ?_⟩
  · rw [h.bytes, htake]
    exact recovers_log hfound hrest
  · obtain ⟨hrec, hend⟩ := h.acked r hr
    exact hmem r hrec (hend.trans hn)

/-- An append that succeeds on a whole log adds its record. -/
theorem append (hwhole : s.torn = false) {payload : Bytes} (hsize : payload.length ≤ maxPayload) :
    ∃ off w, s.w.append crc32 payload = .ok (off, w) ∧
      Kept crc32 { s with w := w, returned := s.returned ++ [⟨off, payload⟩] }
        (payloads ++ [payload]) [] := by
  obtain rfl := h.torn hwhole
  have hbytes := h.bytes
  rw [append_nil] at hbytes
  have hw : s.w = writerAtEnd (header ++ encodeRecords crc32 payloads) := by
    rw [← hbytes]
    apply eq_writerAtEnd h.pos
    rw [h.end, hbytes, length_append]
    rfl
  refine ⟨_, _, by rw [hw]; exact append_writerAtEnd _ hsize, ?_⟩
  have hnew : recordsFrom headerLen (payloads ++ [payload]) =
      recordsFrom headerLen payloads ++
        [⟨headerLen + (encodeRecords crc32 payloads).length + 8, payload⟩] := by
    rw [recordsFrom_append crc32]
    rfl
  have hlen : header.length = headerLen := rfl
  refine ⟨?_, ?_, rfl, ?_, fun _ => rfl, ?_, ?_, h.synced⟩
  · intro p hp
    rcases mem_append.mp hp with hp | hp
    · exact h.sizes p hp
    · rw [mem_singleton.mp hp]
      exact hsize
  · simp only [writerAtEnd, encodeRecords_append, encodeRecords_cons, encodeRecords_nil,
      append_nil, append_assoc]
  · simp only [writerAtEnd, encodeRecords_append, encodeRecords_cons, encodeRecords_nil,
      append_nil, append_assoc, length_append, hlen]
  · intro r hr
    rw [hnew, mem_append]
    rcases mem_append.mp hr with hr | hr
    · exact .inl (h.returned r hr)
    · rw [length_append, hlen] at hr
      exact .inr hr
  · intro r hr
    obtain ⟨hrec, hend⟩ := h.acked r hr
    rw [hnew]
    exact ⟨mem_append_left _ hrec, hend⟩

/-- An append that fails leaves the records and adds to what stands behind them. -/
theorem fail (data : Bytes) :
    Kept crc32
      { s with
        w := { s.w with file := s.w.file.writeAll data }
        torn := s.torn || s.w.file.writeAll data ≠ s.w.file }
      payloads (tail ++ data) := by
  have hwrite := OpenFile.writeAll_at_end h.pos data
  refine ⟨h.sizes, ?_, ?_, h.end, ?_, h.returned, h.acked, h.synced⟩
  · simp only [hwrite, h.bytes, append_assoc]
  · rw [hwrite, length_append]
  · intro hno
    simp only [Bool.or_eq_false_iff, decide_eq_false_iff_not, not_not] at hno
    have hnil : data = [] := by
      have hbytes := congrArg (fun file => file.bytes.length) hno.2
      simp only [hwrite, length_append] at hbytes
      exact length_eq_zero_iff.mp (by omega)
    rw [h.torn hno.1, hnil]
    rfl

theorem sync :
    Kept crc32 { s with acked := s.returned, synced := s.w.file.bytes.length } payloads tail := by
  have hlen : s.w.file.bytes.length =
      headerLen + (encodeRecords crc32 payloads).length + tail.length := by
    rw [h.bytes, length_append, length_append, ← Nat.add_assoc]
    rfl
  refine ⟨h.sizes, h.bytes, h.pos, h.end, h.torn, h.returned, fun r hr => ?_, ?_⟩
  · have hrec := h.returned r hr
    have hend := end_le_of_mem_recordsFrom crc32 hrec
    exact ⟨hrec, by simp only; omega⟩
  · simp only
    omega

/-- Opening the log again, after a cut behind what was synced, keeps the promises. -/
theorem reopen {n : ℕ} (hn : s.synced ≤ n) {w : WalWriter}
    (hopen : WalWriter.openWal crc32 (s.w.file.bytes.take n) = .ok w) :
    ∃ found, Kept crc32
      { w := w
        torn := false
        returned := s.returned.filter fun r => r.offset + r.payload.length ≤ n
        acked := s.acked
        synced := min s.synced w.end } found [] := by
  obtain ⟨found, rest, hfound, hrest, htake, hmem⟩ :=
    exists_log_take crc32 tail h.sizes (h.synced.trans hn)
  rw [h.bytes, htake, openWal_valid validHeader_header hfound hrest, Except.ok.injEq] at hopen
  subst hopen
  have hend : (writerAtEnd (header ++ encodeRecords crc32 found)).end =
      headerLen + (encodeRecords crc32 found).length := by
    rw [writerAtEnd, length_append]
    rfl
  refine ⟨found, hfound, ?_, rfl, hend, fun _ => rfl, fun r hr => ?_, fun r hr => ?_, ?_⟩
  · simp only [writerAtEnd, append_nil]
  · obtain ⟨hr, hinside⟩ := mem_filter.mp hr
    exact hmem r (h.returned r hr) (of_decide_eq_true hinside)
  · obtain ⟨hrec, hinside⟩ := h.acked r hr
    have hrec' := hmem r hrec (hinside.trans hn)
    refine ⟨hrec', le_min hinside ?_⟩
    rw [hend]
    exact end_le_of_mem_recordsFrom crc32 hrec'
  · refine le_min h.synced ?_
    rw [hend]
    exact Nat.le_add_right _ _

end Kept

variable (crc32) in
theorem append_error_of_long (w : WalWriter) {payload : Bytes}
    (hlong : maxPayload < payload.length) : ∃ e, w.append crc32 payload = .error e := by
  rw [WalWriter.append]
  split
  · exact ⟨_, rfl⟩
  · exact ⟨_, rfl⟩

variable (crc32) in
theorem append_ok_of_size (w : WalWriter) {payload : Bytes}
    (hsize : payload.length ≤ maxPayload) : ∃ off w', w.append crc32 payload = .ok (off, w') := by
  have hu32 : ¬ u32Max < payload.length := by
    have : maxPayload < u32Max := by decide
    omega
  rw [WalWriter.append, if_neg hu32, if_neg (Nat.not_lt.mpr hsize)]
  exact ⟨_, _, rfl⟩

/-- Every operation that the guard allows keeps the log readable. -/
theorem Kept.step {s s' : WalState} {op : WalOp} (h : ∃ payloads tail, Kept crc32 s payloads tail)
    (hguard : appendsOnWholeLog s op) (hstep : walStep crc32 s op = some s') :
    ∃ payloads tail, Kept crc32 s' payloads tail := by
  obtain ⟨payloads, tail, h⟩ := h
  cases op with
  | append payload fault =>
    rw [walStep, WalWriter.tryAppend] at hstep
    by_cases hsize : payload.length ≤ maxPayload
    · cases fault with
      | none =>
        obtain ⟨off, w, happend, hkept⟩ := h.append (hguard hsize) hsize
        simp only [happend, Option.some.injEq] at hstep
        exact ⟨_, _, hstep ▸ hkept⟩
      | some fault =>
        obtain ⟨k, e⟩ := fault
        obtain ⟨off, w, happend⟩ := append_ok_of_size crc32 s.w hsize
        simp only [happend, Option.some.injEq] at hstep
        exact ⟨_, _, hstep ▸ h.fail ((encodeRecord crc32 payload).take k)⟩
    · obtain ⟨e, hrefused⟩ := append_error_of_long crc32 s.w (not_le.mp hsize)
      simp only [hrefused, ne_eq, not_true_eq_false, decide_false, Bool.or_false,
        Option.some.injEq] at hstep
      subst hstep
      exact ⟨_, _, h⟩
  | sync ok =>
    cases ok with
    | true => exact ⟨_, _, Option.some.inj hstep ▸ h.sync⟩
    | false => exact ⟨_, _, Option.some.inj hstep ▸ h⟩
  | reopen n =>
    rw [walStep] at hstep
    split at hstep
    · cases hstep
    · next hn =>
      split at hstep
      · cases hstep
      · next w hopen =>
        obtain ⟨found, hkept⟩ := h.reopen (not_lt.mp hn) hopen
        exact ⟨_, _, Option.some.inj hstep ▸ hkept⟩

theorem kept_freshLog : Kept crc32 freshLog [] [] where
  sizes := by simp
  bytes := rfl
  pos := rfl
  «end» := rfl
  torn := fun _ => rfl
  returned := by simp [freshLog]
  acked := by simp [freshLog]
  synced := le_rfl

/-- Over every history of a log in which nothing is appended behind the bytes of a failed
append before the log is opened again, recovery returns each synced append as a record with
its payload at the offset it returned. -/
theorem recoversAcked_of_appendsOnWholeLog (crc32 : Bytes → UInt32) (ops : List WalOp)
    {s : WalState} (hrun : Transition.exec (walStep crc32) freshLog ops = some s)
    (hguard : Transition.Guarded (walStep crc32) appendsOnWholeLog freshLog ops) :
    RecoversAcked crc32 s := by
  obtain ⟨payloads, tail, hkept⟩ := Transition.exec_invariant
    (fun _ _ _ hinv hguard hstep => Kept.step hinv hguard hstep)
    ⟨[], [], kept_freshLog⟩ hguard hrun
  exact hkept.recoversAcked

def noSpace : IoError := .other "No space left on device (os error 28)"

/-- An append that fails before its first byte, one that succeeds, a sync, and an append
that fails after three bytes. -/
def harmlessFaults : List WalOp :=
  [.append [0x61] none, .append [0x62] (some (0, noSpace)), .append [0x63] none, .sync true,
    .append [0x64] (some (3, noSpace))]

/-- The promise of the second append is kept. -/
theorem recoversAcked_of_appendsOnWholeLog_harmless :
    ∃ s, Transition.exec (walStep crc32Ieee) freshLog harmlessFaults = some s ∧
      s.acked = [⟨20, [0x61]⟩, ⟨29, [0x63]⟩] ∧
      Transition.Guarded (walStep crc32Ieee) appendsOnWholeLog freshLog harmlessFaults ∧
      RecoversAcked crc32Ieee s :=
  ⟨_, rfl, rfl, by decide, recoversAcked_of_appendsOnWholeLog crc32Ieee harmlessFaults rfl
    (by decide)⟩

/-- An append that fails after three bytes, one that succeeds behind it, and a sync. -/
def appendBehindFault : List WalOp :=
  [.append [0x61] none, .append [0x62] (some (3, noSpace)), .append [0x63] none, .sync true]

/-- The last append returns the offset 29 and is synced, but its record starts at 24 and its
payload stands at 32; recovery stops at the three bytes in front of it. -/
theorem not_recoversAcked_appendBehindFault :
    ∃ s, Transition.exec (walStep crc32Ieee) freshLog appendBehindFault = some s ∧
      s.acked = [⟨20, [0x61]⟩, ⟨29, [0x63]⟩] ∧
      Recovers crc32Ieee s.w.file.bytes [⟨20, [0x61]⟩] ∧ ¬ RecoversAcked crc32Ieee s := by
  have htail : Unreadable crc32Ieee ([1, 0, 0] ++ encodeRecord crc32Ieee [0x63]) := by
    have hnone : nextRecord crc32Ieee ⟨[1, 0, 0] ++ encodeRecord crc32Ieee [0x63], 0⟩ = none := by
      decide
    exact nextRecord_eq_none_iff.mp hnone
  have hfound : Recovers crc32Ieee (header ++ (encodeRecords crc32Ieee [[0x61]] ++
      ([1, 0, 0] ++ encodeRecord crc32Ieee [0x63]))) [⟨20, [0x61]⟩] :=
    recovers_log (by decide) htail
  refine ⟨_, rfl, rfl, hfound, fun hkept => ?_⟩
  obtain ⟨records, hrecords, hmem⟩ := hkept _ le_rfl
  have hlost := hmem ⟨29, [0x63]⟩ (by decide)
  rw [hrecords.unique hfound] at hlost
  exact absurd hlost (by decide)

end Checksum

end TraceMux.Core.Log.Wal
