/-
# Opening and reading agree

The writer's recovery scan and the reader are two loops over the same bytes, with different
tests for the end of the file. On any bytes behind a valid header they stop at the same
place: opening keeps exactly what reading returns, and opening again changes nothing. What
is appended then is read back at the offsets that were returned.
-/

import TraceMux.Core.Log.WalFaults

namespace TraceMux.Core.Log.Wal

open Base List

variable {crc32 : Bytes → UInt32} {w w' : WalWriter} {payloads : List Bytes} {bytes : Bytes}

theorem size_of_append {payload : Bytes} {off : ℕ} (h : w.append crc32 payload = .ok (off, w')) :
    payload.length ≤ maxPayload := by
  rw [WalWriter.append] at h
  split at h
  · cases h
  · split at h
    · cases h
    · next hmax => exact Nat.le_of_not_lt hmax

theorem sizes_of_appendAll {offs : List ℕ} (h : w.appendAll crc32 payloads = .ok (offs, w')) :
    ∀ p ∈ payloads, p.length ≤ maxPayload := by
  induction payloads generalizing w w' offs with
  | nil => exact fun p hp => nomatch hp
  | cons payload rest ih =>
    rw [WalWriter.appendAll] at h
    split at h
    · cases h
    · next happend =>
      split at h
      · cases h
      · next hrest => exact forall_mem_cons.mpr ⟨size_of_append happend, ih hrest⟩

theorem readAll_whole {hdr : Bytes} (h : ValidHeader hdr)
    (hsize : ∀ p ∈ payloads, p.length ≤ maxPayload) :
    readAll crc32 (hdr ++ encodeRecords crc32 payloads) =
      .ok (recordsFrom headerLen payloads, (hdr ++ encodeRecords crc32 payloads).length) := by
  have hnil : Unreadable crc32 [] := tornTail_nil.unreadable
  have hread := readAll_valid h hsize hnil
  rwa [append_nil, ← h.length, ← length_append, h.length] at hread

theorem validHeader_of_verify {file : OpenFile} (h : verifyHeader ⟨bytes, 0⟩ = .ok file) :
    ∃ hdr rest, bytes = hdr ++ rest ∧ ValidHeader hdr := by
  revert h
  fun_cases verifyHeader ⟨bytes, 0⟩ with
  | case4 hdr afterHdr hread hmagic version hversion =>
    intro _
    obtain ⟨hle, hdata, -⟩ := OpenFile.readExact_ok hread
    refine ⟨hdr, bytes.drop headerLen, ?_, ?_, not_not.mp hmagic, not_not.mp hversion⟩
    · rw [hdata]
      exact (take_append_drop _ _).symm
    · rw [hdata, length_take, Nat.min_eq_left hle]
  | _ => rintro ⟨⟩

theorem openWal_atEnd (h : WalWriter.openWal crc32 bytes = .ok w) :
    w.file.pos = w.file.bytes.length ∧ w.end = w.file.bytes.length := by
  by_cases hnil : bytes = []
  · rw [hnil, openWal_nil, Except.ok.injEq] at h
    rw [← h]
    exact ⟨rfl, rfl⟩
  · have hverify : ∃ file, verifyHeader ⟨bytes, 0⟩ = .ok file := by
      rw [WalWriter.openWal, if_neg (fun hlen => hnil (length_eq_zero_iff.mp hlen))] at h
      split at h
      · cases h
      · next file hfile => exact ⟨file, hfile⟩
    obtain ⟨file, hfile⟩ := hverify
    obtain ⟨hdr, rest, rfl, hvalid⟩ := validHeader_of_verify hfile
    obtain ⟨kept, tail, hkept, htail, rfl⟩ := exists_encodeRecords_append crc32 rest
    rw [openWal_valid hvalid hkept htail, Except.ok.injEq] at h
    rw [← h]
    exact ⟨rfl, rfl⟩

/-- On any bytes behind a valid header: the log opens; what is kept ends where reading stops;
reading returns the same records before and after; opening again gives the same writer; and
what is appended is read back at the offsets that were returned. -/
theorem openWal_readAll (crc32 : Bytes → UInt32) {hdr : Bytes} (hvalid : ValidHeader hdr)
    (rest : Bytes) :
    ∃ records w, WalWriter.openWal crc32 (hdr ++ rest) = .ok w ∧
      readAll crc32 (hdr ++ rest) = .ok (records, w.end) ∧
      w.end ≤ (hdr ++ rest).length ∧ w.file.bytes = (hdr ++ rest).take w.end ∧
      readAll crc32 w.file.bytes = .ok (records, w.end) ∧
      WalWriter.openWal crc32 w.file.bytes = .ok w ∧
      ∀ payloads offs w', w.appendAll crc32 payloads = .ok (offs, w') →
        offs.length = payloads.length ∧
          readAll crc32 w'.file.bytes =
            .ok (records ++ List.zipWith WalRecord.mk offs payloads, w'.end) := by
  obtain ⟨kept, tail, hkept, htail, rfl⟩ := exists_encodeRecords_append crc32 rest
  have hend : (hdr ++ encodeRecords crc32 kept).length =
      headerLen + (encodeRecords crc32 kept).length := by
    rw [length_append, hvalid.length]
  refine ⟨recordsFrom headerLen kept, writerAtEnd (hdr ++ encodeRecords crc32 kept),
    openWal_valid hvalid hkept htail, ?_, ?_, ?_, readAll_whole hvalid hkept, ?_, ?_⟩
  · rw [readAll_valid hvalid hkept htail, writerAtEnd, hend]
  · rw [writerAtEnd, ← append_assoc]
    exact (prefix_append _ tail).length_le
  · rw [writerAtEnd, ← append_assoc, take_left]
  · have hnil : Unreadable crc32 [] := tornTail_nil.unreadable
    have hopen := openWal_valid hvalid hkept hnil
    rwa [append_nil] at hopen
  · intro payloads offs w' happend
    have hsizes := sizes_of_appendAll happend
    have hall : ∀ p ∈ kept ++ payloads, p.length ≤ maxPayload := by
      intro p hp
      exact (mem_append.mp hp).elim (hkept p) (hsizes p)
    rw [appendAll_writerAtEnd _ hsizes, Except.ok.injEq, Prod.mk.injEq] at happend
    obtain ⟨rfl, rfl⟩ := happend
    constructor
    · rw [length_map, recordsFrom_length]
    · rw [zipWith_offset_recordsFrom, writerAtEnd, append_assoc, ← encodeRecords_append,
        readAll_whole hvalid hall, recordsFrom_append crc32, hend]

/-- The agreement at a log whose header has nonzero bytes behind the version, and whose only
record is torn. -/
theorem openWal_readAll_torn :
    ValidHeader (magic ++ [1, 0, 9, 9, 9, 9, 9, 9]) ∧
      ∃ records w, WalWriter.openWal crc32Ieee (magic ++ [1, 0, 9, 9, 9, 9, 9, 9] ++ [5, 0]) =
          .ok w ∧
        readAll crc32Ieee (magic ++ [1, 0, 9, 9, 9, 9, 9, 9] ++ [5, 0]) = .ok (records, w.end) := by
  have hvalid : ValidHeader (magic ++ [1, 0, 9, 9, 9, 9, 9, 9]) :=
    ⟨by decide, by decide, by decide⟩
  obtain ⟨records, w, hopen, hread, -⟩ := openWal_readAll crc32Ieee hvalid [5, 0]
  exact ⟨hvalid, records, w, hopen, hread⟩

end TraceMux.Core.Log.Wal
