/-
# Group commit

A scheduler around the log: appended records are left to the operating system until a size
or a time is reached, and are then synced together. The time is an argument of the calls and
need not advance.

The log is followed by what the scheduler does not see: which records were appended, how far
the last successful sync has covered the file, and when it was made. Instants and durations
are nanoseconds; the time since an instant that is still to come is zero. A file has at most
`2 ^ 63 - 1` bytes, as its offsets are signed: a write behind that fails.
-/

import TraceMux.Core.Log.WalReopen

namespace TraceMux.Core.Log.Commit

open Base Core.Log.Wal

variable (crc32 : Bytes → UInt32)

variable {w w' : WalWriter} {payload : Bytes} {fault : Option (ℕ × IoError)} {off : ℕ}
  {e : TraceMuxError}

theorem tryAppend_ok (hend : w.file.pos = w.file.bytes.length)
    (h : w.tryAppend crc32 payload fault = (.ok off, w')) :
    w'.file.bytes = w.file.bytes ++ encodeRecord crc32 payload ∧
      w'.file.pos = w'.file.bytes.length := by
  unfold WalWriter.tryAppend at h
  split at h
  · cases h
  · next happend =>
    cases fault with
    | some fault => cases h
    | none =>
      obtain ⟨-, rfl⟩ := Prod.mk.inj h
      rw [WalWriter.append] at happend
      split at happend
      · cases happend
      · split at happend
        · cases happend
        · obtain ⟨-, rfl⟩ := Prod.mk.inj (Except.ok.inj happend)
          simp [OpenFile.writeAll_at_end hend, OpenFile.writeAll_at_end, encodeRecord]
          omega

/-- An append that fails may leave part of its record behind the file. -/
theorem tryAppend_error (hend : w.file.pos = w.file.bytes.length)
    (h : w.tryAppend crc32 payload fault = (.error e, w')) :
    w.file.bytes.length ≤ w'.file.bytes.length ∧ w'.file.pos = w'.file.bytes.length := by
  unfold WalWriter.tryAppend at h
  split at h
  · obtain ⟨-, rfl⟩ := Prod.mk.inj h
    exact ⟨le_rfl, hend⟩
  · cases fault with
    | none => cases h
    | some fault =>
      obtain ⟨-, rfl⟩ := Prod.mk.inj h
      simp [OpenFile.writeAll_at_end hend]

/-- A log in use, with what was done to it since the scheduler took it over. -/
structure TrackedWal where
  w : WalWriter
  /-- The payloads that were appended, each with the length of the file behind its record. -/
  appended : List (Bytes × ℕ)
  /-- The payloads that were appended since the last successful sync. -/
  pending : List Bytes
  /-- How much of the file the last successful sync has covered. -/
  covered : ℕ
  syncs : ℕ
  atEnd : w.file.pos = w.file.bytes.length

namespace TrackedWal

def ofOpen {bytes : Bytes} {w : WalWriter} (h : WalWriter.openWal crc32 bytes = .ok w) :
    TrackedWal :=
  ⟨w, [], [], 0, 0, (openWal_atEnd h).1⟩

/-- `WalWriter::append`, with the fault its writes meet. -/
def append (wal : TrackedWal) (payload : Bytes) (fault : Option (ℕ × IoError)) :
    Except TraceMuxError ℕ × TrackedWal :=
  match h : wal.w.tryAppend crc32 payload fault with
  | (.ok off, w) =>
    (.ok off,
      { wal with
        w := w
        appended := wal.appended ++ [(payload, w.file.bytes.length)]
        pending := wal.pending ++ [payload]
        atEnd := (tryAppend_ok crc32 wal.atEnd h).2 })
  | (.error e, w) =>
    (.error e, { wal with w := w, atEnd := (tryAppend_error crc32 wal.atEnd h).2 })

/-- Wrap an error of a sync. -/
def fsyncErr (e : IoError) : TraceMuxError :=
  ⟨.E1401WalFsync, s!"wal fsync: {e.display}"⟩

def sync (wal : TrackedWal) (fault : Option IoError) : Except TraceMuxError Unit × TrackedWal :=
  match fault with
  | some e => (.error (fsyncErr e), wal)
  | none =>
    (.ok (),
      { wal with pending := [], covered := wal.w.file.bytes.length, syncs := wal.syncs + 1 })

def AllCovered (wal : TrackedWal) : Prop := ∀ r ∈ wal.appended, r.2 ≤ wal.covered

end TrackedWal

/-- The thresholds. -/
structure CommitPolicy where
  window : ℕ := 50 * 10 ^ 6
  sizeBytes : ℕ := 256 * 1024
  deriving DecidableEq, Repr

structure GroupCommit where
  wal : TrackedWal
  policy : CommitPolicy
  inFlight : ℕ
  lastSync : ℕ

inductive CommitOutcome
  | buffered
  | synced
  deriving DecidableEq, Repr

def u64Max : ℕ := 2 ^ 64 - 1

namespace GroupCommit

/-- Wrap a log at an instant. -/
def new (wal : TrackedWal) (policy : CommitPolicy) (now : ℕ) : GroupCommit :=
  ⟨{ wal with appended := [], pending := [] }, policy, 0, now⟩

def shouldSync (gc : GroupCommit) (now : ℕ) : Bool :=
  gc.policy.sizeBytes ≤ gc.inFlight || gc.policy.window ≤ now - gc.lastSync

def appendAt (gc : GroupCommit) (payload : Bytes) (now : ℕ)
    (writeFault : Option (ℕ × IoError)) (syncFault : Option IoError) :
    Except TraceMuxError (ℕ × CommitOutcome) × GroupCommit :=
  match gc.wal.append crc32 payload writeFault with
  | (.error e, wal) => (.error e, { gc with wal := wal })
  | (.ok off, wal) =>
    let gc := { gc with wal := wal, inFlight := min u64Max (gc.inFlight + (payload.length + 8)) }
    if gc.shouldSync now then
      match gc.wal.sync syncFault with
      | (.error e, wal) => (.error e, { gc with wal := wal })
      | (.ok (), wal) =>
        (.ok (off, .synced), { gc with wal := wal, inFlight := 0, lastSync := now })
    else
      (.ok (off, .buffered), gc)

/-- `now` is what the clock shows when the sync has returned. -/
def flush (gc : GroupCommit) (now : ℕ) (syncFault : Option IoError) :
    Except TraceMuxError Unit × GroupCommit :=
  match gc.wal.sync syncFault with
  | (.error e, wal) => (.error e, { gc with wal := wal })
  | (.ok (), wal) => (.ok (), { gc with wal := wal, inFlight := 0, lastSync := now })

def tick (gc : GroupCommit) (now : ℕ) (syncFault : Option IoError) :
    Except TraceMuxError Bool × GroupCommit :=
  if gc.inFlight = 0 then
    (.ok false, gc)
  else if gc.policy.window ≤ now - gc.lastSync then
    match gc.wal.sync syncFault with
    | (.error e, wal) => (.error e, { gc with wal := wal })
    | (.ok (), wal) => (.ok true, { gc with wal := wal, inFlight := 0, lastSync := now })
  else
    (.ok false, gc)

end GroupCommit

/-- A call, with the faults it meets. -/
inductive CommitOp
  | appendAt (payload : Bytes) (now : ℕ) (writeFault : Option (ℕ × IoError))
      (syncFault : Option IoError)
  | tick (now : ℕ) (syncFault : Option IoError)
  | flush (now : ℕ) (syncFault : Option IoError)
  deriving DecidableEq

def CommitOp.now : CommitOp → ℕ
  | .appendAt _ now _ _ => now
  | .tick now _ => now
  | .flush now _ => now

inductive CommitReport
  | buffered
  | synced
  | ticked (synced : Bool)
  | flushed
  | failed (e : TraceMuxError)
  deriving DecidableEq, Repr

def GroupCommit.call (gc : GroupCommit) : CommitOp → CommitReport × GroupCommit
  | .appendAt payload now writeFault syncFault =>
    match gc.appendAt crc32 payload now writeFault syncFault with
    | (.ok (_, .buffered), gc) => (.buffered, gc)
    | (.ok (_, .synced), gc) => (.synced, gc)
    | (.error e, gc) => (.failed e, gc)
  | .tick now syncFault =>
    match gc.tick now syncFault with
    | (.ok synced, gc) => (.ticked synced, gc)
    | (.error e, gc) => (.failed e, gc)
  | .flush now syncFault =>
    match gc.flush now syncFault with
    | (.ok (), gc) => (.flushed, gc)
    | (.error e, gc) => (.failed e, gc)

def fileMax : ℕ := 2 ^ 63 - 1

/-- A scheduler, and the instant of the last call in which a sync succeeded. -/
structure CommitState where
  gc : GroupCommit
  syncedAt : ℕ

/-- One call. Its writes cannot make the file longer than a file can be. -/
def commitStep (s : CommitState) (op : CommitOp) : Option CommitState :=
  let after := (s.gc.call crc32 op).2
  if fileMax < after.wal.w.file.bytes.length then
    none
  else
    some ⟨after, if after.wal.syncs = s.gc.wal.syncs then s.syncedAt else op.now⟩

/-- A scheduler that was just constructed. -/
def constructed (wal : TrackedWal) (policy : CommitPolicy) (now : ℕ) : CommitState :=
  ⟨.new wal policy now, now⟩

variable {crc32} {wal wal' : TrackedWal} {report : CommitReport} {s : CommitState} {op : CommitOp}
  {gc : GroupCommit}

theorem append_ok (h : wal.append crc32 payload fault = (.ok off, wal')) :
    wal'.w.file.bytes.length = wal.w.file.bytes.length + (8 + payload.length) ∧
      wal'.appended = wal.appended ++ [(payload, wal'.w.file.bytes.length)] ∧
      wal'.pending = wal.pending ++ [payload] ∧ wal'.syncs = wal.syncs := by
  unfold TrackedWal.append at h
  split at h
  · next happend =>
    obtain ⟨-, rfl⟩ := Prod.mk.inj h
    have hbytes := (tryAppend_ok crc32 wal.atEnd happend).1
    refine ⟨?_, rfl, rfl, rfl⟩
    simp only [hbytes, List.length_append, encodeRecord_length]
  · cases h

/-- The call has appended no record and synced nothing. -/
structure Idle (gc gc' : GroupCommit) (report : CommitReport) : Prop where
  policy : gc'.policy = gc.policy
  inFlight : gc'.inFlight = gc.inFlight
  lastSync : gc'.lastSync = gc.lastSync
  appended : gc'.wal.appended = gc.wal.appended
  pending : gc'.wal.pending = gc.wal.pending
  syncs : gc'.wal.syncs = gc.wal.syncs
  length : gc.wal.w.file.bytes.length ≤ gc'.wal.w.file.bytes.length
  report : report = .ticked false ∨ ∃ e, report = .failed e

/-- The call has appended a record, and has not synced it. -/
structure Appended (gc gc' : GroupCommit) (payload : Bytes) (now : ℕ) (report : CommitReport) :
    Prop where
  policy : gc'.policy = gc.policy
  inFlight : gc'.inFlight = min u64Max (gc.inFlight + (payload.length + 8))
  lastSync : gc'.lastSync = gc.lastSync
  appended : gc'.wal.appended = gc.wal.appended ++ [(payload, gc'.wal.w.file.bytes.length)]
  pending : gc'.wal.pending = gc.wal.pending ++ [payload]
  syncs : gc'.wal.syncs = gc.wal.syncs
  length : gc'.wal.w.file.bytes.length = gc.wal.w.file.bytes.length + (8 + payload.length)
  report : report = .buffered ∧ gc'.shouldSync now = false ∨ ∃ e, report = .failed e

/-- The call has synced the file, perhaps with a record it has appended before. -/
structure Synced (gc gc' : GroupCommit) (now : ℕ) (report : CommitReport) : Prop where
  policy : gc'.policy = gc.policy
  inFlight : gc'.inFlight = 0
  lastSync : gc'.lastSync = now
  appended : ∀ r ∈ gc'.wal.appended,
    r ∈ gc.wal.appended ∨ r.2 = gc'.wal.w.file.bytes.length
  pending : gc'.wal.pending = []
  covered : gc'.wal.covered = gc'.wal.w.file.bytes.length
  syncs : gc'.wal.syncs = gc.wal.syncs + 1
  length : gc.wal.w.file.bytes.length ≤ gc'.wal.w.file.bytes.length
  report : report = .synced ∨ report = .ticked true ∨ report = .flushed

theorem idle_self (gc : GroupCommit) (h : report = .ticked false ∨ ∃ e, report = .failed e) :
    Idle gc gc report :=
  ⟨rfl, rfl, rfl, rfl, rfl, rfl, le_rfl, h⟩

theorem synced_flush (gc : GroupCommit) (now : ℕ)
    (h : report = .synced ∨ report = .ticked true ∨ report = .flushed) :
    Synced gc (gc.flush now none).2 now report :=
  ⟨rfl, rfl, rfl, fun _ hr => .inl hr, rfl, rfl, rfl, le_rfl, h⟩

theorem appendAt_cases (gc : GroupCommit) (payload : Bytes) (now : ℕ)
    (writeFault : Option (ℕ × IoError)) (syncFault : Option IoError) :
    let r := gc.call crc32 (.appendAt payload now writeFault syncFault)
    Idle gc r.2 r.1 ∨ Appended gc r.2 payload now r.1 ∨ Synced gc r.2 now r.1 := by
  simp only [GroupCommit.call, GroupCommit.appendAt]
  cases happend : gc.wal.append crc32 payload writeFault with
  | mk result wal =>
    cases result with
    | error e =>
      unfold TrackedWal.append at happend
      split at happend
      · cases happend
      · next htry =>
        obtain ⟨-, rfl⟩ := Prod.mk.inj happend
        exact .inl ⟨rfl, rfl, rfl, rfl, rfl, rfl, (tryAppend_error crc32 gc.wal.atEnd htry).1,
          .inr ⟨_, rfl⟩⟩
    | ok off =>
      obtain ⟨hlength, happended, hpending, hsyncs⟩ := append_ok happend
      right
      by_cases hsync : GroupCommit.shouldSync
          ⟨wal, gc.policy, min u64Max (gc.inFlight + (payload.length + 8)), gc.lastSync⟩ now
      · simp only [hsync, if_true]
        cases syncFault with
        | some e =>
          left
          exact ⟨rfl, rfl, rfl, happended, hpending, hsyncs, hlength, .inr ⟨_, rfl⟩⟩
        | none =>
          right
          refine ⟨rfl, rfl, rfl, ?_, rfl, rfl, congrArg (· + 1) hsyncs, ?_, .inl rfl⟩
          · intro r hr
            have hr' : r ∈ wal.appended := hr
            rw [happended, List.mem_append, List.mem_singleton] at hr'
            exact hr'.imp_right (congrArg Prod.snd)
          · exact hlength ▸ Nat.le_add_right _ _
      · simp only [hsync]
        left
        exact ⟨rfl, rfl, rfl, happended, hpending, hsyncs, hlength,
          .inl ⟨rfl, Bool.eq_false_of_not_eq_true hsync⟩⟩

theorem call_cases (gc : GroupCommit) (op : CommitOp) :
    Idle gc (gc.call crc32 op).2 (gc.call crc32 op).1 ∨
      (∃ payload, Appended gc (gc.call crc32 op).2 payload op.now (gc.call crc32 op).1) ∨
      Synced gc (gc.call crc32 op).2 op.now (gc.call crc32 op).1 := by
  cases op with
  | appendAt payload now writeFault syncFault =>
    exact (appendAt_cases ..).imp_right (Or.imp_left fun happended => ⟨payload, happended⟩)
  | tick now syncFault =>
    rw [GroupCommit.call, GroupCommit.tick]
    by_cases hempty : gc.inFlight = 0
    · rw [if_pos hempty]
      exact .inl (idle_self gc (.inl rfl))
    · rw [if_neg hempty]
      by_cases hwindow : gc.policy.window ≤ now - gc.lastSync
      · rw [if_pos hwindow]
        cases syncFault with
        | some e => exact .inl (idle_self gc (.inr ⟨_, rfl⟩))
        | none => exact .inr (.inr (synced_flush gc now (.inr (.inl rfl))))
      · rw [if_neg hwindow]
        exact .inl (idle_self gc (.inl rfl))
  | flush now syncFault =>
    cases syncFault with
    | some e => exact .inl (idle_self gc (.inr ⟨_, rfl⟩))
    | none => exact .inr (.inr (synced_flush gc now (.inr (.inr rfl))))

variable (crc32) in
/-- The scheduler counts what is not synced yet, and remembers when it was. -/
structure Consistent (policy : CommitPolicy) (s : CommitState) : Prop where
  policy : s.gc.policy = policy
  inFlight : s.gc.inFlight = (encodeRecords crc32 s.gc.wal.pending).length
  room : (encodeRecords crc32 s.gc.wal.pending).length ≤ s.gc.wal.w.file.bytes.length
  written : ∀ r ∈ s.gc.wal.appended, r.2 ≤ s.gc.wal.w.file.bytes.length
  lastSync : s.gc.lastSync = s.syncedAt

theorem consistent_constructed (wal : TrackedWal) (policy : CommitPolicy) (now : ℕ) :
    Consistent crc32 policy (constructed wal policy now) where
  policy := rfl
  inFlight := rfl
  room := Nat.zero_le _
  written := fun _ hr => nomatch hr
  lastSync := rfl

theorem commitStep_some {s' : CommitState} (h : commitStep crc32 s op = some s') :
    s'.gc = (s.gc.call crc32 op).2 ∧ s'.gc.wal.w.file.bytes.length ≤ fileMax ∧
      s'.syncedAt = if s'.gc.wal.syncs = s.gc.wal.syncs then s.syncedAt else op.now := by
  unfold commitStep at h
  simp only at h
  split at h
  · cases h
  · next hfits =>
    cases h
    exact ⟨rfl, Nat.le_of_not_lt hfits, rfl⟩

theorem length_encodeRecords_concat (payloads : List Bytes) (payload : Bytes) :
    (encodeRecords crc32 (payloads ++ [payload])).length =
      (encodeRecords crc32 payloads).length + (8 + payload.length) := by
  rw [encodeRecords_append, List.length_append, encodeRecords_cons, encodeRecords_nil,
    List.append_nil, encodeRecord_length]

section Kept

variable {policy : CommitPolicy} {s' : CommitState} {now : ℕ}

theorem Idle.consistent (hidle : Idle s.gc s'.gc report) (h : Consistent crc32 policy s)
    (hsyncedAt : s'.syncedAt = s.syncedAt) : Consistent crc32 policy s' := by
  constructor
  · exact hidle.policy.trans h.policy
  · rw [hidle.inFlight, hidle.pending, h.inFlight]
  · rw [hidle.pending]
    exact h.room.trans hidle.length
  · intro r hr
    rw [hidle.appended] at hr
    exact (h.written r hr).trans hidle.length
  · rw [hidle.lastSync, h.lastSync, hsyncedAt]

theorem Appended.consistent (happended : Appended s.gc s'.gc payload now report)
    (h : Consistent crc32 policy s) (hsyncedAt : s'.syncedAt = s.syncedAt)
    (hfits : s'.gc.wal.w.file.bytes.length ≤ fileMax) : Consistent crc32 policy s' := by
  have hlength := happended.length
  have hroom := h.room
  -- What is pending is in the file, so the counter is far from its end.
  have hcount : s.gc.inFlight + (payload.length + 8) ≤ u64Max := by
    have : fileMax ≤ u64Max := by decide
    rw [h.inFlight]
    omega
  constructor
  · exact happended.policy.trans h.policy
  · rw [happended.inFlight, Nat.min_eq_right hcount, happended.pending,
      length_encodeRecords_concat, h.inFlight]
    omega
  · rw [happended.pending, length_encodeRecords_concat]
    omega
  · intro r hr
    rw [happended.appended, List.mem_append, List.mem_singleton] at hr
    obtain hbefore | rfl := hr
    · have := h.written r hbefore
      omega
    · exact le_rfl
  · rw [happended.lastSync, h.lastSync, hsyncedAt]

theorem Synced.consistent (hsynced : Synced s.gc s'.gc now report)
    (h : Consistent crc32 policy s) (hsyncedAt : s'.syncedAt = now) :
    Consistent crc32 policy s' := by
  constructor
  · exact hsynced.policy.trans h.policy
  · rw [hsynced.inFlight, hsynced.pending]
    rfl
  · rw [hsynced.pending]
    exact Nat.zero_le _
  · intro r hr
    obtain hbefore | heq := hsynced.appended r hr
    · exact (h.written r hbefore).trans hsynced.length
    · exact heq.le
  · rw [hsynced.lastSync, hsyncedAt]

/-- Every call keeps the account. -/
theorem Consistent.step {op : CommitOp} (h : Consistent crc32 policy s)
    (hstep : commitStep crc32 s op = some s') : Consistent crc32 policy s' := by
  obtain ⟨hgc, hfits, hsyncedAt⟩ := commitStep_some hstep
  have hcases := @call_cases crc32 s.gc op
  rw [← hgc] at hcases
  obtain hidle | ⟨payload, happended⟩ | hsynced := hcases
  · rw [if_pos hidle.syncs] at hsyncedAt
    exact hidle.consistent h hsyncedAt
  · rw [if_pos happended.syncs] at hsyncedAt
    exact happended.consistent h hsyncedAt hfits
  · rw [if_neg (by rw [hsynced.syncs]; omega)] at hsyncedAt
    exact hsynced.consistent h hsyncedAt

end Kept

theorem not_shouldSync_of_buffered (h : (gc.call crc32 op).1 = .buffered) :
    (gc.call crc32 op).2.shouldSync op.now = false := by
  obtain hidle | ⟨payload, happended⟩ | hsynced := @call_cases crc32 gc op
  · obtain hreport | ⟨e, hreport⟩ := hidle.report <;> simp [hreport] at h
  · obtain ⟨-, hnot⟩ | ⟨e, hreport⟩ := happended.report
    · exact hnot
    · simp [hreport] at h
  · obtain hreport | hreport | hreport := hsynced.report <;> simp [hreport] at h

/-- After every run of calls, and for every further call: the counter is the encoded size of
the records that were appended since the last successful sync or the construction; a call that
reports a sync leaves every record covered by one; and a call that reports a buffered record
leaves fewer bytes unsynced than the policy allows, less than the window after the last
successful sync or the construction. -/
theorem commit_run {wal : TrackedWal} {policy : CommitPolicy} {start : ℕ} {ops : List CommitOp}
    {s s' : CommitState} {op : CommitOp}
    (hrun : Transition.exec (commitStep crc32) (constructed wal policy start) ops = some s)
    (hstep : commitStep crc32 s op = some s') :
    s.gc.inFlight = (encodeRecords crc32 s.gc.wal.pending).length ∧
      s'.gc.inFlight = (encodeRecords crc32 s'.gc.wal.pending).length ∧
      ((s.gc.call crc32 op).1 = .synced ∨ (s.gc.call crc32 op).1 = .ticked true ∨
          (s.gc.call crc32 op).1 = .flushed →
        s'.gc.wal.AllCovered) ∧
      ((s.gc.call crc32 op).1 = .buffered →
        (encodeRecords crc32 s'.gc.wal.pending).length < policy.sizeBytes ∧
          op.now < s'.syncedAt + policy.window) := by
  have hbefore : Consistent crc32 policy s :=
    Transition.exec_keeps (fun h hs => h.step hs) (consistent_constructed wal policy _) hrun
  have hafter := hbefore.step hstep
  have hgc := (commitStep_some hstep).1
  refine ⟨hbefore.inFlight, hafter.inFlight, ?_, ?_⟩
  · intro hreport r hr
    -- A call that reports a sync has made one.
    obtain hidle | ⟨payload, happended⟩ | hsynced := @call_cases crc32 s.gc op
    · obtain hidle | ⟨e, hidle⟩ := hidle.report <;> simp [hidle] at hreport
    · obtain ⟨happended, -⟩ | ⟨e, happended⟩ := happended.report <;>
        simp [happended] at hreport
    rw [hgc, hsynced.covered, ← hgc]
    exact hafter.written r hr
  · intro hreport
    have hnot := not_shouldSync_of_buffered hreport
    rw [← hgc, GroupCommit.shouldSync, Bool.or_eq_false_iff, decide_eq_false_iff_not,
      decide_eq_false_iff_not, hafter.policy, hafter.lastSync, hafter.inFlight] at hnot
    exact ⟨by omega, by omega⟩

/-- A record is buffered in a new log, a second one meets a sync that fails, and a flush covers
both. -/
theorem commit_run_flushed :
    ∃ s s', Transition.exec (commitStep crc32Ieee)
        (constructed (.ofOpen crc32Ieee openWal_nil) ⟨50, 32⟩ 0)
        [.appendAt [97] 10 none none, .appendAt [98] 60 none (some (.other "full"))] = some s ∧
      commitStep crc32Ieee s (.flush 70 none) = some s' ∧
      s.gc.inFlight = 18 ∧ s'.gc.wal.AllCovered := by
  obtain ⟨s, hrun⟩ : ∃ s, Transition.exec (commitStep crc32Ieee)
      (constructed (.ofOpen crc32Ieee openWal_nil) ⟨50, 32⟩ 0)
      [.appendAt [97] 10 none none, .appendAt [98] 60 none (some (.other "full"))] = some s :=
    ⟨_, rfl⟩
  obtain ⟨s', hstep⟩ : ∃ s', commitStep crc32Ieee s (.flush 70 none) = some s' := by
    cases hrun
    exact ⟨_, rfl⟩
  refine ⟨s, s', hrun, hstep, ?_, (commit_run hrun hstep).2.2.1 (.inr (.inr rfl))⟩
  cases hrun
  rfl

/-! ## Crashes -/

/-- The writes of a call succeed. Its sync may still fail. -/
def WritesAll (_ : CommitState) : CommitOp → Prop
  | .appendAt _ _ writeFault _ => writeFault = none
  | _ => True

variable (crc32) in
/-- A log that was new: it has the records that were appended, and a sync has covered all
those that are not pending. -/
structure Logged (wal : TrackedWal) : Prop where
  bytes_eq : wal.w.file.bytes = header ++ encodeRecords crc32 (wal.appended.map Prod.fst)
  size_le : ∀ p ∈ wal.appended.map Prod.fst, p.length ≤ maxPayload
  synced : ∃ synced, wal.appended.map Prod.fst = synced ++ wal.pending ∧
    headerLen + (encodeRecords crc32 synced).length ≤ max headerLen wal.covered

theorem Logged.append (h : Logged crc32 wal) (payload : Bytes) :
    Logged crc32 (wal.append crc32 payload none).2 := by
  unfold TrackedWal.append
  split
  · next w happend =>
    obtain ⟨synced, hsplit, hcovered⟩ := h.synced
    have hsize : payload.length ≤ maxPayload := by
      by_contra hlong
      obtain ⟨e, he⟩ := append_error_of_long crc32 wal.w (Nat.lt_of_not_le hlong)
      simp [WalWriter.tryAppend, he] at happend
    refine ⟨?_, ?_, synced, ?_, hcovered⟩
    · rw [(tryAppend_ok crc32 wal.atEnd happend).1, h.bytes_eq]
      simp [encodeRecords_append, encodeRecords_cons]
    · simpa [or_imp, forall_and] using ⟨by simpa using h.size_le, hsize⟩
    · simp [hsplit]
  · next e w happend =>
    -- An append without a fault fails before it writes.
    obtain rfl : w = wal.w := by
      unfold WalWriter.tryAppend at happend
      split at happend <;> cases happend
      rfl
    exact h

theorem Logged.sync (h : Logged crc32 wal) (fault : Option IoError) :
    Logged crc32 (wal.sync fault).2 := by
  cases fault with
  | some e => exact h
  | none =>
    refine ⟨h.bytes_eq, h.size_le, _, (List.append_nil _).symm, le_max_of_le_right ?_⟩
    show _ ≤ wal.w.file.bytes.length
    rw [h.bytes_eq, List.length_append]
    rfl

theorem Logged.step {s s' : CommitState} {op : CommitOp} (h : Logged crc32 s.gc.wal)
    (hwrites : WritesAll s op) (hstep : commitStep crc32 s op = some s') :
    Logged crc32 s'.gc.wal := by
  rw [(commitStep_some hstep).1]
  cases op with
  | appendAt payload now writeFault syncFault =>
    cases hwrites
    have happend := h.append payload
    simp only [GroupCommit.call, GroupCommit.appendAt]
    cases hresult : s.gc.wal.append crc32 payload none with
    | mk result wal =>
      rw [hresult] at happend
      cases result with
      | error e => exact happend
      | ok off =>
        dsimp only
        split_ifs
        · cases syncFault with
          | some e => exact happend
          | none => exact happend.sync none
        · exact happend
  | tick now syncFault =>
    simp only [GroupCommit.call, GroupCommit.tick]
    split_ifs
    · exact h
    · cases syncFault with
      | some e => exact h
      | none => exact h.sync none
    · exact h
  | flush now syncFault =>
    cases syncFault with
    | some e => exact h
    | none => exact h.sync none

/-- Whatever a crash leaves of a log, if its writes have succeeded and the synced bytes are
left: recovery returns the whole records that are left, in the order in which they were
appended. Only records appended since the last successful sync are missing. -/
theorem recovers_synced {policy : CommitPolicy} {start n : ℕ} {ops : List CommitOp}
    {s : CommitState}
    (hrun : Transition.exec (commitStep crc32)
      (constructed (.ofOpen crc32 openWal_nil) policy start) ops = some s)
    (hwrites : Transition.Guarded (commitStep crc32) WritesAll
      (constructed (.ofOpen crc32 openWal_nil) policy start) ops)
    (hheader : headerLen ≤ n) (hcovered : s.gc.wal.covered ≤ n) :
    ∃ synced, s.gc.wal.appended.map Prod.fst = synced ++ s.gc.wal.pending ∧
      Recovers crc32 (s.gc.wal.w.file.bytes.take n) (wholeRecords (synced ++ s.gc.wal.pending) n) ∧
      recordsFrom headerLen synced <+: wholeRecords (synced ++ s.gc.wal.pending) n := by
  have hkept : ∀ (s : CommitState) op s', Logged crc32 s.gc.wal → WritesAll s op →
      commitStep crc32 s op = some s' → Logged crc32 s'.gc.wal := fun _ _ _ h hw hs => h.step hw hs
  have hnew : Logged crc32 (constructed (.ofOpen crc32 openWal_nil) policy start).gc.wal :=
    ⟨rfl, by simp [constructed, GroupCommit.new], [], rfl, le_max_left _ _⟩
  have hlogged := Transition.exec_invariant hkept hnew hwrites hrun
  obtain ⟨synced, hsplit, hlength⟩ := hlogged.synced
  refine ⟨synced, hsplit, ?_, ?_⟩
  · obtain ⟨kept, torn, hkept, htorn, htake, hwhole⟩ :=
      exists_take_encodeRecords crc32 hlogged.size_le (n - headerLen)
    have hrecovers := recovers_log hkept htorn.unreadable
    rw [← htake, ← hwhole headerLen, Nat.add_sub_cancel' hheader, hsplit] at hrecovers
    rw [hlogged.bytes_eq, hsplit, List.take_append, List.take_of_length_le hheader]
    exact hrecovers
  · rw [wholeRecords, recordsFrom_append crc32, List.filter_append, List.filter_eq_self.mpr]
    · exact List.prefix_append _ _
    · intro r hr
      have := end_le_of_mem_recordsFrom crc32 hr
      rw [decide_eq_true_eq]
      omega

/-- The file is cut behind the record that was synced. -/
theorem recovers_synced_flushed :
    ∃ s, Transition.exec (commitStep crc32Ieee)
        (constructed (.ofOpen crc32Ieee openWal_nil) ⟨50, 32⟩ 0)
        [.appendAt [97] 10 none none, .flush 20 none, .appendAt [98] 30 none none] = some s ∧
      Recovers crc32Ieee (s.gc.wal.w.file.bytes.take 25) [⟨20, [97]⟩] := by
  refine ⟨_, rfl, ?_⟩
  obtain ⟨synced, hsplit, hrecovers, -⟩ := @recovers_synced crc32Ieee ⟨50, 32⟩ 0 25
    [.appendAt [97] 10 none none, .flush 20 none, .appendAt [98] 30 none none] _ rfl
    ⟨rfl, trivial, rfl, trivial⟩ (by decide) (by decide)
  rw [← hsplit] at hrecovers
  exact hrecovers

end TraceMux.Core.Log.Commit
