/-
# Pruning at start-up

When the server starts it removes the session directories that are older than a number
of days. The age of a directory is that of its `meta.toml`, which a sink writes when it
is opened and never again; how long the sink went on recording does not matter.
-/

import TraceMux.Core.LogSink.Runs

namespace TraceMux.Server.Retention

open Base TraceMux.Core Core.FileSink FileLogSink

inductive EntryKind
  | dir (files : SessionFiles)
  | other
  deriving DecidableEq

structure RootEntry where
  fileName : String
  kind : EntryKind
  deriving DecidableEq

/-- What a pass has counted. -/
structure RetentionPruneStats where
  scanned : ℕ := 0
  removed : ℕ := 0
  deriving DecidableEq, Repr

/-- Nanoseconds of a number of days. -/
def daysNs (days : ℕ) : SystemTime := days * 86400 * 1000000000

/-- The time before which a directory has expired. A platform has an oldest time; a
cutoff before it becomes the Unix epoch. -/
def cutoff (oldest : SystemTime) (keepDays : ℕ) (now : SystemTime) : SystemTime :=
  if now - daysNs keepDays < oldest then 0 else now - daysNs keepDays

/-- The loop over the entries of the root: the counts, and the entries that are left. -/
def pruneEntries (limit : SystemTime) : List RootEntry → RetentionPruneStats × List RootEntry
  | [] => ({}, [])
  | entry :: rest =>
    let later := pruneEntries limit rest
    let keep := (later.1, entry :: later.2)
    match entry.kind with
    | .other => keep
    | .dir files =>
      if entry.fileName = ".tracemux" then keep
      else
        match files.metaToml with
        | none => keep
        | some info =>
          if info.modified < limit then
            ({ scanned := later.1.scanned + 1, removed := later.1.removed + 1 }, later.2)
          else ({ later.1 with scanned := later.1.scanned + 1 }, entry :: later.2)

/-- Prune the session directories under a root. No days at all means no pruning. -/
def pruneOldSessionDirsAt (oldest : SystemTime) (root : List RootEntry) (keepDays : ℕ)
    (now : SystemTime) : RetentionPruneStats × List RootEntry :=
  if keepDays = 0 then ({}, root) else pruneEntries (cutoff oldest keepDays now) root

/-- An entry that a pass removes: a directory with a `meta.toml` from before the limit. -/
def expired (limit : SystemTime) (entry : RootEntry) : Bool :=
  match entry.kind with
  | .other => false
  | .dir files =>
    entry.fileName ≠ ".tracemux" && files.metaToml.any fun info => info.modified < limit

theorem pruneEntries_eq (limit : SystemTime) (root : List RootEntry) :
    (pruneEntries limit root).2 = root.filter fun entry => !expired limit entry := by
  induction root with
  | nil => rfl
  | cons entry rest ih =>
    obtain ⟨fileName, kind⟩ := entry
    cases kind with
    | other => simp [pruneEntries, expired, ih]
    | dir files =>
      by_cases hname : fileName = ".tracemux"
      · simp [pruneEntries, expired, ih, hname]
      · cases hmeta : files.metaToml with
        | none => simp [pruneEntries, expired, ih, hname, hmeta]
        | some info =>
          by_cases hold : info.modified < limit
          · simp [pruneEntries, expired, ih, hname, hmeta, hold]
          · simp [pruneEntries, expired, ih, hname, hmeta, hold]

/-- A run that may have been cut off: the server went down before the sink was closed. -/
structure SessionRun where
  run : SinkRun
  closed : Bool

/-- What such a run leaves in the directory. -/
def SessionRun.exec (codecs : Codecs) (files : SessionFiles) (r : SessionRun) : SessionFiles :=
  if r.closed then r.run.exec codecs files
  else (applyCalls codecs (createWithLabels codecs r.run.opened files r.run.labels)
    r.run.calls).files

def sessionAfter (codecs : Codecs) (history : List SessionRun) : SessionFiles :=
  history.foldl (SessionRun.exec codecs) {}

def ingestTimes (r : SessionRun) : List SystemTime :=
  r.run.calls.filterMap fun call =>
    match call.2 with
    | .appendRaw ts _ _ => some ts.tsIngestNs
    | .appendRecord ts _ => some ts.tsIngestNs
    | .commit => none

variable (codecs : Codecs)

theorem applyCalls_metaToml (s : OpenSink) (calls : List (SystemTime × SinkCall)) :
    (applyCalls codecs s calls).files.metaToml = s.files.metaToml := by
  induction calls generalizing s with
  | nil => rfl
  | cons call rest ih =>
    have hcall : (call.2.apply codecs call.1 s).files.metaToml = s.files.metaToml := by
      cases call.2 <;> rfl
    exact (ih _).trans hcall

theorem exec_metaToml (files : SessionFiles) (r : SessionRun) :
    (r.exec codecs files).metaToml = writeMeta codecs r.run.opened r.run.labels := by
  have hcalls := applyCalls_metaToml codecs
    (createWithLabels codecs r.run.opened files r.run.labels) r.run.calls
  have hclose : ∀ s : OpenSink, (close r.run.closed s).files.metaToml = s.files.metaToml := by
    intro s
    unfold close
    split <;> rfl
  unfold SessionRun.exec
  split
  · rw [SinkRun.exec, hclose, hcalls]
    rfl
  · rw [hcalls]
    rfl

theorem expired_session (limit : SystemTime) (name : String) (history : List SessionRun)
    (last : SessionRun) :
    expired limit ⟨name, .dir (sessionAfter codecs (history ++ [last]))⟩ = true ↔
      name ≠ ".tracemux" ∧ last.run.opened < limit := by
  have hmeta : (sessionAfter codecs (history ++ [last])).metaToml =
      writeMeta codecs last.run.opened last.run.labels := by
    rw [sessionAfter, List.foldl_append]
    exact exec_metaToml codecs _ last
  simp [expired, hmeta, writeMeta, DiskFile.write]

/-- Start-up pruning keeps a session directory exactly when pruning is off, the name is
reserved, or the last run on it was opened at or after the cutoff. -/
theorem prune_keeps_iff {codecs : Codecs} {oldest now : SystemTime} {keepDays : ℕ}
    {root : List RootEntry} {name : String} {history : List SessionRun} {last : SessionRun}
    (hentry : ⟨name, .dir (sessionAfter codecs (history ++ [last]))⟩ ∈ root) :
    ⟨name, .dir (sessionAfter codecs (history ++ [last]))⟩ ∈
        (pruneOldSessionDirsAt oldest root keepDays now).2 ↔
      keepDays = 0 ∨ name = ".tracemux" ∨ cutoff oldest keepDays now ≤ last.run.opened := by
  by_cases hdays : keepDays = 0
  · simp [pruneOldSessionDirsAt, hdays, hentry]
  · have hkept : ∀ limit, (!expired limit ⟨name, .dir (sessionAfter codecs (history ++ [last]))⟩) =
        true ↔ name = ".tracemux" ∨ limit ≤ last.run.opened := by
      intro limit
      rw [Bool.not_eq_true', ← Bool.not_eq_true, expired_session, not_and_or, not_not, not_lt]
    rw [pruneOldSessionDirsAt, if_neg hdays, pruneEntries_eq, List.mem_filter, hkept]
    simp [hdays, hentry]

/-- A session that was opened on day 0 and recorded a payload on day 10. -/
def longRun : SessionRun where
  run := ⟨{ sid := 7 }, 0, [(daysNs 10, .appendRaw (stampAt (daysNs 10)) .in [1])], daysNs 10⟩
  closed := true

def longRoot : List RootEntry := [⟨"lab", .dir (sessionAfter decimalCodecs [longRun])⟩]

/-- On day 5, with a week to keep, the session stays. -/
theorem prune_keeps_longRun :
    ⟨"lab", .dir (sessionAfter decimalCodecs ([] ++ [longRun]))⟩ ∈
        (pruneOldSessionDirsAt 0 longRoot 7 (daysNs 5)).2 ↔
      7 = 0 ∨ "lab" = ".tracemux" ∨ cutoff 0 7 (daysNs 5) ≤ longRun.run.opened :=
  prune_keeps_iff (List.mem_singleton.mpr rfl)

/-- On day 11, with a week to keep, the session is removed, although it holds a record
from day 10. -/
theorem prune_removes_recent_record :
    (∃ t ∈ ingestTimes longRun, cutoff 0 7 (daysNs 11) ≤ t ∧ t ≤ daysNs 11) ∧
      (pruneOldSessionDirsAt 0 longRoot 7 (daysNs 11)).2 = [] := by
  refine ⟨⟨daysNs 10, List.mem_singleton.mpr rfl, by decide, by decide⟩, ?_⟩
  have hexpired := (expired_session decimalCodecs (cutoff 0 7 (daysNs 11)) "lab" [] longRun).mpr
    ⟨by decide, by decide⟩
  rw [List.nil_append] at hexpired
  rfl

end TraceMux.Server.Retention
