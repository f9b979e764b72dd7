/-
# Runs of a file sink

A run opens a sink on a session directory, makes any calls and closes it. Between two
calls every buffer is empty and the cached offset is the length of `raw.bin`, so that a
run adds exactly its payloads to `raw.bin` and exactly their rows to `index.jsonl`, and
the rows of all runs of a directory tile the file.
-/

import TraceMux.Core.Log.DecimalRows
import TraceMux.Core.LogSink.File

namespace TraceMux.Core.FileSink

open Base Core.Log FileLogSink List

inductive SinkCall
  | appendRaw (ts : DualTimestamp) (dir : Direction) (data : Bytes)
  | appendRecord (ts : DualTimestamp) (record : Record)
  | commit

def SinkCall.apply (codecs : Codecs) (now : SystemTime) (s : OpenSink) : SinkCall → OpenSink
  | .appendRaw ts dir data => FileLogSink.appendRaw codecs now s ts dir data
  | .appendRecord ts record => FileLogSink.appendRecord codecs now s ts record
  | .commit => FileLogSink.commit now s

/-- A run: the calls made between opening and closing, each with its time. -/
structure SinkRun where
  labels : SinkLabels
  opened : SystemTime
  calls : List (SystemTime × SinkCall)
  closed : SystemTime

/-- Make several calls. -/
def applyCalls (codecs : Codecs) (s : OpenSink) (calls : List (SystemTime × SinkCall)) : OpenSink :=
  calls.foldl (fun s call => call.2.apply codecs call.1 s) s

/-- What a run leaves in the directory. -/
def SinkRun.exec (codecs : Codecs) (files : SessionFiles) (run : SinkRun) : SessionFiles :=
  (close run.closed (applyCalls codecs
    (createWithLabels codecs run.opened files run.labels) run.calls)).files

/-- What several runs leave, one after the other. -/
def execRuns (codecs : Codecs) (files : SessionFiles) (runs : List SinkRun) : SessionFiles :=
  runs.foldl (SinkRun.exec codecs) files

/-- A payload that was appended, with what its row says. -/
structure Appended where
  labels : SinkLabels
  ts : DualTimestamp
  dir : Direction
  data : Bytes
  deriving DecidableEq, Repr

/-- The payloads among some calls. -/
def appendedBy (labels : SinkLabels) (calls : List (SystemTime × SinkCall)) : List Appended :=
  calls.filterMap fun call =>
    match call.2 with
    | .appendRaw ts dir data => some ⟨labels, ts, dir, data⟩
    | _ => none

def SinkRun.appended (run : SinkRun) : List Appended := appendedBy run.labels run.calls

def Appended.row (a : Appended) (off : ℕ) : IndexEntry :=
  rowFor a.labels a.ts a.dir off (min a.data.length u32Max)

/-- The rows of payloads that lie behind each other from `start` on. -/
def rowsFrom : ℕ → List Appended → List IndexEntry
  | _, [] => []
  | start, a :: rest => a.row start :: rowsFrom (start + a.data.length) rest

def payloadBytes (appended : List Appended) : Bytes := (appended.map Appended.data).flatten

variable (codecs : Codecs) (files : SessionFiles) (start : ℕ)

theorem rowsFrom_append (first second : List Appended) :
    rowsFrom start (first ++ second) =
      rowsFrom start first ++ rowsFrom (start + (payloadBytes first).length) second := by
  induction first generalizing start with
  | nil => simp [rowsFrom, payloadBytes]
  | cons a rest ih =>
    rw [cons_append, rowsFrom, rowsFrom, ih, cons_append]
    simp [payloadBytes, Nat.add_assoc]

/-- The state of a sink between two calls. -/
structure Quiet (s : OpenSink) : Prop where
  raw_pending : s.sink.raw.inner.pending = []
  raw_pos : s.sink.raw.pos = (DiskFile.contents s.files.raw).length
  index_pending : s.sink.index.inner.pending = []
  raw_isSome : s.files.raw.isSome
  index_isSome : s.files.index.isSome

/-- What some calls have added to the two files a replay reads. -/
structure Adds (codec : RowCodec) (before after : SessionFiles) (appended : List Appended) :
    Prop where
  raw : DiskFile.contents after.raw = DiskFile.contents before.raw ++ payloadBytes appended
  index : DiskFile.contents after.index = DiskFile.contents before.index ++
    (rowsFrom (DiskFile.contents before.raw).length appended).flatMap codec.line

theorem Adds.refl (codec : RowCodec) {before after : SessionFiles}
    (hraw : DiskFile.contents after.raw = DiskFile.contents before.raw)
    (hindex : DiskFile.contents after.index = DiskFile.contents before.index) :
    Adds codec before after [] where
  raw := by simp [hraw, payloadBytes]
  index := by simp [hindex, rowsFrom]

theorem Adds.trans {codec : RowCodec} {first second third : SessionFiles}
    {a b : List Appended} (h : Adds codec first second a) (h' : Adds codec second third b) :
    Adds codec first third (a ++ b) where
  raw := by
    rw [h'.raw, h.raw, append_assoc]
    simp [payloadBytes]
  index := by
    rw [h'.index, h.index, h.raw, rowsFrom_append, flatMap_append, length_append, append_assoc]

theorem quiet_createWithLabels (now : SystemTime) (files : SessionFiles) (labels : SinkLabels) :
    Quiet (createWithLabels codecs now files labels) where
  raw_pending := rfl
  raw_pos := by simp [createWithLabels, RawWriter.create]
  index_pending := rfl
  raw_isSome := DiskFile.isSome_openAppend ..
  index_isSome := DiskFile.isSome_openAppend ..

variable {s : OpenSink} {appended : List Appended}

/-- A payload is appended and so is its row, with the offset at which it lies. -/
theorem appendRaw_spec (h : Quiet s) (codecs : Codecs) (now : SystemTime) (ts : DualTimestamp)
    (dir : Direction) (data : Bytes) :
    Quiet (FileLogSink.appendRaw codecs now s ts dir data) ∧
      Adds codecs.index s.files (FileLogSink.appendRaw codecs now s ts dir data).files
        [⟨s.sink.labels, ts, dir, data⟩] := by
  have hraw : DiskFile.contents (FileLogSink.appendRaw codecs now s ts dir data).files.raw =
      DiskFile.contents s.files.raw ++ data := by
    have hbytes := s.sink.raw.append_bytes data
    rw [h.raw_pending, nil_append] at hbytes
    simp only [FileLogSink.appendRaw, RawWriter.flush, BufWriter.flush, DiskFile.contents_append]
    rw [hbytes]
  have hindex : DiskFile.contents (FileLogSink.appendRaw codecs now s ts dir data).files.index =
      DiskFile.contents s.files.index ++ codecs.index.line (rowFor s.sink.labels ts dir
        (DiskFile.contents s.files.raw).length (min data.length u32Max)) := by
    simp only [FileLogSink.appendRaw, RawWriter.append, DiskFile.contents_append]
    rw [JsonlWriter.appendFlushed_bytes h.index_pending, h.raw_pos]
    rfl
  refine ⟨⟨rfl, ?_, rfl, ?_, ?_⟩, ⟨?_, ?_⟩⟩
  · rw [hraw, length_append, ← h.raw_pos]
    rfl
  · exact DiskFile.isSome_append h.raw_isSome
  · exact DiskFile.isSome_append h.index_isSome
  · rw [hraw]
    simp [payloadBytes]
  · rw [hindex]
    simp [rowsFrom, Appended.row]

theorem commit_spec (h : Quiet s) (codec : RowCodec) (now : SystemTime) :
    Quiet (FileLogSink.commit now s) ∧
      Adds codec s.files (FileLogSink.commit now s).files [] := by
  have hraw : DiskFile.contents (FileLogSink.commit now s).files.raw =
      DiskFile.contents s.files.raw := by
    simp [FileLogSink.commit, RawWriter.flush, BufWriter.flush, h.raw_pending]
  refine ⟨⟨rfl, ?_, rfl, ?_, ?_⟩, .refl codec hraw ?_⟩
  · rw [hraw, ← h.raw_pos]
    rfl
  · exact DiskFile.isSome_append h.raw_isSome
  · exact DiskFile.isSome_append h.index_isSome
  · simp [FileLogSink.commit, JsonlWriter.flush, BufWriter.flush, h.index_pending]

/-- Every call leaves the sink quiet and adds the payloads it is given. -/
theorem apply_spec (h : Quiet s) (codecs : Codecs) (call : SystemTime × SinkCall) :
    Quiet (call.2.apply codecs call.1 s) ∧
      (call.2.apply codecs call.1 s).sink.labels = s.sink.labels ∧
      Adds codecs.index s.files (call.2.apply codecs call.1 s).files
        (appendedBy s.sink.labels [call]) := by
  obtain ⟨now, call⟩ := call
  cases call with
  | appendRaw ts dir data =>
    have hspec := appendRaw_spec h codecs now ts dir data
    exact ⟨hspec.1, rfl, hspec.2⟩
  | appendRecord ts record => exact ⟨⟨h.1, h.2, h.3, h.4, h.5⟩, rfl, .refl codecs.index rfl rfl⟩
  | commit =>
    have hspec := commit_spec h codecs.index now
    exact ⟨hspec.1, rfl, hspec.2⟩

theorem applyCalls_spec (h : Quiet s) (codecs : Codecs) (calls : List (SystemTime × SinkCall)) :
    Quiet (applyCalls codecs s calls) ∧
      Adds codecs.index s.files (applyCalls codecs s calls).files
        (appendedBy s.sink.labels calls) := by
  induction calls generalizing s with
  | nil => exact ⟨h, .refl codecs.index rfl rfl⟩
  | cons call rest ih =>
    obtain ⟨hquiet, hlabels, hadds⟩ := apply_spec h codecs call
    obtain ⟨hquiet', hadds'⟩ := ih hquiet
    rw [hlabels] at hadds'
    rw [← singleton_append, appendedBy, filterMap_append]
    exact ⟨hquiet', hadds.trans hadds'⟩

theorem close_spec (h : Quiet s) (codec : RowCodec) (now : SystemTime) :
    Quiet (close now s) ∧ Adds codec s.files (close now s).files [] := by
  unfold close
  split
  · exact ⟨h, .refl codec rfl rfl⟩
  · obtain ⟨hquiet, hadds⟩ := commit_spec h codec now
    exact ⟨⟨hquiet.1, hquiet.2, hquiet.3, hquiet.4, hquiet.5⟩, hadds⟩

theorem exec_spec (run : SinkRun) :
    Adds codecs.index files (run.exec codecs files) run.appended ∧
      (run.exec codecs files).raw.isSome ∧ (run.exec codecs files).index.isSome := by
  have hcreate : Adds codecs.index files
      (createWithLabels codecs run.opened files run.labels).files [] :=
    .refl codecs.index (DiskFile.contents_openAppend ..) (DiskFile.contents_openAppend ..)
  obtain ⟨hquiet, hcalls⟩ := applyCalls_spec
    (quiet_createWithLabels codecs run.opened files run.labels) codecs run.calls
  obtain ⟨hclosed, hclose⟩ := close_spec hquiet codecs.index run.closed
  have hall := (hcreate.trans hcalls).trans hclose
  rw [nil_append, append_nil] at hall
  exact ⟨hall, hclosed.raw_isSome, hclosed.index_isSome⟩

theorem execRuns_adds (runs : List SinkRun) :
    Adds codecs.index files (execRuns codecs files runs) (runs.flatMap SinkRun.appended) := by
  induction runs generalizing files with
  | nil => exact .refl codecs.index rfl rfl
  | cons run rest ih =>
    exact (exec_spec codecs files run).1.trans (ih _)

/-- After the first run both files exist. -/
theorem execRuns_isSome {runs : List SinkRun} (hne : runs ≠ []) :
    (execRuns codecs files runs).raw.isSome ∧
      (execRuns codecs files runs).index.isSome := by
  induction runs using reverseRecOn with
  | nil => exact absurd rfl hne
  | append_singleton runs run _ =>
    rw [execRuns, foldl_append]
    exact (exec_spec codecs _ run).2

/-- The offset and the length of payloads that lie behind each other from `start` on. -/
def tile : ℕ → List Bytes → List (ℕ × ℕ)
  | _, [] => []
  | start, data :: rest => (start, data.length) :: tile (start + data.length) rest

/-- The rows note their payloads one behind the other. -/
theorem rowsFrom_ranges (appended : List Appended) :
    (rowsFrom start appended).map (fun row => (row.off, row.len)) =
      ranges start (appended.map Appended.data) := by
  induction appended generalizing start with
  | nil => rfl
  | cons a rest ih =>
    rw [rowsFrom, map_cons, map_cons, Log.ranges, ih]
    rfl

/-- The rows of payloads of less than 4 GiB tile the file. -/
theorem rowsFrom_range (h : ∀ a ∈ appended, a.data.length ≤ u32Max) (start : ℕ) :
    (rowsFrom start appended).map (fun row => (row.off, row.len)) =
      tile start (appended.map Appended.data) := by
  rw [rowsFrom_ranges]
  induction appended generalizing start with
  | nil => rfl
  | cons a rest ih =>
    rw [map_cons, Log.ranges, tile, ih fun b hb => h b (mem_cons_of_mem _ hb),
      Nat.min_eq_left (h a mem_cons_self)]

/-- Each row denotes its payload, as far as its length can say, also when the file grows. -/
theorem rowsFrom_readAt_take (appended : List Appended) (before after : Bytes) :
    (rowsFrom before.length appended).map (fun row =>
        readAt (before ++ (payloadBytes appended ++ after)) row.off row.len) =
      appended.map fun a => .ok (a.data.take u32Max) := by
  have hread := readAt_ranges (appended.map Appended.data) before after
  rw [← rowsFrom_ranges, map_map, map_map] at hread
  exact hread

/-- A payload of less than 4 GiB is denoted in full. -/
theorem rowsFrom_readAt (h : ∀ a ∈ appended, a.data.length ≤ u32Max) (before after : Bytes) :
    (rowsFrom before.length appended).map (fun row =>
        readAt (before ++ (payloadBytes appended ++ after)) row.off row.len) =
      appended.map fun a => .ok a.data := by
  rw [rowsFrom_readAt_take]
  apply map_congr_left
  intro a ha
  rw [take_of_length_le (h a ha)]

theorem rowsFrom_tsOrigin (appended : List Appended) :
    (rowsFrom start appended).map IndexEntry.tsOrigin =
      appended.map fun a => formatRfc3339Ns a.ts.tsOriginNs := by
  induction appended generalizing start with
  | nil => rfl
  | cons a rest ih =>
    rw [rowsFrom, map_cons, map_cons, ih]
    rfl

theorem exists_of_mem_rowsFrom {start : ℕ} {row : IndexEntry} (h : row ∈ rowsFrom start appended) :
    ∃ a ∈ appended, ∃ off, row = a.row off := by
  induction appended generalizing start with
  | nil => cases h
  | cons a rest ih =>
    rw [rowsFrom, mem_cons] at h
    rcases h with rfl | h
    · exact ⟨a, mem_cons_self, start, rfl⟩
    · obtain ⟨b, hb, off, hrow⟩ := ih h
      exact ⟨b, mem_cons_of_mem _ hb, off, hrow⟩

theorem exists_mem_rowsFrom {a : Appended} (h : a ∈ appended) (start : ℕ) :
    ∃ off, a.row off ∈ rowsFrom start appended := by
  induction appended generalizing start with
  | nil => cases h
  | cons b rest ih =>
    rcases mem_cons.mp h with rfl | h
    · exact ⟨start, mem_cons_self⟩
    · obtain ⟨off, hrow⟩ := ih h (start + b.data.length)
      exact ⟨off, mem_cons_of_mem _ hrow⟩

def decimalCodecs : Codecs where
  index := DecimalRows.codec
  linePieces _ := []
  framePieces _ := []
  metaText _ := []

def plainRun (payloads : List Bytes) : SinkRun where
  labels := { sid := 7 }
  opened := 0
  calls := payloads.map fun data => (1, .appendRaw (stampAt 1) .in data)
  closed := 2

end TraceMux.Core.FileSink
