/-
# What an importer writes

An importer fills a fresh session directory: it appends payloads to `raw.bin` and a row
for each to `index.jsonl`. What is written counts as in its file at once. The buffers in
between reach the files when the importer flushes them at its end, or drops them on an
error.

A directory that is read again yields, row by row, a time of origin and a payload. Two
directories say the same when they yield the same.
-/

import TraceMux.Core.LogSink.File

namespace TraceMux.Core.Importer

open Base Core.Log Core.FileSink List

def rowPayload (raw : Bytes) (row : IndexEntry) : Option (String × Bytes) :=
  (readAt raw row.off row.len).toOption.map fun data => (row.tsOrigin, data)

/-- The times of origin and the payloads of a session, in order; none if it cannot be read. -/
def sessionPayloads (codec : RowCodec) (raw index : Bytes) : Option (List (String × Bytes)) :=
  match codec.parseLines (Lines.split index) with
  | .error _ => none
  | .ok rows => rows.mapM (rowPayload raw)

theorem mapM_rowPayload {raw : Bytes} {rows : List IndexEntry} {payloads : List Bytes}
    (hread : rows.map (fun row => readAt raw row.off row.len) = payloads.map .ok) :
    rows.mapM (rowPayload raw) = some ((rows.map IndexEntry.tsOrigin).zip payloads) := by
  induction rows generalizing payloads with
  | nil => rfl
  | cons row rows ih =>
    cases payloads with
    | nil => cases hread
    | cons data payloads =>
      rw [map_cons, map_cons, cons.injEq] at hread
      have hfirst : rowPayload raw row = some (row.tsOrigin, data) := by
        rw [rowPayload, hread.1]
        rfl
      rw [mapM_cons, hfirst, ih hread.2]
      rfl

variable {codec : RowCodec}

/-- A directory with the given rows yields their payloads. -/
theorem sessionPayloads_rows (h : codec.Lawful) {raw index : Bytes} {rows : List IndexEntry}
    (hindex : index = rows.flatMap codec.line) (hfinite : ∀ row ∈ rows, F32.isFinite row.driftPpm)
    {payloads : List Bytes}
    (hread : rows.map (fun row => readAt raw row.off row.len) = payloads.map .ok) :
    sessionPayloads codec raw index = some ((rows.map IndexEntry.tsOrigin).zip payloads) := by
  obtain ⟨read, hsame, hparse⟩ := RowCodec.parseLines_rows h hfinite
  have hsplit := RowCodec.split_rows h rows []
  rw [append_nil, Lines.split_nil, ← hindex] at hsplit
  have hrows : codec.parseLines (Lines.split index) = .ok read := by
    rw [hsplit, hparse]
    simp [RowCodec.parseLines, Except.map]
  have hpayloads : read.map (fun row => readAt raw row.off row.len) = payloads.map .ok := by
    rw [RowCodec.map_eq_of_sameRow (fun _ _ => rfl) hsame, hread]
  have horigins : read.map IndexEntry.tsOrigin = rows.map IndexEntry.tsOrigin :=
    RowCodec.map_eq_of_sameRow (fun _ _ => rfl) hsame
  rw [sessionPayloads, hrows]
  simp only
  rw [mapM_rowPayload hpayloads, horigins]

/-- A payload as an importer appends it. -/
structure Imported where
  tsOriginNs : ℤ
  tsIngestNs : ℤ
  kind : Kind
  level : Option String := none
  data : Bytes
  deriving DecidableEq, Repr

namespace Imported

def importedTs (p : Imported) : DualTimestamp where
  tsOriginNs := p.tsOriginNs
  tsIngestNs := p.tsIngestNs
  monoNs := 0
  bootId := 0
  nodeId := 0
  clockOffsetMs := 0
  clockQuality := .imported
  driftPpm := 0
  clockSource := .imported

def row (sid : Uuid) (p : Imported) (off len : ℕ) : IndexEntry :=
  { IndexEntry.fromEnvelope p.importedTs sid .in p.kind off len with level := p.level }

end Imported

variable {sid : Uuid} {payloads : List Imported}

/-- The files of the directory an importer fills. -/
structure Destination where
  raw : Bytes := []
  index : Bytes := []
  lines : List LineEntry := []

def Destination.append (codec : RowCodec) (sid : Uuid) (d : Destination) (p : Imported) :
    Destination :=
  { d with
    raw := d.raw ++ p.data
    index := d.index ++ codec.line (p.row sid d.raw.length (min p.data.length u32Max)) }

/-- The rows of payloads that are appended behind `start` bytes. -/
def importedRows (sid : Uuid) : ℕ → List Imported → List IndexEntry
  | _, [] => []
  | start, p :: rest =>
    p.row sid start (min p.data.length u32Max) :: importedRows sid (start + p.data.length) rest

theorem importedRows_append (sid : Uuid) (start : ℕ) (first second : List Imported) :
    importedRows sid start (first ++ second) = importedRows sid start first ++
      importedRows sid (start + (first.map Imported.data).flatten.length) second := by
  induction first generalizing start with
  | nil => rfl
  | cons p rest ih =>
    rw [cons_append, importedRows, ih, importedRows, cons_append, map_cons,
      flatten_cons, length_append, Nat.add_assoc]

theorem importedRows_ranges (sid : Uuid) (start : ℕ) (payloads : List Imported) :
    (importedRows sid start payloads).map (fun row => (row.off, row.len)) =
      ranges start (payloads.map Imported.data) := by
  induction payloads generalizing start with
  | nil => rfl
  | cons p rest ih =>
    rw [importedRows, map_cons, map_cons, Log.ranges, ih]
    rfl

theorem importedRows_tsOrigin (sid : Uuid) (start : ℕ) (payloads : List Imported) :
    (importedRows sid start payloads).map IndexEntry.tsOrigin =
      payloads.map fun p => formatRfc3339Ns p.tsOriginNs := by
  induction payloads generalizing start with
  | nil => rfl
  | cons p rest ih =>
    rw [importedRows, map_cons, map_cons, ih]
    rfl

theorem isFinite_importedRows {start : ℕ} {row : IndexEntry}
    (h : row ∈ importedRows sid start payloads) : F32.isFinite row.driftPpm = true := by
  induction payloads generalizing start with
  | nil => cases h
  | cons p rest ih =>
    rcases mem_cons.mp h with rfl | h
    · exact (by decide : F32.isFinite 0 = true)
    · exact ih h

/-- The directory holds these payloads and nothing else. -/
structure Destination.Holds (codec : RowCodec) (sid : Uuid) (d : Destination)
    (payloads : List Imported) : Prop where
  raw_eq : d.raw = (payloads.map Imported.data).flatten
  index_eq : d.index = (importedRows sid 0 payloads).flatMap codec.line

theorem Destination.holds_nil (codec : RowCodec) (sid : Uuid) :
    Destination.Holds codec sid {} [] := ⟨rfl, rfl⟩

theorem Destination.Holds.append {d : Destination} (h : d.Holds codec sid payloads) (p : Imported) :
    (d.append codec sid p).Holds codec sid (payloads ++ [p]) where
  raw_eq := by simp [Destination.append, h.raw_eq]
  index_eq := by
    rw [importedRows_append, flatMap_append, ← h.index_eq, ← h.raw_eq, Nat.zero_add]
    simp [Destination.append, importedRows]

/-- What a directory yields that holds payloads. Of a payload it is what the length of its row can
say. -/
theorem Destination.Holds.sessionPayloads (hcodec : codec.Lawful) {d : Destination}
    (h : d.Holds codec sid payloads) :
    sessionPayloads codec d.raw d.index =
      some (payloads.map fun p => (formatRfc3339Ns p.tsOriginNs, p.data.take u32Max)) := by
  have hread : (importedRows sid 0 payloads).map (fun row => readAt d.raw row.off row.len) =
      (payloads.map fun p => p.data.take u32Max).map .ok := by
    have hranges := readAt_ranges (payloads.map Imported.data) [] []
    rw [length_nil, ← importedRows_ranges sid, append_nil, nil_append, ← h.raw_eq,
      map_map, map_map] at hranges
    rw [map_map]
    exact hranges
  rw [sessionPayloads_rows hcodec h.index_eq (fun row hrow => isFinite_importedRows hrow) hread,
    importedRows_tsOrigin, zip_map']

/-- Payloads that are taken one after the other, each at the time of a clock. -/
def takenAt {α : Type} (clock : ℕ → ℤ) (make : ℤ → α → Imported) : ℕ → List α → List Imported
  | _, [] => []
  | count, a :: rest => make (clock count) a :: takenAt clock make (count + 1) rest

/-- What does not depend on the time at which a payload is taken. -/
theorem map_takenAt {α β : Type} (clock : ℕ → ℤ) (make : ℤ → α → Imported) (f : Imported → β)
    (g : α → β) (h : ∀ now a, f (make now a) = g a) (count : ℕ) (items : List α) :
    (takenAt clock make count items).map f = items.map g := by
  induction items generalizing count with
  | nil => rfl
  | cons a rest ih => rw [takenAt, map_cons, map_cons, ih, h]

end TraceMux.Core.Importer
