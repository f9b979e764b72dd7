/-
# Replay of a session directory

The replay source reads the whole index when it is opened and then yields one frame
for every row, with the bytes the row denotes in `raw.bin`. It is opened on a directory
that nothing writes to.

What runs of the file sink have appended to a directory is exactly what a replay of it
yields.
-/

import TraceMux.Core.LogSink.Runs

namespace TraceMux.Core.Source

open Base Core.Log Core.FileSink List

/-- A replay source. The rows and the file are none while it is not open. -/
structure ReplaySource where
  path : String
  iter : Option (List IndexEntry) := none
  raw : Option Bytes := none
  eofSent : Bool := false

namespace ReplaySource

def notFound : String := "No such file or directory (os error 2)"

def openError (message : String) : TraceMuxError := ⟨.E1101SourceOpen, message⟩

/-- What a bad line of the index is reported as. -/
def lineError : RowCodec.LineError → TraceMuxError
  | .io e => openError s!"replay read: {e.display}"
  | .serde message => openError s!"replay parse: {message}"

def openDir (codec : RowCodec) (files : SessionFiles) (src : ReplaySource) :
    Except TraceMuxError Unit × ReplaySource :=
  match files.index with
  | none => (.error (openError s!"replay open {src.path}/index.jsonl: {notFound}"), src)
  | some index =>
    match codec.parseLines (Lines.split index.bytes) with
    | .error e => (.error (lineError e), src)
    | .ok entries =>
      match files.raw with
      | none =>
        (.error (openError s!"replay raw.bin: {notFound}"), { src with iter := some entries })
      | some raw => (.ok (), { src with iter := some entries, raw := some raw.bytes })

def frameOf (raw : Bytes) (entry : IndexEntry) : Except TraceMuxError (Option Frame) :=
  match readAt raw entry.off entry.len with
  | .error e => .error ⟨.E1102SourceClosed, s!"replay read: {e.display}"⟩
  | .ok data =>
    match entry.kind with
    | .datagram => .ok (some (.datagram entry.source data))
    | _ => .ok (some (.bytes data))

/-- The next frame, or none behind the last row. -/
def recv (src : ReplaySource) : Except TraceMuxError (Option Frame) × ReplaySource :=
  match src.iter, src.raw with
  | none, _ => (.error ⟨.E1102SourceClosed, "replay source not open"⟩, src)
  | some _, none => (.error ⟨.E1102SourceClosed, "replay raw not open"⟩, src)
  | some [], some _ => (.ok none, { src with eofSent := true })
  | some (entry :: rest), some raw => (frameOf raw entry, { src with iter := some rest })

/-- Forget the rows and the file. -/
def close (src : ReplaySource) : ReplaySource := { src with iter := none, raw := none }

def recvs : ℕ → ReplaySource → List (Except TraceMuxError (Option Frame))
  | 0, _ => []
  | n + 1, src => src.recv.1 :: recvs n src.recv.2

/-- The frames of a reader that stops at the end or at the first error. -/
def collect : List (Except TraceMuxError (Option Frame)) → List Frame
  | .ok (some frame) :: rest => frame :: collect rest
  | _ => []

/-- The frames a replay of a directory yields; none when it does not open. -/
def replayed (codec : RowCodec) (files : SessionFiles) (path : String) : List Frame :=
  match openDir codec files { path := path } with
  | (.ok (), src) => collect (recvs (src.iter.getD []).length src)
  | (.error _, _) => []

/-- An open source yields the frames of its rows, in order, and then none for ever. -/
theorem recvs_open (entries : List IndexEntry) (raw : Bytes) (src : ReplaySource)
    (hiter : src.iter = some entries) (hraw : src.raw = some raw) (n : ℕ) :
    recvs (entries.length + n) src = entries.map (frameOf raw) ++ List.replicate n (.ok none) := by
  induction entries generalizing src with
  | nil =>
    rw [length_nil, Nat.zero_add, map_nil, nil_append]
    induction n generalizing src with
    | zero => rfl
    | succ n ih =>
      rw [recvs, replicate_succ, recv, hiter, hraw]
      exact congrArg _ (ih _ rfl rfl)
  | cons entry rest ih =>
    rw [length_cons, Nat.add_right_comm, recvs, recv, hiter, hraw]
    exact congrArg _ (ih _ rfl rfl)

variable {codec : RowCodec} {files : SessionFiles} {entries : List IndexEntry}
  {e : RowCodec.LineError}

theorem openDir_ok (hindex : files.index.isSome) (hraw : files.raw.isSome)
    (hparse : codec.parseLines (Lines.split (DiskFile.contents files.index)) = .ok entries)
    (src : ReplaySource) :
    src.openDir codec files =
      (.ok (), { src with iter := some entries, raw := some (DiskFile.contents files.raw) }) := by
  obtain ⟨index, hindex⟩ := Option.isSome_iff_exists.mp hindex
  obtain ⟨raw, hraw⟩ := Option.isSome_iff_exists.mp hraw
  rw [hindex, DiskFile.contents_some] at hparse
  rw [openDir, hindex, hraw]
  simp only [hparse, DiskFile.contents_some]

/-- Opening fails when a line of the index is not a row. -/
theorem openDir_error
    (hparse : codec.parseLines (Lines.split (DiskFile.contents files.index)) = .error e)
    (src : ReplaySource) : ∃ e', src.openDir codec files = (.error e', src) := by
  unfold openDir
  cases hindex : files.index with
  | none => exact ⟨_, rfl⟩
  | some index =>
    rw [hindex, DiskFile.contents_some] at hparse
    simp only [hparse]
    exact ⟨_, rfl⟩

theorem collect_append (frames : List Frame) (rest : List (Except TraceMuxError (Option Frame))) :
    collect (frames.map (fun frame => .ok (some frame)) ++ rest) = frames ++ collect rest := by
  induction frames with
  | nil => rfl
  | cons frame frames ih => rw [map_cons, cons_append, collect, ih, cons_append]

/-- A replay collects from the frames of the rows that were read. -/
theorem replayed_ok (hindex : files.index.isSome) (hraw : files.raw.isSome)
    (hparse : codec.parseLines (Lines.split (DiskFile.contents files.index)) = .ok entries)
    (path : String) :
    replayed codec files path = collect (entries.map (frameOf (DiskFile.contents files.raw))) := by
  have hrecvs := recvs_open entries (DiskFile.contents files.raw)
    ⟨path, some entries, some (DiskFile.contents files.raw), false⟩ rfl rfl 0
  rw [Nat.add_zero, replicate_zero, append_nil] at hrecvs
  rw [replayed, openDir_ok hindex hraw hparse, ← hrecvs]
  rfl

end ReplaySource

open ReplaySource

/-- The result of reading a payload as the frame of a row for bytes. -/
def bytesFrame : Except IoError Bytes → Except TraceMuxError (Option Frame)
  | .error e => .error ⟨.E1102SourceClosed, s!"replay read: {e.display}"⟩
  | .ok data => .ok (some (.bytes data))

theorem frameOf_eq (raw : Bytes) {row : IndexEntry} (h : row.kind = .bytes) :
    frameOf raw row = bytesFrame (readAt raw row.off row.len) := by
  rw [frameOf, h]
  cases readAt raw row.off row.len <;> rfl

variable {appended : List Appended} {codec : RowCodec} {files : SessionFiles}

/-- The payloads that were appended to a new directory can be found through its index: the
rows read back, and each yields its payload as a frame. -/
theorem rows_of_adds (hcodec : codec.Lawful) (hadds : Adds codec {} files appended)
    (happended : ∀ a ∈ appended, a.data.length ≤ u32Max ∧ F32.isFinite a.ts.driftPpm) :
    ∃ rows, List.Forall₂ RowCodec.SameRow (rowsFrom 0 appended) rows ∧
      codec.parseLines (Lines.split (DiskFile.contents files.index)) = .ok rows ∧
      rows.map (frameOf (DiskFile.contents files.raw)) =
        appended.map fun a => .ok (some (.bytes a.data)) := by
  have hraw : DiskFile.contents files.raw = payloadBytes appended := hadds.raw
  have hindex : DiskFile.contents files.index = (rowsFrom 0 appended).flatMap codec.line :=
    hadds.index
  have hfinite : ∀ row ∈ rowsFrom 0 appended, F32.isFinite row.driftPpm := by
    intro row hrow
    obtain ⟨a, ha, off, rfl⟩ := exists_of_mem_rowsFrom hrow
    exact (happended a ha).2
  obtain ⟨rows, hsame, hparse⟩ := RowCodec.parseLines_rows hcodec hfinite
  refine ⟨rows, hsame, ?_, ?_⟩
  · have hsplit := RowCodec.split_rows hcodec (rowsFrom 0 appended) []
    rw [append_nil, Lines.split_nil] at hsplit
    rw [hindex, hsplit, hparse]
    simp [RowCodec.parseLines, Except.map]
  · have hkind : ∀ row ∈ rowsFrom 0 appended, row.kind = .bytes := by
      intro row hrow
      obtain ⟨a, -, off, rfl⟩ := exists_of_mem_rowsFrom hrow
      rfl
    have hread := congrArg (map bytesFrame)
      (rowsFrom_readAt (fun a ha => (happended a ha).1) [] [])
    rw [map_map, map_map, append_nil, nil_append] at hread
    rw [RowCodec.map_eq_of_sameRow (fun _ _ => rfl) hsame, hraw,
      map_congr_left fun row hrow => frameOf_eq _ (hkind row hrow)]
    exact hread

/-- The directory can be read in full: the source opens, yields the payloads in order, each
as one frame, and then nothing more. -/
def Readable (codec : RowCodec) (files : SessionFiles) (path : String) (payloads : List Bytes) :
    Prop :=
  ∃ src, openDir codec files { path := path } = (.ok (), src) ∧
    ∀ n, recvs (payloads.length + n) src =
      payloads.map (fun data => .ok (some (.bytes data))) ++ List.replicate n (.ok none)

/-- What was appended to a new directory can be read in full. -/
theorem readable_of_adds (hcodec : codec.Lawful) (hadds : Adds codec {} files appended)
    (happended : ∀ a ∈ appended, a.data.length ≤ u32Max ∧ F32.isFinite a.ts.driftPpm)
    (hindex : files.index.isSome) (hraw : files.raw.isSome) (path : String) :
    Readable codec files path (appended.map Appended.data) := by
  obtain ⟨rows, -, hparse, hframes⟩ := rows_of_adds hcodec hadds happended
  have hcount : rows.length = (appended.map Appended.data).length := by
    simpa using congrArg length hframes
  refine ⟨_, openDir_ok hindex hraw hparse _, fun n => ?_⟩
  rw [← hcount, map_map]
  exact (recvs_open rows _ _ rfl rfl n).trans (by rw [hframes]; rfl)

/-- It can be read exactly when no drift was recorded that is not finite. -/
theorem readable_iff_of_adds (hcodec : codec.RejectsNull) (hadds : Adds codec {} files appended)
    (hlen : ∀ a ∈ appended, a.data.length ≤ u32Max) (hindex : files.index.isSome)
    (hraw : files.raw.isSome) (path : String) :
    Readable codec files path (appended.map Appended.data) ↔
      ∀ a ∈ appended, F32.isFinite a.ts.driftPpm = true := by
  constructor
  · rintro ⟨src, hopen, -⟩
    by_contra hfinite
    have hnull : ∃ row ∈ rowsFrom 0 appended, F32.isFinite row.driftPpm = false := by
      simp only [not_forall, Bool.not_eq_true] at hfinite
      obtain ⟨a, ha, hdrift⟩ := hfinite
      obtain ⟨off, hrow⟩ := exists_mem_rowsFrom ha 0
      exact ⟨_, hrow, hdrift⟩
    have hsplit := RowCodec.split_rows hcodec.toLawful (rowsFrom 0 appended) []
    rw [append_nil] at hsplit
    obtain ⟨e, hparse⟩ := RowCodec.parseLines_refused hcodec hnull (Lines.split [])
    have hfile : DiskFile.contents files.index = (rowsFrom 0 appended).flatMap codec.line :=
      hadds.index
    rw [← hsplit, ← hfile] at hparse
    obtain ⟨e', herror⟩ := openDir_error hparse { path := path }
    rw [herror] at hopen
    cases hopen
  · intro hfinite
    exact readable_of_adds hcodec.toLawful hadds (fun a ha => ⟨hlen a ha, hfinite a ha⟩) hindex
      hraw path

/-- Any number of runs on a new directory: the rows of the index tile `raw.bin` from its
first byte to its last, each denotes its payload, and a replay yields the payloads in the
order in which they were appended and then ends. -/
theorem replay_of_runs {codecs : Codecs} (hcodec : codecs.index.Lawful) {runs : List SinkRun}
    (hne : runs ≠ [])
    (hruns : ∀ a ∈ runs.flatMap SinkRun.appended,
      a.data.length ≤ u32Max ∧ F32.isFinite a.ts.driftPpm) :
    ∃ rows raw,
      codecs.index.parseLines
        (Lines.split (DiskFile.contents (execRuns codecs {} runs).index)) = .ok rows ∧
      DiskFile.contents (execRuns codecs {} runs).raw = raw ∧
      rows.map (fun row => (row.off, row.len)) =
        tile 0 ((runs.flatMap SinkRun.appended).map Appended.data) ∧
      raw = ((runs.flatMap SinkRun.appended).map Appended.data).flatten ∧
      rows.map (fun row => readAt raw row.off row.len) =
        (runs.flatMap SinkRun.appended).map (fun a => .ok a.data) ∧
      ∀ path, ∃ src,
        openDir codecs.index (execRuns codecs {} runs) { path := path } = (.ok (), src) ∧
        ∀ n, recvs (((runs.flatMap SinkRun.appended).map Appended.data).length + n) src =
          ((runs.flatMap SinkRun.appended).map fun a => .ok (some (.bytes a.data))) ++
            replicate n (.ok none) := by
  generalize happended : runs.flatMap SinkRun.appended = appended at hruns ⊢
  have hadds := execRuns_adds codecs {} runs
  rw [happended] at hadds
  have hraw : DiskFile.contents (execRuns codecs {} runs).raw = payloadBytes appended := hadds.raw
  have hlen : ∀ a ∈ appended, a.data.length ≤ u32Max := fun a ha => (hruns a ha).1
  obtain ⟨rows, hsame, hrows, -⟩ := rows_of_adds hcodec hadds hruns
  have hread : rows.map (fun row => readAt (payloadBytes appended) row.off row.len) =
      appended.map fun a => .ok a.data := by
    have hall := rowsFrom_readAt hlen [] []
    rw [append_nil, nil_append] at hall
    rw [RowCodec.map_eq_of_sameRow (fun _ _ => rfl) hsame]
    exact hall
  obtain ⟨hrawSome, hindexSome⟩ := execRuns_isSome codecs {} hne
  refine ⟨rows, _, hrows, hraw, ?_, rfl, hread, fun path => ?_⟩
  · rw [RowCodec.map_eq_of_sameRow (fun _ _ => rfl) hsame, rowsFrom_range hlen]
  · obtain ⟨src, hopen, hrecvs⟩ := readable_of_adds hcodec hadds hruns hindexSome hrawSome path
    refine ⟨src, hopen, fun n => ?_⟩
    rw [hrecvs, map_map]
    rfl

/-- Two runs, the second with an empty payload. -/
theorem replay_of_two_runs :
    ∃ rows raw,
      decimalCodecs.index.parseLines (Lines.split (DiskFile.contents
        (execRuns decimalCodecs {} [plainRun [[1, 2], [3]], plainRun [[], [4]]]).index)) =
          .ok rows ∧
      DiskFile.contents
        (execRuns decimalCodecs {} [plainRun [[1, 2], [3]], plainRun [[], [4]]]).raw = raw ∧
      rows.map (fun row => (row.off, row.len)) = [(0, 2), (2, 1), (3, 0), (3, 1)] ∧
      raw = [1, 2, 3, 4] := by
  obtain ⟨rows, raw, hrows, hraw, htile, hbytes, -⟩ := @replay_of_runs decimalCodecs
    DecimalRows.codec_lawful [plainRun [[1, 2], [3]], plainRun [[], [4]]] (by simp) (by decide)
  exact ⟨rows, raw, hrows, hraw, htile, hbytes⟩

end TraceMux.Core.Source
