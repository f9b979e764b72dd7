/-
# Runners that share a session directory

Stop, resume and restart give a new runner the directory of the one before it. Aborting
a runner does not wait for it: a runner inside a poll goes on to its next await point,
and one that is dropped flushes its buffers. Every writer reads the end of `raw.bin` once,
when it is opened, and counts for itself from then on.

The steps of a runner are those between which another thread can run: a frame is received
and appended to the buffer of `raw.bin`, that buffer is flushed, the pieces of the row go
to the buffer of `index.jsonl`, and that buffer is flushed. The writer of packet captures
has the same steps without the two flushes.
-/

import TraceMux.Base.Transition
import TraceMux.Core.LogSink.File

namespace TraceMux.Server.SharedDir

open Base Base.Transition TraceMux.Core Core.Log Core.FileSink List Function

/-! ## One runner -/

/-- Who writes a session: the file log sink, or the writer of packet captures. -/
inductive WriterKind
  | fileSink
  | pcapSession
  deriving DecidableEq, Repr

/-- Where a runner is. The pieces are those of its row that are still to be written. -/
inductive Phase
  | parked
  | polling
  | flushRaw (pieces : List Bytes)
  | writeRow (pieces : List Bytes)
  | flushIndex
  | dropRaw
  | dropIndex
  | gone
  deriving DecidableEq, Repr

/-- Where a runner is when it has written a piece of a row and `rest` is left. -/
def Phase.afterPiece (kind : WriterKind) (rest : List Bytes) : Phase :=
  match rest, kind with
  | [], .fileSink => .flushIndex
  | [], .pcapSession => .polling
  | piece :: rest, _ => .writeRow (piece :: rest)

/-- A runner with its writers. The rows are kept with the frames they were written for,
and with the bytes that have gone to `index.jsonl`. -/
structure Runner where
  kind : WriterKind
  labels : SinkLabels
  aborted : Bool
  phase : Phase
  raw : RawWriter
  index : JsonlWriter
  rows : List (IndexEntry × Bytes)
  handed : Bytes
  deriving DecidableEq

/-- What a runner can do next. -/
inductive Move
  | abort
  | wake
  | recv (ts : DualTimestamp) (dir : Direction) (data : Bytes)
  | flushRaw
  | writePiece
  | flushIndex
  | yield
  | finish
  | dropRaw
  | dropIndex
  deriving DecidableEq, Repr

structure Handed where
  raw : Bytes := []
  index : Bytes := []
  deriving DecidableEq

namespace Runner

def opened (kind : WriterKind) (labels : SinkLabels) (raw : Bytes) : Runner where
  kind := kind
  labels := labels
  aborted := false
  phase := .parked
  raw := ⟨.empty, raw.length⟩
  index := .create
  rows := []
  handed := []

def rowFor (r : Runner) (ts : DualTimestamp) (dir : Direction) (off len : ℕ) : IndexEntry :=
  match r.kind with
  | .fileSink => FileLogSink.rowFor r.labels ts dir off len
  | .pcapSession => FileLogSink.packetRowFor r.labels ts off len

/-- One step of a runner, where it can be taken. -/
def move (codec : RowCodec) (r : Runner) : Move → Option (Handed × Runner)
  | .abort => some ({}, { r with aborted := true })
  | .wake =>
    match r.phase with
    | .parked => if r.aborted then none else some ({}, { r with phase := .polling })
    | _ => none
  | .recv ts dir data =>
    match r.phase with
    | .polling =>
      let appended := r.raw.append data
      let entry := r.rowFor ts dir appended.1.1 appended.1.2
      let pieces := codec.pieces entry ++ [[Lines.lf]]
      some ({ raw := appended.2.1 },
        { r with
          raw := appended.2.2
          rows := r.rows ++ [(entry, data)]
          phase := match r.kind with
            | .fileSink => .flushRaw pieces
            | .pcapSession => .writeRow pieces })
    | _ => none
  | .flushRaw =>
    match r.phase with
    | .flushRaw pieces =>
      let flushed := r.raw.flush
      some ({ raw := flushed.1 }, { r with raw := flushed.2, phase := .writeRow pieces })
    | _ => none
  | .writePiece =>
    match r.phase with
    | .writeRow (piece :: rest) =>
      let written := r.index.inner.writeAll piece
      some ({ index := written.1 },
        { r with
          index := ⟨written.2⟩
          handed := r.handed ++ written.1
          phase := .afterPiece r.kind rest })
    | _ => none
  | .flushIndex =>
    match r.phase with
    | .flushIndex =>
      let flushed := r.index.flush
      some ({ index := flushed.1 },
        { r with index := flushed.2, handed := r.handed ++ flushed.1, phase := .polling })
    | _ => none
  | .yield =>
    match r.phase with
    | .polling => some ({}, { r with phase := .parked })
    | _ => none
  | .finish =>
    match r.phase with
    | .polling => some ({}, { r with phase := .dropRaw })
    | .parked => if r.aborted then some ({}, { r with phase := .dropRaw }) else none
    | _ => none
  | .dropRaw =>
    match r.phase with
    | .dropRaw =>
      let flushed := r.raw.flush
      some ({ raw := flushed.1 }, { r with raw := flushed.2, phase := .dropIndex })
    | _ => none
  | .dropIndex =>
    match r.phase with
    | .dropIndex =>
      let flushed := r.index.flush
      some ({ index := flushed.1 },
        { r with index := flushed.2, handed := r.handed ++ flushed.1, phase := .gone })
    | _ => none

/-- A runner that writes nothing more: it is gone, or it has been aborted and is at an
await point or being dropped, and nothing is left in its buffers. -/
def Settled (r : Runner) : Prop :=
  (r.phase = .gone ∨
    (r.aborted = true ∧ (r.phase = .parked ∨ r.phase = .dropRaw ∨ r.phase = .dropIndex))) ∧
  r.raw.inner.pending = [] ∧ r.index.inner.pending = []

instance (r : Runner) : Decidable r.Settled := by
  unfold Settled
  infer_instance

end Runner

/-! ## The directory -/

/-- The two files and the runners that have been given the directory. -/
structure DirState where
  raw : Bytes
  index : Bytes
  runners : ℕ → Option Runner
  next : ℕ

def DirState.new : DirState := ⟨[], [], fun _ => none, 0⟩

/-- A runner opens its writers, or a runner makes a step. -/
inductive Action
  | openSink (kind : WriterKind) (labels : SinkLabels)
  | move (id : ℕ) (m : Move)
  deriving DecidableEq, Repr

/-- Take an action. A new runner is started only when the ones before it have been aborted
or have ended. -/
def step (codec : RowCodec) (s : DirState) : Action → Option DirState
  | .openSink kind labels =>
    if ∀ id < s.next, ∀ r ∈ s.runners id, r.aborted = true ∨ r.phase = .gone then
      some { s with
        runners := Function.update s.runners s.next (some (.opened kind labels s.raw))
        next := s.next + 1 }
    else none
  | .move id m =>
    match s.runners id with
    | none => none
    | some r =>
      match r.move codec m with
      | none => none
      | some (out, r') =>
        some { s with
          raw := s.raw ++ out.raw
          index := s.index ++ out.index
          runners := Function.update s.runners id (some r') }

/-! ## A frame of an undisturbed runner -/

variable {codec : RowCodec} {r r' : Runner} {out : Handed}

/-- Several steps of a runner with no other in between. -/
def Runner.moves (codec : RowCodec) (r : Runner) : List Move → Option (Handed × Runner)
  | [] => some ({}, r)
  | m :: rest =>
    match r.move codec m with
    | none => none
    | some (out, r') =>
      match r'.moves codec rest with
      | none => none
      | some (later, r'') => some (⟨out.raw ++ later.raw, out.index ++ later.index⟩, r'')

variable {id : ℕ} {s : DirState} {m : Move} {phase : Phase}

theorem exec_moves {ms : List Move} (hr : s.runners id = some r)
    (h : r.moves codec ms = some (out, r')) :
    exec (step codec) s (ms.map (.move id)) = some { s with
      raw := s.raw ++ out.raw
      index := s.index ++ out.index
      runners := update s.runners id (some r') } := by
  induction ms generalizing s r out with
  | nil =>
    cases h
    simp [← hr]
  | cons m rest ih =>
    simp only [Runner.moves] at h
    split at h
    · cases h
    · next first r₁ hfirst =>
      split at h
      · cases h
      · next later r₂ hlater =>
        cases h
        have hstep : step codec s (.move id m) = some { s with
            raw := s.raw ++ first.raw
            index := s.index ++ first.index
            runners := update s.runners id (some r₁) } := by
          simp [step, hr, hfirst]
        have hrunner : update s.runners id (some r₁) id = some r₁ :=
          update_self ..
        have hrest := ih (s := { s with
          raw := s.raw ++ first.raw
          index := s.index ++ first.index
          runners := update s.runners id (some r₁) }) hrunner hlater
        rw [map_cons, exec, hstep]
        simpa using hrest

theorem moves_append {ms ms' : List Move} {r₁ r₂ : Runner} {out' : Handed}
    (h : r.moves codec ms = some (out, r₁)) (h' : r₁.moves codec ms' = some (out', r₂)) :
    r.moves codec (ms ++ ms') = some (⟨out.raw ++ out'.raw, out.index ++ out'.index⟩, r₂) := by
  revert h
  fun_induction r.moves codec ms generalizing out with
  | case1 r =>
    rintro ⟨⟩
    simpa using h'
  | case4 r m rest first r₃ hfirst later r₄ hlater ih =>
    rintro ⟨⟩
    rw [cons_append, Runner.moves]
    simp [hfirst, ih hlater]
  | _ => rintro ⟨⟩

theorem moves_writePieces {pieces : List Bytes} (hkind : r.kind = .fileSink)
    (hphase : r.phase = .writeRow pieces) (hne : pieces ≠ []) :
    r.moves codec (List.replicate pieces.length .writePiece) =
      some ({ index := (r.index.inner.writePieces pieces).1 },
        { r with
          index := ⟨(r.index.inner.writePieces pieces).2⟩
          handed := r.handed ++ (r.index.inner.writePieces pieces).1
          phase := .flushIndex }) := by
  induction pieces generalizing r with
  | nil => exact absurd rfl hne
  | cons piece rest ih =>
    rw [length_cons, replicate_succ, Runner.moves]
    simp only [Runner.move, hphase]
    cases rest with
    | nil => simp [Runner.moves, hkind, Phase.afterPiece, BufWriter.writePieces]
    | cons second rest =>
      rw [ih (by exact hkind) (by rfl) (cons_ne_nil _ _)]
      simp [BufWriter.writePieces]

/-- The steps of a runner of the file sink for one frame. -/
def appendMoves (codec : RowCodec) (r : Runner) (ts : DualTimestamp) (dir : Direction)
    (data : Bytes) : List Move :=
  let pieces := codec.pieces (r.rowFor ts dir r.raw.pos (min data.length u32Max)) ++ [[Lines.lf]]
  [Move.recv ts dir data, .flushRaw] ++
    (List.replicate pieces.length Move.writePiece ++ [Move.flushIndex])

/-- What a runner and its directory are of a sink that is open on the files of it. -/
structure Shows (r : Runner) (raw index : Bytes) (o : OpenSink) : Prop where
  labels_eq : r.labels = o.sink.labels
  raw_eq : r.raw = o.sink.raw
  index_eq : r.index = o.sink.index
  raw_file : raw = DiskFile.contents o.files.raw
  index_file : index = DiskFile.contents o.files.index

/-- The steps for one frame, with no other runner in between, are the sink's appending of
the frame. -/
theorem exec_appendMoves {codecs : Codecs} {o : OpenSink} (hr : s.runners id = some r)
    (hshows : Shows r s.raw s.index o) (hkind : r.kind = .fileSink) (hphase : r.phase = .polling)
    (now : SystemTime) (ts : DualTimestamp) (dir : Direction) (data : Bytes) :
    ∃ s' r', exec (step codecs.index) s
        ((appendMoves codecs.index r ts dir data).map (.move id)) = some s' ∧
      s'.runners id = some r' ∧ r'.phase = .polling ∧
      Shows r' s'.raw s'.index (FileLogSink.appendRaw codecs now o ts dir data) := by
  obtain ⟨hlabels, hraw, hindex, hrawFile, hindexFile⟩ := hshows
  let pieces := codecs.index.pieces (r.rowFor ts dir r.raw.pos (min data.length u32Max)) ++
    [[Lines.lf]]
  -- The runner after its frame is received and `raw.bin` is flushed.
  let r₁ : Runner := { r with
    raw := (r.raw.append data).2.2.flush.2
    rows := r.rows ++ [(r.rowFor ts dir r.raw.pos (min data.length u32Max), data)]
    phase := .writeRow pieces }
  have hrecv : r.moves codecs.index [.recv ts dir data, .flushRaw] =
      some ({ raw := (r.raw.append data).2.1 ++ (r.raw.append data).2.2.flush.1 }, r₁) := by
    simp [Runner.moves, Runner.move, hphase, hkind, r₁, pieces, RawWriter.append]
  have hpieces := @moves_writePieces codecs.index r₁ pieces hkind rfl (by simp [pieces])
  have hflush : ∀ r₂ : Runner, r₂.phase = .flushIndex →
      r₂.moves codecs.index [.flushIndex] = some ({ index := r₂.index.flush.1 },
        { r₂ with index := r₂.index.flush.2, handed := r₂.handed ++ r₂.index.flush.1,
                  phase := .polling }) := by
    intro r₂ hr₂
    simp [Runner.moves, Runner.move, hr₂]
  have hmoves := moves_append hrecv (moves_append hpieces (hflush _ rfl))
  refine ⟨_, _, exec_moves hr hmoves, update_self .., rfl, ?_⟩
  have hrow : r.rowFor ts dir r.raw.pos (min data.length u32Max) =
      FileLogSink.rowFor o.sink.labels ts dir o.sink.raw.pos (min data.length u32Max) := by
    simp [Runner.rowFor, hkind, hlabels, hraw]
  constructor
  · exact hlabels
  · simp [FileLogSink.appendRaw, r₁, hraw]
  · simp [FileLogSink.appendRaw, r₁, pieces, hindex, hrow, JsonlWriter.appendFlushed,
      JsonlWriter.append, JsonlWriter.flush, RawWriter.append]
  · simp [FileLogSink.appendRaw, hraw, hrawFile]
  · simp [FileLogSink.appendRaw, r₁, pieces, hindex, hindexFile, hrow, JsonlWriter.appendFlushed,
      JsonlWriter.append, JsonlWriter.flush, RawWriter.append]

/-! ## The rows of the index -/

def completeRows (codec : RowCodec) : ℕ → List (IndexEntry × Bytes) → List (IndexEntry × Bytes)
  | _, [] => []
  | n, w :: rest =>
    if (codec.line w.1).length ≤ n then
      w :: completeRows codec (n - (codec.line w.1).length) rest
    else []

def Runner.onDisk (codec : RowCodec) (r : Runner) : List (IndexEntry × Bytes) :=
  completeRows codec r.handed.length r.rows

/-- Every row of `index.jsonl` denotes the frame it was written for. -/
def RowsDenote (codec : RowCodec) (s : DirState) : Prop :=
  ∀ id r, s.runners id = some r → ∀ w ∈ r.onDisk codec,
    readAt s.raw w.1.off w.1.len = .ok w.2

/-- The runs in which the writers keep out of each other's way: a runner opens its writers
only when the ones before it write nothing more, rows go to `index.jsonl` only when the
buffer of `raw.bin` is empty, and a frame has less than 4 GiB. -/
def KeepsApart (codec : RowCodec) (s : DirState) : Action → Prop
  | .openSink _ _ => ∀ id < s.next, ∀ r ∈ s.runners id, r.Settled
  | .move id m =>
    (match m with
      | .recv _ _ data => data.length ≤ u32Max
      | _ => True) ∧
    ∀ r ∈ s.runners id, ∀ moved ∈ r.move codec m,
      moved.1.index = [] ∨ r.raw.inner.pending = []

instance (codec : RowCodec) (s : DirState) (a : Action) : Decidable (KeepsApart codec s a) := by
  unfold KeepsApart
  cases a with
  | openSink kind labels => infer_instance
  | move id m => cases m <;> infer_instance

/-! ## What a step of a runner does -/

/-- The frame a step receives. -/
def Move.data : Move → Bytes
  | .recv _ _ data => data
  | _ => []

/-- The row a step adds. -/
def Runner.newRows (r : Runner) : Move → List (IndexEntry × Bytes)
  | .recv ts dir data => [(r.rowFor ts dir r.raw.pos (min data.length u32Max), data)]
  | _ => []

/-- What is still to be written of the row at hand. -/
def Phase.remaining : Phase → Bytes
  | .flushRaw pieces => pieces.flatten
  | .writeRow pieces => pieces.flatten
  | _ => []

def linesOf (codec : RowCodec) (rows : List (IndexEntry × Bytes)) : Bytes :=
  rows.flatMap fun w => codec.line w.1

/-- What the runner has handed over, has in its buffer and has still to write. -/
def Runner.indexBytes (r : Runner) : Bytes :=
  r.handed ++ r.index.inner.pending ++ r.phase.remaining

/-- All that a step can do to the writers of its runner. -/
structure Moved (codec : RowCodec) (r : Runner) (m : Move) (out : Handed) (r' : Runner) :
    Prop where
  raw_bytes : out.raw ++ r'.raw.inner.pending = r.raw.inner.pending ++ m.data
  raw_pos : r'.raw.pos = r.raw.pos + m.data.length
  rows_eq : r'.rows = r.rows ++ r.newRows m
  handed_eq : r'.handed = r.handed ++ out.index
  index_bytes : r'.indexBytes = r.indexBytes ++ linesOf codec (r.newRows m)
  index_only : out.index = [] ∨ (out.raw = [] ∧ r'.raw = r.raw ∧ r.newRows m = [])

theorem remaining_afterPiece (kind : WriterKind) (rest : List Bytes) :
    (Phase.afterPiece kind rest).remaining = rest.flatten := by
  cases rest with
  | nil => cases kind <;> rfl
  | cons piece rest => rfl

/-- A step that leaves the writers alone. -/
theorem Moved.idle (hdata : m.data = []) (hrows : r.newRows m = []) (hraw : r'.raw = r.raw)
    (hindex : r'.index = r.index) (hrows' : r'.rows = r.rows) (hhanded : r'.handed = r.handed)
    (hphase : r'.phase.remaining = r.phase.remaining) :
    Moved codec r m {} r' where
  raw_bytes := by simp [hraw, hdata]
  raw_pos := by simp [hraw, hdata]
  rows_eq := by simp [hrows', hrows]
  handed_eq := by simp [hhanded]
  index_bytes := by simp [Runner.indexBytes, hhanded, hindex, hphase, hrows, linesOf]
  index_only := .inl rfl

/-- A step that flushes the buffer of `raw.bin`. -/
theorem Moved.flushRaw (hdata : m.data = []) (hrows : r.newRows m = [])
    (hphase : phase.remaining = r.phase.remaining) :
    Moved codec r m { raw := r.raw.flush.1 } { r with raw := r.raw.flush.2, phase := phase } where
  raw_bytes := by simp [RawWriter.flush, BufWriter.flush, hdata]
  raw_pos := by simp [RawWriter.flush, hdata]
  rows_eq := by simp [hrows]
  handed_eq := by simp
  index_bytes := by simp [Runner.indexBytes, hphase, hrows, linesOf]
  index_only := .inl rfl

/-- A step that flushes the buffer of `index.jsonl`. -/
theorem Moved.flushIndex (hdata : m.data = []) (hrows : r.newRows m = [])
    (hphase : phase.remaining = r.phase.remaining) :
    Moved codec r m { index := r.index.flush.1 }
      { r with
        index := r.index.flush.2
        handed := r.handed ++ r.index.flush.1
        phase := phase } where
  raw_bytes := by simp [hdata]
  raw_pos := by simp [hdata]
  rows_eq := by simp [hrows]
  handed_eq := rfl
  index_bytes := by
    simp [Runner.indexBytes, hphase, hrows, linesOf, JsonlWriter.flush, BufWriter.flush]
  index_only := .inr ⟨rfl, rfl, hrows⟩

/-- A step that receives a frame and appends it to the buffer of `raw.bin`. -/
theorem Moved.recv {ts : DualTimestamp} {dir : Direction} {data : Bytes}
    (hbefore : r.phase.remaining = [])
    (hphase : phase.remaining = codec.line (r.rowFor ts dir r.raw.pos (min data.length u32Max))) :
    Moved codec r (.recv ts dir data) { raw := (r.raw.append data).2.1 }
      { r with
        raw := (r.raw.append data).2.2
        rows := r.rows ++ [(r.rowFor ts dir r.raw.pos (min data.length u32Max), data)]
        phase := phase } where
  raw_bytes := r.raw.append_bytes data
  raw_pos := rfl
  rows_eq := rfl
  handed_eq := by simp
  index_bytes := by
    simp [Runner.indexBytes, Runner.newRows, linesOf, hbefore, hphase]
  index_only := .inl rfl

/-- A step that writes a piece of a row to the buffer of `index.jsonl`. -/
theorem Moved.writePiece {piece : Bytes} {rest : List Bytes}
    (hbefore : r.phase = .writeRow (piece :: rest)) :
    Moved codec r .writePiece { index := (r.index.inner.writeAll piece).1 }
      { r with
        index := ⟨(r.index.inner.writeAll piece).2⟩
        handed := r.handed ++ (r.index.inner.writeAll piece).1
        phase := .afterPiece r.kind rest } where
  raw_bytes := by simp [Move.data]
  raw_pos := rfl
  rows_eq := by simp [Runner.newRows]
  handed_eq := rfl
  index_bytes := by
    have hbytes := r.index.inner.writeAll_bytes piece
    have hremaining : r.phase.remaining = piece ++ rest.flatten := by
      rw [hbefore]
      rfl
    simp only [Runner.indexBytes, remaining_afterPiece, hremaining, Runner.newRows, linesOf,
      flatMap_nil, append_nil, append_assoc]
    rw [← append_assoc _ _ rest.flatten, hbytes, append_assoc]
  index_only := .inr ⟨rfl, rfl, rfl⟩

theorem moved_of_move (h : r.move codec m = some (out, r')) : Moved codec r m out r' := by
  revert h
  fun_cases r.move codec m with
  | case1 =>
    rintro ⟨⟩
    exact .idle rfl rfl rfl rfl rfl rfl rfl
  | case3 hphase | case13 hphase | case15 hphase | case16 hphase =>
    rintro ⟨⟩
    exact .idle rfl rfl rfl rfl rfl rfl (by rw [hphase]; rfl)
  | case5 ts dir data hphase appended entry pieces =>
    rintro ⟨⟩
    refine .recv (by rw [hphase]; rfl) ?_
    cases r.kind <;> simp [pieces, entry, appended, Phase.remaining, RowCodec.line, RowCodec.text,
      RawWriter.append]
  | case7 pieces hphase | case19 hphase =>
    rintro ⟨⟩
    exact .flushRaw rfl rfl (by rw [hphase]; rfl)
  | case9 piece rest hphase =>
    rintro ⟨⟩
    exact .writePiece hphase
  | case11 hphase | case21 hphase =>
    rintro ⟨⟩
    exact .flushIndex rfl rfl (by rw [hphase]; rfl)
  | _ => rintro ⟨⟩

theorem settled_of_move (hsettled : r.Settled) (h : r.move codec m = some (out, r')) :
    r'.Settled ∧ out = {} := by
  obtain ⟨hplace, hraw, hindex⟩ := hsettled
  rcases hplace with hgone | ⟨haborted, hphase | hphase | hphase⟩
  · cases m <;> simp [Runner.move, hgone] at h
    obtain ⟨rfl, rfl⟩ := h
    exact ⟨⟨.inl rfl, hraw, hindex⟩, rfl⟩
  · cases m <;> simp [Runner.move, hphase, haborted] at h
    · obtain ⟨rfl, rfl⟩ := h
      exact ⟨⟨.inr ⟨rfl, .inl rfl⟩, hraw, hindex⟩, rfl⟩
    · obtain ⟨rfl, rfl⟩ := h
      exact ⟨⟨.inr ⟨rfl, .inr (.inl rfl)⟩, hraw, hindex⟩, rfl⟩
  · cases m <;> simp [Runner.move, hphase] at h
    · obtain ⟨rfl, rfl⟩ := h
      exact ⟨⟨.inr ⟨rfl, .inr (.inl rfl)⟩, hraw, hindex⟩, rfl⟩
    · obtain ⟨rfl, rfl⟩ := h
      refine ⟨⟨.inr ⟨haborted, .inr (.inr rfl)⟩, rfl, hindex⟩, ?_⟩
      simp [RawWriter.flush, BufWriter.flush, hraw]
  · cases m <;> simp [Runner.move, hphase] at h
    · obtain ⟨rfl, rfl⟩ := h
      exact ⟨⟨.inr ⟨rfl, .inr (.inr rfl)⟩, hraw, hindex⟩, rfl⟩
    · obtain ⟨rfl, rfl⟩ := h
      refine ⟨⟨.inl rfl, hraw, rfl⟩, ?_⟩
      simp [JsonlWriter.flush, BufWriter.flush, hindex]

/-! ## The invariant -/

theorem completeRows_subset (codec : RowCodec) (n : ℕ) (rows : List (IndexEntry × Bytes)) :
    completeRows codec n rows ⊆ rows := by
  induction rows generalizing n with
  | nil => exact List.Subset.refl _
  | cons w rest ih =>
    rw [completeRows]
    split
    · exact cons_subset_cons w (ih _)
    · exact nil_subset _

/-- A row of which nothing has been handed over is not complete. -/
theorem completeRows_append {n : ℕ} {rows : List (IndexEntry × Bytes)}
    (h : n ≤ (linesOf codec rows).length) (w : IndexEntry × Bytes) :
    completeRows codec n (rows ++ [w]) = completeRows codec n rows := by
  induction rows generalizing n with
  | nil =>
    have hline : ¬ (codec.line w.1).length ≤ n := by
      rw [linesOf, flatMap_nil, length_nil] at h
      rw [RowCodec.line, length_append, length_singleton]
      omega
    simp [completeRows, hline]
  | cons v rest ih =>
    rw [cons_append, completeRows, completeRows]
    split
    · next hle =>
      have hrest : n - (codec.line v.1).length ≤ (linesOf codec rest).length := by
        rw [linesOf, flatMap_cons, length_append] at h
        rw [linesOf]
        omega
      rw [ih hrest]
    · rfl

theorem not_settled_of_newRows (h : r.move codec m = some (out, r')) (hnew : r.newRows m ≠ []) :
    ¬ r.Settled := by
  cases m with
  | recv ts dir data =>
    simp only [Runner.move] at h
    split at h
    · next hphase =>
      rintro ⟨hplace, -⟩
      simp [hphase] at hplace
    · cases h
  | _ => exact absurd rfl hnew

/-- What holds of every runner, given the bytes of `raw.bin`. -/
structure RunnerOk (codec : RowCodec) (raw : Bytes) (r : Runner) : Prop where
  /-- The writer of a runner that still writes knows where the next payload goes. -/
  pos_eq : ¬ r.Settled → r.raw.pos = (raw ++ r.raw.inner.pending).length
  /-- The payloads of a runner are in the file or in its buffer. -/
  held : ∀ w ∈ r.rows, readAt (raw ++ r.raw.inner.pending) w.1.off w.1.len = .ok w.2
  /-- The rows of a runner are in the file, in its buffer, or still to be written. -/
  lines_eq : r.indexBytes = linesOf codec r.rows
  /-- The rows that are in the file denote their frames. -/
  denote : ∀ w ∈ r.onDisk codec, readAt raw w.1.off w.1.len = .ok w.2

namespace RunnerOk

variable {raw : Bytes}

theorem opened (codec : RowCodec) (kind : WriterKind) (labels : SinkLabels) (raw : Bytes) :
    RunnerOk codec raw (.opened kind labels raw) where
  pos_eq _ := by simp [Runner.opened]
  held w hw := by cases hw
  lines_eq := rfl
  denote w hw := by cases hw

variable (h : RunnerOk codec raw r)
include h

theorem grow {more : Bytes} (hquiet : r.Settled ∨ more = []) : RunnerOk codec (raw ++ more) r := by
  rcases hquiet with hsettled | rfl
  · refine ⟨fun hlive => absurd hsettled hlive, fun w hw => ?_, h.lines_eq, fun w hw =>
      readAt_append (h.denote w hw) more⟩
    have hheld := h.held w hw
    rw [hsettled.2.1, append_nil] at hheld ⊢
    exact readAt_append hheld more
  · rwa [append_nil]

variable (hmove : r.move codec m = some (out, r'))
include hmove

theorem held_move (hlen : m.data.length ≤ u32Max) :
    ∀ w ∈ r'.rows, readAt (raw ++ out.raw ++ r'.raw.inner.pending) w.1.off w.1.len = .ok w.2 := by
  have hmoved := moved_of_move hmove
  have hbytes : raw ++ out.raw ++ r'.raw.inner.pending =
      (raw ++ r.raw.inner.pending) ++ m.data := by
    rw [append_assoc, hmoved.raw_bytes, append_assoc]
  intro w hw
  rw [hmoved.rows_eq] at hw
  rw [hbytes]
  rcases mem_append.mp hw with hold | hnew
  · exact readAt_append (h.held w hold) _
  · have hpos := h.pos_eq (not_settled_of_newRows hmove (ne_nil_of_mem hnew))
    cases m with
    | recv ts dir data =>
      rw [Runner.newRows, mem_singleton] at hnew
      have hmin : min data.length u32Max = data.length := Nat.min_eq_left hlen
      have hrange := readAt_range (raw ++ r.raw.inner.pending) data []
      rw [append_nil, ← hpos] at hrange
      have hoff : w.1.off = r.raw.pos ∧ w.1.len = data.length := by
        rw [hnew, hmin]
        simp only [Runner.rowFor]
        cases r.kind <;> exact ⟨rfl, rfl⟩
      rw [hoff.1, hoff.2, hnew]
      exact hrange
    | _ => cases hnew

/-- The rows of a runner that are in the file after one of its steps. Those that are new
there went to it while the buffer of `raw.bin` was empty. -/
theorem denote_move (hflushed : out.index = [] ∨ r.raw.inner.pending = []) :
    ∀ w ∈ r'.onDisk codec, readAt (raw ++ out.raw) w.1.off w.1.len = .ok w.2 := by
  have hmoved := moved_of_move hmove
  intro w hw
  by_cases hindex : out.index = []
  · apply readAt_append
    apply h.denote w
    have hhanded : r.handed.length ≤ (linesOf codec r.rows).length := by
      rw [← h.lines_eq, Runner.indexBytes, append_assoc, length_append]
      exact Nat.le_add_right _ _
    rw [Runner.onDisk, hmoved.rows_eq, hmoved.handed_eq, hindex, append_nil] at hw
    cases m with
    | recv ts dir data =>
      rw [Runner.newRows, completeRows_append hhanded] at hw
      exact hw
    | _ =>
      simp only [Runner.newRows, append_nil] at hw
      exact hw
  · obtain ⟨hraw, -, hrows⟩ := hmoved.index_only.resolve_left hindex
    have hpending := hflushed.resolve_left hindex
    have hmem := completeRows_subset codec _ _ hw
    rw [hmoved.rows_eq, hrows, append_nil] at hmem
    have hheld := h.held w hmem
    rw [hpending, append_nil] at hheld
    rw [hraw, append_nil]
    exact hheld

/-- A step keeps what holds of its runner. -/
theorem move (hlen : m.data.length ≤ u32Max)
    (hflushed : out.index = [] ∨ r.raw.inner.pending = []) :
    RunnerOk codec (raw ++ out.raw) r' where
  pos_eq := by
    intro hlive
    have hmoved := moved_of_move hmove
    have hbefore : ¬ r.Settled := fun hsettled => hlive (settled_of_move hsettled hmove).1
    rw [hmoved.raw_pos, h.pos_eq hbefore, append_assoc, hmoved.raw_bytes,
      ← append_assoc, ← length_append]
  held := h.held_move hmove hlen
  lines_eq := by
    have hmoved := moved_of_move hmove
    rw [hmoved.index_bytes, h.lines_eq, hmoved.rows_eq]
    simp [linesOf]
  denote := h.denote_move hmove hflushed

end RunnerOk

/-- What holds of a directory when the writers have kept apart. -/
structure Inv (codec : RowCodec) (s : DirState) : Prop where
  bounded : ∀ id r, s.runners id = some r → id < s.next
  unique : ∀ i j r r', s.runners i = some r → s.runners j = some r' →
    ¬ r.Settled → ¬ r'.Settled → i = j
  runnerOk : ∀ id r, s.runners id = some r → RunnerOk codec s.raw r

theorem inv_new (codec : RowCodec) : Inv codec .new where
  bounded _ _ h := by cases h
  unique _ _ _ _ h := by cases h
  runnerOk _ _ h := by cases h

/-- Opening a sink when no other runner writes any more keeps the invariant. -/
theorem Inv.openSink (h : Inv codec s) (kind : WriterKind) (labels : SinkLabels)
    (hsettled : ∀ id < s.next, ∀ r ∈ s.runners id, r.Settled) :
    Inv codec { s with
      runners := update s.runners s.next (some (.opened kind labels s.raw))
      next := s.next + 1 } := by
  have hothers : ∀ id r, s.runners id = some r → r.Settled := fun id r hr =>
    hsettled id (h.bounded id r hr) r hr
  refine ⟨forall_update (fun id r hr => ?_) (Nat.lt_succ_self _),
    fun i j r r' hr hr' hlive hlive' => ?_,
    forall_update h.runnerOk (.opened codec kind labels s.raw)⟩
  · exact Nat.lt_succ_of_lt (h.bounded id r hr)
  · rcases update_eq_some hr with ⟨rfl, -⟩ | ⟨-, hr⟩
    · rcases update_eq_some hr' with ⟨rfl, -⟩ | ⟨-, hr'⟩
      · rfl
      · exact absurd (hothers j r' hr') hlive'
    · exact absurd (hothers i r hr) hlive

/-- A step of one runner keeps the invariant: the others are settled, or the step writes
nothing. -/
theorem Inv.move (h : Inv codec s) (hr : s.runners id = some r)
    (hmove : r.move codec m = some (out, r')) (hlen : m.data.length ≤ u32Max)
    (hflushed : out.index = [] ∨ r.raw.inner.pending = []) :
    Inv codec { s with
      raw := s.raw ++ out.raw
      index := s.index ++ out.index
      runners := update s.runners id (some r') } := by
  have hbefore : ¬ r'.Settled → ¬ r.Settled := fun hlive hsettled =>
    hlive (settled_of_move hsettled hmove).1
  refine ⟨forall_update h.bounded (h.bounded id r hr), fun i j v v' hv hv' hlive hlive' => ?_,
    fun k v hv => ?_⟩
  · rcases update_eq_some hv with ⟨hi, hnew⟩ | ⟨-, hold⟩
    · cases hnew
      rcases update_eq_some hv' with ⟨hj, -⟩ | ⟨-, hold'⟩
      · rw [hi, hj]
      · rw [hi]
        exact h.unique id j r v' hr hold' (hbefore hlive) hlive'
    · rcases update_eq_some hv' with ⟨hj, hnew⟩ | ⟨-, hold'⟩
      · cases hnew
        rw [hj]
        exact h.unique i id v r hold hr hlive (hbefore hlive')
      · exact h.unique i j v v' hold hold' hlive hlive'
  · rcases update_eq_some hv with ⟨-, hnew⟩ | ⟨hne, hv⟩
    · cases hnew
      exact (h.runnerOk id r hr).move hmove hlen hflushed
    · apply (h.runnerOk k v hv).grow
      by_cases hsettled : r.Settled
      · have hout := (settled_of_move hsettled hmove).2
        exact .inr (by rw [hout])
      · by_cases hother : v.Settled
        · exact .inl hother
        · exact absurd (h.unique k id v r hv hr hother hsettled) hne

theorem Inv.step {s' : DirState} {a : Action} (h : Inv codec s) (hguard : KeepsApart codec s a)
    (hstep : step codec s a = some s') : Inv codec s' := by
  revert hstep
  fun_cases SharedDir.step codec s a with
  | case1 kind labels =>
    rintro ⟨⟩
    exact h.openSink kind labels hguard
  | case5 id m r hr out r' hmove =>
    rintro ⟨⟩
    have hlen : m.data.length ≤ u32Max := by
      cases m with
      | recv ts dir data => exact hguard.1
      | _ => exact Nat.zero_le _
    exact h.move hr hmove hlen (hguard.2 r hr (out, r') hmove)
  | _ => rintro ⟨⟩

/-- In every run in which the writers keep apart, every row of `index.jsonl` denotes in
`raw.bin` exactly the frame it was written for, at every moment. -/
theorem rowsDenote_of_keepsApart {codec : RowCodec} {run : List Action} {s : DirState}
    (hguard : Guarded (step codec) (KeepsApart codec) .new run)
    (hrun : exec (step codec) .new run = some s) : RowsDenote codec s := by
  have hinv : Inv codec s :=
    exec_invariant (fun _ _ _ h hg hs => h.step hg hs) (inv_new codec) hguard hrun
  exact fun id r hr => (hinv.runnerOk id r hr).denote

/-- The serialiser that writes every row as an empty object. -/
def bareCodec : RowCodec := ⟨fun _ => [[0x7B, 0x7D]], fun _ => .error ""⟩

def runLabels : SinkLabels := { sid := 0 }

def bareCodecs : Codecs := ⟨bareCodec, fun _ => [], fun _ => [], fun _ => []⟩

/-- The first frame of a session. -/
theorem exec_appendMoves_first :
    ∃ s r, exec (step bareCodec) .new [.openSink .fileSink runLabels, .move 0 .wake] = some s ∧
      ∃ s' r', exec (step bareCodecs.index) s
          ((appendMoves bareCodecs.index r (stampAt 0) .in [1]).map (.move 0)) = some s' ∧
        s'.runners 0 = some r' ∧ r'.phase = .polling ∧
        Shows r' s'.raw s'.index (FileLogSink.appendRaw bareCodecs 0
          (FileLogSink.createWithLabels bareCodecs 0 {} runLabels) (stampAt 0) .in [1]) :=
  ⟨_, _, rfl, exec_appendMoves rfl ⟨rfl, rfl, rfl, rfl, rfl⟩ rfl rfl 0 (stampAt 0) .in [1]⟩

/-- All the steps for one frame, from the time the runner is woken. -/
def frameMoves (id : ℕ) (data : Bytes) : List Action :=
  [.wake, .recv (stampAt 0) .in data, .flushRaw, .writePiece, .writePiece, .flushIndex,
    .yield].map (.move id)

/-- A runner records a frame and is aborted at an await point, and the next records one. -/
def restartRun : List Action :=
  .openSink .fileSink runLabels :: frameMoves 0 [1] ++ .move 0 .abort ::
    .openSink .fileSink runLabels :: frameMoves 1 [2, 3]

theorem rowsDenote_of_restartRun :
    ∃ s, exec (step bareCodec) .new restartRun = some s ∧ s.index.length = 6 ∧
      RowsDenote bareCodec s := by
  obtain ⟨s, hs, hindex⟩ : ∃ s, exec (step bareCodec) .new restartRun = some s ∧
      s.index.length = 6 := ⟨_, rfl, rfl⟩
  exact ⟨s, hs, hindex, rowsDenote_of_keepsApart (by decide) hs⟩

/-- A runner is aborted with a frame in its buffer, the next opens its writers, and only
then the first flushes. -/
def staleOffsetRun : List Action :=
  [Action.openSink .fileSink runLabels, .move 0 .wake, .move 0 (.recv (stampAt 0) .in [1]),
    .move 0 .abort, .openSink .fileSink runLabels, .move 0 .flushRaw] ++ frameMoves 1 [2]

/-- The offset the second writer read when it was opened is not where its frame goes: its
row denotes the frame of the first. -/
theorem row_denotes_other_frame :
    ∃ s r w, exec (step bareCodec) .new staleOffsetRun = some s ∧ s.runners 1 = some r ∧
      w ∈ r.onDisk bareCodec ∧ w.2 = [2] ∧ readAt s.raw w.1.off w.1.len = .ok [1] ∧
      ¬ RowsDenote bareCodec s := by
  obtain ⟨s, hs, hraw, r, hr, hrows⟩ : ∃ s, exec (step bareCodec) .new staleOffsetRun = some s ∧
      s.raw = [1, 2] ∧ ∃ r, s.runners 1 = some r ∧
        r.onDisk bareCodec = [(FileLogSink.rowFor runLabels (stampAt 0) .in 0 1, [2])] :=
    ⟨_, rfl, rfl, _, rfl, rfl⟩
  have hmem : (FileLogSink.rowFor runLabels (stampAt 0) .in 0 1, [2]) ∈ r.onDisk bareCodec := by
    rw [hrows]
    exact mem_singleton_self _
  have hread : readAt s.raw 0 1 = .ok [1] := by
    rw [hraw]
    rfl
  refine ⟨s, r, _, hs, hr, hmem, rfl, hread, fun hdenote => ?_⟩
  have hsame : readAt s.raw 0 1 = .ok [2] := hdenote 1 r hr _ hmem
  rw [hread] at hsame
  cases hsame

end TraceMux.Server.SharedDir
