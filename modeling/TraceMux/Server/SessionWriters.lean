/-
# Rows and payloads on disk

Three writers record sessions: the file log sink of the server, the `log` command and the
writer of packet captures. Each appends payloads to `raw.bin` and rows to `index.jsonl` through
two buffered writers. A buffer goes to its file when it is full, when it is flushed and when it
is dropped, and the process can be killed at any moment in between.

A row that is complete in `index.jsonl` should refer to bytes that are in `raw.bin`. The file
log sink flushes the payload before it writes the row. The other two leave the order to the
buffers, and rows are longer than small payloads.
-/

import TraceMux.Core.PcapngRoundTrip

namespace TraceMux.Server.SessionWriters

open Base Base.Transition TraceMux.Core Core.Log Core.FileSink Core.Exporter.Pcapng
  Core.PcapngRoundTrip List

/-- What is in the two files. -/
structure Disk where
  raw : Bytes
  index : Bytes
  deriving DecidableEq

/-- The files and the writers that are open on them. -/
structure State where
  disk : Disk
  raw : RawWriter
  index : JsonlWriter
  deriving DecidableEq

/-- Writers that have just been opened. -/
def State.opened (disk : Disk) : State := ⟨disk, ⟨.empty, disk.raw.length⟩, .create⟩

inductive Op
  | appendRaw (data : Bytes)
  | flushRaw
  | writeIndex (piece : Bytes)
  | flushIndex
  deriving DecidableEq

/-- The bytes an operation hands to `raw.bin` and to `index.jsonl`. -/
def Op.handed (s : State) : Op → Disk
  | .appendRaw data => ⟨(s.raw.append data).2.1, []⟩
  | .flushRaw => ⟨s.raw.flush.1, []⟩
  | .writeIndex piece => ⟨[], (s.index.inner.writeAll piece).1⟩
  | .flushIndex => ⟨[], s.index.flush.1⟩

def Op.run (s : State) (op : Op) : State where
  disk := ⟨s.disk.raw ++ (op.handed s).raw, s.disk.index ++ (op.handed s).index⟩
  raw :=
    match op with
    | .appendRaw data => (s.raw.append data).2.2
    | .flushRaw => s.raw.flush.2
    | _ => s.raw
  index :=
    match op with
    | .writeIndex piece => ⟨(s.index.inner.writeAll piece).2⟩
    | .flushIndex => s.index.flush.2
    | _ => s.index

/-- Operations one after the other. -/
def runOps (s : State) (ops : List Op) : State := ops.foldl Op.run s

/-- Who records a session. -/
inductive SessionWriter
  | fileLogSink
  | cliLog
  | pcapSession
  deriving DecidableEq, Repr

/-- A payload with what the writers note of it. The kind and the tags are those the `log`
command finds; the direction is that of the file log sink. -/
structure Payload where
  ts : DualTimestamp
  dir : Direction
  kind : Kind
  tags : List String
  data : Bytes
  deriving DecidableEq

def rowFor (w : SessionWriter) (labels : SinkLabels) (p : Payload) (off len : ℕ) : IndexEntry :=
  match w with
  | .fileLogSink => FileLogSink.rowFor labels p.ts p.dir off len
  | .cliLog =>
    { IndexEntry.fromEnvelope p.ts labels.sid .in p.kind off len with
      source := labels.source
      tags := p.tags }
  | .pcapSession => FileLogSink.packetRowFor labels p.ts off len

/-- The records between two flushes of the `log` command. -/
def flushInterval : ℕ := 256

/-- What a writer does for a payload when `count` payloads have been appended before it and the
next offset is `pos`. -/
def appendOps (w : SessionWriter) (codec : RowCodec) (labels : SinkLabels) (count pos : ℕ)
    (p : Payload) : List Op :=
  let row := rowFor w labels p pos (min p.data.length u32Max)
  let rowOps := (codec.pieces row ++ [[Lines.lf]]).map Op.writeIndex
  match w with
  | .fileLogSink => [.appendRaw p.data, .flushRaw] ++ rowOps ++ [.flushIndex]
  | .cliLog =>
    [.appendRaw p.data] ++ rowOps ++
      if (count + 1) % flushInterval = 0 then [.flushRaw, .flushIndex] else []
  | .pcapSession => [.appendRaw p.data] ++ rowOps

/-- How a writer ends: it is closed, or it is dropped because its source has failed. -/
inductive Ending
  | closed
  | dropped
  deriving DecidableEq, Repr

/-- What a writer does at the end. The fields of the two sinks are dropped in the order in which
they are declared, the variables of the `log` command in the opposite order. -/
def endOps : SessionWriter → Ending → List Op
  | .cliLog, .dropped => [.flushIndex, .flushRaw]
  | _, _ => [.flushRaw, .flushIndex]

def appendAllOps (w : SessionWriter) (codec : RowCodec) (labels : SinkLabels) :
    ℕ → ℕ → List Payload → List Op
  | _, _, [] => []
  | count, pos, p :: rest =>
    appendOps w codec labels count pos p ++
      appendAllOps w codec labels (count + 1) (pos + p.data.length) rest

/-- A session on files that may be there already. -/
def sessionOps (w : SessionWriter) (codec : RowCodec) (labels : SinkLabels) (start : Disk)
    (payloads : List Payload) (ending : Ending) : List Op :=
  appendAllOps w codec labels 0 start.raw.length payloads ++ endOps w ending

/-- The rows of payloads, the first of which goes to `pos`. -/
def rowsOf (w : SessionWriter) (labels : SinkLabels) : ℕ → List Payload → List IndexEntry
  | _, [] => []
  | pos, p :: rest =>
    rowFor w labels p pos (min p.data.length u32Max) ::
      rowsOf w labels (pos + p.data.length) rest

/-- The files while what an operation hands over is being written. -/
structure Between (before after d : Disk) : Prop where
  raw_le : before.raw <+: d.raw
  le_raw : d.raw <+: after.raw
  index_le : before.index <+: d.index
  le_index : d.index <+: after.index

/-- The files at some moment of a session. -/
def Moment (s : State) (ops : List Op) (d : Disk) : Prop :=
  ∃ done op rest, ops = done ++ op :: rest ∧
    Between (runOps s done).disk (runOps s (done ++ [op])).disk d

/-- Every row that is complete in `index.jsonl` refers to bytes that are in `raw.bin`. The rows
are those of a writer that found `start` in `index.jsonl`. -/
def RowsPresent (codec : RowCodec) (start : Bytes) (rows : List IndexEntry) (d : Disk) : Prop :=
  ∀ before row after, rows = before ++ row :: after →
    start ++ (before ++ [row]).flatMap codec.line <+: d.index → row.off + row.len ≤ d.raw.length

/-- Bytes go to `index.jsonl` only while nothing is pending for `raw.bin`. -/
def RawEmpty (s : State) (op : Op) : Prop :=
  (op.handed s).index ≠ [] → s.raw.inner.pending = []

instance (s : State) (op : Op) : Decidable (RawEmpty s op) :=
  inferInstanceAs (Decidable (_ → _))

def Op.rawData : Op → Bytes
  | .appendRaw data => data
  | _ => []

def Op.indexData : Op → Bytes
  | .writeIndex piece => piece
  | _ => []

theorem runOps_append (s : State) (ops ops' : List Op) :
    runOps s (ops ++ ops') = runOps (runOps s ops) ops' := foldl_append

theorem runOps_concat (s : State) (ops : List Op) (op : Op) :
    runOps s (ops ++ [op]) = op.run (runOps s ops) := foldl_concat ..

theorem run_raw (s : State) (op : Op) :
    (op.run s).disk.raw ++ (op.run s).raw.inner.pending =
      s.disk.raw ++ s.raw.inner.pending ++ op.rawData := by
  cases op with
  | appendRaw data =>
    simp only [Op.run, Op.handed, Op.rawData, append_assoc]
    rw [RawWriter.append_bytes]
  | flushRaw => simp [Op.run, Op.handed, Op.rawData, RawWriter.flush, BufWriter.flush]
  | writeIndex piece => simp [Op.run, Op.handed, Op.rawData]
  | flushIndex => simp [Op.run, Op.handed, Op.rawData]

theorem run_index (s : State) (op : Op) :
    (op.run s).disk.index ++ (op.run s).index.inner.pending =
      s.disk.index ++ s.index.inner.pending ++ op.indexData := by
  cases op with
  | appendRaw data | flushRaw => simp [Op.run, Op.handed, Op.indexData]
  | writeIndex piece =>
    simp only [Op.run, Op.handed, Op.indexData, append_assoc]
    rw [BufWriter.writeAll_bytes]
  | flushIndex => simp [Op.run, Op.handed, Op.indexData, JsonlWriter.flush, BufWriter.flush]

/-- What is in a file and what is pending for it is all that was appended. -/
theorem runOps_bytes (s : State) (ops : List Op) :
    (runOps s ops).disk.raw ++ (runOps s ops).raw.inner.pending =
        s.disk.raw ++ s.raw.inner.pending ++ ops.flatMap Op.rawData ∧
      (runOps s ops).disk.index ++ (runOps s ops).index.inner.pending =
        s.disk.index ++ s.index.inner.pending ++ ops.flatMap Op.indexData := by
  induction ops generalizing s with
  | nil => simp [runOps]
  | cons op rest ih =>
    obtain ⟨hraw, hindex⟩ := ih (op.run s)
    rw [run_raw, append_assoc] at hraw
    rw [run_index, append_assoc] at hindex
    exact ⟨hraw, hindex⟩

variable (start : Disk) (ops : List Op) (pieces : List Bytes)

theorem runOps_opened :
    (runOps (.opened start) ops).disk.raw ++ (runOps (.opened start) ops).raw.inner.pending =
        start.raw ++ ops.flatMap Op.rawData ∧
      (runOps (.opened start) ops).disk.index ++
          (runOps (.opened start) ops).index.inner.pending =
        start.index ++ ops.flatMap Op.indexData := by
  simpa [State.opened, JsonlWriter.create] using runOps_bytes (.opened start) ops

theorem flatMap_indexData_map :
    (pieces.map Op.writeIndex).flatMap Op.indexData = pieces.flatten := by
  induction pieces with
  | nil => rfl
  | cons piece rest ih => simp [Op.indexData, ih]

theorem flatMap_rawData_map : (pieces.map Op.writeIndex).flatMap Op.rawData = [] := by
  induction pieces with
  | nil => rfl
  | cons piece rest ih => simp [Op.rawData, ih]

theorem appendOps_eq (w : SessionWriter) (codec : RowCodec) (labels : SinkLabels) (count pos : ℕ)
    (p : Payload) :
    ∃ later, appendOps w codec labels count pos p = .appendRaw p.data :: later ∧
      (appendOps w codec labels count pos p).flatMap Op.rawData = p.data ∧
      (appendOps w codec labels count pos p).flatMap Op.indexData =
        codec.line (rowFor w labels p pos (min p.data.length u32Max)) := by
  cases w with
  | fileLogSink | pcapSession =>
    refine ⟨_, rfl, ?_, ?_⟩
    · simp [appendOps, Op.rawData, flatMap_rawData_map]
    · simp [appendOps, Op.indexData, flatMap_indexData_map, RowCodec.line, RowCodec.text]
  | cliLog =>
    refine ⟨_, rfl, ?_, ?_⟩
    · by_cases hflush : (count + 1) % flushInterval = 0 <;>
        simp [appendOps, hflush, Op.rawData, flatMap_rawData_map]
    · by_cases hflush : (count + 1) % flushInterval = 0 <;>
        simp [appendOps, hflush, Op.indexData, flatMap_indexData_map, RowCodec.line, RowCodec.text]

theorem line_ne_nil (codec : RowCodec) (row : IndexEntry) : codec.line row ≠ [] := by
  simp [RowCodec.line]

variable {payloads : List Payload} {done rest : List Op} {s : State} {w : SessionWriter}
  {codec : RowCodec} {labels : SinkLabels} {ending : Ending}

/-- Rows of which every byte has been appended are of payloads that have been appended. -/
theorem payload_appended (w : SessionWriter) (codec : RowCodec) (labels : SinkLabels)
    (ending : Ending) {count pos : ℕ}
    (hdone : done <+: appendAllOps w codec labels count pos payloads ++ endOps w ending)
    {before after : List IndexEntry} {row : IndexEntry}
    (hrows : rowsOf w labels pos payloads = before ++ row :: after)
    (hline : (before ++ [row]).flatMap codec.line <+: done.flatMap Op.indexData) :
    row.off + row.len ≤ pos + (done.flatMap Op.rawData).length := by
  induction payloads generalizing count pos done before with
  | nil => simp [rowsOf] at hrows
  | cons p rest ih =>
    obtain ⟨later, hfirst, hraw, hindex⟩ := appendOps_eq w codec labels count pos p
    rw [appendAllOps, append_assoc] at hdone
    cases before with
    | nil =>
      -- The first row: its payload is the first thing that was done.
      rw [nil_append, rowsOf, cons.injEq] at hrows
      cases done with
      | nil =>
        have hnil : codec.line row = [] := by simpa using hline
        exact absurd hnil (line_ne_nil codec row)
      | cons op done =>
        rw [hfirst, cons_append, cons_prefix_cons] at hdone
        rw [hdone.1, ← hrows.1]
        have hlen : (rowFor w labels p pos (min p.data.length u32Max)).off +
            (rowFor w labels p pos (min p.data.length u32Max)).len ≤
              pos + p.data.length := by
          cases w <;> exact Nat.add_le_add_left (Nat.min_le_left _ _) _
        refine hlen.trans ?_
        simp [Op.rawData]
    | cons first before =>
      rw [cons_append, rowsOf, cons.injEq] at hrows
      rw [cons_append, flatMap_cons, ← hrows.1, ← hindex] at hline
      rcases prefix_or_prefix_of_prefix hdone (prefix_append _ _) with hpart | hall
      · -- Before the first row is complete, no later one is.
        have hshort := hline.length_le.trans (hpart.flatMap Op.indexData).length_le
        have hpos : 0 < ((before ++ [row]).flatMap codec.line).length := by
          rw [flatMap_append, length_append, flatMap_singleton]
          have := length_pos_iff.mpr (line_ne_nil codec row)
          omega
        rw [length_append] at hshort
        omega
      · obtain ⟨done', rfl⟩ := hall
        rw [prefix_append_right_inj] at hdone
        have hbytes : (appendOps w codec labels count pos p ++ done').flatMap Op.indexData =
          (appendOps w codec labels count pos p).flatMap Op.indexData ++
            done'.flatMap Op.indexData := flatMap_append
        rw [hbytes, prefix_append_right_inj] at hline
        have hrow := ih hdone hrows.2 hline
        rw [flatMap_append, length_append, hraw]
        omega

def step (s : State) (op : Op) : Option State := some (op.run s)

theorem guard_of_guarded {guard : State → Op → Prop} {op : Op}
    (h : Guarded step guard s (done ++ op :: rest)) : guard (runOps s done) op := by
  induction done generalizing s with
  | nil => exact h.1
  | cons first done ih => exact ih h.2

theorem run_disk_grows (s : State) (op : Op) :
    s.disk.raw <+: (op.run s).disk.raw ∧ s.disk.index <+: (op.run s).disk.index :=
  ⟨prefix_append _ _, prefix_append _ _⟩

theorem rowsPresent_start (codec : RowCodec) (start : Disk) (rows : List IndexEntry) :
    RowsPresent codec start.index rows start := by
  intro before row after _ hline
  have hlen := hline.length_le
  have hpos := length_pos_iff.mpr (line_ne_nil codec row)
  rw [flatMap_append, flatMap_singleton, length_append, length_append] at hlen
  omega

/-- An operation that hands bytes to `index.jsonl` only while nothing is pending for `raw.bin`
keeps the rows present while it is carried out. -/
theorem RowsPresent.between {start : Disk} {op : Op}
    (hops : sessionOps w codec labels start payloads ending = done ++ op :: rest)
    (hempty : RawEmpty (runOps (.opened start) done) op)
    (h : RowsPresent codec start.index (rowsOf w labels start.raw.length payloads)
      (runOps (.opened start) done).disk) {d : Disk}
    (hd : Between (runOps (.opened start) done).disk
      (runOps (.opened start) (done ++ [op])).disk d) :
    RowsPresent codec start.index (rowsOf w labels start.raw.length payloads) d := by
  intro before row after hrows hline
  rw [runOps_concat] at hd
  by_cases hhanded : (op.handed (runOps (.opened start) done)).index = []
  · -- Nothing goes to the index, so its rows are those from before.
    have hindex : d.index <+: (runOps (.opened start) done).disk.index := by
      have hle := hd.le_index
      simpa [Op.run, hhanded] using hle
    exact (h before row after hrows (hline.trans hindex)).trans hd.raw_le.length_le
  · have hpending := hempty hhanded
    obtain ⟨hraw, -⟩ := runOps_opened start done
    obtain ⟨-, hindex⟩ := runOps_opened start (done ++ [op])
    rw [runOps_concat] at hindex
    rw [hpending, append_nil] at hraw
    have hnoraw : op.rawData = [] := by
      cases op with
      | appendRaw data => exact absurd rfl hhanded
      | _ => rfl
    -- All that is in the index was appended, and all that was appended to `raw.bin` is there.
    have happended : (before ++ [row]).flatMap codec.line <+:
        (done ++ [op]).flatMap Op.indexData := by
      have hle := hline.trans (hd.le_index.trans
        (prefix_append _ (op.run (runOps (.opened start) done)).index.inner.pending))
      rwa [hindex, prefix_append_right_inj] at hle
    have hprefix : done ++ [op] <+: sessionOps w codec labels start payloads ending :=
      ⟨rest, by rw [hops, append_assoc]; rfl⟩
    have hrow := payload_appended w codec labels ending hprefix hrows happended
    rw [flatMap_append, flatMap_singleton, hnoraw, append_nil] at hrow
    have hlen := congrArg length hraw
    rw [length_append] at hlen
    exact hrow.trans (hlen.symm.le.trans hd.raw_le.length_le)

/-- Between any two operations of a guarded session the rows are present. -/
theorem rowsPresent_runOps {start : Disk}
    (hguard : Guarded step RawEmpty (.opened start)
      (sessionOps w codec labels start payloads ending))
    (hdone : done <+: sessionOps w codec labels start payloads ending) :
    start.raw <+: (runOps (.opened start) done).disk.raw ∧
      RowsPresent codec start.index (rowsOf w labels start.raw.length payloads)
        (runOps (.opened start) done).disk := by
  induction done using reverseRecOn with
  | nil => exact ⟨prefix_rfl, rowsPresent_start codec start _⟩
  | append_singleton done op ih =>
    obtain ⟨rest, hops⟩ := hdone
    rw [append_assoc, singleton_append] at hops
    obtain ⟨hraw, hrows⟩ := ih ⟨op :: rest, hops⟩
    have hgrows := run_disk_grows (runOps (.opened start) done) op
    rw [← runOps_concat] at hgrows
    refine ⟨hraw.trans hgrows.1, hrows.between hops.symm ?_
      ⟨hgrows.1, prefix_rfl, hgrows.2, prefix_rfl⟩⟩
    rw [← hops] at hguard
    exact guard_of_guarded hguard

/-- Every operation on the index comes with nothing pending for `raw.bin`: the buffer is known to
be empty, or it is flushed before. -/
def FlushesFirst : Bool → List Op → Prop
  | _, [] => True
  | _, .appendRaw _ :: rest => FlushesFirst false rest
  | _, .flushRaw :: rest => FlushesFirst true rest
  | known, .writeIndex _ :: rest => known = true ∧ FlushesFirst known rest
  | known, .flushIndex :: rest => known = true ∧ FlushesFirst known rest

theorem FlushesFirst.guarded {known : Bool} {ops : List Op} (h : FlushesFirst known ops)
    (hknown : known = true → s.raw.inner.pending = []) : Guarded step RawEmpty s ops := by
  induction ops generalizing known s with
  | nil => trivial
  | cons op rest ih =>
    cases op with
    | appendRaw data => exact ⟨fun hno => absurd rfl hno, ih h fun hfalse => nomatch hfalse⟩
    | flushRaw => exact ⟨fun hno => absurd rfl hno, ih h fun _ => rfl⟩
    | writeIndex piece => exact ⟨fun _ => hknown h.1, ih h.2 hknown⟩
    | flushIndex => exact ⟨fun _ => hknown h.1, ih h.2 hknown⟩

theorem flushesFirst_pieces {pieces : List Bytes} (h : FlushesFirst true rest) :
    FlushesFirst true (pieces.map Op.writeIndex ++ rest) := by
  induction pieces with
  | nil => exact h
  | cons piece pieces ih => exact ⟨rfl, ih⟩

theorem flushesFirst_fileLogSink (codec : RowCodec) (labels : SinkLabels) (count pos : ℕ)
    (payloads : List Payload) (ending : Ending) :
    FlushesFirst true (appendAllOps .fileLogSink codec labels count pos payloads ++
      endOps .fileLogSink ending) := by
  induction payloads generalizing count pos with
  | nil => cases ending <;> exact ⟨rfl, trivial⟩
  | cons p rest ih =>
    have hrest := ih (count + 1) (pos + p.data.length)
    rw [appendAllOps, appendOps]
    simp only [append_assoc]
    exact flushesFirst_pieces ⟨rfl, hrest⟩

/-- At every moment of a session every row that is complete in `index.jsonl` refers to bytes that
are in `raw.bin`, for the file log sink without more, and for the other writers as long as bytes
go to `index.jsonl` only while nothing is pending for `raw.bin`. -/
theorem rows_present_of_rawEmpty (w : SessionWriter) (codec : RowCodec) (labels : SinkLabels)
    (start : Disk) (payloads : List Payload) (ending : Ending)
    (hguard : w ≠ .fileLogSink → Guarded step RawEmpty (.opened start)
      (sessionOps w codec labels start payloads ending)) {d : Disk}
    (hd : Moment (.opened start) (sessionOps w codec labels start payloads ending) d) :
    start.raw <+: d.raw ∧
      RowsPresent codec start.index (rowsOf w labels start.raw.length payloads) d := by
  have hguarded : Guarded step RawEmpty (.opened start)
      (sessionOps w codec labels start payloads ending) := by
    by_cases hw : w = .fileLogSink
    · subst hw
      exact (flushesFirst_fileLogSink codec labels 0 start.raw.length payloads ending).guarded
        fun _ => rfl
    · exact hguard hw
  obtain ⟨done, op, rest, hops, hbetween⟩ := hd
  have hdone : done <+: sessionOps w codec labels start payloads ending := ⟨op :: rest, hops.symm⟩
  obtain ⟨hraw, hrows⟩ := rowsPresent_runOps hguarded hdone
  refine ⟨hraw.trans hbetween.raw_le, hrows.between hops ?_ hbetween⟩
  rw [hops] at hguarded
  exact guard_of_guarded hguarded

/-- Rows of 400 bytes, about as long as those of the program. -/
def wideRows : RowCodec := ⟨fun _ => [List.replicate 400 0x7B], fun _ => .error ""⟩

def tick : Payload :=
  ⟨⟨0, 0, 0, 0, 0, 0, .synced, 0, .system⟩, .in, .bytes, [], [1]⟩

def emptyDisk : Disk := ⟨[], []⟩

def sessionLabels : SinkLabels := { sid := 0 }

theorem moment_take {ops : List Op} {k : ℕ} (hk : k < ops.length) :
    Moment s ops (runOps s (ops.take (k + 1))).disk := by
  refine ⟨ops.take k, ops[k], ops.drop (k + 1), ?_, ?_⟩
  · rw [← drop_eq_getElem_cons hk, take_append_drop]
  · rw [← take_succ_eq_append_getElem hk]
    obtain ⟨hraw, hindex⟩ := run_disk_grows (runOps s (ops.take k)) ops[k]
    rw [← runOps_concat, ← take_succ_eq_append_getElem hk] at hraw hindex
    exact ⟨hraw, prefix_rfl, hindex, prefix_rfl⟩

/-- The `log` command records one payload and is closed: at every moment the row is there only
with its payload. -/
theorem rows_present_one_payload :
    Guarded step RawEmpty (.opened emptyDisk)
        (sessionOps .cliLog wideRows sessionLabels emptyDisk [tick] .closed) ∧
      ∀ d, Moment (.opened emptyDisk)
          (sessionOps .cliLog wideRows sessionLabels emptyDisk [tick] .closed) d →
        emptyDisk.raw <+: d.raw ∧
          RowsPresent wideRows emptyDisk.index (rowsOf .cliLog sessionLabels 0 [tick]) d := by
  have hguard : Guarded step RawEmpty (.opened emptyDisk)
      (sessionOps .cliLog wideRows sessionLabels emptyDisk [tick] .closed) := by decide +kernel
  exact ⟨hguard, fun d hd => rows_present_of_rawEmpty .cliLog wideRows sessionLabels emptyDisk
    [tick] .closed (fun _ => hguard) hd⟩

/-- A moment of a session of 21 payloads of one byte at which 20 rows are in `index.jsonl` and
nothing is in `raw.bin`. -/
def RowsAlone (w : SessionWriter) : Prop :=
  ∃ d, Moment (.opened emptyDisk)
      (sessionOps w wideRows sessionLabels emptyDisk (List.replicate 21 tick) .closed) d ∧
    d.raw = [] ∧ d.index.length = 20 * 401 ∧
    ¬ RowsPresent wideRows emptyDisk.index
      (rowsOf w sessionLabels 0 (List.replicate 21 tick)) d

theorem rowsAlone_of_mem (hw : w ∈ [SessionWriter.cliLog, .pcapSession]) : RowsAlone w := by
  unfold RowsAlone
  set ops := sessionOps w wideRows sessionLabels emptyDisk (replicate 21 tick) .closed
    with hops
  have hfacts : 61 < ops.length ∧ (runOps (.opened emptyDisk) (ops.take 62)).disk.raw = [] ∧
      (runOps (.opened emptyDisk) (ops.take 62)).disk.index.length = 20 * 401 ∧
      wideRows.line (rowFor w sessionLabels tick 0 1) <+:
        (runOps (.opened emptyDisk) (ops.take 62)).disk.index := by
    rcases mem_pair.mp hw with rfl | rfl <;> decide +kernel
  obtain ⟨hlt, hraw, hindex, hline⟩ := hfacts
  have hstart : emptyDisk.index = [] := rfl
  refine ⟨_, moment_take hlt, hraw, hindex, fun hpresent => ?_⟩
  have hrow := hpresent [] (rowFor w sessionLabels tick 0 1)
    (rowsOf w sessionLabels 1 (replicate 20 tick)) rfl (by simpa [hstart] using hline)
  rw [hraw] at hrow
  cases w <;> exact absurd hrow (by decide)

/-- The `log` command and the writer of packet captures: when the row of the last payload does
not fit in the buffer, the rows before it go to `index.jsonl` and their payloads nowhere. -/
theorem rows_without_payloads : RowsAlone .cliLog ∧ RowsAlone .pcapSession :=
  ⟨rowsAlone_of_mem (by simp), rowsAlone_of_mem (by simp)⟩

theorem flatMap_appendAllOps (w : SessionWriter) (codec : RowCodec) (labels : SinkLabels)
    (count pos : ℕ) (payloads : List Payload) :
    (appendAllOps w codec labels count pos payloads).flatMap Op.rawData =
        (payloads.map Payload.data).flatten ∧
      (appendAllOps w codec labels count pos payloads).flatMap Op.indexData =
        (rowsOf w labels pos payloads).flatMap codec.line := by
  induction payloads generalizing count pos with
  | nil => exact ⟨rfl, rfl⟩
  | cons p rest ih =>
    obtain ⟨-, -, hraw, hindex⟩ := appendOps_eq w codec labels count pos p
    obtain ⟨hraws, hindexes⟩ := ih (count + 1) (pos + p.data.length)
    rw [appendAllOps, flatMap_append, flatMap_append, hraw, hindex, hraws, hindexes,
      rowsOf, map_cons, flatten_cons, flatMap_cons]
    exact ⟨rfl, rfl⟩

/-- However a session ends, all that was appended is then in the files. -/
theorem disk_runOps_session (w : SessionWriter) (codec : RowCodec) (labels : SinkLabels)
    (start : Disk) (payloads : List Payload) (ending : Ending) :
    (runOps (.opened start) (sessionOps w codec labels start payloads ending)).disk =
      ⟨start.raw ++ (payloads.map Payload.data).flatten,
        start.index ++ (rowsOf w labels start.raw.length payloads).flatMap codec.line⟩ := by
  obtain ⟨hraw, hindex⟩ := runOps_opened start (sessionOps w codec labels start payloads ending)
  obtain ⟨hraws, hindexes⟩ := flatMap_appendAllOps w codec labels 0 start.raw.length payloads
  have hend : (endOps w ending).flatMap Op.rawData = [] ∧
      (endOps w ending).flatMap Op.indexData = [] := by
    cases w <;> cases ending <;> exact ⟨rfl, rfl⟩
  have hflushed :
      (runOps (.opened start) (sessionOps w codec labels start payloads ending)).raw.inner.pending =
          [] ∧
        (runOps (.opened start)
          (sessionOps w codec labels start payloads ending)).index.inner.pending = [] := by
    rw [sessionOps, runOps_append]
    cases w <;> cases ending <;> exact ⟨rfl, rfl⟩
  rw [hflushed.1, append_nil, sessionOps, flatMap_append, hraws, hend.1, append_nil] at hraw
  rw [hflushed.2, append_nil, sessionOps, flatMap_append, hindexes, hend.2, append_nil] at hindex
  rw [← hraw, ← hindex]
  rfl

/-- What is asked of a captured packet: its time of origin is a nonnegative 64-bit number, its drift
is finite, and it is shorter than the limit of every capture. -/
structure Capturable (p : Payload) : Prop where
  nonneg : 0 ≤ p.ts.tsOriginNs
  lt : p.ts.tsOriginNs < 2 ^ 63
  isFinite : F32.isFinite p.ts.driftPpm = true
  data_lt : p.data.length < 2 ^ 31

theorem isPacketRow_rowsOf (metadata : MetadataMap) (labels : SinkLabels)
    (h : ∀ p ∈ payloads, Capturable p) (before : Bytes) :
    List.Forall₂ (IsPacketRow metadata (before ++ (payloads.map Payload.data).flatten))
      (rowsOf .pcapSession labels before.length payloads)
      (payloads.map fun p => ⟨p.ts.tsOriginNs, p.data⟩) := by
  induction payloads generalizing before with
  | nil => exact .nil
  | cons p rest ih =>
    have hp := h p mem_cons_self
    have hmin : min p.data.length u32Max = p.data.length := by
      have hlt := hp.data_lt
      rw [u32Max]
      omega
    have hlater := ih (fun q hq => h q (mem_cons_of_mem _ hq)) (before ++ p.data)
    rw [length_append, append_assoc] at hlater
    rw [rowsOf, map_cons, map_cons, flatten_cons, hmin]
    apply List.Forall₂.cons _ hlater
    exact {
      kind_eq := rfl
      is_pcap := by simp [isPcapDatagram, rowFor, FileLogSink.packetRowFor, pcapPacketSchemaId]
      isFinite := hp.isFinite
      tsOrigin_eq := rfl
      nonneg := hp.nonneg
      lt := hp.lt
      read_eq := readAt_range before p.data _
      data_lt := hp.data_lt }

/-- What a capture leaves in a new directory is a session of packets, whatever records of packets
go with it. -/
theorem packetSession_of_capture {lib : ExportLib} (hpayloads : ∀ p ∈ payloads, Capturable p)
    {files : SessionFiles} {raw index : DiskFile} (hraw : files.raw = some raw)
    (hindex : files.index = some index)
    (hdisk : (⟨raw.bytes, index.bytes⟩ : Disk) = (runOps (.opened emptyDisk)
      (sessionOps .pcapSession codec labels emptyDisk payloads ending)).disk)
    {metadata : MetadataMap} (hmetadata : readPacketMetadata lib files = .ok metadata)
    {interfaces : List InterfaceKey}
    (hkeys : ∀ row ∈ rowsOf .pcapSession labels 0 payloads,
      packetInterface row (metadata.lookup (row.off, row.len)) ∈ interfaces)
    (hroom : interfaces.length ≤ u32Max)
    (hlabel : ∀ key ∈ interfaces, key.label.utf8ByteSize < 2 ^ 31) :
    ∃ session : PacketSession lib codec, session.files = files ∧
      session.packets = payloads.map fun p => ⟨p.ts.tsOriginNs, p.data⟩ := by
  rw [disk_runOps_session] at hdisk
  obtain ⟨hrawBytes, hindexBytes⟩ := Disk.mk.inj hdisk
  have hrows := isPacketRow_rowsOf metadata labels hpayloads []
  rw [← show raw.bytes = [] ++ _ from hrawBytes] at hrows
  refine ⟨{
    files, raw, index, metadata, interfaces
    rows := rowsOf .pcapSession labels 0 payloads
    packets := payloads.map fun p => ⟨p.ts.tsOriginNs, p.data⟩
    raw_eq := hraw
    index_eq := hindex
    metadata_eq := hmetadata
    index_bytes := hindexBytes
    rows_packets := hrows
    interface_mem := hkeys
    interfaces_le := hroom
    label_lt := hlabel }, rfl, rfl⟩

/-- The packets of a capture in a new directory, however it ends, survive an export to pcapng and
the import of the file, in their order. -/
theorem roundTrip_capture {lib : ExportLib} (hcodec : codec.Lawful) (hdates : ReadsTimestamps lib)
    (hne : payloads ≠ []) (hpayloads : ∀ p ∈ payloads, Capturable p)
    {files : SessionFiles} {raw index : DiskFile} (hraw : files.raw = some raw)
    (hindex : files.index = some index)
    (hdisk : (⟨raw.bytes, index.bytes⟩ : Disk) = (runOps (.opened emptyDisk)
      (sessionOps .pcapSession codec labels emptyDisk payloads ending)).disk)
    {metadata : MetadataMap} (hmetadata : readPacketMetadata lib files = .ok metadata)
    {interfaces : List InterfaceKey}
    (hkeys : ∀ row ∈ rowsOf .pcapSession labels 0 payloads,
      packetInterface row (metadata.lookup (row.off, row.len)) ∈ interfaces)
    (hroom : interfaces.length ≤ u32Max)
    (hlabel : ∀ key ∈ interfaces, key.label.utf8ByteSize < 2 ^ 31)
    (fmt : BlockFormat) (disk : Exporter.Pcapng.Disk) (dst : List Text) (sid : Uuid)
    (clock : ℕ → ℤ) :
    ∃ d, roundTrip lib codec fmt files disk dst sid clock = (.ok (), d) ∧
      Importer.sessionPayloads codec d.raw d.index = some (payloads.map fun p =>
        (formatRfc3339Ns (Importer.Pcapng.originNs p.ts.tsOriginNs.toNat), p.data)) := by
  obtain ⟨session, hfiles, hpackets⟩ := packetSession_of_capture hpayloads hraw hindex hdisk
    hmetadata hkeys hroom hlabel
  have hsome : session.packets ≠ [] := by
    rw [hpackets]
    simpa using hne
  obtain ⟨d, htrip, hback⟩ := roundTrip_packets hcodec hdates fmt session hsome disk dst sid clock
  rw [hfiles] at htrip
  refine ⟨d, htrip, ?_⟩
  rw [hback, hpackets, map_map]
  rfl

/-- A datagram five nanoseconds later. -/
def tock : Payload := ⟨{ tick.ts with tsOriginNs := 5 }, .in, .datagram, [], [2, 3]⟩

/-- A capture of two packets whose source fails. -/
def failedCapture : Disk :=
  (runOps (.opened emptyDisk)
    (sessionOps .pcapSession DecimalRows.codec sessionLabels emptyDisk [tick, tock] .dropped)).disk

theorem roundTrip_capture_failed :
    ∃ d, roundTrip plainLib DecimalRows.codec plainFormat
        { raw := some ⟨failedCapture.raw, 0⟩, index := some ⟨failedCapture.index, 0⟩ }
        (fun _ => none) ["out.pcapng".toList] 9 (fun _ => 5) = (.ok (), d) ∧
      Importer.sessionPayloads DecimalRows.codec d.raw d.index =
        some [("1970-01-01T00:00:00Z", [1]), ("1970-01-01T00:00:00.000005Z", [2, 3])] := by
  have hdisk : failedCapture = (runOps (.opened emptyDisk) (sessionOps .pcapSession
    DecimalRows.codec sessionLabels emptyDisk [tick, tock] .dropped)).disk := rfl
  have hpayloads : ∀ p ∈ [tick, tock], Capturable p := by
    simp only [forall_mem_cons]
    exact ⟨⟨by decide, by decide, by decide, by decide⟩,
      ⟨by decide, by decide, by decide, by decide⟩, by simp⟩
  exact roundTrip_capture DecimalRows.codec_lawful plainLib_readsTimestamps (cons_ne_nil _ _)
    hpayloads rfl rfl hdisk rfl
    (forall_mem_cons.mpr ⟨mem_singleton.mpr rfl, forall_mem_singleton.mpr (mem_singleton.mpr rfl)⟩)
    (by decide) (by decide) _ _ _ _ _

end TraceMux.Server.SessionWriters
