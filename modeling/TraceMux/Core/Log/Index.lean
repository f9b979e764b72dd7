/-
# The index

`index.jsonl` has one row for every payload of `raw.bin`: the clock readings that go
with it, what it is, and where it lies. The JSON text of a row is the serialiser's;
what is needed of it is that a row reads back, and that its text is a line.
-/

import TraceMux.Core.Log.Jsonl

namespace TraceMux.Core.Log

open Base List

/-- Direction relative to the logging node. -/
inductive Dir
  | in
  | out
  deriving DecidableEq, Repr

/-- What kind of payload a row references. -/
inductive Kind
  | bytes
  | datagram
  | frame
  | record
  deriving DecidableEq, Repr

/-- One row of `index.jsonl`. -/
structure IndexEntry where
  tsOrigin : String
  tsIngest : String
  monoNs : ℕ
  bootId : Uuid
  nodeId : Uuid
  clockOffsetMs : ℤ
  clockQuality : ClockQuality
  driftPpm : F32
  clockSource : ClockSource
  sid : Uuid
  dir : Dir
  kind : Kind
  off : ℕ
  len : ℕ
  level : Option String := none
  tags : List String := []
  correlationId : Option String := none
  source : Option String := none
  host : Option String := none
  schemaId : Option String := none
  deriving DecidableEq, Repr

/-- Year, month and day of a day counted from the Unix epoch, in the proleptic
Gregorian calendar. Years are counted from March here, so that the leap day is last. -/
def civilFromDays (days : ℤ) : ℤ × ℤ × ℤ :=
  let z := days + 719468
  let era := z / 146097
  let doe := z % 146097
  let yoe := (doe - doe / 1460 + doe / 36524 - doe / 146096) / 365
  let doy := doe - (365 * yoe + yoe / 4 - yoe / 100)
  let mp := (5 * doy + 2) / 153
  let day := doy - (153 * mp + 2) / 5 + 1
  let month := if mp < 10 then mp + 3 else mp - 9
  (yoe + era * 400 + (if month ≤ 2 then 1 else 0), month, day)

/-- Nanoseconds since the Unix epoch in RFC 3339. A fraction is printed without its
trailing zeros; a year that does not have four digits gives the epoch. -/
def formatRfc3339Ns (ns : ℤ) : String :=
  let secs := ns / 1000000000
  let nanos := ns % 1000000000
  let date := civilFromDays (secs / 86400)
  let time := secs % 86400
  let fraction := if nanos = 0 then [] else
    '.' :: (Text.ofIntPadded 9 nanos).rdropWhile (· = '0')
  if 0 ≤ date.1 ∧ date.1 ≤ 9999 then
    String.ofList (Text.ofIntPadded 4 date.1 ++ ['-'] ++ Text.ofIntPadded 2 date.2.1 ++ ['-'] ++
      Text.ofIntPadded 2 date.2.2 ++ ['T'] ++ Text.ofIntPadded 2 (time / 3600) ++ [':'] ++
      Text.ofIntPadded 2 (time / 60 % 60) ++ [':'] ++ Text.ofIntPadded 2 (time % 60) ++
      fraction ++ ['Z'])
  else "1970-01-01T00:00:00Z"

example : formatRfc3339Ns 1700000000123456000 = "2023-11-14T22:13:20.123456Z" := by decide

/-- A row for a payload at `off`, of `len` bytes. -/
def IndexEntry.fromEnvelope (ts : DualTimestamp) (sid : Uuid) (dir : Dir) (kind : Kind)
    (off len : ℕ) : IndexEntry where
  tsOrigin := formatRfc3339Ns ts.tsOriginNs
  tsIngest := formatRfc3339Ns ts.tsIngestNs
  monoNs := ts.monoNs
  bootId := ts.bootId
  nodeId := ts.nodeId
  clockOffsetMs := ts.clockOffsetMs
  clockQuality := ts.clockQuality
  driftPpm := ts.driftPpm
  clockSource := ts.clockSource
  sid := sid
  dir := dir
  kind := kind
  off := off
  len := len

/-- How rows are written and read: the pieces of text a row is written in, and the
parser of a line. -/
structure RowCodec where
  pieces : IndexEntry → List Bytes
  fromStr : String → Except String IndexEntry

namespace RowCodec

variable (codec : RowCodec)

def text (entry : IndexEntry) : Bytes := (codec.pieces entry).flatten

/-- A row as it stands in the file. -/
def line (entry : IndexEntry) : Bytes := codec.text entry ++ [Lines.lf]

/-- Why a line is not a row. -/
inductive LineError
  | io (e : IoError)
  | serde (message : String)
  deriving DecidableEq, Repr

def parseLine (bytes : Bytes) : Except LineError IndexEntry :=
  match Lines.decode bytes with
  | .error e => .error (.io e)
  | .ok text =>
    match codec.fromStr text with
    | .error message => .error (.serde message)
    | .ok entry => .ok entry

/-- Read lines up to the first that is not a row. Empty lines are skipped. -/
def parseLines : List Bytes → Except LineError (List IndexEntry)
  | [] => .ok []
  | line :: rest =>
    if line = [] then parseLines rest
    else
      match codec.parseLine line with
      | .error e => .error e
      | .ok entry =>
        match parseLines rest with
        | .error e => .error e
        | .ok entries => .ok (entry :: entries)

/-- What is needed of the serialiser. A row is one line of text that does not end in a
carriage return. With a finite drift it reads back, up to the value of the drift, which
goes through decimal. -/
structure Lawful : Prop where
  lf_notMem : ∀ entry, Lines.lf ∉ codec.text entry
  getLast_ne : ∀ entry, (codec.text entry).getLast? ≠ some Lines.cr
  ne_nil : ∀ entry, codec.text entry ≠ []
  roundTrip : ∀ entry, F32.isFinite entry.driftPpm →
    ∃ drift, codec.parseLine (codec.text entry) = .ok { entry with driftPpm := drift }

/-- What is needed of the parser beyond that: a row that is cut short is rejected, and
so is a row, whole or cut short, with another one behind it on the same line. -/
structure Strict : Prop extends Lawful codec where
  rejects_cut : ∀ entry cut, cut <+: codec.text entry → cut ≠ [] → cut ≠ codec.text entry →
    ∃ e, codec.parseLine cut = .error e
  rejects_joined : ∀ entry cut next, cut <+: codec.text entry → cut ≠ [] →
    ∃ e, codec.parseLine (cut ++ codec.text next) = .error e

/-- What is needed of it for a drift that is not finite: such a row is written without a
number in its place, and the parser refuses it. -/
structure RejectsNull : Prop extends Lawful codec where
  rejects_null : ∀ entry, F32.isFinite entry.driftPpm = false →
    ∃ e, codec.parseLine (codec.text entry) = .error e

def SameRow (written read : IndexEntry) : Prop := ∃ drift, read = { written with driftPpm := drift }

/-- What does not depend on the drift is the same for what was written and what is read. -/
theorem map_eq_of_sameRow {α : Type} {f : IndexEntry → α}
    (hf : ∀ row drift, f { row with driftPpm := drift } = f row) {rows read : List IndexEntry}
    (h : List.Forall₂ SameRow rows read) : read.map f = rows.map f := by
  induction h with
  | nil => rfl
  | cons hrow _ ih =>
    obtain ⟨drift, rfl⟩ := hrow
    rw [map_cons, map_cons, ih, hf]

variable {codec}

theorem split_rows (h : codec.Lawful) (rows : List IndexEntry) (rest : Bytes) :
    Lines.split (rows.flatMap codec.line ++ rest) = rows.map codec.text ++ Lines.split rest := by
  have hlines : rows.flatMap codec.line = (rows.map codec.text).flatMap (· ++ [Lines.lf]) := by
    rw [flatMap_map]
    rfl
  rw [hlines]
  apply Lines.split_lines
  · intro line hline
    obtain ⟨row, -, rfl⟩ := mem_map.mp hline
    exact h.lf_notMem row
  · intro line hline
    obtain ⟨row, -, rfl⟩ := mem_map.mp hline
    exact h.getLast_ne row

/-- Rows read back in order, whatever follows them. -/
theorem parseLines_rows (h : codec.Lawful) {rows : List IndexEntry}
    (hfinite : ∀ row ∈ rows, F32.isFinite row.driftPpm) :
    ∃ read, List.Forall₂ SameRow rows read ∧
      ∀ rest, codec.parseLines (rows.map codec.text ++ rest) =
        (codec.parseLines rest).map (read ++ ·) := by
  induction rows with
  | nil =>
    refine ⟨[], .nil, fun rest => ?_⟩
    cases hrest : codec.parseLines rest <;> simp [hrest, Except.map]
  | cons row rows ih =>
    obtain ⟨read, hread, hparse⟩ := ih fun r hr => hfinite r (mem_cons_of_mem _ hr)
    obtain ⟨drift, hrow⟩ := h.roundTrip row (hfinite row mem_cons_self)
    refine ⟨_ :: read, .cons ⟨drift, rfl⟩ hread, fun rest => ?_⟩
    rw [map_cons, cons_append, parseLines, if_neg (h.ne_nil row), hrow, hparse]
    cases codec.parseLines rest <;> rfl

/-- The first line that is not a row decides. -/
theorem parseLines_rejects {bytes : Bytes} {e : LineError} (hne : bytes ≠ [])
    (h : codec.parseLine bytes = .error e) (rest : List Bytes) :
    codec.parseLines (bytes :: rest) = .error e := by
  rw [parseLines, if_neg hne, h]

theorem parseLines_refused (h : codec.RejectsNull) {rows : List IndexEntry}
    (hrows : ∃ row ∈ rows, F32.isFinite row.driftPpm = false) (rest : List Bytes) :
    ∃ e, codec.parseLines (rows.map codec.text ++ rest) = .error e := by
  induction rows with
  | nil =>
    obtain ⟨row, hrow, -⟩ := hrows
    cases hrow
  | cons first rows ih =>
    rw [map_cons, cons_append]
    by_cases hfirst : F32.isFinite first.driftPpm = true
    · obtain ⟨drift, hparse⟩ := h.roundTrip first hfirst
      have hlater : ∃ row ∈ rows, F32.isFinite row.driftPpm = false := by
        obtain ⟨row, hrow, hnull⟩ := hrows
        rcases mem_cons.mp hrow with rfl | hrow
        · rw [hfirst] at hnull
          cases hnull
        · exact ⟨row, hrow, hnull⟩
      obtain ⟨e, hrest⟩ := ih hlater
      refine ⟨e, ?_⟩
      rw [parseLines, if_neg (h.ne_nil first), hparse, hrest]
    · obtain ⟨e, hparse⟩ := h.rejects_null first (Bool.not_eq_true _ ▸ hfirst)
      exact ⟨e, parseLines_rejects (h.ne_nil first) hparse _⟩

end RowCodec

end TraceMux.Core.Log
