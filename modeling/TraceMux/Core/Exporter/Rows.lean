/-
# The row exporters

Text, CSV and JSONL exports share their loop: one row of the destination for every row of
the index, with the payload decoded under one encoding for the whole session. They differ
in the row they write. The encoding is resolved once, before the loop.
-/

import TraceMux.Core.Exporter.Text
import TraceMux.Core.LogSink.Runs

namespace TraceMux.Core.Exporter

open Base Core.Log Core.FileSink List

/-- The formats with one row for every row of the index. -/
inductive RowFormat
  | text
  | csv
  | jsonl
  deriving DecidableEq, Repr

def RowFormat.name : RowFormat → String
  | .text => "text-export"
  | .csv => "csv-export"
  | .jsonl => "jsonl-export"

/-- The libraries behind the exporters. -/
structure RowLib extends TextLib where
  /-- The JSON object with the fields of a row and its text. -/
  jsonRow : IndexEntry → String → String

def rowError (format : RowFormat) (context : String) : TraceMuxError :=
  ⟨.E1001PipelineGeneric, s!"{format.name}: {context}"⟩

def dirStr : Dir → Text
  | .in => "in".toList
  | .out => "out".toList

def kindStr : Kind → Text
  | .bytes => "bytes".toList
  | .datagram => "datagram".toList
  | .frame => "frame".toList
  | .record => "record".toList

/-- Whether a field has to be quoted. -/
def needsQuote (c : Char) : Bool := c = ',' ∨ c = '"' ∨ c = '\n' ∨ c = '\r'

def quoteChar (c : Char) : Text := if c = '"' then ['"', '"'] else [c]

/-- A field of a CSV row. -/
def quote (s : Text) : Text :=
  if s.any needsQuote then '"' :: (s.flatMap quoteChar ++ ['"']) else s

def csvHeader : List Text :=
  ["ts_origin", "ts_ingest", "dir", "kind", "len", "text"].map String.toList

def csvLine (fields : List Text) : Text := [','].intercalate fields

def csvFields (tsOrigin tsIngest : Text) (entry : IndexEntry) (text : Text) : List Text :=
  [tsOrigin, tsIngest, dirStr entry.dir, kindStr entry.kind, Text.ofNat entry.len, quote text]

variable (lib : RowLib) (codec : RowCodec)

/-- The row of the destination for a row of the index and its text. -/
def RowFormat.line (format : RowFormat) (timezone : Option UtcOffset) (entry : IndexEntry)
    (text : String) : Except TraceMuxError String := do
  let tsOrigin ← formatRfc3339InTimezone lib.toTextLib entry.tsOrigin timezone
  match format with
  | .text => return tsOrigin ++ "\t" ++ text ++ "\n"
  | .csv =>
    let tsIngest ← formatRfc3339InTimezone lib.toTextLib entry.tsIngest timezone
    return String.ofList
      (csvLine (csvFields tsOrigin.toList tsIngest.toList entry text.toList) ++ ['\n'])
  | .jsonl =>
    let tsIngest ← formatRfc3339InTimezone lib.toTextLib entry.tsIngest timezone
    return lib.jsonRow { entry with tsOrigin := tsOrigin, tsIngest := tsIngest } text ++ "\n"

/-- What is written before the first row. -/
def RowFormat.header : RowFormat → List String
  | .csv => [String.ofList (csvLine csvHeader ++ ['\n'])]
  | _ => []

/-- An export with what goes before its rows. -/
def RowFormat.withHeader (format : RowFormat) (rows : Except TraceMuxError Unit × List String) :
    Except TraceMuxError Unit × List String := (rows.1, format.header ++ rows.2)

def exportRow (format : RowFormat) (raw : Bytes) (timezone : Option UtcOffset)
    (encoding : String) (entry : IndexEntry) : Except TraceMuxError String :=
  match readAt raw entry.off entry.len with
  | .error _ => .error (rowError format "reading raw")
  | .ok bytes => format.line lib timezone entry (lib.decodeText bytes encoding)

/-- The loop over the lines of the index: how it ends, and what it has written. -/
def exportRows (format : RowFormat) (raw : Bytes) (timezone : Option UtcOffset)
    (encoding : String) : List Bytes → Except TraceMuxError Unit × List String
  | [] => (.ok (), [])
  | line :: rest =>
    if line = [] then exportRows format raw timezone encoding rest
    else
      match codec.parseLine line with
      | .error (.io _) => (.error (rowError format "reading index line"), [])
      | .error (.serde _) => (.error (rowError format "parsing index entry"), [])
      | .ok entry =>
        match exportRow lib format raw timezone encoding entry with
        | .error e => (.error e, [])
        | .ok text =>
          let later := exportRows format raw timezone encoding rest
          (later.1, text :: later.2)

/-- Export a session directory: how it ends, and the lines of the destination. -/
def exportSession (format : RowFormat) (files : SessionFiles) (timezone : Option UtcOffset)
    (encoding : Option String) : Except TraceMuxError Unit × List String :=
  match files.index with
  | none => (.error (rowError format "opening index.jsonl"), [])
  | some index =>
    match files.raw with
    | none => (.error (rowError format "opening raw.bin"), [])
    | some raw =>
      format.withHeader (exportRows lib codec format raw.bytes timezone
        (resolveTextEncoding lib.toTextLib files encoding) (Lines.split index.bytes))

def writeRows (format : RowFormat) (timezone : Option UtcOffset) :
    List (IndexEntry × String) → Except TraceMuxError Unit × List String
  | [] => (.ok (), [])
  | (entry, text) :: rest =>
    match format.line lib timezone entry text with
    | .error e => (.error e, [])
    | .ok line =>
      let later := writeRows format timezone rest
      (later.1, line :: later.2)

variable {lib codec}

theorem exportRows_rows (lib : RowLib) (h : codec.Lawful) (format : RowFormat) {raw : Bytes}
    (timezone : Option UtcOffset) (encoding : String) {rows : List IndexEntry}
    {payloads : List Bytes} (hfinite : ∀ row ∈ rows, F32.isFinite row.driftPpm)
    (hread : rows.map (fun row => readAt raw row.off row.len) = payloads.map .ok) :
    ∃ read, List.Forall₂ RowCodec.SameRow rows read ∧
      exportRows lib codec format raw timezone encoding (rows.map codec.text) =
        writeRows lib format timezone
          (read.zip (payloads.map (lib.decodeText · encoding))) := by
  induction rows generalizing payloads with
  | nil => exact ⟨[], .nil, rfl⟩
  | cons row rows ih =>
    cases payloads with
    | nil => cases hread
    | cons payload payloads =>
      rw [map_cons, map_cons, cons.injEq] at hread
      obtain ⟨read, hsame, hrows⟩ :=
        ih (fun r hr => hfinite r (mem_cons_of_mem _ hr)) hread.2
      obtain ⟨drift, hrow⟩ := h.roundTrip row (hfinite row mem_cons_self)
      refine ⟨{ row with driftPpm := drift } :: read, .cons ⟨drift, rfl⟩ hsame, ?_⟩
      have hpayload : exportRow lib format raw timezone encoding
          { row with driftPpm := drift } =
          format.line lib timezone { row with driftPpm := drift }
            (lib.decodeText payload encoding) := by
        rw [exportRow, hread.1]
      rw [map_cons, exportRows, if_neg (h.ne_nil row), hrow]
      simp only [hpayload, hrows]
      rfl

end TraceMux.Core.Exporter
