/-
# The CSV importer

The first line decides which columns there are. When it names none of the columns the
importer knows, it is a row itself. Every row becomes a payload with the text of its text
column, or with the whole row if there is none. A row has the time of origin of its time
column if that can be read, and the time of the import otherwise.
-/

import TraceMux.Core.Importer.Destination

namespace TraceMux.Core.Importer.Csv

open Base Core.Log Core.FileSink

def err (context : String) : TraceMuxError :=
  ⟨.E1001PipelineGeneric, s!"csv-import: {context}"⟩

/-- The loop over the characters of a row: the fields before, the field so far, whether it is
inside quotes, and whether the next character has been taken already. -/
def parseRowFrom (out : List Text) (cur : Text) (inQuoted taken : Bool) : Text → List Text
  | [] => out ++ [cur]
  | c :: rest =>
    if taken then parseRowFrom out cur inQuoted false rest
    else if c = '"' ∧ inQuoted = false ∧ cur = [] then parseRowFrom out cur true false rest
    else if c = '"' ∧ inQuoted = true then
      if rest.head? = some '"' then parseRowFrom out (cur ++ ['"']) inQuoted true rest
      else parseRowFrom out cur false false rest
    else if c = ',' ∧ inQuoted = false then parseRowFrom (out ++ [cur]) [] inQuoted false rest
    else parseRowFrom out (cur ++ [c]) inQuoted false rest

def parseRow (line : Text) : List Text := parseRowFrom [] [] false false line

example : parseRow "a,b,\"c,d\",\"e\"\"f\"".toList =
    ["a", "b", "c,d", "e\"f"].map String.toList := by decide

/-- A line without the line feeds and carriage returns at its end. -/
def trimEnd (line : Text) : Text := line.rdropWhile fun c => c = '\r' ∨ c = '\n'

/-- Where the columns are that the importer knows. -/
structure Columns where
  ts : Option ℕ := none
  level : Option ℕ := none
  text : Option ℕ := none
  deriving DecidableEq, Repr

def Columns.note (cols : Columns) (name : Text) (i : ℕ) : Columns :=
  let name := String.ofList (name.map Char.toLower)
  if name ∈ ["ts", "time", "timestamp"] then { cols with ts := some i }
  else if name ∈ ["level", "severity"] then { cols with level := some i }
  else if name ∈ ["text", "message", "msg", "body"] then { cols with text := some i }
  else cols

/-- The columns of a header; of two columns of one kind the last one counts. -/
def locateCols (header : List Text) : Columns :=
  header.zipIdx.foldl (fun cols named => cols.note named.1 named.2) {}

/-- Whether a first line is a header. -/
def Columns.hasHeader (cols : Columns) : Bool :=
  cols.ts.isSome || cols.level.isSome || cols.text.isSome

section Import

/- The serialiser of rows, the parser of timestamps to nanoseconds since the Unix epoch, the
session, and the clock when the rows are taken. -/
variable (codec : RowCodec) (parseRfc3339 : String → Option ℤ) (sid : Uuid) (clock : ℕ → ℤ)

/-- A timestamp as a signed 64-bit number of nanoseconds. -/
def parseRfc3339Ns (s : Text) : Option ℤ :=
  (parseRfc3339 (String.ofList s)).map wrapI64

def rowText (cols : Columns) (row : List Text) : Text :=
  match cols.text with
  | some i => row[i]?.getD []
  | none => [','].intercalate row

def importedRow (cols : Columns) (row : List Text) (now : ℤ) : Imported where
  tsOriginNs := (((cols.ts.bind (row[·]?)).bind (parseRfc3339Ns parseRfc3339)).getD now)
  tsIngestNs := now
  kind := .bytes
  level := ((cols.level.bind (row[·]?)).filter (· ≠ [])).map String.ofList
  data := Lines.encode (rowText cols row)

/-- Append a row, and its text to `lines.jsonl` if there is a text column. -/
def emitRow (cols : Columns) (row : List Text) (now : ℤ) (d : Destination) : Destination :=
  let imported := importedRow parseRfc3339 cols row now
  let d := d.append codec sid imported
  match cols.text with
  | none => d
  | some _ =>
    { d with lines := d.lines ++ [{
        ts := formatRfc3339Ns imported.tsOriginNs
        level := imported.level
        text := String.ofList (rowText cols row)
        correlationId := none
        tags := [] }] }

/-- The loop over the lines behind the first. `count` rows have been taken before. -/
def importRows (cols : Columns) : ℕ → List Bytes → Destination →
    Except TraceMuxError Unit × Destination
  | _, [], d => (.ok (), d)
  | count, line :: rest, d =>
    match Lines.decode line with
    | .error _ => (.error (err "reading row"), d)
    | .ok text =>
      let trimmed := trimEnd text.toList
      if trimmed = [] then importRows cols count rest d
      else importRows cols (count + 1) rest
        (emitRow codec parseRfc3339 sid cols (parseRow trimmed) (clock count) d)

def importFile (bytes : Bytes) : Except TraceMuxError Unit × Destination :=
  match Lines.split bytes with
  | [] => (.ok (), {})
  | first :: rest =>
    match Lines.decode first with
    | .error _ => (.error (err "reading header"), {})
    | .ok text =>
      let header := parseRow (trimEnd text.toList)
      let cols := locateCols header
      if cols.hasHeader then importRows codec parseRfc3339 sid clock cols 0 rest {}
      else importRows codec parseRfc3339 sid clock cols 1 rest
        (emitRow codec parseRfc3339 sid {} header (clock 0) {})

end Import

end TraceMux.Core.Importer.Csv
