/-
# The Tera Term importer

Every line of a log becomes a payload. A line may begin with its time in brackets: the brackets
and the blanks behind them are taken off, and the time becomes the time of origin. They are
taken off as well when what they hold is no time.
-/

import TraceMux.Core.Importer.Destination

namespace TraceMux.Core.Importer.TeraTerm

open Base Core.Log Core.FileSink List

def err (context : String) : TraceMuxError :=
  ⟨.E1001PipelineGeneric, s!"teraterm-import: {context}"⟩

/- The parsers of the two formats of a time, to nanoseconds since the Unix epoch, the serialiser
of rows, the session, and the clock when the lines are taken. -/
variable (parseIsoMs parseIso : Text → Option ℤ) (codec : RowCodec) (sid : Uuid) (clock : ℕ → ℤ)

/-- The time in brackets as a signed 64-bit number of nanoseconds. -/
def parseTs (inside : Text) : Option ℤ :=
  ((parseIsoMs inside).or (parseIso inside)).map wrapI64

/-- Take brackets off the beginning of a line. -/
def parsePrefix (line : Text) : Option (Option ℤ × Text) :=
  match line with
  | '[' :: stripped =>
    if ']' ∈ stripped then
      let rest := (stripped.dropWhile (· ≠ ']')).tail.dropWhile (· = ' ')
      some (parseTs parseIsoMs parseIso (stripped.takeWhile (· ≠ ']')), rest)
    else none
  | _ => none

/-- The time and the body of a line. -/
def splitLine (line : Text) : Option ℤ × Text :=
  (parsePrefix parseIsoMs parseIso line).getD (none, line)

def importedLine (line : Text) (now : ℤ) : Imported where
  tsOriginNs := (splitLine parseIsoMs parseIso line).1.getD now
  tsIngestNs := now
  kind := .bytes
  data := Lines.encode (splitLine parseIsoMs parseIso line).2

/-- The loop over the lines. `count` lines have been taken before. -/
def importLines : ℕ → List Bytes → Destination → Except TraceMuxError Unit × Destination
  | _, [], d => (.ok (), d)
  | count, line :: rest, d =>
    match Lines.decode line with
    | .error _ => (.error (err "reading line"), d)
    | .ok text =>
      let imported := importedLine parseIsoMs parseIso text.toList (clock count)
      let d := d.append codec sid imported
      importLines (count + 1) rest { d with lines := d.lines ++ [{
        ts := formatRfc3339Ns imported.tsOriginNs
        level := none
        text := String.ofList (splitLine parseIsoMs parseIso text.toList).2
        correlationId := none
        tags := [] }] }

def run (log : Bytes) : Except TraceMuxError Unit × Destination :=
  importLines parseIsoMs parseIso codec sid clock 0 (Lines.split log) {}

/-- The payloads of lines, up to one that cannot be read. -/
def payloads : ℕ → List Bytes → List Imported
  | _, [] => []
  | count, line :: rest =>
    match Lines.decode line with
    | .error _ => []
    | .ok text =>
      importedLine parseIsoMs parseIso text.toList (clock count) :: payloads (count + 1) rest

variable {parseIsoMs parseIso codec sid clock}

end TraceMux.Core.Importer.TeraTerm
