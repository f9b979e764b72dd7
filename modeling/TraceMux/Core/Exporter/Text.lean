/-
# The text exporter

One line of text for every row of the index: the time of origin and the payload, decoded
under the encoding of the session. The destination is written through a buffer that is
flushed also when the export fails, so the lines before a failure are there.
-/

import TraceMux.Core.LogSink.File

namespace TraceMux.Core.Exporter

open Base Core.Log Core.FileSink

structure UtcOffset where
  hours : ℤ
  minutes : ℤ
  deriving DecidableEq, Repr

/-- What an exporter reads of `meta.toml`. -/
structure SessionMeta where
  decoder : Option String
  encoding : Option String
  deriving DecidableEq, Repr

/-- The libraries behind the exporter: dates, text encodings and TOML. -/
structure TextLib where
  DateTime : Type
  parseRfc3339 : String → Option DateTime
  formatIn : DateTime → UtcOffset → Option String
  decodeText : Bytes → String → String
  parseMeta : String → Option SessionMeta

variable (lib : TextLib) (codec : RowCodec)

/-- A label without the whitespace around it, unless nothing is left. -/
def nonEmpty (value : String) : Option String :=
  let value := Text.trim value.toList
  if value = [] then none else some (String.ofList value)

def decoderTextEncoding (decoder : Option String) : Option String := do
  let label := Text.trim (← decoder).toList
  let rest ← label.dropPrefix? "utf8-text:".toList
  nonEmpty (String.ofList rest)

def metaTextEncoding (files : SessionFiles) : Option String := do
  let file ← files.metaToml
  let text ← (Lines.decode file.bytes).toOption
  let info ← lib.parseMeta text
  (info.encoding.bind nonEmpty).or (decoderTextEncoding info.decoder)

/-- The encoding of an export: as asked for, or as `meta.toml` says, or UTF-8. -/
def resolveTextEncoding (files : SessionFiles) (requested : Option String) : String :=
  (((requested.bind nonEmpty).or (metaTextEncoding lib files)).getD "utf-8").map Char.toLower

/-- A timestamp at a fixed offset; without one it stays as it is. -/
def formatRfc3339InTimezone (ts : String) (offset : Option UtcOffset) :
    Except TraceMuxError String :=
  match offset with
  | none => .ok ts
  | some offset =>
    match lib.parseRfc3339 ts with
    | none => .error ⟨.E1001PipelineGeneric, "export timestamp parse"⟩
    | some parsed =>
      match lib.formatIn parsed offset with
      | none => .error ⟨.E1001PipelineGeneric, "export timestamp format"⟩
      | some text => .ok text

def exportError (context : String) : TraceMuxError :=
  ⟨.E1001PipelineGeneric, s!"text-export: {context}"⟩

def exportLine (raw : Bytes) (timezone : Option UtcOffset) (encoding : String)
    (entry : IndexEntry) : Except TraceMuxError String :=
  match readAt raw entry.off entry.len with
  | .error _ => .error (exportError "reading raw")
  | .ok bytes =>
    match formatRfc3339InTimezone lib entry.tsOrigin timezone with
    | .error e => .error e
    | .ok ts => .ok (ts ++ "\t" ++ lib.decodeText bytes encoding ++ "\n")

/-- The loop over the lines of the index: how it ends, and what it has written. -/
def exportLines (raw : Bytes) (timezone : Option UtcOffset) (encoding : String) :
    List Bytes → Except TraceMuxError Unit × List String
  | [] => (.ok (), [])
  | line :: rest =>
    if line = [] then exportLines raw timezone encoding rest
    else
      match codec.parseLine line with
      | .error (.io _) => (.error (exportError "reading index line"), [])
      | .error (.serde _) => (.error (exportError "parsing index entry"), [])
      | .ok entry =>
        match exportLine lib raw timezone encoding entry with
        | .error e => (.error e, [])
        | .ok text =>
          let later := exportLines raw timezone encoding rest
          (later.1, text :: later.2)

/-- Export a session directory: how it ends, and the lines of the destination. -/
def exportText (files : SessionFiles) (timezone : Option UtcOffset) (encoding : Option String) :
    Except TraceMuxError Unit × List String :=
  match files.index with
  | none => (.error (exportError "opening index.jsonl"), [])
  | some index =>
    match files.raw with
    | none => (.error (exportError "opening raw.bin"), [])
    | some raw =>
      exportLines lib codec raw.bytes timezone (resolveTextEncoding lib files encoding)
        (Lines.split index.bytes)

variable {lib codec}

/-- Rows whose lines can be written are written in order, whatever follows them. -/
theorem exportLines_rows (h : codec.Lawful) {rows : List IndexEntry} {raw : Bytes}
    {timezone : Option UtcOffset} {encoding : String} {texts : List String}
    (hfinite : ∀ row ∈ rows, F32.isFinite row.driftPpm)
    (htexts : rows.map (exportLine lib raw timezone encoding) = texts.map .ok)
    (rest : List Bytes) :
    exportLines lib codec raw timezone encoding (rows.map codec.text ++ rest) =
      ((exportLines lib codec raw timezone encoding rest).1,
        texts ++ (exportLines lib codec raw timezone encoding rest).2) := by
  induction rows generalizing texts with
  | nil =>
    cases texts with
    | nil => rfl
    | cons text texts => cases htexts
  | cons row rows ih =>
    cases texts with
    | nil => cases htexts
    | cons text texts =>
      rw [List.map_cons, List.map_cons, List.cons.injEq] at htexts
      obtain ⟨drift, hrow⟩ := h.roundTrip row (hfinite row List.mem_cons_self)
      have hline : exportLine lib raw timezone encoding { row with driftPpm := drift } =
          .ok text := htexts.1
      rw [List.map_cons, List.cons_append, exportLines, if_neg (h.ne_nil row), hrow]
      simp only [hline]
      rw [ih (fun r hr => hfinite r (List.mem_cons_of_mem _ hr)) htexts.2]
      rfl

end TraceMux.Core.Exporter
