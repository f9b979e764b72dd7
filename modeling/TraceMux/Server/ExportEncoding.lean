/-
# Exports of a source that changes its encoding

A source that is restarted keeps its session directory and may be given another encoding.
Every start writes `meta.toml` anew, with the encoding it decodes under; the rows of the
index do not name one. An export without an override therefore decodes the rows of all
starts under the encoding of the last.
-/

import TraceMux.Core.Exporter.Rows
import TraceMux.Server.ChunkedText
import TraceMux.Core.Source.Replay

namespace TraceMux.Server.ExportEncoding

open Base TraceMux.Core Core.Codec Core.Log Core.FileSink Core.Exporter Server.Runner
  Server.ChunkedText List

structure Start where
  encoding : Option String := none
  serverEncoding : String := "utf-8"
  /-- The encoding that content detection has put into effect. -/
  detected : Option String := none
  now : SystemTime
  time : SystemTimeSource
  ingest : Ingest
  source : Core.Source

/-- The encoding among the options of a start: what is not given is kept. -/
def Start.mergeOptions (start : Start) (kept : Option String) : Option String :=
  start.encoding.or kept

def Start.effectiveEncoding (start : Start) (kept : Option String) : String :=
  start.detected.getD ((start.mergeOptions kept).getD start.serverEncoding)

def decoderLabel (encoding : String) : String := "utf8-text:" ++ encoding

/-- What never changes over the starts of a source. -/
structure Setup where
  codecs : Codecs
  encodings : Encodings
  tagsForText : String → List String
  sid : Uuid
  sourceLabel : String
  host : Option String

def Setup.labels (setup : Setup) (encoding : String) : SinkLabels where
  sid := setup.sid
  source := some setup.sourceLabel
  host := setup.host
  decoder := decoderLabel encoding

/-- A source over its starts: its directory, the encoding among its options, and every row
that was recorded, with the encoding it was recorded under. -/
structure Lifetime where
  files : SessionFiles := {}
  encoding : Option String := none
  rows : List (String × Bytes) := []

def Setup.sinkOf (setup : Setup) (files : SessionFiles) (now : SystemTime) (encoding : String) :
    LogSink Record :=
  (fileLogSink setup.codecs now files (setup.labels encoding)).recorded

/-- Start a source, on the directory it had before, and let it run until it is stopped. The
sink is opened before the source is; the options are stored once the source is open. -/
def Setup.start (setup : Setup) (life : Lifetime) (start : Start) : Lifetime :=
  let encoding := start.effectiveEncoding life.encoding
  let sink := setup.sinkOf life.files start.now encoding
  let ended := runSourceOnceNotify passthroughFramer
    (defaultDecoder setup.encodings encoding setup.tagsForText) sink start.ingest start.source
    start.time.stamps setup.sid { sidOverride := some setup.sid }
  let last : OpenSink × List Bytes :=
    match ended.2 with
    | some st => st.sink
    | none => sink.init
  { files := last.1.files
    encoding := if ended.2.isSome then start.mergeOptions life.encoding else life.encoding
    rows := life.rows ++ last.2.map fun payload => (encoding, payload) }

/-- The state of a sink that was opened under an encoding on a directory with the payloads
`earlier`. -/
def Kept (setup : Setup) (now : SystemTime) (encoding : String) (earlier : List Bytes)
    (s : OpenSink × List Bytes) : Prop :=
  Quiet s.1 ∧
    s.1.files.metaToml = FileLogSink.writeMeta setup.codecs now (setup.labels encoding) ∧
    ∃ appended, Adds setup.codecs.index {} s.1.files appended ∧
      appended.map Appended.data = earlier ++ s.2 ∧
      ∀ a ∈ appended, F32.isFinite a.ts.driftPpm

section Calls

variable {setup : Setup} {now : SystemTime} {encoding : String} {earlier payloads : List Bytes}
  {s : OpenSink}

/-- A call that appends no payload and leaves `meta.toml` alone. -/
theorem Kept.quiet {s' : OpenSink} (h : Kept setup now encoding earlier (s, payloads))
    (hmeta : s'.files.metaToml = s.files.metaToml)
    (h' : Quiet s' ∧ Adds setup.codecs.index s.files s'.files []) :
    Kept setup now encoding earlier (s', payloads) := by
  obtain ⟨-, hlabels, appended, hadds, hpayloads, hfinite⟩ := h
  refine ⟨h'.1, hmeta.trans hlabels, appended, ?_, hpayloads, hfinite⟩
  have hall := hadds.trans h'.2
  rwa [append_nil] at hall

theorem Kept.appendRaw (h : Kept setup now encoding earlier (s, payloads)) (written : SystemTime)
    {ts : DualTimestamp} (dir : Direction) (data : Bytes) (hfinite : F32.isFinite ts.driftPpm) :
    Kept setup now encoding earlier
      (FileLogSink.appendRaw setup.codecs written s ts dir data, payloads ++ [data]) := by
  obtain ⟨hquiet, hlabels, appended, hadds, hpayloads, hall⟩ := h
  obtain ⟨hquiet', hadds'⟩ := appendRaw_spec hquiet setup.codecs written ts dir data
  refine ⟨hquiet', hlabels, _, hadds.trans hadds', ?_, ?_⟩
  · rw [map_append, hpayloads, append_assoc]
    rfl
  · intro a ha
    rcases mem_append.mp ha with hold | hnew
    · exact hall a hold
    · rw [mem_singleton.mp hnew]
      exact hfinite

end Calls

/-- The rows of a source are in its directory. -/
def Recorded (setup : Setup) (life : Lifetime) : Prop :=
  ∃ appended, Adds setup.codecs.index {} life.files appended ∧
    appended.map Appended.data = life.rows.map Prod.snd ∧
    ∀ a ∈ appended, F32.isFinite a.ts.driftPpm

variable {setup : Setup}

section

variable {life : Lifetime} (now : SystemTime) (encoding : String)

theorem Kept.recorded {last : OpenSink × List Bytes}
    (h : Kept setup now encoding (life.rows.map Prod.snd) last) (kept : Option String) :
    Recorded setup
      { files := last.1.files
        encoding := kept
        rows := life.rows ++ last.2.map fun payload => (encoding, payload) } ∧
      last.1.files.index.isSome ∧ last.1.files.raw.isSome ∧
      last.1.files.metaToml = FileLogSink.writeMeta setup.codecs now (setup.labels encoding) := by
  obtain ⟨hquiet, hmeta, appended, hadds, hpayloads, hfinite⟩ := h
  refine ⟨⟨appended, hadds, ?_, hfinite⟩, hquiet.index_isSome, hquiet.raw_isSome, hmeta⟩
  rw [hpayloads, map_append, map_map]
  congr 1
  exact (map_id _).symm

end

def twoEncodings : Encodings where
  forLabel label := if label = "utf-16le" then some (Utf16.decoder false) else none

/-- A stand-in for TOML that keeps the decoder. -/
def plainLib : RowLib where
  DateTime := Unit
  parseRfc3339 _ := none
  formatIn _ _ := none
  decodeText _ _ := ""
  parseMeta text :=
    some ⟨some (String.ofList (text.toList.drop 11).dropLast.dropLast), none⟩
  jsonRow _ text := text

def plainSetup : Setup where
  codecs := { decimalCodecs with
    metaText := fun info =>
      Lines.encode ("decoder = \"".toList ++ (info.decoder.toList ++ ['"', '\n'])) }
  encodings := twoEncodings
  tagsForText _ := []
  sid := 7
  sourceLabel := "tcp:lab"
  host := none

end TraceMux.Server.ExportEncoding
