/-
# The file log sink

A session directory has five files. `meta.toml` is written anew whenever a sink is
opened; the other four are opened for appending. A payload goes to `raw.bin` first and
its row to `index.jsonl` after; a record goes to `lines.jsonl`, when it has a text, and
to `frames.jsonl`. Every append is flushed.

The files are regular files that take every write, so none of the sink's I/O errors
arises here.
-/

import TraceMux.Core.Log.Index

namespace TraceMux.Core.FileSink

open Base Core.Log

/-- One row of `lines.jsonl`. -/
structure LineEntry where
  ts : String
  level : Option String
  text : String
  correlationId : Option String
  tags : List String

/-- One row of `frames.jsonl`. -/
structure FrameEntry where
  ts : String
  decoder : String
  record : Record

structure MetaToml where
  logFormatVersion : String := "1.0.0"
  sid : Uuid
  created : String
  source : Option String
  host : Option String
  decoder : String

/-- The serialisers of the files of a session. -/
structure Codecs where
  index : RowCodec
  linePieces : LineEntry → List Bytes
  framePieces : FrameEntry → List Bytes
  metaText : MetaToml → Bytes

/-- The files of a session directory; a file that does not exist is none. -/
structure SessionFiles where
  raw : Option DiskFile := none
  index : Option DiskFile := none
  lines : Option DiskFile := none
  frames : Option DiskFile := none
  metaToml : Option DiskFile := none
  deriving DecidableEq

structure SinkLabels where
  sid : Uuid
  source : Option String := none
  host : Option String := none
  decoder : String := "unknown"
  deriving DecidableEq, Repr

structure FileLogSink where
  labels : SinkLabels
  raw : RawWriter
  index : JsonlWriter
  lines : JsonlWriter
  frames : JsonlWriter
  closed : Bool
  deriving DecidableEq

structure OpenSink where
  sink : FileLogSink
  files : SessionFiles
  deriving DecidableEq

namespace FileLogSink

def writeMeta (codecs : Codecs) (now : SystemTime) (labels : SinkLabels) : Option DiskFile :=
  DiskFile.write now (codecs.metaText
    { sid := labels.sid, created := formatRfc3339Ns now, source := labels.source,
      host := labels.host, decoder := labels.decoder })

def createWithLabels (codecs : Codecs) (now : SystemTime) (files : SessionFiles)
    (labels : SinkLabels) : OpenSink where
  sink := ⟨labels, RawWriter.create files.raw, .create, .create, .create, false⟩
  files := {
    raw := DiskFile.openAppend now files.raw
    index := DiskFile.openAppend now files.index
    lines := DiskFile.openAppend now files.lines
    frames := DiskFile.openAppend now files.frames
    metaToml := writeMeta codecs now labels }

def directionToDir : Direction → Dir
  | .in => .in
  | .out => .out

def rowFor (labels : SinkLabels) (ts : DualTimestamp) (dir : Direction) (off len : ℕ) :
    IndexEntry :=
  { IndexEntry.fromEnvelope ts labels.sid (directionToDir dir) .bytes off len with
    source := labels.source
    host := labels.host }

/-- The row of a packet in a capture session. -/
def packetRowFor (labels : SinkLabels) (ts : DualTimestamp) (off len : ℕ) : IndexEntry :=
  { IndexEntry.fromEnvelope ts labels.sid .in .datagram off len with
    source := labels.source
    host := labels.host
    schemaId := some "tracemux.pcap.packet.v1" }

/-- Append a payload to `raw.bin`, and its row to `index.jsonl`. -/
def appendRaw (codecs : Codecs) (now : SystemTime) (s : OpenSink) (ts : DualTimestamp)
    (dir : Direction) (data : Bytes) : OpenSink :=
  let appended := s.sink.raw.append data
  let raw := appended.2.2.flush
  let entry := rowFor s.sink.labels ts dir appended.1.1 appended.1.2
  let index := s.sink.index.appendFlushed (codecs.index.pieces entry)
  { sink := { s.sink with raw := raw.2, index := index.2 }
    files := { s.files with
      raw := DiskFile.append now s.files.raw (appended.2.1 ++ raw.1)
      index := DiskFile.append now s.files.index index.1 } }

def levelToken : Level → String
  | .trace => "trace"
  | .debug => "debug"
  | .info => "info"
  | .warn => "warn"
  | .error => "error"
  | .fatal => "fatal"

/-- Append a record to `lines.jsonl`, when it has a text, and to `frames.jsonl`. -/
def appendRecord (codecs : Codecs) (now : SystemTime) (s : OpenSink) (ts : DualTimestamp)
    (record : Record) : OpenSink :=
  let tsIngest := formatRfc3339Ns ts.tsIngestNs
  let lines :=
    match record.text with
    | some text =>
      s.sink.lines.appendFlushed (codecs.linePieces
        { ts := tsIngest, level := record.level.map levelToken, text := text,
          correlationId := record.correlationId, tags := record.tags })
    | none => ([], s.sink.lines)
  let frames := s.sink.frames.appendFlushed (codecs.framePieces
    { ts := tsIngest, decoder := s.sink.labels.decoder, record := record })
  { sink := { s.sink with lines := lines.2, frames := frames.2 }
    files := { s.files with
      lines := DiskFile.append now s.files.lines lines.1
      frames := DiskFile.append now s.files.frames frames.1 } }

/-- Flush the four writers. -/
def commit (now : SystemTime) (s : OpenSink) : OpenSink :=
  let raw := s.sink.raw.flush
  let index := s.sink.index.flush
  let lines := s.sink.lines.flush
  let frames := s.sink.frames.flush
  { sink := { s.sink with raw := raw.2, index := index.2, lines := lines.2, frames := frames.2 }
    files := { s.files with
      raw := DiskFile.append now s.files.raw raw.1
      index := DiskFile.append now s.files.index index.1
      lines := DiskFile.append now s.files.lines lines.1
      frames := DiskFile.append now s.files.frames frames.1 } }

def close (now : SystemTime) (s : OpenSink) : OpenSink :=
  if s.sink.closed then s
  else
    let committed := commit now s
    { committed with sink := { committed.sink with closed := true } }

end FileLogSink

/-- A file sink as one of the sinks a pipeline can have. Writes take place at the time
the server stamps. -/
def fileLogSink (codecs : Codecs) (now : SystemTime) (files : SessionFiles)
    (labels : SinkLabels) : LogSink Record where
  State := OpenSink
  init := FileLogSink.createWithLabels codecs now files labels
  appendRaw s ts dir data := (.ok (), FileLogSink.appendRaw codecs ts.tsIngestNs s ts dir data)
  appendRecord s ts record := (.ok (), FileLogSink.appendRecord codecs ts.tsIngestNs s ts record)
  commit s := (.ok (), FileLogSink.commit now s)
  close s := (.ok (), FileLogSink.close now s)

end TraceMux.Core.FileSink
