/-
# The pcapng export of a session

The exporter goes through the index of a session and writes a block for every row that is
a captured packet. What the row does not say about the packet, its link type, its
interface and its length on the wire, comes from the record of the packet in
`frames.jsonl`, which is found by the range of the payload. Interfaces are numbered as by
the stream writer.
-/

import TraceMux.Core.Exporter.Pcapng
import TraceMux.Core.LogSink.File

namespace TraceMux.Core.Exporter.Pcapng

open Base Core.Log Core.FileSink

def pcapPacketSchemaId : String := "tracemux.pcap.packet.v1"

def defaultEthernetLinktype : ℕ := 1

def exportErr (context : String) : TraceMuxError := simple s!"pcapng-export: {context}"

def JsonValue.get (fields : JsonValue) (key : String) : Option JsonValue :=
  match fields with
  | .object entries => entries.lookup key
  | _ => none

/-- A numeral as an unsigned 64-bit number. -/
def parseU64 (digits : Text) : Option ℕ :=
  if digits ≠ [] ∧ digits.all Char.isDigit then
    let n := Nat.ofDigitChars 10 digits 0
    if n < 2 ^ 64 then some n else none
  else none

/-- A numeral that may have a plus sign. -/
def parseSignedU64 : Text → Option ℕ
  | '+' :: digits => parseU64 digits
  | digits => parseU64 digits

def u64Field (fields : JsonValue) (key : String) : Option ℕ := do
  match ← JsonValue.get fields key with
  | .number text => parseU64 text.toList
  | .string text => parseSignedU64 text.toList
  | _ => none

/-- A field that is a 32-bit number. -/
def u32Field (fields : JsonValue) (key : String) : Option ℕ :=
  (u64Field fields key).filter (· ≤ u32Max)

def stringField (fields : JsonValue) (key : String) : Option String := do
  match ← JsonValue.get fields key with
  | .string text => some text
  | _ => none

/-- What the record of a packet says. -/
structure PacketMetadata where
  rawOff : ℕ
  rawLen : ℕ
  capturedLen : Option ℕ
  originalLen : Option ℕ
  linktype : Option ℕ
  interface : Option String
  deriving DecidableEq, Repr

/-- Read the fields of a record. -/
def PacketMetadata.fromFields (fields : JsonValue) : Option PacketMetadata := do
  let rawOff ← u64Field fields "raw_off"
  let rawLen ← u32Field fields "raw_len"
  return {
    rawOff := rawOff
    rawLen := rawLen
    capturedLen := u32Field fields "captured_len"
    originalLen := u32Field fields "original_len"
    linktype := u32Field fields "linktype"
    interface := stringField fields "interface" }

/-- Records of packets by the ranges of their payloads, the newest first. -/
abbrev MetadataMap := List ((ℕ × ℕ) × PacketMetadata)

/-- The libraries behind the exporter. -/
structure ExportLib where
  frameFromStr : String → Except String FrameEntry
  /-- The parser of timestamps, to nanoseconds since the Unix epoch. -/
  parseRfc3339 : String → Option ℤ

variable (lib : ExportLib) (codec : RowCodec)

def readMetadataLines : List Bytes → MetadataMap → Except TraceMuxError MetadataMap
  | [], out => .ok out
  | line :: rest, out =>
    match Lines.decode line with
    | .error _ => .error (exportErr "reading frames line")
    | .ok text =>
      if text = "" then readMetadataLines rest out
      else
        match lib.frameFromStr text with
        | .error _ => .error (exportErr "parsing frame entry")
        | .ok frame =>
          if frame.record.schemaId ≠ some pcapPacketSchemaId then readMetadataLines rest out
          else
            match PacketMetadata.fromFields frame.record.fields with
            | none => readMetadataLines rest out
            | some info => readMetadataLines rest (((info.rawOff, info.rawLen), info) :: out)

def readPacketMetadata (files : SessionFiles) : Except TraceMuxError MetadataMap :=
  match files.frames with
  | none => .ok []
  | some frames => readMetadataLines lib (Lines.split frames.bytes) []

/-- Whether a row is of a captured packet. -/
def isPcapDatagram (entry : IndexEntry) (info : Option PacketMetadata) : Bool :=
  info.isSome || entry.schemaId = some pcapPacketSchemaId ||
    entry.source.any fun source => "pcap:".toList.isPrefixOf source.toList

def packetInterfaceLabel (entry : IndexEntry) (info : Option PacketMetadata) : String :=
  (((info.bind PacketMetadata.interface).or
    (entry.source.bind fun source =>
      (source.toList.dropPrefix? "pcap:".toList).map String.ofList)).filter
    (· ≠ "")).getD "pcap"

def packetInterface (entry : IndexEntry) (info : Option PacketMetadata) : InterfaceKey :=
  ⟨(info.bind PacketMetadata.linktype).getD defaultEthernetLinktype,
    packetInterfaceLabel entry info⟩

/-- The length of a packet on the wire. -/
def packetOriginalLen (entry : IndexEntry) (info : Option PacketMetadata) : ℕ :=
  (info.bind PacketMetadata.originalLen).getD
    ((info.bind PacketMetadata.capturedLen).getD entry.len)

/-- The timestamp of a row as a count of nanoseconds. -/
def timestampDuration (ts : String) : Except TraceMuxError ℕ :=
  match lib.parseRfc3339 ts with
  | none => .error (exportErr "parsing ts_origin")
  | some (.negSucc _) =>
    .error (exportErr s!"ts_origin before UNIX epoch is not supported: {ts}")
  | some (.ofNat nanos) =>
    if nanos / 1000000000 < 2 ^ 64 then .ok nanos
    else .error (simple "pcapng: ts_origin out of range")

/-- What the exporter has open, and the number of packets it has written. -/
structure Export where
  part : PcapngPartWriter
  disk : Disk
  exported : ℕ := 0

def exportPacket (raw : Bytes) (entry : IndexEntry) (info : Option PacketMetadata) (s : Export) :
    Except TraceMuxError Unit × Export :=
  match readAt raw entry.off entry.len with
  | .error _ => (.error (exportErr "reading raw packet"), s)
  | .ok bytes =>
    match s.part.ensureInterface (fun _ => 0) s.disk (packetInterface entry info) with
    | (.error e, part, disk) => (.error e, { s with part := part, disk := disk })
    | (.ok interfaceId, part, disk) =>
      match timestampDuration lib entry.tsOrigin with
      | .error e => (.error e, { s with part := part, disk := disk })
      | .ok timestamp =>
        let written := part.writePcapngBlock (fun _ => 0) disk
          (.enhancedPacket interfaceId timestamp (packetOriginalLen entry info) bytes)
        (.ok (), ⟨written.1, written.2, s.exported + 1⟩)

/-- The loop over the lines of the index. -/
def exportEntries (metadata : MetadataMap) (raw : Bytes) :
    List Bytes → Export → Except TraceMuxError Unit × Export
  | [], s => (.ok (), s)
  | line :: rest, s =>
    if line = [] then exportEntries metadata raw rest s
    else
      match codec.parseLine line with
      | .error (.io _) => (.error (exportErr "reading index line"), s)
      | .error (.serde _) => (.error (exportErr "parsing index entry"), s)
      | .ok entry =>
        let info := metadata.lookup (entry.off, entry.len)
        if entry.kind ≠ .datagram ∨ isPcapDatagram entry info = false then
          exportEntries metadata raw rest s
        else
          match exportPacket lib raw entry info s with
          | (.error e, s) => (.error e, s)
          | (.ok (), s) => exportEntries metadata raw rest s

/-- Export a session directory to the file `dst`: how it ends, and the files there are then. -/
def exportSession (files : SessionFiles) (disk : Disk) (dst : List Text) :
    Except TraceMuxError Unit × Disk :=
  match readPacketMetadata lib files with
  | .error e => (.error e, disk)
  | .ok metadata =>
    match files.index with
    | none => (.error (exportErr "opening index.jsonl"), disk)
    | some index =>
      match files.raw with
      | none => (.error (exportErr "opening raw.bin"), disk)
      | some raw =>
        let created := PcapngPartWriter.create (fun _ => 0) disk dst
        let (result, s) := exportEntries lib codec metadata raw.bytes
          (Lines.split index.bytes) ⟨created.1, created.2, 0⟩
        match result with
        | .error e => (.error e, s.disk)
        | .ok () =>
          if s.exported = 0 then
            (.error (exportErr "no pcap datagram rows found in session-dir"), s.disk)
          else (.ok (), s.disk)

end TraceMux.Core.Exporter.Pcapng
