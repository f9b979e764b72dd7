/-
# Wire frames

Every frame on the wire is a MessagePack map with a fixed envelope. Encoding
refuses an envelope that would not fit into one frame.
-/

import TraceMux.Base.MsgPack
import TraceMux.Core.Time

namespace TraceMux.Server.Wire

open Base Base.MsgPack TraceMux.Core

def maxFrameBytes : ℕ := 1024 * 1024

/-- The closed set of frame types. -/
inductive FrameType
  | hello
  | auth
  | sub
  | unsub
  | data
  | ctl
  | write
  | metrics
  | clientlog
  | ping
  | pong
  | clockSync
  | panelPriority
  | child
  deriving DecidableEq, Repr

def FrameType.asStr : FrameType → String
  | .hello => "hello"
  | .auth => "auth"
  | .sub => "sub"
  | .unsub => "unsub"
  | .data => "data"
  | .ctl => "ctl"
  | .write => "write"
  | .metrics => "metrics"
  | .clientlog => "clientlog"
  | .ping => "ping"
  | .pong => "pong"
  | .clockSync => "clock_sync"
  | .panelPriority => "panel_priority"
  | .child => "child"

/-- What every frame has, whatever its payload. -/
structure Envelope where
  kind : FrameType
  sid : Option String := none
  ch : Option ℕ := none
  seq : ℕ
  payload : Value

/-- Errors of encoding and decoding. -/
inductive WireError
  | malformed (message : String)
  | tooLarge (size limit : ℕ)
  deriving DecidableEq, Repr

/-- The fields of an envelope as they are serialised: absent ones are skipped. -/
def Envelope.fields (env : Envelope) : List (Value × Value) :=
  [(Value.string "type", Value.string env.kind.asStr)] ++
    (env.sid.map fun sid => (Value.string "sid", Value.string sid)).toList ++
    (env.ch.map fun (ch : ℕ) => (Value.string "ch", Value.integer ch)).toList ++
    [(Value.string "seq", Value.integer env.seq), (Value.string "payload", env.payload)]

def toVecNamed (env : Envelope) : Bytes := MsgPack.encode (.map env.fields)

/-- Serialise an envelope if it fits into one frame. -/
def encode (env : Envelope) : Except WireError Bytes :=
  let buf := toVecNamed env
  if maxFrameBytes < buf.length then .error (.tooLarge buf.length maxFrameBytes) else .ok buf

structure EnvelopeParser where
  fromSlice : Bytes → Except String Envelope
  /-- A binary value of a payload is a part of the frame. -/
  length_le : ∀ {bytes env entries key data}, fromSlice bytes = .ok env →
    env.payload = .map entries → (key, .binary data) ∈ entries → data.length ≤ bytes.length

/-- A frame that is too long is not looked at. -/
def decode (parser : EnvelopeParser) (bytes : Bytes) : Except WireError Envelope :=
  if maxFrameBytes < bytes.length then .error (.tooLarge bytes.length maxFrameBytes)
  else
    match parser.fromSlice bytes with
    | .error e => .error (.malformed s!"decode: {e}")
    | .ok env => .ok env

variable {data : Bytes} {env : Envelope} {entries : List (Value × Value)} {key : Value}

/-- What was decoded came in a frame of at most the greatest size. -/
theorem length_le_of_decode {parser : EnvelopeParser} {bytes : Bytes}
    (h : decode parser bytes = .ok env) (hpayload : env.payload = .map entries)
    (hdata : (key, .binary data) ∈ entries) : data.length ≤ maxFrameBytes := by
  unfold decode at h
  split at h
  · cases h
  · next hlarge =>
    split at h
    · cases h
    · next hparse =>
      cases h
      exact (parser.length_le hparse hpayload hdata).trans (Nat.not_lt.mp hlarge)

/-- An envelope is at least as long as a binary value in its payload. -/
theorem length_le_toVecNamed (hpayload : env.payload = .map entries)
    (h : (key, .binary data) ∈ entries) : data.length ≤ (toVecNamed env).length := by
  have hfield : (Value.string "payload", env.payload) ∈ env.fields := by
    simp [Envelope.fields]
  calc
    data.length ≤ (MsgPack.encode (.binary data)).length := by simp [MsgPack.encode, encodeBinary]
    _ ≤ (MsgPack.encode (.map entries)).length := encode_le_encode_map h
    _ = (MsgPack.encode env.payload).length := by rw [hpayload]
    _ ≤ (toVecNamed env).length := encode_le_encode_map hfield

/-- The size is all that encoding looks at. -/
theorem encode_isOk_iff (env : Envelope) :
    (encode env).isOk = true ↔ (toVecNamed env).length ≤ maxFrameBytes := by
  unfold encode
  by_cases hlarge : maxFrameBytes < (toVecNamed env).length
  · simp only [hlarge, if_true]
    constructor
    · intro h
      cases h
    · intro h
      omega
  · simp only [hlarge, if_false]
    exact ⟨fun _ => Nat.not_lt.mp hlarge, fun _ => rfl⟩

def clockQualityToken : ClockQuality → String
  | .synced => "synced"
  | .bestEffort => "best-effort"
  | .unknown => "unknown"
  | .imported => "imported"

def clockSourceToken : ClockSource → String
  | .system => "system"
  | .ntp => "ntp"
  | .ptp => "ptp"
  | .monotonic => "monotonic"
  | .imported => "imported"

/-- The payload of a data frame: the session, the channel, the timestamps and the bytes. -/
def dataPayload (sid : Uuid) (ch : ℕ) (ts : DualTimestamp) (body : Bytes)
    (sourceLabel kind : String) : List (Value × Value) :=
  [(.string "ts_origin", .integer ts.tsOriginNs),
    (.string "ts_ingest", .integer ts.tsIngestNs),
    (.string "mono_ns", .integer ts.monoNs),
    (.string "boot_id", .string (String.ofList ts.bootId.hyphenated)),
    (.string "node_id", .string (String.ofList ts.nodeId.hyphenated)),
    (.string "clock_offset_ms", .integer ts.clockOffsetMs),
    (.string "clock_quality", .string (clockQualityToken ts.clockQuality)),
    (.string "drift_ppm", .f32 ts.driftPpm),
    (.string "clock_source", .string (clockSourceToken ts.clockSource)),
    (.string "sid", .string (String.ofList sid.hyphenated)),
    (.string "ch", .integer ch),
    (.string "dir", .string "in"),
    (.string "kind", .string kind),
    (.string "body", .binary body),
    (.string "source", .string sourceLabel)]

def dataEnvelope (sid : Uuid) (ch seq : ℕ) (ts : DualTimestamp) (body : Bytes)
    (sourceLabel kind : String) : Envelope where
  kind := .data
  sid := some (String.ofList sid.hyphenated)
  ch := some ch
  seq := seq
  payload := .map (dataPayload sid ch ts body sourceLabel kind)

def encodeDataEnvelopeWithKind (sid : Uuid) (ch seq : ℕ) (ts : DualTimestamp) (body : Bytes)
    (sourceLabel kind : String) : Except WireError Bytes :=
  encode (dataEnvelope sid ch seq ts body sourceLabel kind)

def encodeDataEnvelope (sid : Uuid) (ch seq : ℕ) (ts : DualTimestamp) (body : Bytes)
    (sourceLabel : String) : Except WireError Bytes :=
  encodeDataEnvelopeWithKind sid ch seq ts body sourceLabel "bytes"

end TraceMux.Server.Wire
