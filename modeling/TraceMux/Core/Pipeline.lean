/-
# The parts of a pipeline

Sources, framers, decoders and log sinks are state machines with whatever state
they need. A framer consumes what it emits; a loop that drains it ends for that
reason.
-/

import TraceMux.Base.ByteFile
import TraceMux.Core.ErrorId
import TraceMux.Core.Time

namespace TraceMux.Core

open Base

/-- A frame as a source yields it. -/
inductive Frame
  | bytes (data : Bytes)
  | datagram (src : Option String) (data : Bytes)
  | ssh (stream : ℕ) (data : Bytes)
  | visa (eom : Bool) (data : Bytes)
  | other (kind : String) (data : Bytes)
  deriving DecidableEq, Repr

/-- Direction of a record relative to the channel. -/
inductive Direction
  | in
  | out
  deriving DecidableEq, Repr

inductive JsonValue
  | null
  | bool (b : Bool)
  | number (text : String)
  | string (text : String)
  | array (items : List JsonValue)
  | object (entries : List (String × JsonValue))

/-- Severity of a record. -/
inductive Level
  | trace
  | debug
  | info
  | warn
  | error
  | fatal
  deriving DecidableEq, Repr

structure Record where
  schemaId : Option String := none
  level : Option Level := none
  text : Option String := none
  fields : JsonValue := .null
  tags : List String := []
  correlationId : Option String := none

/-- Static metadata about a channel. -/
structure ChannelMeta where
  kind : String
  iface : String
  deriving DecidableEq, Repr

/-- What a source does over its life: whether it opens, the frames it yields, how it
ends, and whether it closes. -/
structure Source where
  opening : Except TraceMuxError ChannelMeta
  frames : List Frame
  ending : Except TraceMuxError Unit := .ok ()
  closing : Except TraceMuxError Unit := .ok ()

/-- A framer over a byte buffer. -/
structure Framer where
  State : Type
  init : State
  pollFrame : State → Bytes → Except TraceMuxError (Option Bytes) × State × Bytes
  /-- A framer consumes the bytes it emits. -/
  consumes : ∀ s buf frame s' buf',
    pollFrame s buf = (.ok (some frame), s', buf') → buf'.length < buf.length

structure Decoder (Record : Type) where
  State : Type
  init : State
  decode : State → Bytes → Except TraceMuxError (Option Record) × State

structure LogSink (Record : Type) where
  State : Type
  init : State
  appendRaw : State → DualTimestamp → Direction → Bytes → Except TraceMuxError Unit × State
  appendRecord : State → DualTimestamp → Record → Except TraceMuxError Unit × State
  commit : State → Except TraceMuxError Unit × State
  close : State → Except TraceMuxError Unit × State

/-- The framer that emits whatever is buffered. -/
def passthroughFramer : Framer where
  State := Unit
  init := ()
  pollFrame _ buf := if buf = [] then (.ok none, (), buf) else (.ok (some buf), (), [])
  consumes := by
    intro _ buf frame _ buf' h
    by_cases hbuf : buf = []
    · rw [if_pos hbuf] at h
      cases h
    · rw [if_neg hbuf] at h
      cases h
      exact List.length_pos_iff.mpr hbuf

/-- The payloads a sink has accepted, kept beside its own state. -/
def LogSink.recorded {Record : Type} (sink : LogSink Record) : LogSink Record where
  State := sink.State × List Bytes
  init := (sink.init, [])
  appendRaw s ts dir data :=
    match sink.appendRaw s.1 ts dir data with
    | (.ok (), s') => (.ok (), s', s.2 ++ [data])
    | (.error e, s') => (.error e, s', s.2)
  appendRecord s ts record :=
    let r := sink.appendRecord s.1 ts record
    (r.1, r.2, s.2)
  commit s :=
    let r := sink.commit s.1
    (r.1, r.2, s.2)
  close s :=
    let r := sink.close s.1
    (r.1, r.2, s.2)

/-- The texts of the records a sink has accepted, kept beside its own state. -/
def LogSink.texted (sink : LogSink Record) : LogSink Record where
  State := sink.State × List String
  init := (sink.init, [])
  appendRaw s ts dir data :=
    let r := sink.appendRaw s.1 ts dir data
    (r.1, r.2, s.2)
  appendRecord s ts record :=
    match sink.appendRecord s.1 ts record with
    | (.ok (), s') => (.ok (), s', s.2 ++ record.text.toList)
    | (.error e, s') => (.error e, s', s.2)
  commit s :=
    let r := sink.commit s.1
    (r.1, r.2, s.2)
  close s :=
    let r := sink.close s.1
    (r.1, r.2, s.2)

end TraceMux.Core
