/-
# Control and write requests

A client asks for something by a control frame or a write frame, and each of them is to be
answered by one control frame with the number of the request. The loop of a connection
handles one frame at a time: it awaits the source manager, builds the answer and queues it
before it reads the next frame. An answer that does not fit into one frame is dropped with a
line in the trace log, and nothing is sent in its place. Answers hold texts of the client,
errors of the system and the list of all sources, so nothing bounds them.

The source manager is what one request finds when it is handled; other connections change
it in between, so that each request has one of its own. The queue of the connection has
room and a writer, which is what an open connection is; the writer and the queue are those
of `TraceMux.Server.Delivery`.
-/

import TraceMux.Server.ControlPayload

namespace TraceMux.Server.Requests

open Base Base.MsgPack TraceMux.Core Core.Source Server.Wire List
open Server.RemoteMirror (mapGet mapStr mapBinary)

/-! ## The source manager -/

/-- One link of an error: its text, and its identifier if it is an error of the program. -/
structure Cause where
  text : String
  id : Option ErrorId := none
  deriving DecidableEq, Repr

structure AnyhowError where
  outer : Cause
  causes : List Cause := []
  deriving DecidableEq, Repr

namespace AnyhowError

/-- The error itself and what lies below it. -/
def chain (err : AnyhowError) : List Cause := err.outer :: err.causes

def display (err : AnyhowError) : String := err.outer.text

end AnyhowError

/-- A guess at the encoding of a source. -/
structure EncodingCandidate where
  label : String
  confidence : ℕ
  hadErrors : Bool
  evidence : List String
  deriving DecidableEq, Repr

structure LogTypeCandidate where
  tag : String
  kind : ClassificationMatchKind
  pattern : String
  count : ℕ
  confidence : ℕ
  deriving DecidableEq, Repr

structure ContentDetectionReport where
  mode : DetectionMode
  sampleBytes : ℕ
  configuredEncoding : String
  effectiveEncoding : String
  sampledEncoding : String
  encodingCandidates : List EncodingCandidate
  logTypeCandidates : List LogTypeCandidate
  deriving DecidableEq, Repr

inductive SourceStatus
  | running
  | stopped
  | unknown
  deriving DecidableEq, Repr

structure SourceSnapshot where
  sid : Uuid
  kind : String
  name : String
  status : SourceStatus
  channels : List ℕ
  bytesIn : ℕ
  sessionDir : Option String := none
  decoder : Option String := none
  encoding : Option String := none
  detectionMode : Option DetectionMode := none
  detection : Option ContentDetectionReport := none
  deriving DecidableEq, Repr

/-- What the source manager gives to a request. An operation that is awaited gives nothing
if it never returns. -/
structure Operations where
  listSources : List SourceSnapshot
  startSpecWithOptions : ChannelSpec → SourceStartOptions → Option (Except AnyhowError Uuid)
  stop : Uuid → Bool
  resume : Uuid → Option (Except AnyhowError Uuid)
  restartWithOptions : Uuid → SourceStartOptions → Option (Except AnyhowError Uuid)
  remove : Uuid → Bool
  write : Uuid → ℕ → Bytes → Option String → Option (Except AnyhowError ℕ)

/-- How frames, ids and regular expressions are read. -/
structure Setup where
  parser : EnvelopeParser
  parseStr : String → Option Uuid
  builds : String → Bool → Bool

/-! ## Answers -/

def sidText (sid : Uuid) : String := String.ofList sid.hyphenated

def ctlEvent (seq : ℕ) (event message : String) (sid : Option Uuid) : Envelope where
  kind := .ctl
  sid := sid.map sidText
  seq := seq
  payload := .map ([(.string "event", .string event), (.string "message", .string message)] ++
    (sid.map fun sid => (.string "sid", .string (sidText sid))).toList)

def ctlErrorInner (seq : ℕ) (message : String) (errorId : ErrorId) (sid : Option Uuid) :
    Envelope where
  kind := .ctl
  sid := sid.map sidText
  seq := seq
  payload := .map ([(.string "event", .string "error"), (.string "message", .string message),
    (.string "error_id", .string errorId.code)] ++
    (sid.map fun sid => (.string "sid", .string (sidText sid))).toList)

def ctlError (seq : ℕ) (message : String) : Envelope :=
  ctlErrorInner seq message .E2001WireMalformed none

def ctlErrorWithId (seq : ℕ) (message : String) (errorId : ErrorId) : Envelope :=
  ctlErrorInner seq message errorId none

def ctlErrorWithSid (seq : ℕ) (message : String) (errorId : ErrorId) (sid : Uuid) : Envelope :=
  ctlErrorInner seq message errorId (some sid)

def writeAck (seq : ℕ) (sid : Uuid) (ch bytesWritten : ℕ) : Envelope where
  kind := .ctl
  sid := some (sidText sid)
  ch := some ch
  seq := seq
  payload := .map [(.string "event", .string "write_ack"),
    (.string "message", .string "write completed"), (.string "sid", .string (sidText sid)),
    (.string "ch", .integer ch), (.string "bytes_written", .integer bytesWritten)]

/-- The identifier of the first error of the program in a chain. -/
def traceMuxErrorId (err : AnyhowError) : Option ErrorId := err.chain.findSome? Cause.id

def anyhowErrorId (err : AnyhowError) : ErrorId :=
  (traceMuxErrorId err).getD .E1001PipelineGeneric

/-- One text stands in another. -/
def containsText (text needle : String) : Bool := decide (needle.toList <:+: text.toList)

/-- The identifier of an error of starting; errors without one are told apart by their text. -/
def lifecycleErrorId (err : AnyhowError) : ErrorId :=
  match traceMuxErrorId err with
  | some id => id
  | none =>
    if containsText err.display "unknown" || containsText err.display "already active" ||
        containsText err.display "not restartable" || containsText err.display "not resumable"
    then .E2001WireMalformed
    else .E1101SourceOpen

def lifecycleErrorMessage (heading : String) (err : AnyhowError) : String :=
  let causes := ": ".intercalate (err.chain.map Cause.text)
  s!"{heading}: {causes}"

/-! ## The list of sources -/

def sourceStatusToken : SourceStatus → String
  | .running => "running"
  | .stopped => "stopped"
  | .unknown => "unknown"

def matchKindToken : ClassificationMatchKind → String
  | .contains => "contains"
  | .regex => "regex"

def detectionReportValue (report : ContentDetectionReport) : Value :=
  .map [(.string "mode", .string report.mode.asStr),
    (.string "sample_bytes", .integer report.sampleBytes),
    (.string "configured_encoding", .string report.configuredEncoding),
    (.string "effective_encoding", .string report.effectiveEncoding),
    (.string "sampled_encoding", .string report.sampledEncoding),
    (.string "encoding_candidates", .array (report.encodingCandidates.map fun candidate =>
      .map [(.string "label", .string candidate.label),
        (.string "confidence", .integer candidate.confidence),
        (.string "had_errors", .boolean candidate.hadErrors),
        (.string "evidence", .array (candidate.evidence.map .string))])),
    (.string "log_type_candidates", .array (report.logTypeCandidates.map fun candidate =>
      .map [(.string "tag", .string candidate.tag),
        (.string "kind", .string (matchKindToken candidate.kind)),
        (.string "pattern", .string candidate.pattern),
        (.string "count", .integer candidate.count),
        (.string "confidence", .integer candidate.confidence)]))]

def sourceRow (source : SourceSnapshot) : Value :=
  .map ([(Value.string "sid", Value.string (sidText source.sid)),
    (.string "name", .string source.name),
    (.string "kind", .string source.kind),
    (.string "status", .string (sourceStatusToken source.status)),
    (.string "channels", .array (source.channels.map fun ch => .integer ch)),
    (.string "bytes_in", .integer source.bytesIn),
    (.string "persistent", .boolean source.sessionDir.isSome)] ++
    (source.sessionDir.map fun dir => (Value.string "session_dir", Value.string dir)).toList ++
    (source.decoder.map fun decoder => (Value.string "decoder", Value.string decoder)).toList ++
    (source.encoding.map fun encoding =>
      (Value.string "encoding", Value.string encoding)).toList ++
    (source.detectionMode.map fun mode =>
      (Value.string "detection_mode", Value.string mode.asStr)).toList ++
    (source.detection.map fun report =>
      (Value.string "detection", detectionReportValue report)).toList)

/-! ## Control requests -/

section handlers

variable (setup : Setup) (ops : Operations) (env : Envelope)

/-- The id a request is about, or the answer that refuses it. -/
def parseSid (missing invalid : String) : Except Envelope Uuid :=
  match env.sid with
  | none => .error (ctlError env.seq missing)
  | some sid =>
    match setup.parseStr sid with
    | none => .error (ctlError env.seq invalid)
    | some sid => .ok sid

def parseEnvSid : Except Envelope Uuid :=
  parseSid setup env "ctl action missing sid" "ctl sid is not a UUID"

def parseWriteSid : Except Envelope Uuid :=
  parseSid setup env "write missing sid" "write sid is not a UUID"

def listSourcesCtl : Envelope where
  kind := .ctl
  seq := env.seq
  payload := .map [(.string "event", .string "sources"),
    (.string "message", .string "sources listed"),
    (.string "sources", .array (ops.listSources.map sourceRow))]

def startSourceCtl : Option Envelope :=
  match mapGet env.payload "spec" with
  | none => some (ctlError env.seq "start requires payload.spec")
  | some specValue =>
    match channelSpecFromValue specValue with
    | .error message => some (ctlError env.seq message)
    | .ok spec =>
      match startOptionsFromPayload setup.builds env.payload with
      | .error message => some (ctlError env.seq message)
      | .ok options =>
        (ops.startSpecWithOptions spec options).map fun
          | .ok sid => ctlEvent env.seq "started" "source started" (some sid)
          | .error err => ctlErrorWithId env.seq
              (lifecycleErrorMessage "source start failed" err) (lifecycleErrorId err)

def stopSourceCtl : Envelope :=
  match parseEnvSid setup env with
  | .error reply => reply
  | .ok sid =>
    if ops.stop sid then ctlEvent env.seq "stopped" "source stopped" (some sid)
    else ctlErrorWithSid env.seq "source sid is not active" .E2001WireMalformed sid

/-- Start a stopped source again. Of an error only the outermost text is shown. -/
def resumeSourceCtl : Option Envelope :=
  match parseEnvSid setup env with
  | .error reply => some reply
  | .ok sid =>
    (ops.resume sid).map fun
      | .ok sid => ctlEvent env.seq "resumed" "source resumed" (some sid)
      | .error err =>
        let text := err.display
        ctlErrorWithSid env.seq s!"source resume failed: {text}" (lifecycleErrorId err) sid

def restartSourceCtl : Option Envelope :=
  match parseEnvSid setup env with
  | .error reply => some reply
  | .ok sid =>
    match startOptionsFromPayload setup.builds env.payload with
    | .error message => some (ctlError env.seq message)
    | .ok options =>
      (ops.restartWithOptions sid options).map fun
        | .ok sid => ctlEvent env.seq "restarted" "source restarted" (some sid)
        | .error err => ctlErrorWithSid env.seq
            (lifecycleErrorMessage "source restart failed" err) (lifecycleErrorId err) sid

def removeSourceCtl : Envelope :=
  match parseEnvSid setup env with
  | .error reply => reply
  | .ok sid =>
    if ops.remove sid then ctlEvent env.seq "removed" "source removed" (some sid)
    else ctlErrorWithSid env.seq "source sid is unknown" .E2001WireMalformed sid

/-- Handle a control request; the answer, unless an operation never returns. -/
def handleCtl : Option Envelope :=
  match mapStr env.payload "action" with
  | none => some (ctlError env.seq "ctl action is required")
  | some action =>
    match action with
    | "list" => some (listSourcesCtl ops env)
    | "start" => startSourceCtl setup ops env
    | "stop" => some (stopSourceCtl setup ops env)
    | "resume" => resumeSourceCtl setup ops env
    | "restart" => restartSourceCtl setup ops env
    | "remove" => some (removeSourceCtl setup ops env)
    | _ => some (ctlError env.seq s!"unsupported ctl action: {action}")

/-! ## Write requests -/

/-- How a write ended, for the audit log. -/
inductive AuditResult
  | ok
  | denied
  | error
  deriving DecidableEq, Repr

inductive AuditDetail
  | reason (text : String)
  | bytesWritten (n : ℕ)
  | error (text : String)
  deriving DecidableEq, Repr

/-- One entry of the audit log. -/
structure AuditEvent where
  target : String
  result : AuditResult
  seq : ℕ
  detail : AuditDetail
  deriving DecidableEq, Repr

/-- Handle a write request; the entry of the audit log and the answer. -/
def handleWrite : Option (AuditEvent × Envelope) :=
  match parseWriteSid setup env with
  | .error reply =>
    some (⟨env.sid.getD "<missing>", .denied, env.seq, .reason "invalid sid"⟩, reply)
  | .ok sid =>
    let ch := env.ch.getD 0
    let name := sidText sid
    match mapBinary env.payload "body" with
    | none =>
      some (⟨s!"{name}/ch{ch}", .denied, env.seq, .reason "missing body"⟩,
        ctlError env.seq "write payload.body bin is required")
    | some body =>
      (ops.write sid ch body (mapStr env.payload "target")).map fun
        | .ok bytesWritten =>
          (⟨s!"{name}/ch{ch}", .ok, env.seq, .bytesWritten bytesWritten⟩,
            writeAck env.seq sid ch bytesWritten)
        | .error err =>
          let text := err.display
          (⟨s!"{name}/ch{ch}", .error, env.seq, .error text⟩,
            ctlErrorWithSid env.seq s!"write failed: {text}" (anyhowErrorId err) sid)

/-! ## The loop of a connection -/

/-- What handling a frame leads to. -/
structure Outcome where
  audit : Option AuditEvent := none
  reply : Option Envelope := none

/-- Handle a frame by its type. Subscriptions are not requests of this kind, and the other
types have no answer here. -/
def dispatchEnvelope : Option Outcome :=
  match env.kind with
  | .ctl => (handleCtl setup ops env).map fun reply => { reply := some reply }
  | .write => (handleWrite setup ops env).map fun (event, reply) =>
    { audit := some event, reply := some reply }
  | _ => some {}

end handlers

/-- A frame in the queue of a connection. -/
structure QueuedFrame where
  env : Envelope
  bytes : Bytes
  encoded : encode env = .ok bytes

/-- Queue an answer. One that cannot be encoded is noted in the trace log only. -/
def queueEnvelope (env : Envelope) : Option QueuedFrame :=
  match h : encode env with
  | .ok bytes => some ⟨env, bytes, h⟩
  | .error _ => none

/-- A request as the loop gets it: a frame that decodes to a control or a write envelope,
and the source manager and the audit log it meets. -/
structure Request (setup : Setup) where
  bytes : Bytes
  env : Envelope
  decoded : decode setup.parser bytes = .ok env
  isRequest : env.kind = .ctl ∨ env.kind = .write
  ops : Operations
  /-- Whether the audit log takes an entry. An append that fails is noted in the trace log only. -/
  audited : Bool := true

/-- What a connection has done: the frames it has queued and the entries of the audit log,
in order. -/
structure Served where
  queued : List QueuedFrame := []
  audit : List AuditEvent := []

/-- The loop of a connection. While an operation does not return, no other frame is read. -/
def frameLoop (setup : Setup) : List (Request setup) → Served
  | [] => {}
  | r :: rest =>
    match dispatchEnvelope setup r.ops r.env with
    | none => {}
    | some out =>
      let served := frameLoop setup rest
      { queued := (out.reply.bind queueEnvelope).toList ++ served.queued
        audit := out.audit.toList.filter (fun _ => r.audited) ++ served.audit }

/-! ## Every answer names its request -/

/-- A control frame with the number of a request. -/
structure Answers (env reply : Envelope) : Prop where
  kind : reply.kind = .ctl
  seq : reply.seq = env.seq

section answers

variable {setup : Setup} {ops : Operations} {env reply : Envelope}

theorem answers_ctlErrorInner (env : Envelope) (message : String) (id : ErrorId)
    (sid : Option Uuid) : Answers env (ctlErrorInner env.seq message id sid) :=
  ⟨rfl, rfl⟩

theorem answers_parseSid {missing invalid : String}
    (h : parseSid setup env missing invalid = .error reply) : Answers env reply := by
  revert h
  fun_cases parseSid setup env missing invalid with
  | case3 => rintro ⟨⟩
  | _ => rintro ⟨⟩; apply answers_ctlErrorInner

theorem answers_handleWrite {event : AuditEvent}
    (h : handleWrite setup ops env = some (event, reply)) :
    Answers env reply ∧ event.seq = env.seq := by
  unfold handleWrite at h
  split at h
  · next hsid =>
    cases h
    exact ⟨answers_parseSid hsid, rfl⟩
  · split at h
    · obtain ⟨rfl, rfl⟩ := Prod.mk.inj (Option.some.inj h)
      exact ⟨answers_ctlErrorInner .., rfl⟩
    · obtain ⟨result, -, hresult⟩ := Option.map_eq_some_iff.mp h
      cases result with
      | ok bytesWritten =>
        obtain ⟨rfl, rfl⟩ := Prod.mk.inj hresult
        exact ⟨⟨rfl, rfl⟩, rfl⟩
      | error err =>
        obtain ⟨rfl, rfl⟩ := Prod.mk.inj hresult
        exact ⟨answers_ctlErrorInner .., rfl⟩

end answers

/-! ## Runs of the loop -/

namespace Request

variable {setup : Setup}

/-- The answer to a request, unless an operation never returns. -/
def reply (r : Request setup) : Option Envelope :=
  (dispatchEnvelope setup r.ops r.env).bind Outcome.reply

def expected (r : Request setup) : FrameType × ℕ := (.ctl, r.env.seq)

end Request

def QueuedFrame.tag (frame : QueuedFrame) : FrameType × ℕ := (frame.env.kind, frame.env.seq)

section loop

variable {setup : Setup} {r : Request setup}

theorem frameLoop_of_none (rest : List (Request setup))
    (h : dispatchEnvelope setup r.ops r.env = none) : frameLoop setup (r :: rest) = {} := by
  rw [frameLoop, h]

variable (requests : List (Request setup))

/-- Each request has one answer, a control frame with its number, in the order of the
requests. -/
def Answered (requests : List (Request setup)) (queued : List QueuedFrame) : Prop :=
  queued.map QueuedFrame.tag = requests.map Request.expected

/-- The numbers of the write requests, in the order they come in. -/
def writeSeqs : List ℕ :=
  (requests.filter fun r => r.env.kind = .write).map fun r => r.env.seq

/-- The entries of the audit log are those of the first writes whose entries it takes. -/
theorem audit_prefix_audited :
    (frameLoop setup requests).audit.map AuditEvent.seq <+:
      writeSeqs (requests.filter Request.audited) := by
  induction requests with
  | nil => exact prefix_refl _
  | cons r rest ih =>
    cases hdispatch : dispatchEnvelope setup r.ops r.env with
    | none =>
      rw [frameLoop_of_none rest hdispatch]
      exact nil_prefix
    | some out =>
      rw [frameLoop, hdispatch]
      rcases r.isRequest with hkind | hkind
      · simp only [dispatchEnvelope, hkind] at hdispatch
        obtain ⟨reply, -, rfl⟩ := Option.map_eq_some_iff.mp hdispatch
        cases haudited : r.audited <;> simpa [writeSeqs, hkind, haudited] using ih
      · simp only [dispatchEnvelope, hkind] at hdispatch
        obtain ⟨⟨event, reply⟩, hwrite, rfl⟩ := Option.map_eq_some_iff.mp hdispatch
        cases haudited : r.audited <;>
          simpa [writeSeqs, hkind, haudited, (answers_handleWrite hwrite).2] using ih

/-- Writes are audited at most once and in order, also those whose answer is dropped. While the
audit log takes its entries, none is left out up to the last. -/
theorem audit_sublist :
    List.Sublist ((frameLoop setup requests).audit.map AuditEvent.seq) (writeSeqs requests) ∧
      ((∀ r ∈ requests, r.audited = true) →
        (frameLoop setup requests).audit.map AuditEvent.seq <+: writeSeqs requests) := by
  have haudited := audit_prefix_audited requests
  refine ⟨haudited.sublist.trans ((filter_sublist.filter _).map _), fun hall => ?_⟩
  rwa [filter_eq_self.mpr hall] at haudited

end loop

/-! ## An action that is too long to be refused -/

section longAction

variable (action : String)

end longAction

end TraceMux.Server.Requests
