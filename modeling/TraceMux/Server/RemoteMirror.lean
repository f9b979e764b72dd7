/-
# The mirror of a remote session

A mirror subscribes to one channel of a session of another server and records what it
receives to a session of its own. The clock readings of a frame come from its payload;
what is absent or of another type is replaced by a reading here. Writes go the other way
and are answered by control frames.

The frames come from a peer. What the peer says of the drift of its clock goes into the
index as it is, so that a drift that is not finite makes the whole directory unreadable.
-/

import TraceMux.Core.Float
import TraceMux.Core.Source.Replay
import TraceMux.Server.Runner

namespace TraceMux.Server.RemoteMirror

open Base Base.MsgPack TraceMux.Core Core.Log Core.FileSink Core.Source Server.Runner Server.Wire
  List

def mapGet (value : Value) (key : String) : Option Value :=
  match value with
  | .map entries => entries.findSome? fun entry =>
    if entry.1.asStr = some key then some entry.2 else none
  | _ => none

def mapBinary (value : Value) (key : String) : Option Bytes :=
  match mapGet value key with
  | some (.binary data) => some data
  | _ => none

/-- A field of text. -/
def mapStr (value : Value) (key : String) : Option String := (mapGet value key).bind Value.asStr

/-- A field with a signed number. -/
def mapI64 (value : Value) (key : String) : Option ℤ := (mapGet value key).bind Value.asI64

/-- A field with an unsigned number. -/
def mapU64 (value : Value) (key : String) : Option ℕ := (mapGet value key).bind Value.asU64

/-- A field with a float; a double is narrowed. -/
def mapF32 (value : Value) (key : String) : Option F32 :=
  match mapGet value key with
  | some (.f32 bits) => some bits
  | some (.f64 bits) => some (F64.toF32 bits)
  | _ => none

/-- A field with an id, as the parser of ids reads it. -/
def mapUuid (parseStr : String → Option Uuid) (value : Value) (key : String) : Option Uuid :=
  (mapStr value key).bind parseStr

def clockQuality : String → Option ClockQuality
  | "synced" => some .synced
  | "best-effort" => some .bestEffort
  | "unknown" => some .unknown
  | "imported" => some .imported
  | _ => none

def clockSource : String → Option ClockSource
  | "system" => some .system
  | "ntp" => some .ntp
  | "ptp" => some .ptp
  | "monotonic" => some .monotonic
  | "imported" => some .imported
  | _ => none

/-- A number of 32 bits with a sign. -/
def tryI32 (n : ℤ) : Option ℤ := if -2 ^ 31 ≤ n ∧ n < 2 ^ 31 then some n else none

def timestampFromPayload (parseStr : String → Option Uuid) (payload : Value)
    (fallback : DualTimestamp) : DualTimestamp where
  tsOriginNs := (mapI64 payload "ts_origin").getD fallback.tsOriginNs
  tsIngestNs := (mapI64 payload "ts_ingest").getD fallback.tsIngestNs
  monoNs := (mapU64 payload "mono_ns").getD fallback.monoNs
  bootId := (mapUuid parseStr payload "boot_id").getD fallback.bootId
  nodeId := (mapUuid parseStr payload "node_id").getD fallback.nodeId
  clockOffsetMs := ((mapI64 payload "clock_offset_ms").bind tryI32).getD fallback.clockOffsetMs
  clockQuality := ((mapStr payload "clock_quality").bind clockQuality).getD fallback.clockQuality
  driftPpm := (mapF32 payload "drift_ppm").getD fallback.driftPpm
  clockSource := ((mapStr payload "clock_source").bind clockSource).getD fallback.clockSource

/-- What is mirrored. -/
structure RemoteTarget where
  url : Text
  remoteSid : Uuid
  remoteCh : ℕ
  deriving DecidableEq, Repr

/-- The address without its query and fragment. -/
def sanitizedWsUrl (url : Text) : Text := (url.takeWhile (· ≠ '#')).takeWhile (· ≠ '?')

/-- The label that goes with every mirrored frame. -/
def RemoteTarget.sourceLabel (target : RemoteTarget) : String :=
  s!"remote:{String.ofList (sanitizedWsUrl target.url)}:{target.remoteCh}"

/-- A message of the web socket. -/
inductive Message
  | binary (bytes : Bytes)
  | close
  | other
  deriving DecidableEq, Repr

/-- What wakes the loop: a write that is to be sent, with the outcome of sending it, or a
message or an error of the socket. -/
inductive Event
  | write (body : Bytes) (target : Option String) (sending : Except String Unit)
  | message (received : Except String Message)

/-- Why a mirror ends early. -/
inductive MirrorError
  | connecting (message : String)
  | encodingSub (e : WireError)
  | sendingSub (message : String)
  | encodingWrite (e : WireError)
  | sendingWrite (message : String)
  | receiving (message : String)
  | decoding (e : WireError)
  | control (message : String)
  | sink (e : TraceMuxError)
  | wire (e : WireError)
  deriving DecidableEq, Repr

/-- What a mirror is given. -/
structure Setup where
  parser : EnvelopeParser
  parseStr : String → Option Uuid
  time : TimeSource
  localSid : Uuid
  target : RemoteTarget

section Loop

variable {Record : Type} (sink : LogSink Record)

/-- Everything a mirror changes. -/
structure Mirror where
  ingest : Ingest
  sink : sink.State
  stats : RunnerStats
  nextWriteSeq : ℕ := 2
  pending : List ℕ := []
  /-- The answers that were passed on, with the number of the write. -/
  answers : List (ℕ × Except String Unit) := []
  /-- The payloads of the frames whose body the sink has accepted. -/
  mirrored : List Value := []

variable {sink} (setup : Setup)

/-- The frame that asks the other side to write. -/
def remoteWriteEnvelope (seq : ℕ) (target : RemoteTarget) (body : Bytes)
    (writeTarget : Option String) : Envelope where
  kind := .write
  sid := some (String.ofList target.remoteSid.hyphenated)
  ch := some target.remoteCh
  seq := seq
  payload := .map ([(.string "body", .binary body)] ++
    (writeTarget.map fun text => (.string "target", .string text)).toList)

/-- Pass the answer to a write on. A control frame that is not one leaves the write
waiting. -/
def resolveWriteAck (env : Envelope) (m : Mirror sink) : Mirror sink :=
  if env.seq ∈ m.pending then
    match mapStr env.payload "event" with
    | some "write_ack" =>
      { m with
        pending := m.pending.erase env.seq
        answers := m.answers ++ [(env.seq, .ok ())] }
    | some "error" =>
      { m with
        pending := m.pending.erase env.seq
        answers := m.answers ++
          [(env.seq, .error ((mapStr env.payload "message").getD "remote write failed"))] }
    | _ => m
  else m

/-- Fail every write that still waits. -/
def failPending (message : String) (m : Mirror sink) : Mirror sink :=
  { m with
    pending := []
    answers := m.answers ++ m.pending.map fun seq => (seq, .error message) }

/-- A control frame that reports an error ends the mirror. -/
def failOnCtlError (env : Envelope) : Except MirrorError Unit :=
  if mapStr env.payload "event" = some "error" then
    .error (.control ((mapStr env.payload "message").getD "remote mirror failed"))
  else .ok ()

/-- A data frame of the mirrored channel. -/
def isTargetData (env : Envelope) (sid : Uuid) (ch : ℕ) : Bool :=
  env.kind = .data ∧ env.sid = some (String.ofList sid.hyphenated) ∧ env.ch = some ch

def sendWrite (body : Bytes) (writeTarget : Option String) (sending : Except String Unit)
    (m : Mirror sink) : Except MirrorError Unit × Mirror sink :=
  let seq := m.nextWriteSeq
  let m := { m with nextWriteSeq := min (seq + 1) (2 ^ 64 - 1) }
  match encode (remoteWriteEnvelope seq setup.target body writeTarget), sending with
  | .error e, _ => (.error (.encodingWrite e), m)
  | .ok _, .error message => (.error (.sendingWrite message), m)
  | .ok _, .ok () => (.ok (), { m with pending := m.pending.insert seq })

/-- The stamp of a mirrored frame. Its first reading of the clock is number `reading`. -/
def stampOf (reading : ℕ) (payload : Value) : DualTimestamp :=
  setup.time.stampIngest (reading + 1)
    (timestampFromPayload setup.parseStr payload (setup.time.stampOrigin reading))

def mirrorFrame (payload : Value) (body : Bytes) (m : Mirror sink) :
    Except MirrorError Unit × Mirror sink :=
  let ts := stampOf setup (2 * m.stats.rawFrames) payload
  let m := { m with stats := { m.stats with rawFrames := m.stats.rawFrames + 1 } }
  match sink.appendRaw m.sink ts .in body with
  | (.error e, ss) => (.error (.sink e), { m with sink := ss })
  | (.ok (), ss) =>
    let m := { m with sink := ss, mirrored := m.mirrored ++ [payload] }
    match encodeDataEnvelope setup.localSid 0 m.stats.rawFrames ts body
        setup.target.sourceLabel with
    | .error e => (.error (.wire e), m)
    | .ok wire => (.ok (), { m with ingest := (m.ingest.publishWire setup.localSid wire).2 })

/-- Handle a decoded frame. Frames of other channels and frames without a body are
skipped. -/
def handleEnvelope (env : Envelope) (m : Mirror sink) : Except MirrorError Unit × Mirror sink :=
  if env.kind = .ctl then (failOnCtlError env, resolveWriteAck env m)
  else if isTargetData env setup.target.remoteSid setup.target.remoteCh then
    match mapBinary env.payload "body" with
    | none => (.ok (), m)
    | some body => mirrorFrame setup env.payload body m
  else (.ok (), m)

def goesOn : Except MirrorError Unit × Mirror sink →
    Option (Except MirrorError Unit) × Mirror sink
  | (.ok (), m) => (none, m)
  | (.error e, m) => (some (.error e), m)

/-- What the loop does with an event, and the outcome if it ends there. -/
def handleEvent (m : Mirror sink) : Event → Option (Except MirrorError Unit) × Mirror sink
  | .write body writeTarget sending => goesOn (sendWrite setup body writeTarget sending m)
  | .message (.error message) => (some (.error (.receiving message)), m)
  | .message (.ok .close) => (some (.ok ()), failPending "remote websocket closed" m)
  | .message (.ok .other) => (none, m)
  | .message (.ok (.binary bytes)) =>
    match decode setup.parser bytes with
    | .error e => (some (.error (.decoding e)), m)
    | .ok env => goesOn (handleEnvelope setup env m)

/-- The loop, which ends with the socket: when it is closed, or when there is no further
event. -/
def runLoop : List Event → Mirror sink → Except MirrorError Unit × Mirror sink
  | [], m => (.ok (), failPending "remote websocket closed" m)
  | event :: rest, m =>
    match handleEvent setup m event with
    | (none, m) => runLoop rest m
    | (some outcome, m) => (outcome, m)

/-- The frame that subscribes to the mirrored channel. -/
def subEnvelope (target : RemoteTarget) : Envelope where
  kind := .sub
  sid := some (String.ofList target.remoteSid.hyphenated)
  ch := some target.remoteCh
  seq := 1
  payload := .map []

/-- What a mirror meets: whether it connects and can subscribe, and the events after
that. -/
structure Connection where
  connecting : Except String Unit := .ok ()
  subscribing : Except String Unit := .ok ()
  events : List Event

/-- What follows the loop: the sink is committed and closed. -/
def finishMirror (m : Mirror sink) : Except MirrorError RunnerStats × Mirror sink :=
  match sink.commit m.sink with
  | (.error e, ss) => (.error (.sink e), { m with sink := ss })
  | (.ok (), ss) =>
    match sink.close ss with
    | (.error e, ss) => (.error (.sink e), { m with sink := ss })
    | (.ok (), ss) => (.ok m.stats, { m with sink := ss })

/-- Mirror a remote session until the connection ends. -/
def run (sink : LogSink Record) (ingest : Ingest) (conn : Connection) :
    Except MirrorError RunnerStats × Mirror sink :=
  let m : Mirror sink := { ingest := ingest, sink := sink.init, stats := { sid := setup.localSid } }
  match conn.connecting, encode (subEnvelope setup.target), conn.subscribing with
  | .error message, _, _ => (.error (.connecting message), m)
  | .ok (), .error e, _ => (.error (.encodingSub e), m)
  | .ok (), .ok _, .error message => (.error (.sendingSub message), m)
  | .ok (), .ok _, .ok () =>
    match runLoop setup conn.events m with
    | (.error e, m) => (.error e, m)
    | (.ok (), m) => finishMirror m

end Loop

theorem mem_of_mapBinary {payload : Value} {key : String} {data : Bytes}
    (h : mapBinary payload key = some data) :
    ∃ entries, payload = .map entries ∧ ∃ k, (k, .binary data) ∈ entries := by
  unfold mapBinary at h
  split at h
  · next hget =>
    cases h
    unfold mapGet at hget
    split at hget
    · next entries =>
      obtain ⟨⟨k, v⟩, hentry, hvalue⟩ := exists_of_findSome?_eq_some hget
      split at hvalue
      · cases hvalue
        exact ⟨entries, rfl, k, hentry⟩
      · cases hvalue
    · cases hget
  · cases h

section SinkRule

variable {Record : Type} {sink : LogSink Record} {setup : Setup}

/-- What relates the state of a sink to the payloads mirrored so far and is kept by every
call a mirror makes. -/
structure Kept (sink : LogSink Record) (setup : Setup) (P : sink.State → List Value → Prop) :
    Prop where
  accepted : ∀ {s s' mirrored reading payload body}, P s mirrored →
    mapBinary payload "body" = some body → body.length ≤ maxFrameBytes →
    sink.appendRaw s (stampOf setup reading payload) .in body = (.ok (), s') →
    P s' (mirrored ++ [payload])
  refused : ∀ {s s' mirrored reading payload body e}, P s mirrored →
    sink.appendRaw s (stampOf setup reading payload) .in body = (.error e, s') → P s' mirrored
  commit : ∀ {s mirrored}, P s mirrored → P (sink.commit s).2 mirrored
  close : ∀ {s mirrored}, P s mirrored → P (sink.close s).2 mirrored

variable {P : sink.State → List Value → Prop} {m : Mirror sink}

theorem Kept.mirrorFrame (hP : Kept sink setup P) {payload : Value} {body : Bytes}
    (hbody : mapBinary payload "body" = some body) (hlen : body.length ≤ maxFrameBytes)
    (h : P m.sink m.mirrored) :
    P (mirrorFrame setup payload body m).2.sink (mirrorFrame setup payload body m).2.mirrored := by
  unfold RemoteMirror.mirrorFrame
  simp only
  split
  · next happend => exact hP.refused h happend
  · next happend =>
    have haccepted := hP.accepted h hbody hlen happend
    split
    · exact haccepted
    · exact haccepted

theorem sendWrite_sink (setup : Setup) (body : Bytes) (writeTarget : Option String)
    (sending : Except String Unit) (m : Mirror sink) :
    (sendWrite setup body writeTarget sending m).2.sink = m.sink ∧
      (sendWrite setup body writeTarget sending m).2.mirrored = m.mirrored := by
  unfold sendWrite
  simp only
  split <;> exact ⟨rfl, rfl⟩

theorem Kept.handleEnvelope (hP : Kept sink setup P) {bytes : Bytes} {env : Envelope}
    (henv : decode setup.parser bytes = .ok env) (h : P m.sink m.mirrored) :
    P (handleEnvelope setup env m).2.sink (handleEnvelope setup env m).2.mirrored := by
  unfold RemoteMirror.handleEnvelope
  split
  · unfold resolveWriteAck
    split
    · split <;> exact h
    · exact h
  · split
    · split
      · exact h
      · next body hbody =>
        obtain ⟨entries, hpayload, key, hmem⟩ := mem_of_mapBinary hbody
        exact hP.mirrorFrame hbody (length_le_of_decode henv hpayload hmem) h
    · exact h

theorem goesOn_snd (handled : Except MirrorError Unit × Mirror sink) :
    (goesOn handled).2 = handled.2 := by
  rcases handled with ⟨_ | _, _⟩ <;> rfl

theorem Kept.handleEvent (hP : Kept sink setup P) (event : Event) (h : P m.sink m.mirrored) :
    P (handleEvent setup m event).2.sink (handleEvent setup m event).2.mirrored := by
  fun_cases RemoteMirror.handleEvent setup m event with
  | case1 body writeTarget sending =>
    obtain ⟨hsink, hmirrored⟩ := sendWrite_sink setup body writeTarget sending m
    rw [goesOn_snd, hsink, hmirrored]
    exact h
  | case6 bytes env henv =>
    rw [goesOn_snd]
    exact hP.handleEnvelope henv h
  | _ => exact h

/-- What every call keeps, the loop keeps. -/
theorem Kept.runLoop (hP : Kept sink setup P) (events : List Event) (h : P m.sink m.mirrored) :
    P (runLoop setup events m).2.sink (runLoop setup events m).2.mirrored := by
  fun_induction RemoteMirror.runLoop setup events m with
  | case1 => exact h
  | case2 event rest m m' hhandle ih =>
    have hkept := hP.handleEvent event h
    rw [hhandle] at hkept
    exact ih hkept
  | case3 event rest m outcome m' hhandle =>
    have hkept := hP.handleEvent event h
    rw [hhandle] at hkept
    exact hkept

/-- What holds of a new sink and is kept by every call holds when the mirror has ended,
however it ends. -/
theorem Kept.run (hP : Kept sink setup P) (hinit : P sink.init []) (ingest : Ingest)
    (conn : Connection) :
    P (run setup sink ingest conn).2.sink (run setup sink ingest conn).2.mirrored := by
  unfold RemoteMirror.run
  simp only
  split
  · exact hinit
  · exact hinit
  · exact hinit
  · have hloop := hP.runLoop conn.events
      (m := { ingest := ingest, sink := sink.init, stats := { sid := setup.localSid } }) hinit
    split
    · next hstop =>
      rw [hstop] at hloop
      exact hloop
    · next hok =>
      rw [hok] at hloop
      have hcommit := hP.commit hloop
      unfold finishMirror
      split
      · next hcommitted =>
        rw [hcommitted] at hcommit
        exact hcommit
      · next hcommitted =>
        rw [hcommitted] at hcommit
        have hclose := hP.close hcommit
        split
        · next hclosed =>
          rw [hclosed] at hclose
          exact hclose
        · next hclosed =>
          rw [hclosed] at hclose
          exact hclose

end SinkRule

/-- One mirror of a session: when its sink is opened, under which labels, and what it
meets. The session is that of the labels. -/
structure MirrorRun where
  opened : SystemTime
  labels : SinkLabels
  parser : EnvelopeParser
  parseStr : String → Option Uuid
  time : SystemTimeSource
  target : RemoteTarget
  ingest : Ingest
  conn : Connection

def MirrorRun.setup (r : MirrorRun) : Setup where
  parser := r.parser
  parseStr := r.parseStr
  time := r.time.timeSource
  localSid := r.labels.sid
  target := r.target

/-- What a mirror leaves in the directory, with the payloads of the frames it has
mirrored. -/
def MirrorRun.exec (codecs : Codecs) (dir : SessionFiles × List Value) (r : MirrorRun) :
    SessionFiles × List Value :=
  let ended := (run r.setup (fileLogSink codecs r.opened dir.1 r.labels) r.ingest r.conn).2
  ((ended.sink : OpenSink).files, dir.2 ++ ended.mirrored)

/-- What several mirrors of a session leave in its new directory, one after the other. -/
def mirrorRuns (codecs : Codecs) (runs : List MirrorRun) : SessionFiles × List Value :=
  runs.foldl (MirrorRun.exec codecs) ({}, [])

def bodies (payloads : List Value) : List Bytes := payloads.filterMap (mapBinary · "body")

/-- What the sink has appended for the payload of a frame. -/
structure IsMirrorOf (payload : Value) (a : Appended) : Prop where
  body : mapBinary payload "body" = some a.data
  length_le : a.data.length ≤ u32Max
  drift : a.ts.driftPpm = (mapF32 payload "drift_ppm").getD 0

/-- A directory to which the bodies of some payloads were appended. -/
def Mirrors (codec : RowCodec) (files : SessionFiles) (payloads : List Value) : Prop :=
  ∃ appended, Adds codec {} files appended ∧ List.Forall₂ IsMirrorOf payloads appended

variable {payloads : List Value}

theorem Mirrors.adds_nil {codec : RowCodec} {files files' : SessionFiles}
    (h : Mirrors codec files payloads) (h' : Adds codec files files' []) :
    Mirrors codec files' payloads := by
  obtain ⟨appended, hadds, hmirror⟩ := h
  refine ⟨appended, ?_, hmirror⟩
  have hall := hadds.trans h'
  rwa [append_nil] at hall

variable (codecs : Codecs)

/-- A mirror with the file sink appends the body of each frame, under the drift the frame
gives. -/
theorem kept_mirrors (r : MirrorRun) (files : SessionFiles) (before : List Value) :
    Kept (fileLogSink codecs r.opened files r.labels) r.setup fun s mirrored =>
      Quiet (s : OpenSink) ∧ Mirrors codecs.index (s : OpenSink).files (before ++ mirrored) where
  accepted := by
    rintro s s' mirrored reading payload body ⟨hquiet, appended, hadds, hmirror⟩ hbody hlen happend
    cases happend
    obtain ⟨hquiet', hadds'⟩ := appendRaw_spec hquiet codecs
      (stampOf r.setup reading payload).tsIngestNs (stampOf r.setup reading payload) .in body
    refine ⟨hquiet', _, hadds.trans hadds', ?_⟩
    rw [← append_assoc]
    exact rel_append hmirror (.cons ⟨hbody, hlen.trans (by decide), rfl⟩ .nil)
  refused := by
    intro s s' mirrored reading payload body e h happend
    cases happend
  commit := by
    rintro s mirrored ⟨hquiet, hmirrors⟩
    obtain ⟨hquiet', hadds⟩ := commit_spec hquiet codecs.index r.opened
    exact ⟨hquiet', hmirrors.adds_nil hadds⟩
  close := by
    rintro s mirrored ⟨hquiet, hmirrors⟩
    obtain ⟨hquiet', hadds⟩ := close_spec hquiet codecs.index r.opened
    exact ⟨hquiet', hmirrors.adds_nil hadds⟩

/-- So do several. -/
theorem mirrorRuns_mirrors (runs : List MirrorRun) :
    Mirrors codecs.index (mirrorRuns codecs runs).1 (mirrorRuns codecs runs).2 ∧
      (runs ≠ [] → (mirrorRuns codecs runs).1.index.isSome ∧
        (mirrorRuns codecs runs).1.raw.isSome) := by
  induction runs using reverseRecOn with
  | nil => exact ⟨⟨[], .refl codecs.index rfl rfl, .nil⟩, fun h => absurd rfl h⟩
  | append_singleton runs r ih =>
    -- One mirror adds the bodies of the frames it has mirrored.
    have hlast : mirrorRuns codecs (runs ++ [r]) = r.exec codecs (mirrorRuns codecs runs) :=
      foldl_append
    rw [hlast]
    generalize mirrorRuns codecs runs = dir at ih ⊢
    have hinit : Mirrors codecs.index
        (FileLogSink.createWithLabels codecs r.opened dir.1 r.labels).files (dir.2 ++ []) := by
      rw [append_nil]
      exact ih.1.adds_nil (.refl codecs.index (DiskFile.contents_openAppend ..)
        (DiskFile.contents_openAppend ..))
    obtain ⟨hquiet, hmirrors⟩ := (kept_mirrors codecs r dir.1 dir.2).run
      ⟨quiet_createWithLabels codecs r.opened dir.1 r.labels, hinit⟩ r.ingest r.conn
    exact ⟨hmirrors, fun _ => ⟨hquiet.index_isSome, hquiet.raw_isSome⟩⟩

/-- A payload whose drift, if it is a float at all, is finite as a single. -/
def finiteDrift (payload : Value) : Bool :=
  match mapGet payload "drift_ppm" with
  | some (.f32 bits) => bits.toNat % 2 ^ 31 < 0x7F800000
  | some (.f64 bits) => bits.toNat % 2 ^ 63 < 0x47EFFFFFF0000000
  | _ => true

theorem isFinite_drift_iff (payload : Value) :
    F32.isFinite ((mapF32 payload "drift_ppm").getD 0) = true ↔ finiteDrift payload = true := by
  unfold mapF32 finiteDrift
  split
  · exact (F32.isFinite_iff _).trans decide_eq_true_iff.symm
  · exact (F64.isFinite_toF32_iff _).trans decide_eq_true_iff.symm
  · exact iff_of_true (by decide) rfl

/-- What the sink has appended for payloads is their bodies, none too long for a row, each
under the drift of its payload. -/
theorem appended_of_forall₂ {appended : List Appended}
    (h : List.Forall₂ IsMirrorOf payloads appended) :
    bodies payloads = appended.map Appended.data ∧
      (∀ a ∈ appended, a.data.length ≤ u32Max) ∧
      ((∀ a ∈ appended, F32.isFinite a.ts.driftPpm = true) ↔
        ∀ payload ∈ payloads, finiteDrift payload = true) := by
  induction h with
  | nil => exact ⟨rfl, by simp, by simp⟩
  | cons hfirst _ ih =>
    obtain ⟨hbodies, hlen, hdrift⟩ := ih
    refine ⟨?_, forall_mem_cons.mpr ⟨hfirst.length_le, hlen⟩, ?_⟩
    · rw [bodies, filterMap_cons, hfirst.body, map_cons]
      exact congrArg _ hbodies
    · rw [forall_mem_cons, forall_mem_cons, hdrift, hfirst.drift, isFinite_drift_iff]

/-- A mirrored directory can be read when no payload gives a drift that is not finite. -/
theorem readable_iff_of_mirrors {codec : RowCodec} (hcodec : codec.RejectsNull)
    {files : SessionFiles} (h : Mirrors codec files payloads) (hindex : files.index.isSome)
    (hraw : files.raw.isSome) (path : String) :
    Readable codec files path (bodies payloads) ↔
      ∀ payload ∈ payloads, finiteDrift payload = true := by
  obtain ⟨appended, hadds, hmirror⟩ := h
  obtain ⟨hbodies, hlen, hdrift⟩ := appended_of_forall₂ hmirror
  rw [hbodies, readable_iff_of_adds hcodec hadds hlen hindex hraw, hdrift]

/-- A mirrored directory can be read in full exactly when no mirrored frame gave a drift
that is infinite, not a number, or a double too large for a single. One such frame hides
the bodies of all others. -/
theorem mirrored_readable_iff {codecs : Codecs} (hcodec : codecs.index.RejectsNull)
    (first : MirrorRun) (rest : List MirrorRun) (path : String) :
    Readable codecs.index (mirrorRuns codecs (first :: rest)).1 path
        (bodies (mirrorRuns codecs (first :: rest)).2) ↔
      ∀ payload ∈ (mirrorRuns codecs (first :: rest)).2, finiteDrift payload = true := by
  obtain ⟨hmirrors, hfiles⟩ := mirrorRuns_mirrors codecs (first :: rest)
  obtain ⟨hindex, hraw⟩ := hfiles (cons_ne_nil first rest)
  exact readable_iff_of_mirrors hcodec hmirrors hindex hraw path

/-- The serialisers with decimal rows, where a row without a finite drift is refused. -/
def nullCodecs : Codecs := { decimalCodecs with index := DecimalRows.nullCodec }

/-- A peer that sends data frames of channel 0 of session 9: the whole frame is the body,
and its first byte decides the drift. -/
def plainParser : EnvelopeParser where
  fromSlice bytes := .ok {
    kind := .data
    sid := some (String.ofList (Uuid.hyphenated 9))
    ch := some 0
    seq := 1
    payload := .map [
      (.string "drift_ppm", if bytes.head? = some 0xFF then .f32 0x7FC00000 else .f64 0),
      (.string "body", .binary bytes)] }
  length_le := by
    intro bytes env entries key data h hpayload hdata
    cases h
    cases hpayload
    rw [List.mem_cons, List.mem_singleton] at hdata
    rcases hdata with hdrift | hbody
    · injection hdrift with _ hvalue
      split at hvalue <;> cases hvalue
    · injection hbody with _ hvalue
      cases hvalue
      exact le_rfl

def plainMirror (frames : List Bytes) : MirrorRun where
  opened := 0
  labels := { sid := 7 }
  parser := plainParser
  parseStr _ := none
  time := { bootId := 1, nodeId := 2, unixNsNow := fun i => i, monoNs := fun i => i }
  target := ⟨"wss://edge/ws?token_env=T".toList, 9, 0⟩
  ingest := .new
  conn := { events := frames.map fun bytes => .message (.ok (.binary bytes)) }

/-- A mirror with a drift of zero. -/
theorem mirrored_readable_zero_drift :
    nullCodecs.index.RejectsNull ∧
      Readable nullCodecs.index (mirrorRuns nullCodecs [plainMirror [[1, 2]]]).1 "s"
        (bodies (mirrorRuns nullCodecs [plainMirror [[1, 2]]]).2) ∧
      bodies (mirrorRuns nullCodecs [plainMirror [[1, 2]]]).2 = [[1, 2]] := by
  have hcodec : nullCodecs.index.RejectsNull := DecimalRows.nullCodec_rejectsNull
  have hreadable := (mirrored_readable_iff hcodec (plainMirror [[1, 2]]) [] "s").mpr
    (by decide +kernel)
  exact ⟨hcodec, hreadable, by decide +kernel⟩

/-- The second of two frames gives a drift that is not a number: the directory does not
open, and the body of the first is lost with it. -/
theorem nan_drift_hides_bodies :
    nullCodecs.index.RejectsNull ∧
      bodies (mirrorRuns nullCodecs [plainMirror [[1, 2], [0xFF]]]).2 = [[1, 2], [0xFF]] ∧
      ¬ Readable nullCodecs.index (mirrorRuns nullCodecs [plainMirror [[1, 2], [0xFF]]]).1 "s"
        (bodies (mirrorRuns nullCodecs [plainMirror [[1, 2], [0xFF]]]).2) := by
  refine ⟨DecimalRows.nullCodec_rejectsNull, by decide +kernel, fun hreadable => ?_⟩
  obtain ⟨hmirrors, hfiles⟩ := mirrorRuns_mirrors nullCodecs [plainMirror [[1, 2], [0xFF]]]
  obtain ⟨hindex, hraw⟩ := hfiles (cons_ne_nil _ _)
  have hfinite := (readable_iff_of_mirrors DecimalRows.nullCodec_rejectsNull hmirrors hindex hraw
    "s").mp hreadable
  exact absurd hfinite (by decide +kernel)

end TraceMux.Server.RemoteMirror
