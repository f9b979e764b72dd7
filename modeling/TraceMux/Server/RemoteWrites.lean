/-
# Writes through a remote mirror

A write to a remote session is queued for the loop of its mirror. The loop sends it to the other
side under a number and keeps the number until a control frame answers it.

Answers find their writes: no number is given twice, and a write is reported successful only
when an acknowledgement of its own number came after its own frame. An answer that reports an
error, however, ends the whole mirror, and with it all other writes.
-/

import TraceMux.Server.RemoteMirror
import TraceMux.Server.UdpWrites

namespace TraceMux.Server.RemoteWrites

open Base Base.Transition Base.MsgPack TraceMux.Core List
open Server.RemoteMirror Server.Runner Server.Wire
open Server.UdpWrites (WriteRequest SinkEntry findSink)

/-! ## One event of the loop -/

section Loop

variable {Record : Type} {sink : LogSink Record} (setup : Setup)

/-- The loop as a system that stops where the loop ends. -/
def loopStep (m : Mirror sink) (event : Event) : Option (Mirror sink) :=
  match handleEvent setup m event with
  | (none, m) => some m
  | (some _, _) => none

def frame : Event → Option Envelope
  | .message (.ok (.binary bytes)) => (decode setup.parser bytes).toOption
  | _ => none

/-! ## Answers that report an error -/

/-- A control frame that reports an error under the number of a write that waits. -/
structure IsWriteError (m : Mirror sink) (env : Envelope) : Prop where
  kind : env.kind = .ctl
  pending : env.seq ∈ m.pending
  event : mapStr env.payload "event" = some "error"

/-- Exactly the write that the frame answers fails, and the loop goes on with what comes
later. -/
structure Isolated (m : Mirror sink) (event : Event) (env : Envelope) : Prop where
  failed : ∃ message,
    (handleEvent setup m event).2.answers = m.answers ++ [(env.seq, .error message)]
  others : (handleEvent setup m event).2.pending = m.pending.erase env.seq
  continues : ∀ rest,
    runLoop setup (event :: rest) m = runLoop setup rest (handleEvent setup m event).2

variable {setup} {event : Event} {env : Envelope}

theorem exists_of_frame (h : frame setup event = some env) :
    ∃ bytes, event = .message (.ok (.binary bytes)) ∧ decode setup.parser bytes = .ok env := by
  unfold frame at h
  split at h
  · next bytes =>
    refine ⟨bytes, rfl, ?_⟩
    cases hdecode : decode setup.parser bytes with
    | error e =>
      rw [hdecode] at h
      cases h
    | ok found =>
      rw [hdecode] at h
      exact congrArg Except.ok (Option.some.inj h)
  · cases h

theorem not_isolated_of_writeError {m : Mirror sink} (henv : frame setup event = some env)
    (h : IsWriteError m env) : ¬ Isolated setup m event env := by
  intro hisolated
  -- The loop ends with the frame, whatever comes later.
  have hends := hisolated.continues []
  obtain ⟨bytes, rfl, hdecode⟩ := exists_of_frame henv
  simp only [runLoop, handleEvent, hdecode, handleEnvelope, h.kind, failOnCtlError, h.event,
    if_true, goesOn] at hends
  cases hends

/-- In a run, the answers that report an error touch only their own writes exactly when there
are none. -/
theorem writeErrors_isolated_iff (setup : Setup) (m : Mirror sink) (events : List Event) :
    Guarded (loopStep setup) (fun m event => ∀ env, frame setup event = some env →
        IsWriteError m env → Isolated setup m event env) m events ↔
      Guarded (loopStep setup) (fun m event => ∀ env, frame setup event = some env →
        ¬ IsWriteError m env) m events := by
  have hsame : (fun (m : Mirror sink) event => ∀ env, frame setup event = some env →
        IsWriteError m env → Isolated setup m event env) =
      fun m event => ∀ env, frame setup event = some env → ¬ IsWriteError m env := by
    funext m event
    refine propext ⟨fun h env henv herror => ?_, fun h env henv herror => ?_⟩
    · exact not_isolated_of_writeError henv herror (h env henv herror)
    · exact absurd herror (h env henv)
  rw [hsame]

end Loop

/-- Two bytes are a control frame: the kind of answer and the number of the write. Everything
else is data. -/
def edgeParser : EnvelopeParser where
  fromSlice bytes :=
    match bytes with
    | [kind, seq] => .ok {
        kind := .ctl
        seq := seq.toNat
        payload := .map [
          (.string "event", .string (if kind = 0 then "write_ack" else "error"))] }
    | bytes => plainParser.fromSlice bytes
  length_le := by
    intro bytes env entries key data h hpayload hdata
    split at h
    · cases h
      cases hpayload
      rw [List.mem_singleton] at hdata
      injection hdata with _ hvalue
      cases hvalue
    · exact plainParser.length_le h hpayload hdata

def edgeSetup : Setup where
  parser := edgeParser
  parseStr _ := none
  time := { bootId := 1, nodeId := 2, unixNsNow := fun i => i, monoNs := fun i => i :
    SystemTimeSource }.timeSource
  localSid := 7
  target := ⟨"wss://edge/ws".toList, 9, 0⟩

/-- Two writes wait and the first is refused: the mirror ends, the data that follows is not
recorded, and the second write is dropped with the loop. -/
theorem writeError_ends_mirror :
    let ended := run edgeSetup quietSink .new { events := [
      .write [1] none (.ok ()), .write [2] none (.ok ()),
      .message (.ok (.binary [1, 2])), .message (.ok (.binary [5]))] }
    ended.1 = .error (.control "remote mirror failed") ∧
      ended.2.answers = [(2, .error "remote write failed")] ∧
      ended.2.pending = [3] ∧ ended.2.mirrored = [] := by
  decide +kernel

/-! ## The writes -/

/-- Where a write stands inside the sink. -/
inductive Stage
  /-- It has taken its target and waits for room in the queue. -/
  | queueing (target : Option String)
  | awaiting
  deriving DecidableEq

structure RemoteWriteRequest (Client : Type) where
  body : Bytes
  target : Option String
  ack : Client

/-- What went over the socket. -/
inductive Traffic (Client : Type)
  | sent (client : Client) (env : Envelope)
  | received (env : Envelope)

variable {Record Client : Type} {sink : LogSink Record}

structure State (Client : Type) (sink : LogSink Record) where
  entry : Option SinkEntry
  mirror : Mirror sink
  pendingTarget : Option String := none
  holder : Option Client := none
  phase : Client → HandOver.Phase Stage := fun _ => .idle
  queue : List (RemoteWriteRequest Client) := []
  running : Bool := true
  /-- Who waits for the answer to a number. -/
  owner : ℕ → Option Client := fun _ => none
  acks : Client → Option (Except String Unit) := fun _ => none
  traffic : List (Traffic Client) := []
  results : List (Client × Except TraceMuxError ℕ) := []

/-- After the subscription. -/
def State.start (Client : Type) (setup : Setup) (sink : LogSink Record) (ingest : Ingest)
    (entry : Option SinkEntry) : State Client sink where
  entry := entry
  mirror := { ingest := ingest, sink := sink.init, stats := { sid := setup.localSid } }

inductive Action (Client : Type)
  | write (c : Client)
  | lock (c : Client)
  | ctl (c : Client)
  | take (c : Client)
  | enqueue (c : Client)
  | refused (c : Client)
  | answered (c : Client)
  /-- The time is over, or the answer can no longer come. -/
  | unanswered (c : Client) (timedOut : Bool)
  /-- The task of a client is dropped while it waits. -/
  | cancel (c : Client)
  /-- The loop sends the first write of the queue. -/
  | send (sending : Except String Unit)
  /-- The loop receives a message. The end of the stream counts as a close message. -/
  | receive (received : Except String Message)
  | abort
  | table (entry : Option SinkEntry)

/-- The number of writes that the queue has room for. -/
def queueCapacity : ℕ := 128

def sinkErr (message : String) : TraceMuxError := ⟨.E1001PipelineGeneric, message⟩

/-- The target that a control call leaves for the next write. An empty one counts as none. -/
def nextTarget (target : String) : Option String := some target |>.filter (· ≠ "")

def answerResult (bytes : ℕ) : Except String Unit → Except TraceMuxError ℕ
  | .ok () => .ok bytes
  | .error e => .error (sinkErr s!"remote write failed: {e}")

/-- The answers go to those who wait for them. -/
def deliver [DecidableEq Client] (owner : ℕ → Option Client)
    (acks : Client → Option (Except String Unit)) (answers : List (ℕ × Except String Unit))
    (c : Client) : Option (Except String Unit) :=
  (acks c).or ((answers.find? fun answer => owner answer.1 = some c).map Prod.snd)

/-- The loop is over, and the queue goes with it. -/
def State.stop (s : State Client sink) : State Client sink :=
  { s with running := false, queue := [] }

variable [DecidableEq Client]

def State.goes (s : State Client sink) (c : Client) (phase : HandOver.Phase Stage) :
    State Client sink :=
  { s with phase := Function.update s.phase c phase }

/-- A write returns and gives the lock back. -/
def State.returns (s : State Client sink) (c : Client) (result : Except TraceMuxError ℕ) :
    State Client sink :=
  { s.goes c .over with holder := none, results := s.results ++ [(c, result)] }

def sendFirst (setup : Setup) (s : State Client sink) (sending : Except String Unit)
    (w : RemoteWriteRequest Client) (rest : List (RemoteWriteRequest Client)) :
    State Client sink :=
  match handleEvent setup s.mirror (.write w.body w.target sending) with
  | (some _, m) => { s.stop with mirror := m }
  | (none, m) =>
    let seq := s.mirror.nextWriteSeq
    { s with
      mirror := m
      queue := rest
      owner := Function.update s.owner seq (some w.ack)
      traffic := s.traffic ++
        [.sent w.ack (remoteWriteEnvelope seq setup.target w.body w.target)] }

def receiveMessage (setup : Setup) (s : State Client sink) (received : Except String Message) :
    State Client sink :=
  let handled := handleEvent setup s.mirror (.message received)
  let s := { s with
    mirror := handled.2
    acks := deliver s.owner s.acks (handled.2.answers.drop s.mirror.answers.length)
    traffic := s.traffic ++ (frame setup (.message received)).toList.map .received }
  if handled.1.isSome then s.stop else s

/-- What the clients and the loop do, one shared access at a time. -/
def step (setup : Setup) (request : Client → WriteRequest) (s : State Client sink)
    (a : Action Client) : Option (State Client sink) :=
  match a with
  | .table entry => some { s with entry := entry }
  | .abort => some s.stop
  | .receive received => if s.running then some (receiveMessage setup s received) else none
  | .send sending =>
    match s.running, s.queue with
    | true, w :: rest => some (sendFirst setup s sending w rest)
    | _, _ => none
  | .write c =>
    match s.phase c, findSink s.entry with
    | .idle, (.ok (), entry) => some { s.goes c .waiting with entry := entry }
    | .idle, (.error e, entry) =>
      some { s.goes c .over with entry := entry, results := s.results ++ [(c, .error e)] }
    | _, _ => none
  | .lock c =>
    match s.phase c, s.holder with
    | .waiting, none => some { s.goes c .locked with holder := some c }
    | _, _ => none
  | .ctl c =>
    match s.phase c, (request c).target with
    | .locked, none => some (s.goes c .prepared)
    | .locked, some target =>
      some { s.goes c .prepared with pendingTarget := nextTarget target }
    | _, _ => none
  | .take c =>
    match s.phase c with
    | .prepared =>
      some { s.goes c (.working (.queueing s.pendingTarget)) with pendingTarget := none }
    | _ => none
  | .enqueue c =>
    match s.phase c, s.running with
    | .working (.queueing target), true =>
      if s.queue.length < queueCapacity then
        some { s.goes c (.working .awaiting) with
               queue := s.queue ++ [⟨(request c).body, target, c⟩] }
      else none
    | _, _ => none
  | .refused c =>
    match s.phase c, s.running with
    | .working (.queueing _), false =>
      some (s.returns c (.error (sinkErr "remote mirror task is not running")))
    | _, _ => none
  | .answered c =>
    match s.phase c, s.acks c with
    | .working .awaiting, some answer =>
      some (s.returns c (answerResult (request c).body.length answer))
    | _, _ => none
  | .unanswered c timedOut =>
    match s.phase c, s.acks c with
    | .working .awaiting, none =>
      some (s.returns c (.error (sinkErr (
        if timedOut then "remote write timed out waiting for edge ack"
        else "remote write acknowledgement channel closed"))))
    | _, _ => none
  | .cancel c =>
    match s.phase c with
    | .waiting => some (s.goes c .over)
    | .working _ => some { s.goes c .over with holder := none }
    | _ => none

/-! ## The target as an argument handed over -/

/-- What the other writes see of a state. -/
def State.handOver (s : State Client sink) : HandOver.State Client String Stage :=
  ⟨s.pendingTarget, s.holder, s.phase⟩

def wanted (request : WriteRequest) : Option String := request.target.bind nextTarget

def argument (request : WriteRequest) : HandOver.Argument String :=
  match request.target with
  | none => .leave
  | some target => .put (nextTarget target)

theorem argument_value (request : WriteRequest) : (argument request).value = wanted request := by
  unfold argument wanted
  cases request.target <;> rfl

variable {setup : Setup} {request : Client → WriteRequest} {s s' : State Client sink}
  {a : Action Client} {c : Client}

/-! ## What a step can do -/

/-- A write that the loop can have. -/
def Entered (phase : HandOver.Phase Stage) : Prop := phase = .working .awaiting ∨ phase = .over

structure Moves (request : Client → WriteRequest) (s : State Client sink) (c : Client)
    (next : HandOver.Phase Stage) (s' : State Client sink) : Prop where
  shared : HandOver.Step (fun c => argument (request c)) s.handOver c s'.handOver
  phase : s'.phase = Function.update s.phase c next
  loop : s'.mirror = s.mirror ∧ s'.running = s.running ∧ s'.owner = s.owner ∧
    s'.acks = s.acks ∧ s'.traffic = s.traffic
  queue : s'.queue = s.queue ∨ next = .working .awaiting ∧ ∃ target,
    s.phase c = .working (.queueing target) ∧
      s'.queue = s.queue ++ [⟨(request c).body, target, c⟩]
  queueing : ∀ target, next = .working (.queueing target) →
    s.phase c = .prepared ∧ target = s.pendingTarget
  entered : Entered (s.phase c) → Entered next
  results : s'.results = s.results ∨ ∃ result, s'.results = s.results ++ [(c, result)] ∧
    ∀ n, result = .ok n → s.acks c = some (.ok ())

/-- A client that ends here. -/
theorem moves_over
    (hshared : HandOver.Step (fun c => argument (request c)) s.handOver c s'.handOver)
    (hphase : s'.phase = Function.update s.phase c .over)
    (hloop : s'.mirror = s.mirror ∧ s'.running = s.running ∧ s'.owner = s.owner ∧
      s'.acks = s.acks ∧ s'.traffic = s.traffic) (hqueue : s'.queue = s.queue)
    (hresults : s'.results = s.results ∨ ∃ result, s'.results = s.results ++ [(c, result)] ∧
      ∀ n, result = .ok n → s.acks c = some (.ok ())) :
    Moves request s c .over s' :=
  ⟨hshared, hphase, hloop, .inl hqueue, nofun, fun _ => .inr rfl, hresults⟩

/-- A client that has put down its target. -/
theorem prepares {target : Option String} (hphase : s.phase c = .locked)
    (htarget : target = (argument (request c)).applied s.pendingTarget)
    (hargument : argument (request c) ≠ .refused) :
    Moves request s c .prepared { s.goes c .prepared with pendingTarget := target } := by
  subst htarget
  exact ⟨.prepare hphase hargument, rfl, ⟨rfl, rfl, rfl, rfl, rfl⟩, .inl rfl, nofun,
    by simp [Entered, hphase], .inl rfl⟩

inductive LoopStep (setup : Setup) (s : State Client sink) : State Client sink → Prop
  | table (entry : Option SinkEntry) : LoopStep setup s { s with entry := entry }
  | stop : LoopStep setup s s.stop
  | receive (received : Except String Message) (h : s.running = true) :
      LoopStep setup s (receiveMessage setup s received)
  | send (sending : Except String Unit) {w : RemoteWriteRequest Client}
      {rest : List (RemoteWriteRequest Client)} (h : s.running = true)
      (hqueue : s.queue = w :: rest) : LoopStep setup s (sendFirst setup s sending w rest)

theorem step_cases (h : step setup request s a = some s') :
    (∃ c next, Moves request s c next s') ∨ LoopStep setup s s' := by
  revert h
  fun_cases step setup request s a with
  | case1 entry =>
    rintro ⟨⟩
    exact .inr (.table entry)
  | case2 =>
    rintro ⟨⟩
    exact .inr .stop
  | case3 received hrunning =>
    rintro ⟨⟩
    exact .inr (.receive received hrunning)
  | case5 sending w rest hqueue hrunning =>
    rintro ⟨⟩
    exact .inr (.send sending hrunning hqueue)
  | case7 c entry hsink hphase =>
    rintro ⟨⟩
    exact .inl ⟨c, .waiting, .ask hphase, rfl, ⟨rfl, rfl, rfl, rfl, rfl⟩, .inl rfl, nofun,
      by simp [Entered, hphase], .inl rfl⟩
  | case8 c e entry hsink hphase =>
    rintro ⟨⟩
    exact .inl ⟨c, .over, moves_over (.leave (by rw [show s.handOver.phase c = _ from hphase]; rfl))
      rfl ⟨rfl, rfl, rfl, rfl, rfl⟩ rfl (.inr ⟨_, rfl, nofun⟩)⟩
  | case10 c hfree hphase =>
    rintro ⟨⟩
    exact .inl ⟨c, .locked, .lock hphase hfree, rfl, ⟨rfl, rfl, rfl, rfl, rfl⟩, .inl rfl, nofun,
      by simp [Entered, hphase], .inl rfl⟩
  | case12 c htarget hphase =>
    rintro ⟨⟩
    have hargument : argument (request c) = .leave := by rw [argument, htarget]
    exact .inl ⟨c, .prepared, prepares hphase (by rw [hargument]; rfl) (by simp [hargument])⟩
  | case13 c target htarget hphase =>
    rintro ⟨⟩
    have hargument : argument (request c) = .put (nextTarget target) := by rw [argument, htarget]
    exact .inl ⟨c, .prepared, prepares hphase (by rw [hargument]; rfl) (by simp [hargument])⟩
  | case15 c hphase =>
    rintro ⟨⟩
    refine .inl ⟨c, .working (.queueing s.pendingTarget), .start hphase _, rfl,
      ⟨rfl, rfl, rfl, rfl, rfl⟩, .inl rfl, ?_, by simp [Entered, hphase], .inl rfl⟩
    rintro _ ⟨⟩
    exact ⟨hphase, rfl⟩
  | case17 c target hrunning hphase =>
    rintro ⟨⟩
    exact .inl ⟨c, .working .awaiting, .work hphase _, rfl, ⟨rfl, rfl, rfl, rfl, rfl⟩,
      .inr ⟨rfl, target, hphase, rfl⟩, nofun, fun _ => .inl rfl, .inl rfl⟩
  | case20 c _ _ hphase | case24 c _ _ hphase =>
    rintro ⟨⟩
    exact .inl ⟨c, .over, moves_over (.finish hphase) rfl ⟨rfl, rfl, rfl, rfl, rfl⟩ rfl
      (.inr ⟨_, rfl, nofun⟩)⟩
  | case22 c answer hack hphase =>
    rintro ⟨⟩
    refine .inl ⟨c, .over, moves_over (.finish hphase) rfl ⟨rfl, rfl, rfl, rfl, rfl⟩ rfl
      (.inr ⟨_, rfl, fun n hn => ?_⟩)⟩
    cases answer with
    | error e => cases hn
    | ok => exact hack
  | case26 c hphase =>
    rintro ⟨⟩
    exact .inl ⟨c, .over, moves_over (.leave (by rw [show s.handOver.phase c = _ from hphase]; rfl))
      rfl ⟨rfl, rfl, rfl, rfl, rfl⟩ rfl (.inl rfl)⟩
  | case27 c _ hphase =>
    rintro ⟨⟩
    exact .inl ⟨c, .over, moves_over (.finish hphase) rfl ⟨rfl, rfl, rfl, rfl, rfl⟩ rfl (.inl rfl)⟩
  | _ => rintro ⟨⟩

/-- A control frame that acknowledges a number. -/
structure IsAck (env : Envelope) (seq : ℕ) : Prop where
  kind : env.kind = .ctl
  seq : env.seq = seq
  event : mapStr env.payload "event" = some "write_ack"

/-- A message numbers no write, and passes a success on only if it acknowledges the number. -/
theorem handleEvent_message (setup : Setup) (received : Except String Message) (m : Mirror sink) :
    (handleEvent setup m (.message received)).2.nextWriteSeq = m.nextWriteSeq ∧
      ∃ answers, (handleEvent setup m (.message received)).2.answers = m.answers ++ answers ∧
        ∀ seq, (seq, .ok ()) ∈ answers →
          ∃ env, frame setup (.message received) = some env ∧ IsAck env seq := by
  have hnone : ∃ answers, m.answers = m.answers ++ answers ∧ ∀ seq, (seq, .ok ()) ∈ answers →
      ∃ env, frame setup (.message received) = some env ∧ IsAck env seq :=
    ⟨[], (append_nil _).symm, nofun⟩
  rcases received with message | (bytes | _ | _)
  · exact ⟨rfl, hnone⟩
  · rw [handleEvent]
    cases hdecode : decode setup.parser bytes with
    | error e => exact ⟨rfl, hnone⟩
    | ok env =>
      rw [goesOn_snd]
      unfold handleEnvelope
      split
      · next hkind =>
        unfold resolveWriteAck
        split
        · split
          · next hevent =>
            refine ⟨rfl, _, rfl, fun seq hseq => ⟨env, by rw [frame, hdecode]; rfl, ?_⟩⟩
            injection mem_singleton.mp hseq with hseq
            exact ⟨hkind, hseq.symm, hevent⟩
          · refine ⟨rfl, _, rfl, fun seq hseq => ?_⟩
            cases mem_singleton.mp hseq
          · exact ⟨rfl, hnone⟩
        · exact ⟨rfl, hnone⟩
      · split
        · split
          · exact ⟨rfl, hnone⟩
          · next body _ =>
            unfold mirrorFrame
            simp only
            split
            · exact ⟨rfl, hnone⟩
            · split <;> exact ⟨rfl, hnone⟩
        · exact ⟨rfl, hnone⟩
  · refine ⟨rfl, _, rfl, fun seq hseq => ?_⟩
    obtain ⟨_, _, heq⟩ := mem_map.mp hseq
    cases heq
  · exact ⟨rfl, hnone⟩

/-! ## The traffic -/

def Traffic.sender : Traffic Client → Option Client
  | .sent c _ => some c
  | .received _ => none

def Traffic.seq : Traffic Client → Option ℕ
  | .sent _ env => some env.seq
  | .received _ => none

/-- The writes that were sent, in order. -/
def senders (traffic : List (Traffic Client)) : List Client := traffic.filterMap Traffic.sender

/-- Their numbers. -/
def seqs (traffic : List (Traffic Client)) : List ℕ := traffic.filterMap Traffic.seq

def number (i : ℕ) : ℕ := min (i + 2) (2 ^ 64 - 1)

/-- The frame of a write, and after it an acknowledgement of its number. -/
def Acknowledged (traffic : List (Traffic Client)) (c : Client) : Prop :=
  ∃ before mid after env ack,
    traffic = before ++ .sent c env :: (mid ++ .received ack :: after) ∧ IsAck ack env.seq

omit [DecidableEq Client] in
theorem Acknowledged.append {traffic : List (Traffic Client)} (h : Acknowledged traffic c)
    (more : List (Traffic Client)) : Acknowledged (traffic ++ more) c := by
  obtain ⟨before, mid, after, env, ack, rfl, hack⟩ := h
  exact ⟨before, mid, after ++ more, env, ack, by simp, hack⟩

/-- What holds of the writes in every state. -/
structure Inv (setup : Setup) (request : Client → WriteRequest) (s : State Client sink) :
    Prop where
  shared : HandOver.Inv (fun c => argument (request c)) s.handOver
  queueing : ∀ c target, s.phase c = .working (.queueing target) → target = wanted (request c)
  queued : ∀ w ∈ s.queue, w.body = (request w.ack).body ∧ w.target = wanted (request w.ack)
  entered : ∀ c ∈ s.queue.map (·.ack) ++ senders s.traffic, Entered (s.phase c)
  nodup : (s.queue.map (·.ack) ++ senders s.traffic).Nodup
  frames : ∀ c env, .sent c env ∈ s.traffic →
    env = remoteWriteEnvelope env.seq setup.target (request c).body (wanted (request c))
  numbers : seqs s.traffic = (List.range (senders s.traffic).length).map number
  next : s.running = true → s.mirror.nextWriteSeq = number (senders s.traffic).length
  owner : ∀ seq c, s.owner seq = some c → ∃ env, .sent c env ∈ s.traffic ∧ env.seq = seq
  acked : ∀ c, s.acks c = some (.ok ()) → Acknowledged s.traffic c
  results : ∀ c n, (c, .ok n) ∈ s.results → s.acks c = some (.ok ())

omit [DecidableEq Client] in
theorem inv_start (setup : Setup) (request : Client → WriteRequest) (sink : LogSink Record)
    (ingest : Ingest) (entry : Option SinkEntry) :
    Inv setup request (.start Client setup sink ingest entry) where
  shared := HandOver.inv_start
  queueing := nofun
  queued := nofun
  entered := nofun
  nodup := nodup_nil
  frames := nofun
  numbers := rfl
  next _ := rfl
  owner := nofun
  acked := nofun
  results := nofun

theorem Moves.inv {next : HandOver.Phase Stage} (hmoves : Moves request s c next s')
    (h : Inv setup request s) : Inv setup request s' := by
  obtain ⟨hmirror, hrunning, howner, hacks, htraffic⟩ := hmoves.loop
  have hentered (d : Client) (hd : d ∈ s.queue.map (·.ack) ++ senders s.traffic) :
      Entered (s'.phase d) := by
    rw [hmoves.phase]
    by_cases heq : d = c
    · subst heq
      rw [Function.update_self]
      exact hmoves.entered (h.entered d hd)
    · rw [Function.update_of_ne heq]
      exact h.entered d hd
  have hself : s'.phase c = next := by
    rw [hmoves.phase, Function.update_self]
  refine ⟨hmoves.shared.inv h.shared, fun d target hd => ?_, ?_, ?_, ?_, ?_, ?_, ?_, ?_, ?_, ?_⟩
  · by_cases heq : d = c
    · subst heq
      obtain ⟨hphase, rfl⟩ := hmoves.queueing target (hself ▸ hd)
      exact (h.shared.prepared d hphase).2.trans (argument_value _)
    · rw [hmoves.phase, Function.update_of_ne heq] at hd
      exact h.queueing d target hd
  · rcases hmoves.queue with hqueue | ⟨-, target, hphase, hqueue⟩
    · rw [hqueue]
      exact h.queued
    · rw [hqueue]
      intro w hw
      rcases mem_append.mp hw with hold | hnew
      · exact h.queued w hold
      · rw [mem_singleton.mp hnew]
        exact ⟨rfl, h.queueing c target hphase⟩
  · rw [htraffic]
    rcases hmoves.queue with hqueue | ⟨rfl, target, hphase, hqueue⟩
    · rw [hqueue]
      exact hentered
    · rw [hqueue, map_append]
      intro d hd
      by_cases heq : d = c
      · rw [heq, hself]
        exact .inl rfl
      · refine hentered d ?_
        simpa [heq] using hd
  · rw [htraffic]
    rcases hmoves.queue with hqueue | ⟨rfl, target, hphase, hqueue⟩
    · rw [hqueue]
      exact h.nodup
    · have hfirst : c ∉ s.queue.map (·.ack) ++ senders s.traffic := by
        intro hc
        have hc := h.entered c hc
        rw [hphase] at hc
        rcases hc with hc | hc <;> cases hc
      have hperm : (s'.queue.map (·.ack) ++ senders s.traffic).Perm
          (c :: (s.queue.map (·.ack) ++ senders s.traffic)) := by
        rw [hqueue, map_append, append_assoc]
        exact perm_middle
      exact hperm.nodup_iff.mpr (nodup_cons.mpr ⟨hfirst, h.nodup⟩)
  · rw [htraffic]
    exact h.frames
  · rw [htraffic]
    exact h.numbers
  · rw [hrunning, hmirror, htraffic]
    exact h.next
  · rw [howner, htraffic]
    exact h.owner
  · rw [hacks, htraffic]
    exact h.acked
  · rw [hacks]
    intro d n hd
    rcases hmoves.results with hresults | ⟨result, hresults, hok⟩
    · exact h.results d n (hresults ▸ hd)
    · rw [hresults] at hd
      rcases mem_append.mp hd with hold | hnew
      · exact h.results d n hold
      · injection mem_singleton.mp hnew with hc hresult
        rw [hc]
        exact hok n hresult.symm

omit [DecidableEq Client] in
theorem Inv.stop (h : Inv setup request s) : Inv setup request s.stop where
  shared := h.shared
  queueing := h.queueing
  queued := nofun
  entered c hc := h.entered c (mem_append_right _ hc)
  nodup := h.nodup.of_append_right
  frames := h.frames
  numbers := h.numbers
  next := nofun
  owner := h.owner
  acked := h.acked
  results := h.results

theorem Inv.receiveMessage (h : Inv setup request s) (hrunning : s.running = true)
    (received : Except String Message) :
    Inv setup request (receiveMessage setup s received) := by
  obtain ⟨hnext, answers, hanswers, hack⟩ := handleEvent_message setup received s.mirror
  obtain ⟨hsenders, hseqs⟩ :
      senders (s.traffic ++ (frame setup (.message received)).toList.map .received) =
          senders s.traffic ∧
        seqs (s.traffic ++ (frame setup (.message received)).toList.map .received) =
          seqs s.traffic := by
    unfold senders seqs
    rw [filterMap_append, filterMap_append, filterMap_map, filterMap_map]
    simp [Function.comp_def, Traffic.sender, Traffic.seq]
  have hmem {c : Client} {env : Envelope} (hsent : .sent c env ∈ s.traffic ++
      (frame setup (.message received)).toList.map .received) : .sent c env ∈ s.traffic := by
    simpa using hsent
  -- The state before the loop looks whether it is over.
  have hkept : Inv setup request { s with
      mirror := (handleEvent setup s.mirror (.message received)).2
      acks := deliver s.owner s.acks answers
      traffic := s.traffic ++ (frame setup (.message received)).toList.map .received } := by
    refine ⟨h.shared, h.queueing, h.queued, ?_, ?_, fun c env hsent => h.frames c env (hmem hsent),
      ?_, fun _ => ?_, fun seq c hc => ?_, fun c hc => ?_, fun c n hc => ?_⟩
    · rw [hsenders]
      exact h.entered
    · rw [hsenders]
      exact h.nodup
    · rw [hsenders, hseqs]
      exact h.numbers
    · rw [hsenders]
      exact hnext.trans (h.next hrunning)
    · obtain ⟨env, hsent, hseq⟩ := h.owner seq c hc
      exact ⟨env, mem_append_left _ hsent, hseq⟩
    · -- A success was delivered before or is among the answers.
      rcases Option.or_eq_some_iff.mp hc with hold | ⟨-, hnew⟩
      · exact (h.acked c hold).append _
      · obtain ⟨⟨seq, answer⟩, hfind, rfl⟩ := Option.map_eq_some_iff.mp hnew
        have howner : s.owner seq = some c := by simpa using find?_some hfind
        obtain ⟨env, hframe, hack⟩ := hack seq (mem_of_find?_eq_some hfind)
        obtain ⟨sent, hsent, rfl⟩ := h.owner seq c howner
        rw [hframe]
        obtain ⟨before, mid, hbefore⟩ := append_of_mem hsent
        exact ⟨before, mid, [], sent, env, by simp [hbefore], hack⟩
    · change deliver s.owner s.acks answers c = _
      rw [deliver, h.results c n hc]
      rfl
  have hdrop : (handleEvent setup s.mirror (.message received)).2.answers.drop
      s.mirror.answers.length = answers := by
    rw [hanswers, drop_left]
  unfold RemoteWrites.receiveMessage
  simp only [hdrop]
  split
  · exact hkept.stop
  · exact hkept

theorem number_succ (n : ℕ) : min (number n + 1) (2 ^ 64 - 1) = number (n + 1) := by
  unfold number
  omega

omit [DecidableEq Client] in
theorem Inv.sendFirst (h : Inv setup request s) (hrunning : s.running = true)
    (sending : Except String Unit) {w : RemoteWriteRequest Client}
    {rest : List (RemoteWriteRequest Client)} (hqueue : s.queue = w :: rest) :
    Inv setup request (sendFirst setup s sending w rest) := by
  obtain ⟨hbody, htarget⟩ := h.queued w (by rw [hqueue]; exact mem_cons_self)
  unfold RemoteWrites.sendFirst
  split
  · -- The mirror of a loop that is over does not matter any more.
    exact { h.stop with next := nofun }
  · next m hhandle =>
    have hsenders : senders (s.traffic ++ [.sent w.ack (remoteWriteEnvelope s.mirror.nextWriteSeq
        setup.target w.body w.target)]) = senders s.traffic ++ [w.ack] :=
      filterMap_append
    have hseqs : seqs (s.traffic ++ [.sent w.ack (remoteWriteEnvelope s.mirror.nextWriteSeq
        setup.target w.body w.target)]) = seqs s.traffic ++ [s.mirror.nextWriteSeq] :=
      filterMap_append
    have hperm : (rest.map (·.ack) ++ (senders s.traffic ++ [w.ack])).Perm
        (s.queue.map (·.ack) ++ senders s.traffic) := by
      rw [hqueue, ← append_assoc]
      exact perm_append_singleton w.ack _
    refine ⟨h.shared, h.queueing, fun v hv => h.queued v ?_, fun c hc => h.entered c ?_, ?_,
      fun c env hsent => ?_, ?_, fun _ => ?_, fun seq c hc => ?_,
      fun c hc => (h.acked c hc).append _, h.results⟩
    · rw [hqueue]
      exact mem_cons_of_mem w hv
    · rw [hsenders] at hc
      exact hperm.mem_iff.mp hc
    · rw [hsenders]
      exact hperm.nodup_iff.mpr h.nodup
    · rcases mem_append.mp hsent with hold | hnew
      · exact h.frames c env hold
      · injection mem_singleton.mp hnew with hc henv
        rw [henv, hc, ← hbody, ← htarget]
        rfl
    · rw [hsenders, hseqs, h.numbers, h.next hrunning, length_append, length_singleton,
        range_succ, map_append]
      rfl
    · have hmirror : _ = m := congrArg Prod.snd hhandle
      have hnext : m.nextWriteSeq = min (s.mirror.nextWriteSeq + 1) (2 ^ 64 - 1) := by
        rw [handleEvent, goesOn_snd] at hmirror
        rw [← hmirror]
        unfold sendWrite
        simp only
        split <;> rfl
      rw [hsenders, length_append, length_singleton, hnext, h.next hrunning]
      exact number_succ _
    · rcases update_some_eq_some hc with ⟨rfl, rfl⟩ | ⟨-, hold⟩
      · exact ⟨_, mem_append_right _ (mem_singleton_self _), rfl⟩
      · obtain ⟨env, hsent, hseq⟩ := h.owner seq c hold
        exact ⟨env, mem_append_left _ hsent, hseq⟩

theorem LoopStep.inv (hstep : LoopStep setup s s') (h : Inv setup request s) :
    Inv setup request s' := by
  cases hstep with
  | table entry => exact { h with }
  | stop => exact h.stop
  | receive received hrunning => exact h.receiveMessage hrunning received
  | send sending hrunning hqueue => exact h.sendFirst hrunning sending hqueue

theorem inv_step (h : Inv setup request s) (hstep : step setup request s a = some s') :
    Inv setup request s' := by
  obtain ⟨c, next, hmoves⟩ | hloop := step_cases hstep
  · exact hmoves.inv h
  · exact hloop.inv h

theorem nodup_numbers {n : ℕ} (h : n < 2 ^ 63) : (1 :: (List.range n).map number).Nodup := by
  have hlt (i : ℕ) (hi : i ∈ range n) : number i = i + 2 := by
    rw [mem_range] at hi
    unfold number
    omega
  rw [nodup_cons, mem_map]
  refine ⟨?_, nodup_range.map_on fun i hi j hj heq => ?_⟩
  · rintro ⟨i, hi, heq⟩
    rw [hlt i hi] at heq
    omega
  · rw [hlt i hi, hlt j hj] at heq
    omega

/-- An entry that stands for something no other entry stands for. -/
theorem ne_of_nodup_filterMap {α β : Type} (f : α → Option β) {before after : List α} {x y : α}
    {b : β} (hx : f x = some b) (h : ((before ++ x :: after).filterMap f).Nodup)
    (hy : y ∈ before ++ after) : f y ≠ some b := by
  intro heq
  have hmiddle : (before ++ x :: after).Perm (x :: (before ++ after)) := perm_middle
  have hperm := hmiddle.filterMap f
  rw [filterMap_cons_some hx] at hperm
  exact (nodup_cons.mp (hperm.nodup_iff.mp h)).1 (mem_filterMap.mpr ⟨y, hy, heq⟩)

/-- In every run of fewer than 2^63 writes, no two frames to the other side have the same
number, and a write is reported successful only if its own frame was sent once, with its own
body and target, and an acknowledgement of the frame's number came later. -/
theorem success_only_by_own_ack [Fintype Client] (hfew : Fintype.card Client < 2 ^ 63)
    (setup : Setup) (request : Client → WriteRequest) (sink : LogSink Record) (ingest : Ingest)
    (entry : Option SinkEntry) (actions : List (Action Client)) (s : State Client sink)
    (hrun : exec (step setup request) (.start Client setup sink ingest entry) actions = some s) :
    ((subEnvelope setup.target).seq :: seqs s.traffic).Nodup ∧
      ∀ c n, (c, .ok n) ∈ s.results → ∃ before mid after env ack,
        s.traffic = before ++ .sent c env :: (mid ++ .received ack :: after) ∧
        env = remoteWriteEnvelope env.seq setup.target (request c).body (wanted (request c)) ∧
        IsAck ack env.seq ∧
        ∀ d other, .sent d other ∈ before ++ mid ++ after → d ≠ c ∧ other.seq ≠ ack.seq := by
  have hinv : Inv setup request s :=
    exec_keeps inv_step (inv_start setup request sink ingest entry) hrun
  have hcount : (senders s.traffic).length < 2 ^ 63 :=
    lt_of_le_of_lt hinv.nodup.of_append_right.length_le_card hfew
  have hnodup : ((subEnvelope setup.target).seq :: seqs s.traffic).Nodup := by
    rw [hinv.numbers]
    exact nodup_numbers hcount
  refine ⟨hnodup, fun c n hc => ?_⟩
  obtain ⟨before, mid, after, env, ack, htraffic, hack⟩ := hinv.acked c (hinv.results c n hc)
  refine ⟨before, mid, after, env, ack, htraffic, hinv.frames c env (by simp [htraffic]), hack,
    fun d other hother => ?_⟩
  have hsenders := hinv.nodup.of_append_right
  have hseqs := (nodup_cons.mp hnodup).2
  rw [htraffic] at hsenders hseqs
  have hmem : .sent d other ∈ before ++ (mid ++ .received ack :: after) := by
    simpa using hother
  refine ⟨fun heq => ?_, fun heq => ?_⟩
  · exact ne_of_nodup_filterMap Traffic.sender rfl hsenders hmem (congrArg some heq)
  · exact ne_of_nodup_filterMap Traffic.seq rfl hseqs hmem (congrArg some (heq.trans hack.seq))

/-- One client names a target and the other an empty one. -/
def twoTargets : Bool → WriteRequest
  | false => ⟨[1], some "host:1"⟩
  | true => ⟨[2], some ""⟩

/-- The first client is cancelled while it waits for its answer. The second sends, and both
answers come. -/
def lateAnswerRun : List (Action Bool) :=
  [.write false, .write true, .lock false, .ctl false, .take false, .enqueue false,
    .send (.ok ()), .cancel false, .lock true, .ctl true, .take true, .enqueue true,
    .send (.ok ()), .receive (.ok (.binary [0, 2])), .receive (.ok (.binary [0, 3])),
    .answered true]

def lateAnswerState : Option (State Bool quietSink) :=
  exec (step edgeSetup twoTargets)
    (.start Bool edgeSetup quietSink .new (some ⟨some false, true⟩)) lateAnswerRun

theorem success_only_by_own_ack_late :
    ∃ s, lateAnswerState = some s ∧ s.results = [(true, .ok 1)] ∧ seqs s.traffic = [2, 3] ∧
      ((subEnvelope edgeSetup.target).seq :: seqs s.traffic).Nodup := by
  have hends : lateAnswerState.map (fun s => (s.results, seqs s.traffic)) =
      some ([(true, .ok 1)], [2, 3]) := by decide +kernel
  obtain ⟨s, hrun, heq⟩ := Option.map_eq_some_iff.mp hends
  injection heq with hresults hseqs
  exact ⟨s, hrun, hresults, hseqs,
    (success_only_by_own_ack (by decide) _ _ _ _ _ _ s hrun).1⟩

def sentTargets (traffic : List (Traffic Client)) : List (Client × Option String) :=
  traffic.filterMap fun entry =>
    match entry with
    | .sent c env => some (c, mapStr env.payload "target")
    | .received _ => none

/-- A write with an empty target is sent without one, and reported successful. -/
theorem empty_target_not_sent :
    (twoTargets true).target = some "" ∧
      lateAnswerState.map (fun s => (s.results, sentTargets s.traffic)) =
        some ([(true, .ok 1)], [(false, some "host:1"), (true, none)]) :=
  ⟨rfl, by decide +kernel⟩

end TraceMux.Server.RemoteWrites
