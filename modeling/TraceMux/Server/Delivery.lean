/-
# Delivery to subscribers

A connection that subscribes to a session gets a task for it. The task receives the frames
of the session from the broadcast channel of the session and sends them to the queue of the
connection, which holds 64 messages; a writer empties the queue to the socket. Publishing
does not wait: a task that has fallen behind by more than the channel holds is told by the
channel how many frames it has lost. The task notes this in the trace log, which is neither
a counter of the server nor a message to the client.

Taking back a subscription and closing a connection only abort tasks. An aborted task goes on
until the runtime drops it, and may still hand over the frame it holds.
-/

import TraceMux.Base.Transition
import TraceMux.Server.Ingest

namespace TraceMux.Server.Delivery

open Base Base.Broadcast Base.Transition TraceMux.Core

/-- Connections in the order in which they are accepted. -/
abbrev ConnId := ℕ

/-- Tasks of subscriptions in the order in which they are spawned. -/
abbrev SubTaskId := ℕ

/-- What is sent to a client: the frames of its subscriptions, the errors of subscribing, and
the replies to its other requests. -/
inductive OutMessage
  | data (bytes : Bytes)
  | ctlError (message : String)
  | reply (bytes : Bytes)
  deriving DecidableEq, Repr

def outCapacity : ℕ := 64

structure OutQueue where
  messages : List OutMessage
  fits : messages.length ≤ outCapacity
  deriving DecidableEq

namespace OutQueue

def empty : OutQueue := ⟨[], Nat.zero_le _⟩

def push (q : OutQueue) (message : OutMessage) : Option OutQueue :=
  if h : q.messages.length < outCapacity then
    some ⟨q.messages ++ [message], by rw [List.length_append]; exact h⟩
  else none

def pop (q : OutQueue) : OutQueue where
  messages := q.messages.tail
  fits := by
    have := q.fits
    rw [List.length_tail]
    omega

end OutQueue

/-- What a subscription is known by on its connection. -/
structure SubscriptionKey where
  sid : String
  ch : Option ℕ
  deriving DecidableEq, Repr

/-- The fields of a request that a subscription is made from. -/
structure SubRequest where
  sid : Option String
  ch : Option ℕ
  deriving DecidableEq, Repr

def SubscriptionKey.fromEnv (env : SubRequest) : Except String SubscriptionKey :=
  match env.sid with
  | none => .error "subscription missing sid"
  | some sid => .ok ⟨sid, env.ch⟩

/-- A connection: its queue, whether the writer still empties it, and the tasks of its
subscriptions. The key of a task that has ended stays. -/
structure Conn where
  queue : OutQueue
  writing : Bool
  subscriptions : List (SubscriptionKey × SubTaskId)
  deriving DecidableEq

/-- Where the task of a subscription waits. -/
inductive Phase
  | receiving
  | sending (bytes : Bytes)
  | sleeping
  deriving DecidableEq, Repr

def Phase.inFlight : Phase → ℕ
  | .sending _ => 1
  | _ => 0

/-- The task of a subscription. `since` counts the frames published before it began,
`handed` those it has sent to the connection and `reported` those the client was told are
lost. -/
structure SubTask where
  conn : ConnId
  key : SubscriptionKey
  sid : Uuid
  fanout : FanoutId
  receiver : ReceiverId
  phase : Phase
  since : ℕ
  handed : ℕ
  reported : ℕ
  deriving DecidableEq, Repr

/-- The shared state of the server, with the number of frames published on every channel. -/
structure Hub where
  ingest : Ingest
  published : FanoutId → ℕ
  conns : ConnId → Option Conn
  tasks : SubTaskId → Option SubTask
  nextConn : ConnId
  nextTask : SubTaskId

namespace Hub

def new : Hub := ⟨.new, fun _ => 0, fun _ => none, fun _ => none, 0, 0⟩

abbrev fanout (s : Hub) (f : FanoutId) : Channel Bytes := s.ingest.fanouts f

/-- Put a channel in the place of one. -/
def setFanout (s : Hub) (f : FanoutId) (c : Channel Bytes) : Hub :=
  { s with ingest := { s.ingest with fanouts := Function.update s.ingest.fanouts f c } }

@[simp]
theorem fanout_setFanout_self (s : Hub) (f : FanoutId) (c : Channel Bytes) :
    (s.setFanout f c).fanout f = c := Function.update_self ..

theorem fanout_setFanout_of_ne {f g : FanoutId} (h : g ≠ f) (s : Hub) (c : Channel Bytes) :
    (s.setFanout f c).fanout g = s.fanout g := Function.update_of_ne h ..

def setConn (s : Hub) (id : ConnId) (conn : Option Conn) : Hub :=
  { s with conns := Function.update s.conns id conn }

def setTask (s : Hub) (id : SubTaskId) (task : Option SubTask) : Hub :=
  { s with tasks := Function.update s.tasks id task }

def dropTask (s : Hub) (id : SubTaskId) : Hub :=
  match s.tasks id with
  | none => s
  | some t => (s.setFanout t.fanout ((s.fanout t.fanout).unsubscribe t.receiver)).setTask id none

/-- Send a frame on the channel of a session. -/
def publish (s : Hub) (f : FanoutId) (bytes : Bytes) : Hub :=
  { s.setFanout f ((s.fanout f).send bytes).2 with
    published := Function.update s.published f (s.published f + 1) }

def publishWire (s : Hub) (sid : Uuid) (bytes : Bytes) : Hub :=
  match s.ingest.registry sid with
  | none => s
  | some session =>
    { s.publish session.fanout bytes with ingest := (s.ingest.publishWire sid bytes).2 }

/-- Publish the metrics of a capture. They are not counted. -/
def publishMetrics (s : Hub) (sid : Uuid) (bytes : Bytes) : Hub :=
  match s.ingest.registry sid with
  | none => s
  | some session => s.publish session.fanout bytes

/-- End a connection: its tasks are aborted. -/
def close (s : Hub) (id : ConnId) : Hub := s.setConn id none

/-- Whether a task is aborted: its connection has no handle of it any more. -/
def aborted (s : Hub) (id : SubTaskId) (t : SubTask) : Bool :=
  (s.conns t.conn).all fun conn => conn.subscriptions.all fun entry => entry.2 ≠ id

/-- Queue an answer to the client. It waits for room; without a writer the connection ends. -/
def queueEnvelope (s : Hub) (id : ConnId) (conn : Conn) (message : OutMessage) : Option Hub :=
  if conn.writing then
    match conn.queue.push message with
    | none => none
    | some queue => some (s.setConn id (some { conn with queue := queue }))
  else some (s.close id)

/-- Subscribe to a session. The sids of requests are read by `parse`. -/
def subscribeSession (parse : String → Option Uuid) (s : Hub) (id : ConnId) (env : SubRequest) :
    Option Hub :=
  match s.conns id with
  | none => none
  | some conn =>
    match SubscriptionKey.fromEnv env with
    | .error message => s.queueEnvelope id conn (.ctlError message)
    | .ok key =>
      if (conn.subscriptions.lookup key).isSome then some s
      else
        match parse key.sid with
        | none => s.queueEnvelope id conn (.ctlError "subscription sid is not a UUID")
        | some sid =>
          match s.ingest.registry sid with
          | none => s.queueEnvelope id conn (.ctlError "subscription sid is unknown")
          | some session =>
            let rx := (s.fanout session.fanout).subscribe
            let task : SubTask :=
              ⟨id, key, sid, session.fanout, rx.1, .receiving, s.published session.fanout, 0,
                0⟩
            let conn :=
              { conn with subscriptions := conn.subscriptions ++ [(key, s.nextTask)] }
            let s' := (s.setFanout session.fanout rx.2).setTask s.nextTask (some task)
            some { s'.setConn id (some conn) with nextTask := s.nextTask + 1 }

/-- Take back a subscription: its task is aborted. -/
def unsubscribeSession (s : Hub) (id : ConnId) (env : SubRequest) : Option Hub :=
  match s.conns id with
  | none => none
  | some conn =>
    match SubscriptionKey.fromEnv env with
    | .error message => s.queueEnvelope id conn (.ctlError message)
    | .ok key =>
      match conn.subscriptions.lookup key with
      | none => some s
      | some _ =>
        let conn :=
          { conn with subscriptions := conn.subscriptions.filter fun entry => entry.1 ≠ key }
        some (s.setConn id (some conn))

/-- The session of a task is not registered any more, so that its channel has no sender. -/
def senderGone (s : Hub) (t : SubTask) : Bool :=
  match s.ingest.registry t.sid with
  | none => true
  | some session => session.fanout ≠ t.fanout

/-- The task receives. A gap is noted in the trace log only. -/
def recv (s : Hub) (id : SubTaskId) : Option Hub :=
  match s.tasks id with
  | some t =>
    match t.phase with
    | .receiving =>
      match (s.fanout t.fanout).recv t.receiver with
      | none => none
      | some (.message bytes, channel) =>
        some ((s.setFanout t.fanout channel).setTask id
          (some { t with phase := .sending bytes }))
      | some (.lagged _, channel) => some (s.setFanout t.fanout channel)
      | some (.empty, _) => if s.senderGone t then some (s.dropTask id) else none
    | _ => none
  | none => none

/-- The task hands a frame to its connection, when there is room. Without a writer the task
ends. -/
def send (minSendInterval : ℕ) (s : Hub) (id : SubTaskId) : Option Hub :=
  match s.tasks id with
  | some t =>
    match t.phase with
    | .sending bytes =>
      match s.conns t.conn with
      | none => some (s.dropTask id)
      | some conn =>
        if conn.writing then
          match conn.queue.push (.data bytes) with
          | none => none
          | some queue =>
            let phase := if minSendInterval = 0 then .receiving else .sleeping
            some ((s.setConn t.conn (some { conn with queue := queue })).setTask id
              (some { t with phase := phase, handed := t.handed + 1 }))
        else some (s.dropTask id)
    | _ => none
  | none => none

/-- The task has waited between two frames. -/
def wake (s : Hub) (id : SubTaskId) : Option Hub :=
  match s.tasks id with
  | some t =>
    match t.phase with
    | .sleeping => some (s.setTask id (some { t with phase := .receiving }))
    | _ => none
  | none => none

/-- The runtime drops an aborted task where it waits. -/
def cancel (s : Hub) (id : SubTaskId) : Option Hub :=
  match s.tasks id with
  | some t => if s.aborted id t then some (s.dropTask id) else none
  | none => none

/-- The writer of a connection takes a message from the queue, or fails and stops. -/
def write (s : Hub) (id : ConnId) (ok : Bool) : Option Hub :=
  match s.conns id with
  | none => none
  | some conn =>
    if conn.writing then
      some (s.setConn id (some
        (if ok then { conn with queue := conn.queue.pop }
          else { conn with queue := .empty, writing := false })))
    else none

end Hub

/-- What can happen next. -/
inductive Action
  | registerSession (sid : Uuid) (kind iface : String) (label : Option String)
  | removeSession (sid : Uuid)
  | publishWire (sid : Uuid) (bytes : Bytes)
  | publishMetrics (sid : Uuid) (bytes : Bytes)
  | connect
  | subscribe (conn : ConnId) (env : SubRequest)
  | unsubscribe (conn : ConnId) (env : SubRequest)
  | reply (conn : ConnId) (bytes : Bytes)
  | close (conn : ConnId)
  | recv (task : SubTaskId)
  | send (task : SubTaskId)
  | wake (task : SubTaskId)
  | cancel (task : SubTaskId)
  | write (conn : ConnId) (ok : Bool)
  deriving DecidableEq, Repr

/-- What the server is run with: how sids are read, and the time between two frames. -/
structure Setup where
  parse : String → Option Uuid
  minSendInterval : ℕ

def step (setup : Setup) (s : Hub) : Action → Option Hub
  | .registerSession sid kind iface label =>
    some { s with ingest := (s.ingest.registerSession sid kind iface label).2 }
  | .removeSession sid => some { s with ingest := s.ingest.removeSession sid }
  | .publishWire sid bytes => some (s.publishWire sid bytes)
  | .publishMetrics sid bytes => some (s.publishMetrics sid bytes)
  | .connect =>
    some { s.setConn s.nextConn (some ⟨.empty, true, []⟩) with nextConn := s.nextConn + 1 }
  | .subscribe conn env => s.subscribeSession setup.parse conn env
  | .unsubscribe conn env => s.unsubscribeSession conn env
  | .reply id bytes =>
    match s.conns id with
    | none => none
    | some conn => s.queueEnvelope id conn (.reply bytes)
  | .close conn => some (s.close conn)
  | .recv task => s.recv task
  | .send task => s.send setup.minSendInterval task
  | .wake task => s.wake task
  | .cancel task => s.cancel task
  | .write conn ok => s.write conn ok

/-- The outcome of queueing an answer. -/
inductive Answered (s : Hub) (id : ConnId) (conn : Conn) : Hub → Prop
  | queued (queue : OutQueue) :
      Answered s id conn (s.setConn id (some { conn with queue := queue }))
  | closed : Answered s id conn (s.close id)

/-- The channel after a receiver has moved. -/
def Hub.moveTo (s : Hub) (t : SubTask) (pos : ℕ) : Hub :=
  s.setFanout t.fanout { s.fanout t.fanout with
    cursor := Function.update (s.fanout t.fanout).cursor t.receiver (some pos) }

def Hub.pushTask (s : Hub) (id : ConnId) (conn : Conn) (key : SubscriptionKey) (sid : Uuid)
    (f : FanoutId) : Hub :=
  { ((s.setFanout f (s.fanout f).subscribe.2).setTask s.nextTask (some
      ⟨id, key, sid, f, (s.fanout f).subscribe.1, .receiving, s.published f, 0, 0⟩)).setConn id
      (some { conn with subscriptions := conn.subscriptions ++ [(key, s.nextTask)] }) with
    nextTask := s.nextTask + 1 }

/-- All that a step can do. -/
inductive Stepped (setup : Setup) (s : Hub) : Action → Hub → Prop
  | registered (sid : Uuid) (kind iface : String) (label : Option String) :
      Stepped setup s (.registerSession sid kind iface label)
        { s with ingest := (s.ingest.registerSession sid kind iface label).2 }
  | removed (sid : Uuid) :
      Stepped setup s (.removeSession sid) { s with ingest := s.ingest.removeSession sid }
  | swallowed {sid : Uuid} {bytes : Bytes} (hsession : s.ingest.registry sid = none) :
      Stepped setup s (.publishWire sid bytes) s
  | swallowedMetrics {sid : Uuid} {bytes : Bytes} (hsession : s.ingest.registry sid = none) :
      Stepped setup s (.publishMetrics sid bytes) s
  | published {sid : Uuid} {bytes : Bytes} {session : SessionState}
      (hsession : s.ingest.registry sid = some session) :
      Stepped setup s (.publishWire sid bytes)
        { s.publish session.fanout bytes with
          ingest := (s.publish session.fanout bytes).ingest.recordFrame sid bytes.length }
  | publishedMetrics {sid : Uuid} {bytes : Bytes} {session : SessionState}
      (hsession : s.ingest.registry sid = some session) :
      Stepped setup s (.publishMetrics sid bytes) (s.publish session.fanout bytes)
  | connected :
      Stepped setup s .connect
        { s.setConn s.nextConn (some ⟨.empty, true, []⟩) with nextConn := s.nextConn + 1 }
  | subscribed {id : ConnId} {env : SubRequest} {conn : Conn} {text : String} {sid : Uuid}
      {session : SessionState} (hconn : s.conns id = some conn) (htext : env.sid = some text)
      (hnew : conn.subscriptions.lookup ⟨text, env.ch⟩ = none)
      (hsid : setup.parse text = some sid) (hsession : s.ingest.registry sid = some session) :
      Stepped setup s (.subscribe id env) (s.pushTask id conn ⟨text, env.ch⟩ sid session.fanout)
  /-- The connection has a subscription with this key. -/
  | kept {id : ConnId} {env : SubRequest} {conn : Conn} {text : String} {task : SubTaskId}
      (hconn : s.conns id = some conn) (htext : env.sid = some text)
      (hold : conn.subscriptions.lookup ⟨text, env.ch⟩ = some task) :
      Stepped setup s (.subscribe id env) s
  | refused {id : ConnId} {env : SubRequest} {conn : Conn} {s' : Hub}
      (hconn : s.conns id = some conn)
      (hsession : (env.sid.bind setup.parse).bind s.ingest.registry = none)
      (hanswer : Answered s id conn s') : Stepped setup s (.subscribe id env) s'
  | unsubscribed {id : ConnId} {env : SubRequest} {conn : Conn} {text : String}
      {task : SubTaskId} (hconn : s.conns id = some conn) (htext : env.sid = some text)
      (hold : conn.subscriptions.lookup ⟨text, env.ch⟩ = some task) :
      Stepped setup s (.unsubscribe id env)
        (s.setConn id (some { conn with
          subscriptions := conn.subscriptions.filter fun entry => entry.1 ≠ ⟨text, env.ch⟩ }))
  /-- The connection has no subscription with this key. -/
  | absent {id : ConnId} {env : SubRequest} {conn : Conn} {text : String}
      (hconn : s.conns id = some conn) (htext : env.sid = some text)
      (hnew : conn.subscriptions.lookup ⟨text, env.ch⟩ = none) :
      Stepped setup s (.unsubscribe id env) s
  | malformed {id : ConnId} {env : SubRequest} {conn : Conn} {s' : Hub}
      (hconn : s.conns id = some conn) (htext : env.sid = none)
      (hanswer : Answered s id conn s') : Stepped setup s (.unsubscribe id env) s'
  | replied {id : ConnId} {bytes : Bytes} {conn : Conn} {s' : Hub}
      (hconn : s.conns id = some conn) (hanswer : Answered s id conn s') :
      Stepped setup s (.reply id bytes) s'
  | closed (id : ConnId) : Stepped setup s (.close id) (s.close id)
  | received {id : SubTaskId} {t : SubTask} {pos : ℕ} {bytes : Bytes}
      (ht : s.tasks id = some t) (hphase : t.phase = .receiving)
      (hcursor : (s.fanout t.fanout).cursor t.receiver = some pos)
      (hmessage : (s.fanout t.fanout).sent[pos]? = some bytes) :
      Stepped setup s (.recv id)
        ((s.moveTo t (pos + 1)).setTask id (some { t with phase := .sending bytes }))
  | lagged {id : SubTaskId} {t : SubTask} {pos : ℕ} (ht : s.tasks id = some t)
      (hphase : t.phase = .receiving)
      (hcursor : (s.fanout t.fanout).cursor t.receiver = some pos)
      (hbehind : pos + (s.fanout t.fanout).capacity < (s.fanout t.fanout).sent.length) :
      Stepped setup s (.recv id)
        (s.moveTo t ((s.fanout t.fanout).sent.length - (s.fanout t.fanout).capacity))
  | ended (id : SubTaskId) : Stepped setup s (.recv id) (s.dropTask id)
  | handed {id : SubTaskId} {t : SubTask} {bytes : Bytes} {conn : Conn} {queue : OutQueue}
      {phase : Phase} (ht : s.tasks id = some t) (hphase : t.phase = .sending bytes)
      (hconn : s.conns t.conn = some conn) (hwriting : conn.writing = true)
      (hidle : phase = .receiving ∨ phase = .sleeping) :
      Stepped setup s (.send id)
        ((s.setConn t.conn (some { conn with queue := queue })).setTask id
          (some { t with phase := phase, handed := t.handed + 1 }))
  /-- The connection is gone, or its writer. -/
  | cut {id : SubTaskId} {t : SubTask} (ht : s.tasks id = some t)
      (hwriting : (s.conns t.conn).any Conn.writing = false) :
      Stepped setup s (.send id) (s.dropTask id)
  | woken {id : SubTaskId} {t : SubTask} (ht : s.tasks id = some t)
      (hphase : t.phase = .sleeping) :
      Stepped setup s (.wake id) (s.setTask id (some { t with phase := .receiving }))
  | cancelled {id : SubTaskId} {t : SubTask} (ht : s.tasks id = some t)
      (haborted : s.aborted id t = true) : Stepped setup s (.cancel id) (s.dropTask id)
  | written {id : ConnId} {ok : Bool} {conn : Conn} {queue : OutQueue} {writing : Bool}
      (hconn : s.conns id = some conn) :
      Stepped setup s (.write id ok)
        (s.setConn id (some { conn with queue := queue, writing := writing }))

section Steps

variable {setup : Setup} {s s' : Hub} {id : ConnId} {env : SubRequest} {task : SubTaskId}

theorem publishWire_eq {sid : Uuid} {session : SessionState} (bytes : Bytes)
    (h : s.ingest.registry sid = some session) :
    s.publishWire sid bytes = { s.publish session.fanout bytes with
      ingest := (s.publish session.fanout bytes).ingest.recordFrame sid bytes.length } := by
  simp [Hub.publishWire, h, Ingest.publishWire, Hub.publish, Hub.setFanout]

theorem answered_of_queueEnvelope {conn : Conn} {message : OutMessage}
    (h : s.queueEnvelope id conn message = some s') : Answered s id conn s' := by
  revert h
  fun_cases s.queueEnvelope id conn message with
  | case1 => rintro ⟨⟩
  | case2 => rintro ⟨⟩; exact .queued _
  | case3 => rintro ⟨⟩; exact .closed

theorem stepped_publishWire (sid : Uuid) (bytes : Bytes) :
    Stepped setup s (.publishWire sid bytes) (s.publishWire sid bytes) := by
  cases hsession : s.ingest.registry sid with
  | none =>
    rw [Hub.publishWire, hsession]
    exact .swallowed hsession
  | some session =>
    rw [publishWire_eq bytes hsession]
    exact .published hsession

theorem stepped_publishMetrics (sid : Uuid) (bytes : Bytes) :
    Stepped setup s (.publishMetrics sid bytes) (s.publishMetrics sid bytes) := by
  unfold Hub.publishMetrics
  split
  · next hsession => exact .swallowedMetrics hsession
  · next hsession => exact .publishedMetrics hsession

theorem stepped_subscribe (h : s.subscribeSession setup.parse id env = some s') :
    Stepped setup s (.subscribe id env) s' := by
  unfold Hub.subscribeSession at h
  split at h
  · cases h
  · next conn hconn =>
    rcases env with ⟨_ | text, ch⟩
    · exact .refused hconn rfl (answered_of_queueEnvelope h)
    · simp only [SubscriptionKey.fromEnv] at h
      split at h
      · next hold =>
        obtain ⟨task, hold⟩ := Option.isSome_iff_exists.mp hold
        cases h
        exact .kept hconn rfl hold
      · next hnew =>
        split at h
        · next hsid => exact .refused hconn (by simp [hsid]) (answered_of_queueEnvelope h)
        · next sid hsid =>
          split at h
          · next hsession =>
            exact .refused hconn (by simp [hsid, hsession]) (answered_of_queueEnvelope h)
          · next session hsession =>
            cases h
            exact .subscribed hconn rfl (Option.not_isSome_iff_eq_none.mp hnew) hsid hsession

theorem stepped_unsubscribe (h : s.unsubscribeSession id env = some s') :
    Stepped setup s (.unsubscribe id env) s' := by
  unfold Hub.unsubscribeSession at h
  split at h
  · cases h
  · next conn hconn =>
    rcases env with ⟨_ | text, ch⟩
    · exact .malformed hconn rfl (answered_of_queueEnvelope h)
    · simp only [SubscriptionKey.fromEnv] at h
      split at h
      · next hnew =>
        cases h
        exact .absent hconn rfl hnew
      · next task hold =>
        cases h
        exact .unsubscribed hconn rfl hold

theorem stepped_recv (h : s.recv task = some s') : Stepped setup s (.recv task) s' := by
  revert h
  fun_cases s.recv task with
  | case2 t ht hphase bytes channel hrecv =>
    revert hrecv
    fun_cases (s.fanout t.fanout).recv t.receiver with
    | case3 pos hcursor hbehind m hmessage =>
      rintro ⟨⟩ ⟨⟩
      exact .received ht hphase hcursor hmessage
    | _ => rintro ⟨⟩
  | case3 t ht hphase missed channel hrecv =>
    revert hrecv
    fun_cases (s.fanout t.fanout).recv t.receiver with
    | case2 pos hcursor hbehind =>
      rintro ⟨⟩ ⟨⟩
      exact .lagged ht hphase hcursor hbehind
    | _ => rintro ⟨⟩
  | case4 => rintro ⟨⟩; exact .ended task
  | _ => rintro ⟨⟩

theorem stepped_send (h : s.send setup.minSendInterval task = some s') :
    Stepped setup s (.send task) s' := by
  revert h
  fun_cases s.send setup.minSendInterval task with
  | case1 t ht bytes hphase hconn =>
    rintro ⟨⟩
    exact .cut ht (by simp [hconn])
  | case3 t ht bytes hphase conn hconn hwriting queue hpush =>
    rintro ⟨⟩
    exact .handed ht hphase hconn hwriting (ite_eq_or_eq ..)
  | case4 t ht bytes hphase conn hconn hwriting =>
    rintro ⟨⟩
    exact .cut ht (by simpa [hconn] using hwriting)
  | _ => rintro ⟨⟩

theorem stepped_wake (h : s.wake task = some s') : Stepped setup s (.wake task) s' := by
  revert h
  fun_cases s.wake task with
  | case1 t ht hphase => rintro ⟨⟩; exact .woken ht hphase
  | _ => rintro ⟨⟩

theorem stepped_cancel (h : s.cancel task = some s') : Stepped setup s (.cancel task) s' := by
  revert h
  fun_cases s.cancel task with
  | case1 t ht haborted => rintro ⟨⟩; exact .cancelled ht haborted
  | _ => rintro ⟨⟩

theorem stepped_write {ok : Bool} (h : s.write id ok = some s') :
    Stepped setup s (.write id ok) s' := by
  revert h
  fun_cases s.write id ok with
  | case2 conn hconn =>
    rintro ⟨⟩
    cases ok with
    | true => exact .written hconn
    | false => exact .written hconn
  | _ => rintro ⟨⟩

theorem stepped_of_step {a : Action} (h : step setup s a = some s') : Stepped setup s a s' := by
  cases a with
  | registerSession sid kind iface label =>
    cases h
    exact .registered sid kind iface label
  | removeSession sid =>
    cases h
    exact .removed sid
  | publishWire sid bytes =>
    cases h
    exact stepped_publishWire sid bytes
  | publishMetrics sid bytes =>
    cases h
    exact stepped_publishMetrics sid bytes
  | connect =>
    cases h
    exact .connected
  | subscribe id env => exact stepped_subscribe h
  | unsubscribe id env => exact stepped_unsubscribe h
  | reply id bytes =>
    simp only [step] at h
    split at h
    · cases h
    · next conn hconn => exact .replied hconn (answered_of_queueEnvelope h)
  | close id =>
    cases h
    exact .closed id
  | recv id => exact stepped_recv h
  | send id => exact stepped_send h
  | wake id => exact stepped_wake h
  | cancel id => exact stepped_cancel h
  | write id ok => exact stepped_write h

end Steps

/-- The frames that are waiting for a subscription: those the channel still has for it and
those its task holds. -/
def Hub.queuedFor (s : Hub) (t : SubTask) : ℕ :=
  t.phase.inFlight +
    match (s.fanout t.fanout).cursor t.receiver with
    | none => 0
    | some pos => (s.fanout t.fanout).queued pos

/-- Of every subscription, the frames published since it began are those handed to the
connection, those still waiting for it, those the server has counted as dropped and those
the client was told of. A task that was aborted serves no subscription. -/
def Accounted (s : Hub) : Prop :=
  ∀ id t, s.tasks id = some t → s.aborted id t = false →
    s.published t.fanout - t.since =
      t.handed + s.queuedFor t + (s.ingest.statsOf t.sid).dropped + t.reported

/-- The channel has room for one more frame that this task has not received. -/
def Hub.HasRoom (s : Hub) (t : SubTask) : Prop :=
  ∀ pos ∈ (s.fanout t.fanout).cursor t.receiver,
    (s.fanout t.fanout).sent.length < pos + (s.fanout t.fanout).capacity

instance (s : Hub) (t : SubTask) : Decidable (s.HasRoom t) :=
  inferInstanceAs (Decidable (∀ pos ∈ (s.fanout t.fanout).cursor t.receiver, _))

/-- Every subscriber of a session has room for a frame. -/
def Hub.RoomFor (s : Hub) (sid : Uuid) : Prop :=
  ∀ session ∈ s.ingest.registry sid, ∀ id < s.nextTask, ∀ t ∈ s.tasks id,
    s.aborted id t = false → t.fanout = session.fanout → s.HasRoom t

/-- A frame of a session is published only when every subscriber has room for it. -/
def NotFull (s : Hub) : Action → Prop
  | .publishWire sid _ | .publishMetrics sid _ => s.RoomFor sid
  | _ => True

end TraceMux.Server.Delivery
