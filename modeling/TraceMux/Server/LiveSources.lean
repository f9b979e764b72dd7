/-
# Live sources and their clients

The source manager, the runners it starts and the server that forwards their frames, as one
system. A run of a source registers the session of the source, publishes the frames it reads
under the id of the session, and ends; stopping, resuming and restarting end runs and begin new
ones. A session that is registered again keeps its row in the registry and with it the channel
its clients are subscribed to; only removing the source drops the row.

Beside the server we keep what has been published for every session, which subscription the
messages in the queue of every connection are from, and what every client has received.
-/

import TraceMux.Server.Forwarding
import TraceMux.Server.SourceManager
import TraceMux.Server.Wire

namespace TraceMux.Server.LiveSources

open Base Base.MsgPack Base.Transition TraceMux.Core Core.Source Server.Delivery Server.Wire
  List Function

/-! ## What clients receive -/

/-- A message to a client with the subscription it is from. Replies are from none. -/
abbrev Tagged := Option SubTaskId × OutMessage

/-- The messages that wait for the writer of a connection. -/
def queueOf (s : Hub) (id : ConnId) : List OutMessage :=
  match s.conns id with
  | none => []
  | some conn => conn.queue.messages

def origin : Delivery.Action → Option SubTaskId
  | .send task => some task
  | _ => none

/-- Follow a queue with tags. Queues grow at the end and shrink at the front. -/
def follow (tag : Option SubTaskId) (old : List Tagged) (now : List OutMessage) : List Tagged :=
  if old.length < now.length then old ++ (now.drop old.length).map fun message => (tag, message)
  else old.drop (old.length - now.length)

/-- The frames of a subscription among the messages to its client. -/
def framesOf (task : SubTaskId) (messages : List Tagged) : List Bytes :=
  messages.filterMap fun message =>
    match message with
    | (some id, .data bytes) => if id = task then some bytes else none
    | _ => none

/-- The server with what has been published and received, oldest first. -/
structure Relay where
  hub : Hub
  published : Uuid → List Bytes
  /-- The queues of the connections, with tags. -/
  queues : ConnId → List Tagged
  /-- What the writers of the connections have written to their sockets. -/
  received : ConnId → List Tagged

/-- What happens to the server: a step, or a frame that is counted and not published. -/
inductive Effect
  | deliver (a : Delivery.Action)
  | count (sid : Uuid) (bytes : ℕ)

namespace Relay

/-- No sessions and no connections. -/
def new : Relay := ⟨.new, fun _ => [], fun _ => [], fun _ => []⟩

def notePublished (published : Uuid → List Bytes) : Delivery.Action → Uuid → List Bytes
  | .publishWire sid bytes | .publishMetrics sid bytes =>
    Function.update published sid (published sid ++ [bytes])
  | _ => published

/-- Note what a step writes to a socket. -/
def noteReceived (r : Relay) : Delivery.Action → ConnId → List Tagged
  | .write id true => Function.update r.received id (r.received id ++ (r.queues id).take 1)
  | _ => r.received

/-- The relay after a step of the server. -/
def after (r : Relay) (a : Delivery.Action) (hub : Hub) : Relay where
  hub := hub
  published := notePublished r.published a
  queues := fun id => follow (origin a) (r.queues id) (queueOf hub id)
  received := r.noteReceived a

def step (setup : Delivery.Setup) (r : Relay) : Effect → Option Relay
  | .deliver a =>
    match Delivery.step setup r.hub a with
    | none => none
    | some hub =>
      some (r.after a hub)
  | .count sid bytes =>
    some { r with hub := { r.hub with ingest := r.hub.ingest.recordFrame sid bytes } }

end Relay

/-! ## The runners -/

/-- What the server is run with. Sessions are known by UUIDs. -/
structure Setup where
  delivery : Delivery.Setup
  uuid : Sid → Uuid

/-- The manager, the server, and how many frames every run has read. -/
structure System where
  manager : Manager
  relay : Relay
  rawFrames : TaskId → ℕ

/-- What can happen next: a step of the manager, with the description of the session it may
register; a runner reads a frame, or a packet of a capture, or publishes the metrics of a
capture; a client or a task of the server does something. -/
inductive Action
  | manage (a : Manager.Action) (kind iface : String) (label : Option String)
  | frame (task : TaskId) (ts : DualTimestamp) (raw : Bytes) (sourceLabel : String)
  | packet (task : TaskId) (mode : PcapPublishMode) (ts : DualTimestamp) (data : Bytes)
      (capturedLen : ℕ) (sourceLabel : String)
  | metrics (task : TaskId) (payload : Value)
  | serve (a : Delivery.Action)

/-- The steps of clients, connections and subscriptions. -/
def isServed : Delivery.Action → Bool
  | .registerSession .. | .removeSession _ | .publishWire .. | .publishMetrics .. => false
  | _ => true

/-- Whether a packet of a capture is published. -/
def shouldPublish : PcapPublishMode → ℕ → Bool
  | .statsOnly, _ => false
  | .sampled, seq => seq = 1 || seq % 100 = 0
  | .full, _ => true

def metricsEnvelope (sid : Uuid) (ch seq : ℕ) (payload : Value) : Envelope where
  kind := .metrics
  sid := some (String.ofList sid.hyphenated)
  ch := some ch
  seq := seq
  payload := payload

/-- What a step of the manager does to the registry of the server. A runner registers its
session when its source is open; a remote source is registered by its start. -/
def sessionEffect (setup : Setup) (m : Manager) (kind iface : String) (label : Option String) :
    Manager.Action → Option Effect
  | .remove sid => some (.deliver (.removeSession (setup.uuid sid)))
  | .register t =>
    (m.tasks t).map fun task =>
      .deliver (.registerSession (setup.uuid task.sid) kind iface label)
  | .spawn r =>
    (m.starts r).bind fun q =>
      match q.spec with
      | some (.remote _) => some (.deliver (.registerSession (setup.uuid q.sid) kind iface label))
      | _ => none
  | _ => none

namespace System

/-- No sources and no clients. -/
def new (config : ManagerConfig) : System := ⟨.new config, .new, fun _ => 0⟩

/-- A runner that reads its source: it has registered and is not over. -/
def running (s : System) (t : TaskId) : Option RunnerTask :=
  (s.manager.tasks t).filter fun task => task.registered && !task.finished

/-- Publish an envelope. A run ends with an error when the envelope is too large. -/
def emit (m : Manager) (t : TaskId) (rawFrames : TaskId → ℕ) (env : Envelope)
    (publish : Bytes → Delivery.Action) : Manager × (TaskId → ℕ) × Option Effect :=
  match Wire.encode env with
  | .error _ => (m.updateTask t fun task => { task with finished := true }, rawFrames, none)
  | .ok wire => (m, rawFrames, some (.deliver (publish wire)))

/-- The manager and the runners after an action, and what it does to the server. -/
def act (setup : Setup) (s : System) :
    Action → Option (Manager × (TaskId → ℕ) × Option Effect)
  | .manage a kind iface label =>
    (s.manager.step a).map fun m =>
      (m, s.rawFrames, sessionEffect setup s.manager kind iface label a)
  | .frame t ts raw sourceLabel =>
    (s.running t).map fun task =>
      let sid := setup.uuid task.sid
      let seq := s.rawFrames t + 1
      emit s.manager t (Function.update s.rawFrames t seq)
        (dataEnvelope sid 0 seq ts raw sourceLabel "bytes") (.publishWire sid)
  | .packet t mode ts data capturedLen sourceLabel =>
    (s.running t).map fun task =>
      let sid := setup.uuid task.sid
      let seq := s.rawFrames t + 1
      let rawFrames := Function.update s.rawFrames t seq
      if shouldPublish mode seq then
        emit s.manager t rawFrames (dataEnvelope sid 0 seq ts data sourceLabel "datagram")
          (.publishWire sid)
      else (s.manager, rawFrames, some (.count sid capturedLen))
  | .metrics t payload =>
    (s.running t).map fun task =>
      let sid := setup.uuid task.sid
      match s.relay.hub.ingest.registry sid with
      | none => (s.manager, s.rawFrames, none)
      | some _ =>
        emit s.manager t s.rawFrames (metricsEnvelope sid 0 (s.rawFrames t) payload)
          (.publishMetrics sid)
  | .serve a => if isServed a then some (s.manager, s.rawFrames, some (.deliver a)) else none

/-- What an action does to the server, if anything. -/
def effect (setup : Setup) (s : System) (a : Action) : Option Effect :=
  (s.act setup a).bind fun done => done.2.2

def step (setup : Setup) (s : System) (a : Action) : Option System :=
  match s.act setup a with
  | none => none
  | some (m, rawFrames, none) => some ⟨m, s.relay, rawFrames⟩
  | some (m, rawFrames, some e) =>
    match s.relay.step setup.delivery e with
    | none => none
    | some relay => some ⟨m, relay, rawFrames⟩

/-- What is left of a step when the manager and the runners have taken theirs. -/
def Relayed (setup : Setup) (s s' : System) : Option Effect → Prop
  | none => s'.relay = s.relay
  | some e => s.relay.step setup.delivery e = some s'.relay

end System

/-! ## Queues with tags -/

section Queues

variable {tag : Option SubTaskId} {old : List Tagged} {now : List OutMessage}

theorem follow_append {message : OutMessage} (h : now = old.map Prod.snd ++ [message]) :
    follow tag old now = old ++ [(tag, message)] := by
  have hlt : old.length < now.length := by
    rw [h, length_append, length_map]
    exact Nat.lt_succ_self _
  rw [follow, if_pos hlt, h, drop_left' (length_map ..)]
  rfl

theorem follow_drop {k : ℕ} (h : now = (old.map Prod.snd).drop k) :
    follow tag old now = old.drop k := by
  have hlength : now.length = old.length - k := by
    rw [h, length_drop, length_map]
  rw [follow, if_neg (by omega), hlength]
  by_cases hk : k ≤ old.length
  · rw [Nat.sub_sub_self hk]
  · rw [drop_of_length_le (by omega), drop_of_length_le (by omega)]

end Queues

theorem messages_of_push {q q' : OutQueue} {message : OutMessage} (h : q.push message = some q') :
    q'.messages = q.messages ++ [message] := by
  unfold OutQueue.push at h
  split at h
  · cases h
    rfl
  · cases h

variable {id : ConnId} {task : SubTaskId} {r r' : Relay} {run : List Action} {hub : Hub}
  {setup : Delivery.Setup} {a : Delivery.Action}

theorem queueOf_eq {s : Hub} {conn : Conn} (h : s.conns id = some conn) :
    queueOf s id = conn.queue.messages := by
  rw [queueOf, h]

/-- A queue grows by one message or loses some at the front. -/
theorem queue_step {s s' : Hub} (hw : Wired s) (hstep : Delivery.step setup s a = some s')
    (id : ConnId) :
    (∃ message, queueOf s' id = queueOf s id ++ [message]) ∨
      ∃ k, queueOf s' id = (queueOf s id).drop k := by
  have hempty : ∀ {messages : List OutMessage}, queueOf s' id = [] →
      ∃ k, queueOf s' id = messages.drop k := fun h =>
    ⟨_, h.trans (drop_of_length_le le_rfl).symm⟩
  cases hconn : s.conns id with
  | none =>
    refine .inr (hempty ?_)
    cases hconn' : s'.conns id with
    | none => rw [queueOf, hconn']
    | some conn' =>
      rw [queueOf_eq hconn', (conns_begin hstep hconn hconn').2]
      rfl
  | some conn =>
    have hmoved := hw.connMoved hstep hconn
    rw [queueOf_eq hconn]
    generalize hnow : s'.conns id = now at hmoved
    cases hmoved with
    | kept | subscribed | unsubscribed =>
      rw [queueOf_eq hnow]
      exact .inr ⟨0, rfl⟩
    | answered _ hpush | handed _ _ _ hpush =>
      rw [queueOf_eq hnow]
      exact .inl ⟨_, messages_of_push hpush⟩
    | wrote =>
      rw [queueOf_eq hnow]
      exact .inr ⟨1, drop_one.symm⟩
    | failed => exact .inr (hempty (queueOf_eq hnow))
    | closed => exact .inr (hempty (by rw [queueOf, hnow]))

/-! ## What holds in every state -/

/-- The tags tell where messages are from, and every subscription was numbered when it was
made. -/
structure Sound (r : Relay) : Prop where
  wired : Wired r.hub
  queue_eq : ∀ id, (r.queues id).map Prod.snd = queueOf r.hub id
  queued_lt : ∀ id m task, m ∈ r.queues id → m.1 = some task → task < r.hub.nextTask
  received_lt : ∀ id m task, m ∈ r.received id → m.1 = some task → task < r.hub.nextTask

theorem sound_new : Sound .new where
  wired := wired_new
  queue_eq _ := rfl
  queued_lt _ _ _ hm := nomatch hm
  received_lt _ _ _ hm := nomatch hm

theorem origin_lt {s s' : Hub} (hw : Wired s) (hstep : Delivery.step setup s a = some s')
    (ha : origin a = some task) : task < s.nextTask := by
  cases a with
  | send id =>
    cases ha
    cases stepped_of_step hstep with
    | handed ht => exact hw.task_lt _ _ ht
    | cut ht => exact hw.task_lt _ _ ht
  | _ => cases ha

/-- The queues of the relay and its server change alike. -/
theorem Sound.queues_step (h : Sound r) (hstep : Delivery.step setup r.hub a = some hub)
    (id : ConnId) :
    (∃ message, queueOf hub id = queueOf r.hub id ++ [message] ∧
        (r.after a hub).queues id = r.queues id ++ [(origin a, message)]) ∨
      ∃ k, queueOf hub id = (queueOf r.hub id).drop k ∧
        (r.after a hub).queues id = (r.queues id).drop k := by
  have hsame := h.queue_eq id
  rcases queue_step h.wired hstep id with ⟨message, hnow⟩ | ⟨k, hnow⟩
  · exact .inl ⟨message, hnow, follow_append (by rw [hnow, hsame])⟩
  · exact .inr ⟨k, hnow, follow_drop (by rw [hnow, hsame])⟩

theorem mem_noteReceived {m : Tagged} (hm : m ∈ r.noteReceived a id) :
    m ∈ r.received id ∨ m ∈ r.queues id := by
  unfold Relay.noteReceived at hm
  split at hm
  · next cid =>
    by_cases hid : id = cid
    · rw [hid, update_self] at hm
      rw [hid]
      rcases mem_append.mp hm with hold | hnew
      · exact .inl hold
      · exact .inr (mem_of_mem_take hnew)
    · rw [update_of_ne hid] at hm
      exact .inl hm
  · exact .inl hm

theorem Sound.step (h : Sound r) {e : Effect} (hstep : r.step setup e = some r') : Sound r' := by
  cases e with
  | count sid bytes =>
    cases hstep
    exact ⟨h.wired.withIngest (r.hub.ingest.recordFrame sid bytes) rfl le_rfl
      fun _ _ hs => .inl hs, h.queue_eq, h.queued_lt, h.received_lt⟩
  | deliver a =>
    rw [Relay.step] at hstep
    split at hstep
    · cases hstep
    · next hub hhub =>
      cases hstep
      have hle := nextTask_le hhub
      refine ⟨h.wired.step hhub, fun id => ?_, fun id m task hm htag => ?_,
        fun id m task hm htag => ?_⟩
      · show _ = queueOf hub id
        rcases h.queues_step hhub id with ⟨message, hnow, hfollow⟩ | ⟨k, hnow, hfollow⟩
        · rw [hfollow, hnow, map_append, h.queue_eq]
          rfl
        · rw [hfollow, hnow, map_drop, h.queue_eq]
      · rcases h.queues_step hhub id with ⟨message, -, hfollow⟩ | ⟨k, -, hfollow⟩
        · rw [hfollow] at hm
          rcases mem_append.mp hm with hold | hnew
          · exact (h.queued_lt id m task hold htag).trans_le hle
          · rw [mem_singleton.mp hnew] at htag
            exact (origin_lt h.wired hhub htag).trans_le hle
        · rw [hfollow] at hm
          exact (h.queued_lt id m task (mem_of_mem_drop hm) htag).trans_le hle
      · rcases mem_noteReceived hm with hold | hqueued
        · exact (h.received_lt id m task hold htag).trans_le hle
        · exact (h.queued_lt id m task hqueued htag).trans_le hle

/-! ## One subscription -/

/-- A subscription of a client: its connection, the request it was made with, its session and
its task. -/
structure Sub where
  conn : ConnId
  env : SubRequest
  sid : Uuid
  task : SubTaskId

namespace Sub

/-- The client stays and keeps up, and the source is not removed: the connection is not closed
and its writer does not fail, the subscription is not taken back, and no frame of the session is
published when the channel has no room for another one that the client has not been sent. -/
def Stays (w : Sub) (r : Relay) : Effect → Prop
  | .deliver (.removeSession sid) => sid ≠ w.sid
  | .deliver (.close id) => id ≠ w.conn
  | .deliver (.unsubscribe id env) => id = w.conn → env ≠ w.env
  | .deliver (.write id ok) => id = w.conn → ok = true
  | .deliver (.publishWire sid _) | .deliver (.publishMetrics sid _) =>
    sid = w.sid → ∀ t ∈ r.hub.tasks w.task, r.hub.HasRoom t
  | _ => True

instance decidableStays (w : Sub) (r : Relay) (e : Effect) : Decidable (w.Stays r e) := by
  rcases e with a | ⟨sid, bytes⟩
  · induction a using Delivery.Action.casesOn <;> dsimp only [Stays] <;> infer_instance
  · unfold Stays
    infer_instance

/-- The steps of the task of a subscription and of the writer of its connection. -/
def Drives (w : Sub) (a : Delivery.Action) : Prop :=
  a = .recv w.task ∨ a = .send w.task ∨ a = .wake w.task ∨ a = .write w.conn true

/-- The connection has the task under the key of the request. -/
def Listed (w : Sub) (conn : Conn) : Prop :=
  ∃ text, w.env.sid = some text ∧ (⟨text, w.env.ch⟩, w.task) ∈ conn.subscriptions

end Sub

def held : Phase → List Bytes
  | .sending bytes => [bytes]
  | _ => []

/-- The frames of a subscription that are written or wait for the writer. -/
def Relay.mail (r : Relay) (w : Sub) : List Bytes :=
  framesOf w.task (r.received w.conn) ++ framesOf w.task (r.queues w.conn)

/-- The subscription is served: its task is at the channel its session has, and the frames
published since it was made are those written, those in the queue, the one the task holds and
those the channel has for it, in this order. -/
structure Follows (w : Sub) (since : ℕ) (r : Relay) (t : SubTask) (conn : Conn)
    (session : SessionState) (pos : ℕ) : Prop where
  task_eq : r.hub.tasks w.task = some t
  conn_eq : t.conn = w.conn
  sid_eq : t.sid = w.sid
  conns_eq : r.hub.conns w.conn = some conn
  listed : w.Listed conn
  writing : conn.writing = true
  registry_eq : r.hub.ingest.registry w.sid = some session
  fanout_eq : t.fanout = session.fanout
  cursor_eq : (r.hub.fanout t.fanout).cursor t.receiver = some pos
  pos_le : pos ≤ (r.hub.fanout t.fanout).sent.length
  near : (r.hub.fanout t.fanout).sent.length ≤ pos + (r.hub.fanout t.fanout).capacity
  since_le : since ≤ (r.published w.sid).length
  account : r.mail w ++ (held t.phase ++ (r.hub.fanout t.fanout).sent.drop pos) =
    (r.published w.sid).drop since

/-- What holds of a subscription whose client stays and keeps up. -/
structure Kept (w : Sub) (since : ℕ) (r : Relay) : Prop where
  sound : Sound r
  follows : ∃ t conn session pos, Follows w since r t conn session pos

/-! ## The mail of a client -/

theorem framesOf_append (task : SubTaskId) (l l' : List Tagged) :
    framesOf task (l ++ l') = framesOf task l ++ framesOf task l' :=
  filterMap_append

theorem framesOf_eq_nil {messages : List Tagged} (h : ∀ m ∈ messages, m.1 ≠ some task) :
    framesOf task messages = [] := by
  refine filterMap_eq_nil_iff.mpr fun m hm => ?_
  have htag := h m hm
  rcases m with ⟨_ | id, message⟩
  · rfl
  · have hne : id ≠ task := fun heq => htag (congrArg some heq)
    cases message <;> simp [hne]

theorem framesOf_own (task : SubTaskId) (bytes : Bytes) :
    framesOf task [(some task, .data bytes)] = [bytes] := by
  simp [framesOf]

section Steps

variable {w : Sub} {since : ℕ} {t : SubTask} {conn : Conn} {session : SessionState} {pos : ℕ}
  {bytes : Bytes} {queue : OutQueue}

theorem origin_ne (h : a ≠ .send task) : origin a ≠ some task := by
  intro htag
  cases a <;> cases htag
  exact h rfl

theorem noteReceived_of_ne (h : a ≠ .write w.conn true) :
    r.noteReceived a w.conn = r.received w.conn := by
  unfold Relay.noteReceived
  split
  · next id =>
    have hne : w.conn ≠ id := by
      rintro rfl
      exact h rfl
    exact update_of_ne hne _ _
  · rfl

/-- The writer writes the first message of the queue. -/
theorem Sound.mail_write (h : Sound r)
    (hhub : Delivery.step setup r.hub (.write w.conn true) = some hub) :
    (r.after (.write w.conn true) hub).mail w = r.mail w := by
  have hpop : queueOf hub w.conn = ((r.queues w.conn).map Prod.snd).drop 1 := by
    replace hhub : r.hub.write w.conn true = some hub := hhub
    rw [h.queue_eq, queueOf, queueOf]
    revert hhub
    fun_cases r.hub.write w.conn true with
    | case2 conn hconn =>
      rintro ⟨⟩
      simp [Hub.setConn, hconn, OutQueue.pop]
    | _ => rintro ⟨⟩
  have hqueues : (r.after (.write w.conn true) hub).queues w.conn = (r.queues w.conn).drop 1 :=
    follow_drop hpop
  have hreceived : (r.after (.write w.conn true) hub).received w.conn =
      r.received w.conn ++ (r.queues w.conn).take 1 := update_self ..
  rw [Relay.mail, Relay.mail, hqueues, hreceived, framesOf_append, append_assoc,
    ← framesOf_append, take_append_drop]

/-- The task puts a frame behind the others. -/
theorem Sound.mail_push (h : Sound r) (hconn : r.hub.conns w.conn = some conn)
    (hpush : conn.queue.push (.data bytes) = some queue)
    (hconn' : hub.conns w.conn = some { conn with queue := queue }) :
    (r.after (.send w.task) hub).mail w = r.mail w ++ [bytes] := by
  have hqueues : (r.after (.send w.task) hub).queues w.conn =
      r.queues w.conn ++ [(some w.task, .data bytes)] := follow_append <| by
    rw [h.queue_eq, queueOf_eq hconn, queueOf_eq hconn', messages_of_push hpush]
  have hreceived : (r.after (.send w.task) hub).received w.conn = r.received w.conn := rfl
  rw [Relay.mail, Relay.mail, hqueues, hreceived, framesOf_append, framesOf_own, append_assoc]

section

variable (h : Follows w since r t conn session pos)
include h

/-- The connection stays with the client, and its queue shrinks only when it is written. -/
theorem Follows.conn_step (hsound : Sound r) (hstays : w.Stays r (.deliver a))
    (hhub : Delivery.step setup r.hub a = some hub) :
    ∃ conn', hub.conns w.conn = some conn' ∧ w.Listed conn' ∧ conn'.writing = true ∧
      (a = .write w.conn true ∨ conn'.queue.messages = conn.queue.messages ∨
        ∃ message, conn'.queue.messages = conn.queue.messages ++ [message]) := by
  have hmoved := hsound.wired.connMoved hhub h.conns_eq
  obtain ⟨text, htext, hentry⟩ := h.listed
  generalize hnow : hub.conns w.conn = now at hmoved
  cases hmoved with
  | kept => exact ⟨_, rfl, h.listed, h.writing, .inr (.inl rfl)⟩
  | subscribed =>
    exact ⟨_, rfl, ⟨text, htext, mem_append_left _ hentry⟩, h.writing, .inr (.inl rfl)⟩
  | @unsubscribed env text' _ htext' =>
    refine ⟨_, rfl, ⟨text, htext, mem_filter.mpr ⟨hentry, ?_⟩⟩, h.writing, .inr (.inl rfl)⟩
    -- The request that takes a subscription back is another one.
    rw [decide_eq_true_eq]
    intro hkey
    obtain ⟨hsid, hch⟩ := SubscriptionKey.mk.inj hkey
    refine hstays rfl ?_
    show (⟨env.sid, env.ch⟩ : SubRequest) = ⟨w.env.sid, w.env.ch⟩
    rw [htext, htext', hsid, hch]
  | answered _ hpush | handed _ _ _ hpush =>
    exact ⟨_, rfl, h.listed, h.writing, .inr (.inr ⟨_, messages_of_push hpush⟩)⟩
  | wrote => exact ⟨_, rfl, h.listed, h.writing, .inl rfl⟩
  | failed => exact absurd (hstays rfl) Bool.false_ne_true
  | closed ha =>
    rcases ha with rfl | hwriting
    · exact absurd rfl hstays
    · rw [h.writing] at hwriting
      cases hwriting

theorem Follows.step_of_write :
    Delivery.step setup r.hub (.write w.conn true) =
      some (r.hub.setConn w.conn (some { conn with queue := conn.queue.pop })) := by
  show r.hub.write w.conn true = _
  rw [Hub.write, h.conns_eq]
  simp only [if_pos h.writing, if_true]

/-- Messages that are not of the subscription do not matter. -/
theorem Follows.mail_other (hsound : Sound r) (hstays : w.Stays r (.deliver a))
    (hhub : Delivery.step setup r.hub a = some hub) (hwrite : a ≠ .write w.conn true)
    (hsend : a ≠ .send w.task) : (r.after a hub).mail w = r.mail w := by
  have hreceived : (r.after a hub).received w.conn = r.received w.conn :=
    noteReceived_of_ne hwrite
  obtain ⟨conn', hconn', -, -, hwrote | hqueue | ⟨message, hqueue⟩⟩ :=
    h.conn_step hsound hstays hhub
  · exact absurd hwrote hwrite
  · have hqueues : (r.after a hub).queues w.conn = (r.queues w.conn).drop 0 := follow_drop <| by
      rw [queueOf_eq hconn', hqueue, hsound.queue_eq, queueOf_eq h.conns_eq, drop_zero]
    rw [Relay.mail, Relay.mail, hreceived, hqueues, drop_zero]
  · have hqueues : (r.after a hub).queues w.conn = r.queues w.conn ++ [(origin a, message)] :=
      follow_append <| by rw [queueOf_eq hconn', hqueue, hsound.queue_eq, queueOf_eq h.conns_eq]
    rw [Relay.mail, Relay.mail, hreceived, hqueues, framesOf_append,
      framesOf_eq_nil (forall_mem_singleton.mpr (origin_ne hsend)), append_nil]

/-- The task puts the frame it holds behind the others. -/
theorem Follows.send_eq (hhub : Delivery.step setup r.hub (.send w.task) = some hub) :
    ∃ bytes queue phase, t.phase = .sending bytes ∧ held phase = [] ∧
      conn.queue.push (.data bytes) = some queue ∧
      hub = (r.hub.setConn w.conn (some { conn with queue := queue })).setTask w.task
        (some { t with phase := phase, handed := t.handed + 1 }) := by
  have hhub' : r.hub.send setup.minSendInterval w.task = some hub := hhub
  unfold Hub.send at hhub'
  simp only [h.task_eq, h.conn_eq, h.conns_eq, if_pos h.writing] at hhub'
  split at hhub'
  · next bytes hphase =>
    split at hhub'
    · cases hhub'
    · next queue hpush =>
      cases hhub'
      refine ⟨bytes, queue, if setup.minSendInterval = 0 then .receiving else .sleeping, hphase,
        ?_, hpush, by rw [h.conn_eq]⟩
      split <;> rfl
  · cases hhub'

/-! ## One step of a subscription -/

theorem Follows.move {t' : SubTask} {conn' : Conn} {pos' : ℕ}
    (htask : r'.hub.tasks w.task = some t') (hplace : SamePlace t t')
    (hconn : r'.hub.conns w.conn = some conn') (hlisted : w.Listed conn')
    (hwriting : conn'.writing = true)
    (hregistry : r'.hub.ingest.registry w.sid = some session)
    (hcursor : (r'.hub.fanout t.fanout).cursor t.receiver = some pos')
    (hpos : pos' ≤ (r'.hub.fanout t.fanout).sent.length)
    (hnear : (r'.hub.fanout t.fanout).sent.length ≤ pos' + (r'.hub.fanout t.fanout).capacity)
    (hsince : since ≤ (r'.published w.sid).length)
    (haccount : r'.mail w ++ (held t'.phase ++ (r'.hub.fanout t.fanout).sent.drop pos') =
      (r'.published w.sid).drop since) : Follows w since r' t' conn' session pos' := by
  obtain ⟨hc, -, hs, hf, hr⟩ := hplace
  refine ⟨htask, hc.trans h.conn_eq, hs.trans h.sid_eq, hconn, hlisted, hwriting, hregistry,
    hf.trans h.fanout_eq, ?_, ?_, ?_, hsince, ?_⟩
  · rw [hf, hr]
    exact hcursor
  · rw [hf]
    exact hpos
  · rw [hf]
    exact hnear
  · rw [hf]
    exact haccount

theorem Follows.step_publish (hsound : Sound r)
    (ha : a = .publishWire w.sid bytes ∨ a = .publishMetrics w.sid bytes)
    (hstays : w.Stays r (.deliver a)) (hhub : Delivery.step setup r.hub a = some hub) :
    Follows w since (r.after a hub) t conn session pos := by
  have hchannel := hsound.wired.fanout_publish bytes h.task_eq h.cursor_eq h.fanout_eq
  have hroom : (r.hub.fanout t.fanout).sent.length < pos + (r.hub.fanout t.fanout).capacity := by
    have hroom : r.hub.HasRoom t := by
      rcases ha with rfl | rfl
      · exact hstays rfl t h.task_eq
      · exact hstays rfl t h.task_eq
    exact hroom pos h.cursor_eq
  have hmail : (r.after a hub).mail w = r.mail w := by
    apply h.mail_other hsound hstays hhub
    · rcases ha with rfl | rfl <;> nofun
    · rcases ha with rfl | rfl <;> nofun
  have hpublished : (r.after a hub).published w.sid = r.published w.sid ++ [bytes] := by
    rcases ha with rfl | rfl <;> exact update_self ..
  obtain ⟨htasks, hconns, hregistry, hfanouts⟩ : hub.tasks = r.hub.tasks ∧
      hub.conns = r.hub.conns ∧ hub.ingest.registry = r.hub.ingest.registry ∧
      hub.ingest.fanouts = (r.hub.publish session.fanout bytes).ingest.fanouts := by
    rcases ha with rfl | rfl
    · cases hhub
      rw [publishWire_eq bytes h.registry_eq]
      exact ⟨rfl, rfl, rfl, rfl⟩
    · cases hhub
      rw [Hub.publishMetrics, h.registry_eq]
      exact ⟨rfl, rfl, rfl, rfl⟩
  have hsent : hub.fanout t.fanout =
      { r.hub.fanout t.fanout with sent := (r.hub.fanout t.fanout).sent ++ [bytes] } :=
    (congrFun hfanouts t.fanout).trans hchannel
  have hlength := h.pos_le
  refine h.move ((congrFun htasks _).trans h.task_eq) (.refl t)
    ((congrFun hconns _).trans h.conns_eq) h.listed h.writing
    ((congrFun hregistry _).trans h.registry_eq) ?_ ?_ ?_ ?_ ?_
  · show (hub.fanout t.fanout).cursor t.receiver = some pos
    rw [hsent]
    exact h.cursor_eq
  · show pos ≤ (hub.fanout t.fanout).sent.length
    rw [hsent, length_append]
    omega
  · show (hub.fanout t.fanout).sent.length ≤ pos + (hub.fanout t.fanout).capacity
    rw [hsent, length_append]
    exact hroom
  · rw [hpublished, length_append]
    exact Nat.le_add_right_of_le h.since_le
  · show _ ++ (held t.phase ++ (hub.fanout t.fanout).sent.drop pos) = _
    rw [hmail, hsent, hpublished, drop_append_of_le_length h.since_le, ← h.account]
    simp only [drop_append_of_le_length h.pos_le, append_assoc]

end

theorem Kept.task_lives (h : Kept w since r) (hstays : w.Stays r (.deliver a))
    (hhub : Delivery.step setup r.hub a = some hub) : ∃ t', hub.tasks w.task = some t' := by
  obtain ⟨t, conn, session, pos, hf⟩ := h.follows
  rw [← Option.ne_none_iff_exists']
  intro hgone
  cases taskEnded_of_step hhub hf.task_eq hgone with
  | sessionGone hsender =>
    -- The session still has the channel the task reads.
    rw [Hub.senderGone, hf.sid_eq, hf.registry_eq] at hsender
    simp only [hf.fanout_eq, ne_eq, not_true_eq_false, decide_false] at hsender
    cases hsender
  | cut hwriting =>
    rw [hf.conn_eq, hf.conns_eq, Option.any_some, hf.writing] at hwriting
    cases hwriting
  | cancelled haborted =>
    obtain ⟨text, -, hentry⟩ := hf.listed
    rw [aborted_eq_false.mpr ⟨conn, hf.conn_eq ▸ hf.conns_eq, _, hentry, rfl⟩] at haborted
    cases haborted

theorem published_after (hpublish : ∀ bytes, a ≠ .publishWire w.sid bytes ∧
    a ≠ .publishMetrics w.sid bytes) : (r.after a hub).published w.sid = r.published w.sid := by
  show Relay.notePublished r.published a w.sid = _
  unfold Relay.notePublished
  split
  · exact update_of_ne (fun heq => (hpublish _).1 (by rw [heq])) _ _
  · exact update_of_ne (fun heq => (hpublish _).2 (by rw [heq])) _ _
  · rfl

/-- Any other step leaves the account as it is. -/
theorem Follows.step_other (h : Follows w since r t conn session pos) (hkept : Kept w since r)
    (hstays : w.Stays r (.deliver a)) (hhub : Delivery.step setup r.hub a = some hub)
    (hsend : a ≠ .send w.task)
    (hpublish : ∀ bytes, a ≠ .publishWire w.sid bytes ∧ a ≠ .publishMetrics w.sid bytes) :
    ∃ t' conn' pos', Follows w since (r.after a hub) t' conn' session pos' := by
  have hsound := hkept.sound
  obtain ⟨t', ht'⟩ := hkept.task_lives hstays hhub
  obtain ⟨conn', hconn', hlisted', hwriting', -⟩ := h.conn_step hsound hstays hhub
  have hremove : a ≠ .removeSession w.sid := by
    rintro rfl
    exact hstays rfl
  have hregistry := registry_of_step hhub h.registry_eq hremove
  have hmail : (r.after a hub).mail w = r.mail w := by
    by_cases hwrite : a = .write w.conn true
    · subst hwrite
      exact hsound.mail_write hhub
    · exact h.mail_other hsound hstays hhub hwrite hsend
  have hpublished : (r.after a hub).published w.sid = r.published w.sid :=
    published_after hpublish
  have hsince : since ≤ ((r.after a hub).published w.sid).length := by
    rw [hpublished]
    exact h.since_le
  -- What the task holds and what is left on the channel stay the same together.
  have hmove : ∀ {pos'}, SamePlace t t' →
      (hub.fanout t.fanout).sent = (r.hub.fanout t.fanout).sent →
      (hub.fanout t.fanout).capacity = (r.hub.fanout t.fanout).capacity →
      (hub.fanout t.fanout).cursor t.receiver = some pos' →
      pos ≤ pos' → pos' ≤ (r.hub.fanout t.fanout).sent.length →
      held t'.phase ++ (r.hub.fanout t.fanout).sent.drop pos' =
        held t.phase ++ (r.hub.fanout t.fanout).sent.drop pos →
      Follows w since (r.after a hub) t' conn' session pos' := by
    intro pos' hplace hsent hcapacity hcursor hle hend hunread
    have hnear := h.near
    refine h.move ht' hplace hconn' hlisted' hwriting' hregistry hcursor ?_ ?_ hsince ?_
    · show pos' ≤ (hub.fanout t.fanout).sent.length
      rw [hsent]
      exact hend
    · show (hub.fanout t.fanout).sent.length ≤ pos' + (hub.fanout t.fanout).capacity
      rw [hsent, hcapacity]
      omega
    · show _ ++ (held t'.phase ++ (hub.fanout t.fanout).sent.drop pos') = _
      rw [hmail, hsent, hpublished, hunread]
      exact h.account
  refine ⟨t', conn', ?_⟩
  cases hsound.wired.taskMoved hhub h.task_eq ht' with
  | kept hsame =>
    exact ⟨pos, hmove (.refl t) hsame.sent_eq hsame.capacity_eq
      (hsame.cursor_eq.trans h.cursor_eq) le_rfl h.pos_le rfl⟩
  | @published _ sid bytes _ ha hsession hfanout =>
    -- Only frames of this session go to its channel.
    have hsid := hsound.wired.session_eq sid w.sid _ _ hsession h.registry_eq
      (hfanout.symm.trans h.fanout_eq)
    subst hsid
    rcases ha with rfl | rfl
    · exact absurd rfl (hpublish bytes).1
    · exact absurd rfl (hpublish bytes).2
  | received hphase hcursor hbytes hstands =>
    cases hcursor.symm.trans h.cursor_eq
    obtain ⟨hlt, hget⟩ := List.getElem?_eq_some_iff.mp hbytes
    refine ⟨pos + 1, hmove ⟨rfl, rfl, rfl, rfl, rfl⟩ hstands.sent_eq hstands.capacity_eq
      hstands.cursor_eq (Nat.le_succ _) hlt ?_⟩
    rw [hphase, drop_eq_getElem_cons hlt, hget]
    rfl
  | lagged hphase hcursor hbehind =>
    cases hcursor.symm.trans h.cursor_eq
    exact absurd h.near (Nat.not_le.mpr hbehind)
  | handed => exact absurd rfl hsend
  | woken hphase hsame =>
    refine ⟨pos, hmove ⟨rfl, rfl, rfl, rfl, rfl⟩ (by rw [hsame]) (by rw [hsame])
      (by rw [hsame]; exact h.cursor_eq) le_rfl h.pos_le ?_⟩
    rw [hphase]
    rfl

theorem Kept.step (h : Kept w since r) {e : Effect} (hstays : w.Stays r e)
    (hstep : r.step setup e = some r') : Kept w since r' := by
  have hsound := h.sound.step hstep
  obtain ⟨t, conn, session, pos, hf⟩ := h.follows
  cases e with
  | count sid bytes =>
    cases hstep
    exact ⟨hsound, t, conn, session, pos, hf.move hf.task_eq (.refl t) hf.conns_eq hf.listed
      hf.writing hf.registry_eq hf.cursor_eq hf.pos_le hf.near hf.since_le hf.account⟩
  | deliver a =>
    rw [Relay.step] at hstep
    split at hstep
    · cases hstep
    · next hub hhub =>
      cases hstep
      refine ⟨hsound, ?_⟩
      by_cases hsend : a = .send w.task
      · subst hsend
        obtain ⟨bytes, queue, phase, hphase, hheld, hpush, rfl⟩ := hf.send_eq hhub
        refine ⟨_, _, session, pos, hf.move (update_self ..) ⟨rfl, rfl, rfl, rfl, rfl⟩
          (update_self ..) hf.listed hf.writing hf.registry_eq hf.cursor_eq hf.pos_le hf.near
          hf.since_le ?_⟩
        have haccount := hf.account
        rw [hphase] at haccount
        rw [h.sound.mail_push hf.conns_eq hpush (update_self ..), append_assoc]
        show _ ++ ([bytes] ++ (held phase ++ _)) = _
        rw [hheld]
        exact haccount
      · by_cases hpublish : ∃ bytes, a = .publishWire w.sid bytes ∨
            a = .publishMetrics w.sid bytes
        · obtain ⟨bytes, ha⟩ := hpublish
          exact ⟨t, conn, session, pos, hf.step_publish h.sound ha hstays hhub⟩
        · have hnone : ∀ bytes, a ≠ .publishWire w.sid bytes ∧
              a ≠ .publishMetrics w.sid bytes := fun bytes =>
            ⟨fun ha => hpublish ⟨bytes, .inl ha⟩, fun ha => hpublish ⟨bytes, .inr ha⟩⟩
          obtain ⟨t', conn', pos', hf'⟩ := hf.step_other h hstays hhub hsend hnone
          exact ⟨t', conn', session, pos', hf'⟩

end Steps

/-- A step of a request puts no frames of the next subscription in a queue. -/
theorem Sound.mail_nil (h : Sound r) {w : Sub} (hhub : Delivery.step setup r.hub a = some hub)
    (htask : w.task = r.hub.nextTask) (ha : origin a = none) (hwrite : a ≠ .write w.conn true) :
    (r.after a hub).mail w = [] := by
  have hreceived : framesOf w.task ((r.after a hub).received w.conn) = [] := by
    refine framesOf_eq_nil fun m hm htag => ?_
    replace hm : m ∈ r.noteReceived a w.conn := hm
    rw [noteReceived_of_ne hwrite] at hm
    exact (h.received_lt w.conn m _ hm htag).ne htask
  have hqueues : framesOf w.task ((r.after a hub).queues w.conn) = [] := by
    refine framesOf_eq_nil fun m hm htag => ?_
    rcases h.queues_step hhub w.conn with ⟨message, -, hgrown⟩ | ⟨k, -, hdropped⟩
    · rw [hgrown, ha] at hm
      rcases mem_append.mp hm with hold | hnew
      · exact (h.queued_lt w.conn m _ hold htag).ne htask
      · rw [mem_singleton.mp hnew] at htag
        cases htag
    · rw [hdropped] at hm
      exact (h.queued_lt w.conn m _ (mem_of_mem_drop hm) htag).ne htask
  exact append_eq_nil_iff.mpr ⟨hreceived, hqueues⟩

/-- A new subscription has no frames and reads the channel of its session from its end. -/
theorem kept_subscribe (h : Sound r) {c : ConnId} {env : SubRequest} {t : SubTask}
    (hopen : (r.hub.conns c).any Conn.writing = true)
    (hstep : r.step setup (.deliver (.subscribe c env)) = some r')
    (ht : r'.hub.tasks r.hub.nextTask = some t) :
    Kept ⟨c, env, t.sid, r.hub.nextTask⟩ (r.published t.sid).length r' := by
  have hsound := h.step hstep
  rw [Relay.step] at hstep
  split at hstep
  · cases hstep
  · next hub hhub =>
    cases hstep
    replace ht : hub.tasks r.hub.nextTask = some t := ht
    have hnone : r.hub.tasks r.hub.nextTask = none := by
      by_contra hsome
      obtain ⟨u, hu⟩ := Option.ne_none_iff_exists'.mp hsome
      exact (h.wired.task_lt _ u hu).ne rfl
    obtain ⟨cid, conn, env', text, sid, session, ha, hconn, htext, hsession, -, rfl, -, -,
      rfl⟩ := exists_pushTask hhub hnone ht
    cases ha
    have hmail := h.mail_nil (w := ⟨c, env, sid, r.hub.nextTask⟩) hhub rfl rfl nofun
    have hwriting : conn.writing = true := by
      rw [hconn] at hopen
      exact hopen
    have hchannel := fanout_pushTask r.hub c conn ⟨text, env.ch⟩ sid session.fanout
    have hcursor : ((r.hub.pushTask c conn ⟨text, env.ch⟩ sid session.fanout).fanout
        session.fanout).cursor (r.hub.fanout session.fanout).nextReceiver =
          some (r.hub.fanout session.fanout).sent.length := by
      rw [hchannel]
      exact update_self ..
    have hsent : ((r.hub.pushTask c conn ⟨text, env.ch⟩ sid session.fanout).fanout
        session.fanout).sent = (r.hub.fanout session.fanout).sent := by
      rw [hchannel]
      rfl
    exact ⟨hsound, _,
      { conn with subscriptions := conn.subscriptions ++ [(⟨text, env.ch⟩, r.hub.nextTask)] },
      session, (r.hub.fanout session.fanout).sent.length, {
        task_eq := ht
        conn_eq := rfl
        sid_eq := rfl
        conns_eq := conns_pushTask ..
        listed := ⟨text, htext, mem_append_right _ mem_cons_self⟩
        writing := hwriting
        registry_eq := hsession
        fanout_eq := rfl
        cursor_eq := hcursor
        pos_le := (congrArg length hsent).ge
        near := (congrArg length hsent).le.trans (Nat.le_add_right _ _)
        since_le := le_rfl
        account := by
          rw [hmail]
          show ([] : List Bytes) ++ ([] ++ drop _ ((r.hub.pushTask c conn ⟨text, env.ch⟩ sid
            session.fanout).fanout session.fanout).sent) = drop _ (r.published sid)
          rw [hsent, drop_length, drop_length]
          rfl }⟩

/-! ## Catching up -/

/-- How many steps a task is from having nothing in hand. -/
def rank : Phase → ℕ
  | .receiving => 0
  | .sleeping => 1
  | .sending _ => 3

/-- The steps that are left for the task and the writer of a subscription. -/
def remaining (hub : Hub) (t : SubTask) (conn : Conn) (pos : ℕ) : ℕ :=
  4 * ((hub.fanout t.fanout).sent.length - pos) + rank t.phase + conn.queue.messages.length

section CatchUp

variable {w : Sub} {since : ℕ} {t : SubTask} {conn : Conn} {session : SessionState} {pos : ℕ}

theorem Sub.Drives.stays (h : w.Drives a) (r : Relay) :
    w.Stays r (.deliver a) := by
  rcases h with rfl | rfl | rfl | rfl
  · trivial
  · trivial
  · trivial
  · exact fun _ => rfl

section

variable (h : Follows w since r t conn session pos)
include h

theorem Follows.step_of_send {bytes : Bytes} (hphase : t.phase = .sending bytes)
    (hempty : conn.queue.messages = []) :
    ∃ hub, Delivery.step setup r.hub (.send w.task) = some hub := by
  have hroom : conn.queue.messages.length < outCapacity := by
    rw [hempty]
    decide
  show ∃ hub, r.hub.send setup.minSendInterval w.task = some hub
  unfold Hub.send
  simp only [h.task_eq, hphase, h.conn_eq, h.conns_eq, if_pos h.writing, OutQueue.push,
    dif_pos hroom]
  exact ⟨_, rfl⟩

theorem Follows.step_of_wake (hphase : t.phase = .sleeping) :
    Delivery.step setup r.hub (.wake w.task) =
      some (r.hub.setTask w.task (some { t with phase := .receiving })) := by
  show r.hub.wake w.task = _
  unfold Hub.wake
  simp only [h.task_eq, hphase]

theorem Follows.step_of_recv (hphase : t.phase = .receiving)
    (hlt : pos < (r.hub.fanout t.fanout).sent.length) :
    Delivery.step setup r.hub (.recv w.task) =
      some ((r.hub.moveTo t (pos + 1)).setTask w.task
        (some { t with phase := .sending ((r.hub.fanout t.fanout).sent.get ⟨pos, hlt⟩) })) := by
  show r.hub.recv w.task = _
  unfold Hub.recv
  simp only [h.task_eq, hphase, Broadcast.Channel.recv, h.cursor_eq,
    if_neg (Nat.not_lt.mpr h.near), getElem?_eq_getElem hlt]
  rfl

theorem Follows.remaining_eq {u : SubTask} {c : Conn} {p : ℕ}
    (htask : r.hub.tasks w.task = some u) (hconn : r.hub.conns w.conn = some c)
    (hcursor : (r.hub.fanout u.fanout).cursor u.receiver = some p) :
    remaining r.hub t conn pos = remaining r.hub u c p := by
  obtain rfl := Option.some.inj (htask.symm.trans h.task_eq)
  obtain rfl := Option.some.inj (hconn.symm.trans h.conns_eq)
  obtain rfl := Option.some.inj (hcursor.symm.trans h.cursor_eq)
  rfl

variable (setup) in
/-- A subscription that is not up to date has a step of its own to take, and then fewer are
left. -/
theorem Follows.progress (hsound : Sound r) :
    framesOf w.task (r.received w.conn) = (r.published w.sid).drop since ∨
      ∃ a hub, w.Drives a ∧ Delivery.step setup r.hub a = some hub ∧
        ∀ t' conn' session' pos', Follows w since (r.after a hub) t' conn' session' pos' →
          remaining (r.after a hub).hub t' conn' pos' < remaining r.hub t conn pos := by
  by_cases hempty : conn.queue.messages = []
  · cases hphase : t.phase with
    | receiving =>
      by_cases hlt : pos < (r.hub.fanout t.fanout).sent.length
      · refine .inr ⟨_, _, .inl rfl, h.step_of_recv hphase hlt, fun t' conn' session' pos' h' => ?_⟩
        have hstands := standsAt_moveTo r.hub t (pos + 1)
        rw [h'.remaining_eq (update_self ..) h.conns_eq hstands.cursor_eq]
        show 4 * (((r.hub.moveTo t (pos + 1)).fanout t.fanout).sent.length - (pos + 1)) + 3 + _ < _
        rw [hstands.sent_eq, remaining, hphase, rank]
        omega
      · -- Everything is written.
        refine .inl ?_
        have haccount := h.account
        have hqueue : r.queues w.conn = [] := by
          have hsame := hsound.queue_eq w.conn
          rw [queueOf_eq h.conns_eq, hempty] at hsame
          exact map_eq_nil_iff.mp hsame
        rw [hphase, drop_of_length_le (Nat.not_lt.mp hlt), Relay.mail, hqueue] at haccount
        simpa [held, framesOf] using haccount
    | sleeping =>
      refine .inr ⟨_, _, .inr (.inr (.inl rfl)), h.step_of_wake hphase,
        fun t' conn' session' pos' h' => ?_⟩
      rw [h'.remaining_eq (update_self ..) h.conns_eq h.cursor_eq]
      show 4 * ((r.hub.fanout t.fanout).sent.length - pos) + 0 + _ < _
      rw [remaining, hphase, rank]
      omega
    | sending bytes =>
      obtain ⟨hub, hhub⟩ := h.step_of_send hphase hempty
      refine .inr ⟨_, _, .inr (.inl rfl), hhub, fun t' conn' session' pos' h' => ?_⟩
      obtain ⟨bytes', queue, phase, -, hheld, hpush, rfl⟩ := h.send_eq hhub
      rw [h'.remaining_eq (update_self ..) (update_self ..) h.cursor_eq]
      show 4 * ((r.hub.fanout t.fanout).sent.length - pos) + rank phase +
        queue.messages.length < _
      have hrank : rank phase ≤ 1 := by
        cases phase with
        | receiving => exact Nat.zero_le _
        | sleeping => exact le_rfl
        | sending => cases hheld
      rw [messages_of_push hpush, hempty, remaining, hphase, rank]
      simp only [nil_append, length_singleton]
      omega
  · refine .inr ⟨_, _, .inr (.inr (.inr rfl)), h.step_of_write,
      fun t' conn' session' pos' h' => ?_⟩
    rw [h'.remaining_eq h.task_eq (update_self ..) h.cursor_eq]
    have hsome := length_pos_iff.mpr hempty
    show 4 * ((r.hub.fanout t.fanout).sent.length - pos) + rank t.phase +
      conn.queue.messages.tail.length < _
    rw [length_tail, remaining]
    omega

end

variable (setup) in
/-- A client that stays and keeps up gets everything that is published, once its task and its
writer have taken their steps. -/
theorem Kept.catchesUp (h : Kept w since r) :
    ∃ (acts : List Delivery.Action) (r' : Relay), (∀ a ∈ acts, w.Drives a) ∧
      exec (Relay.step setup) r (acts.map .deliver) = some r' ∧
      r'.published w.sid = r.published w.sid ∧
      framesOf w.task (r'.received w.conn) = (r.published w.sid).drop since := by
  obtain ⟨t, conn, session, pos, hf⟩ := h.follows
  -- Fewer steps are left after every step.
  induction hn : remaining r.hub t conn pos using Nat.strong_induction_on generalizing r t conn
    session pos with
  | _ n ih =>
    rcases hf.progress setup h.sound with hdone | ⟨a, hub, ha, hhub, hless⟩
    · exact ⟨[], r, fun _ h => (nomatch h), rfl, rfl, hdone⟩
    · have hstep : r.step setup (.deliver a) = some (r.after a hub) := by
        rw [Relay.step, hhub]
      have hkept := h.step (ha.stays r) hstep
      obtain ⟨t', conn', session', pos', hf'⟩ := hkept.follows
      have hpublished : (r.after a hub).published w.sid = r.published w.sid := by
        rcases ha with rfl | rfl | rfl | rfl <;> rfl
      obtain ⟨acts, r', hdrives, hrun, hsame, hall⟩ :=
        ih _ (hn ▸ hless t' conn' session' pos' hf') hkept t' conn' session' pos' hf' rfl
      refine ⟨a :: acts, r', ?_, ?_, hsame.trans hpublished, hall.trans (by rw [hpublished])⟩
      · intro b hb
        rcases mem_cons.mp hb with rfl | hrest
        · exact ha
        · exact hdrives b hrest
      · rw [map_cons, exec, hstep]
        exact hrun

end CatchUp

/-! ## Sources and subscriptions -/

/-- The client of a subscription stays and keeps up, and the source is not removed. Sources may
be started, stopped, resumed and restarted. -/
def Stays (setup : Setup) (w : Sub) (s : System) (a : Action) : Prop :=
  ∀ e ∈ s.effect setup a, w.Stays s.relay e

instance decidableSystemStays (setup : Setup) (w : Sub) (s : System) (a : Action) :
    Decidable (Stays setup w s a) :=
  inferInstanceAs (Decidable (∀ e ∈ s.effect setup a, _))

/-- A step in two parts: the manager and the runners, and the server. -/
theorem act_of_step {setup : Setup} {s s' : System} {a : Action} (h : s.step setup a = some s') :
    ∃ e, s.act setup a = some (s'.manager, s'.rawFrames, e) ∧ s.Relayed setup s' e := by
  unfold System.step at h
  split at h
  · cases h
  · next hact =>
    cases h
    exact ⟨none, hact, rfl⟩
  · next e hact =>
    split at h
    · cases h
    · next hrelay =>
      cases h
      exact ⟨some e, hact, hrelay⟩

/-- A step of the system is no step of the server or the one that is its effect. -/
theorem relay_step {setup : Setup} {s s' : System} {a : Action} (h : s.step setup a = some s') :
    s'.relay = s.relay ∨
      ∃ e, s.effect setup a = some e ∧ s.relay.step setup.delivery e = some s'.relay := by
  obtain ⟨_ | e, hact, hrelay⟩ := act_of_step h
  · exact .inl hrelay
  · refine .inr ⟨e, ?_, hrelay⟩
    rw [System.effect, hact]
    rfl

theorem sound_exec {setup : Setup} {config : ManagerConfig} {s : System}
    (hrun : exec (System.step setup) (.new config) run = some s) : Sound s.relay := by
  have hkept {s : System} {a s'} (h : Sound s.relay) (hstep : s.step setup a = some s') :
      Sound s'.relay := by
    rcases relay_step hstep with hsame | ⟨e, -, hrelay⟩
    · rw [hsame]
      exact h
    · exact h.step hrelay
  have hinit : Sound (System.new config).relay := sound_new
  exact exec_keeps hkept hinit hrun

theorem kept_exec {setup : Setup} {w : Sub} {since : ℕ} {s s' : System} (h : Kept w since s.relay)
    (hstays : Guarded (System.step setup) (Stays setup w) s run)
    (hrun : exec (System.step setup) s run = some s') : Kept w since s'.relay := by
  have hkept : ∀ (s : System) a s', Kept w since s.relay → Stays setup w s a →
      s.step setup a = some s' → Kept w since s'.relay := by
    intro s a s' h hstays hstep
    rcases relay_step hstep with hsame | ⟨e, he, hrelay⟩
    · rw [hsame]
      exact h
    · exact h.step (hstays e he) hrelay
  exact exec_invariant hkept h hstays hrun

theorem Sub.Drives.isServed {w : Sub} (h : w.Drives a) : LiveSources.isServed a = true := by
  rcases h with rfl | rfl | rfl | rfl <;> rfl

theorem exec_serve {setup : Setup} {acts : List Delivery.Action} {s : System}
    (hserved : ∀ a ∈ acts, isServed a = true)
    (hrun : exec (Relay.step setup.delivery) s.relay (acts.map .deliver) = some r') :
    exec (System.step setup) s (acts.map .serve) = some { s with relay := r' } := by
  induction acts generalizing s with
  | nil =>
    cases hrun
    rfl
  | cons a rest ih =>
    obtain ⟨mid, hmid, hrest⟩ := exec_cons hrun
    have hstep : s.step setup (.serve a) = some { s with relay := mid } := by
      rw [System.step, System.act, if_pos (hserved a mem_cons_self)]
      simp only [hmid]
    rw [map_cons, exec, hstep]
    have hmidRun : exec (Relay.step setup.delivery) ({ s with relay := mid } : System).relay
        (rest.map .deliver) = some r' := hrest
    exact ih (fun b hb => hserved b (mem_cons_of_mem a hb)) hmidRun

/-- However its sources are started, stopped, resumed and restarted, a client that has
subscribed to a session once, stays and keeps up receives the frames published for the session
since then, as they were published and in their order: what it has received is always a front
part of them, and when its task and its writer have taken the steps left to them, it is all of
them. -/
theorem receives_published (setup : Setup) (config : ManagerConfig) {before after : List Action}
    {s s' s'' : System} {c : ConnId} {env : SubRequest} {t : SubTask}
    (hbefore : exec (System.step setup) (.new config) before = some s)
    (hopen : (s.relay.hub.conns c).any Conn.writing = true)
    (hsubscribe : s.step setup (.serve (.subscribe c env)) = some s')
    (hnew : s'.relay.hub.tasks s.relay.hub.nextTask = some t)
    (hstays : Guarded (System.step setup)
      (Stays setup ⟨c, env, t.sid, s.relay.hub.nextTask⟩) s' after)
    (hafter : exec (System.step setup) s' after = some s'') :
    framesOf s.relay.hub.nextTask (s''.relay.received c) <+:
        (s''.relay.published t.sid).drop (s.relay.published t.sid).length ∧
      ∃ (more : List Delivery.Action) (last : System),
        (∀ a ∈ more, (⟨c, env, t.sid, s.relay.hub.nextTask⟩ : Sub).Drives a) ∧
        exec (System.step setup) s'' (more.map .serve) = some last ∧
        last.relay.published t.sid = s''.relay.published t.sid ∧
        framesOf s.relay.hub.nextTask (last.relay.received c) =
          (last.relay.published t.sid).drop (s.relay.published t.sid).length := by
  have hsound := sound_exec hbefore
  have hbegin : s.relay.step setup.delivery (.deliver (.subscribe c env)) = some s'.relay := by
    rcases relay_step hsubscribe with hsame | ⟨e, he, hrelay⟩
    · -- The task is new, so the server has taken a step.
      rw [hsame] at hnew
      exact absurd (hsound.wired.task_lt _ t hnew) (lt_irrefl _)
    · cases he
      exact hrelay
  have hkept := kept_exec (kept_subscribe hsound hopen hbegin hnew) hstays hafter
  constructor
  · obtain ⟨t', conn, session, pos, hf⟩ := hkept.follows
    rw [← hf.account, Relay.mail, append_assoc]
    exact prefix_append _ _
  · obtain ⟨more, r', hdrives, hrun, hsame, hall⟩ := hkept.catchesUp setup.delivery
    refine ⟨more, { s'' with relay := r' }, hdrives,
      exec_serve (fun a ha => (hdrives a ha).isServed) hrun, hsame, ?_⟩
    show _ = (r'.published t.sid).drop _
    rw [hsame]
    exact hall

/-! ## Clients that fall behind or leave -/

/-- What holds of a subscription whatever becomes of its client and its source: the frames
written, those in the queue, the one the task holds and those the channel has for it are among
those published since it was made, in their order. -/
structure Among (w : Sub) (since : ℕ) (r : Relay) : Prop where
  sound : Sound r
  task_lt : w.task < r.hub.nextTask
  since_le : since ≤ (r.published w.sid).length
  mail : r.mail w <+ (r.published w.sid).drop since
  task : ∀ t, r.hub.tasks w.task = some t → t.conn = w.conn ∧ t.sid = w.sid ∧
    ∃ pos, (r.hub.fanout t.fanout).cursor t.receiver = some pos ∧
      r.mail w ++ held t.phase ++ (r.hub.fanout t.fanout).sent.drop pos <+
        (r.published w.sid).drop since

section

variable {w : Sub} {since : ℕ} {t : SubTask}

theorem Sound.mail_sublist (h : Sound r) (hhub : Delivery.step setup r.hub a = some hub)
    (hsend : a ≠ .send w.task) : (r.after a hub).mail w <+ r.mail w := by
  by_cases hwrite : a = .write w.conn true
  · subst hwrite
    rw [h.mail_write hhub]
  · have hreceived : (r.after a hub).received w.conn = r.received w.conn :=
      noteReceived_of_ne hwrite
    rw [Relay.mail, Relay.mail, hreceived]
    apply Sublist.append_left
    rcases h.queues_step hhub w.conn with ⟨message, -, hgrown⟩ | ⟨k, -, hdropped⟩
    · rw [hgrown, framesOf_append, framesOf_eq_nil (forall_mem_singleton.mpr (origin_ne hsend)),
        append_nil]
    · rw [hdropped]
      exact (drop_sublist _ _).filterMap _

/-- A task adds the frame it holds and then holds none. -/
theorem Sound.mail_send (h : Sound r) (ht : r.hub.tasks w.task = some t) (hconn : t.conn = w.conn)
    (hhub : Delivery.step setup r.hub (.send w.task) = some hub) :
    (r.after (.send w.task) hub).mail w <+ r.mail w ++ held t.phase ∧
      ∀ t', hub.tasks w.task = some t' → held t'.phase = [] := by
  replace hhub : r.hub.send setup.minSendInterval w.task = some hub := hhub
  revert hhub
  fun_cases r.hub.send setup.minSendInterval w.task with
  | case1 u hu | case4 u hu =>
    rintro ⟨⟩
    obtain ⟨hconns, htasks⟩ := dropTask_frame r.hub w.task
    constructor
    · have hqueues : (r.after (.send w.task) (r.hub.dropTask w.task)).queues w.conn =
          (r.queues w.conn).drop 0 := follow_drop <| by
        rw [h.queue_eq, queueOf, hconns]
        rfl
      rw [Relay.mail, hqueues]
      exact sublist_append_left _ _
    · intro t' ht'
      rw [htasks, update_self] at ht'
      cases ht'
  | case3 u hu bytes hphase conn hopen hwriting queue hpush phase =>
    intro hhub
    cases ht.symm.trans hu
    rw [hconn] at hopen hhub
    cases hhub
    constructor
    · rw [h.mail_push hopen hpush (update_self ..), hphase]
      rfl
    · intro t' ht'
      cases (update_self ..).symm.trans ht'
      show held (if _ then _ else _) = []
      split <;> rfl
  | _ => rintro ⟨⟩

theorem published_grows (r : Relay) (a : Delivery.Action) (hub : Hub) (sid : Uuid) :
    r.published sid <+: (r.after a hub).published sid := by
  show _ <+: Relay.notePublished r.published a sid
  cases a with
  | publishWire other bytes | publishMetrics other bytes =>
    rw [Relay.notePublished, update_apply]
    split_ifs with heq
    · rw [heq]
      exact prefix_append _ _
    · exact prefix_rfl
  | _ => exact prefix_rfl

/-- A task that goes on has no more in hand and before it than it had, and what is published. -/
theorem Among.task_step (h : Among w since r) (hhub : Delivery.step setup r.hub a = some hub)
    (ht : r.hub.tasks w.task = some t) {t' : SubTask} (ht' : hub.tasks w.task = some t') :
    SamePlace t t' ∧ ∃ pos, (hub.fanout t.fanout).cursor t.receiver = some pos ∧
      (r.after a hub).mail w ++ held t'.phase ++ (hub.fanout t.fanout).sent.drop pos <+
        ((r.after a hub).published w.sid).drop since := by
  obtain ⟨hconn, hsid, pos, hcursor, hall⟩ := h.task t ht
  have hmoved := h.sound.wired.taskMoved hhub ht ht'
  have hmore := ((published_grows r a hub w.sid).drop since).sublist
  have hfront (hheld : a = .send w.task ∨ held t'.phase = held t.phase) :
      (r.after a hub).mail w ++ held t'.phase <+ r.mail w ++ held t.phase := by
    by_cases hsend : a = .send w.task
    · subst hsend
      obtain ⟨hmail, hnone⟩ := h.sound.mail_send ht hconn hhub
      rw [hnone t' ht', append_nil]
      exact hmail
    · rw [hheld.resolve_left hsend]
      exact (h.sound.mail_sublist hhub hsend).append_right _
  have hmove {pos' : ℕ} (hheld : a = .send w.task ∨ held t'.phase = held t.phase)
      (hsent : (hub.fanout t.fanout).sent = (r.hub.fanout t.fanout).sent) (hle : pos ≤ pos') :
      (r.after a hub).mail w ++ held t'.phase ++ (hub.fanout t.fanout).sent.drop pos' <+
        ((r.after a hub).published w.sid).drop since := by
    rw [hsent]
    exact ((hfront hheld).append (drop_sublist_drop_left _ hle)).trans (hall.trans hmore)
  refine ⟨hmoved.samePlace, ?_⟩
  cases hmoved with
  | kept hsame =>
    exact ⟨pos, hsame.cursor_eq.trans hcursor, hmove (.inr rfl) hsame.sent_eq le_rfl⟩
  | @published _ sid bytes session ha hsession hfanout hchannel =>
    obtain rfl := hsid.symm.trans (h.sound.wired.task_session sid session _ t hsession ht hfanout)
    rw [Broadcast.Channel.send_of_receiver (h.sound.wired.receiver_lt _ t ht) hcursor] at hchannel
    refine ⟨pos, by rw [hchannel]; exact hcursor, ?_⟩
    have hpublished : (r.after a hub).published w.sid = r.published w.sid ++ [bytes] := by
      rcases ha with rfl | rfl <;> exact update_self ..
    rw [hchannel, hpublished, drop_append_of_le_length h.since_le, drop_append, ← append_assoc]
    exact (((hfront (.inr rfl)).append_right _).trans hall).append (drop_sublist _ _)
  | received hphase hat hbytes hstands =>
    cases hat.symm.trans hcursor
    obtain ⟨hlt, hget⟩ := List.getElem?_eq_some_iff.mp hbytes
    refine ⟨pos + 1, hstands.cursor_eq, ?_⟩
    rw [hphase, append_assoc, drop_eq_getElem_cons hlt, hget] at hall
    rw [hstands.sent_eq, append_assoc]
    exact ((h.sound.mail_sublist hhub (by rintro ⟨⟩)).append_right _).trans (hall.trans hmore)
  | lagged hphase hat hbehind hstands =>
    cases hat.symm.trans hcursor
    exact ⟨_, hstands.cursor_eq, hmove (.inr rfl) hstands.sent_eq (by omega)⟩
  | handed hphase _ _ hsame =>
    exact ⟨pos, by rw [hsame]; exact hcursor, hmove (.inl rfl) (by rw [hsame]) le_rfl⟩
  | woken hphase hsame =>
    refine ⟨pos, by rw [hsame]; exact hcursor, hmove (.inr ?_) (by rw [hsame]) le_rfl⟩
    rw [hphase]
    rfl

theorem Among.step (h : Among w since r) {e : Effect} (hstep : r.step setup e = some r') :
    Among w since r' := by
  have hsound := h.sound.step hstep
  cases e with
  | count sid bytes =>
    cases hstep
    exact ⟨hsound, h.task_lt, h.since_le, h.mail, h.task⟩
  | deliver a =>
    rw [Relay.step] at hstep
    split at hstep
    · cases hstep
    · next hub hhub =>
      cases hstep
      have hgrown := published_grows r a hub w.sid
      have hmore := (hgrown.drop since).sublist
      refine ⟨hsound, h.task_lt.trans_le (nextTask_le hhub), h.since_le.trans hgrown.length_le, ?_,
        fun t' ht' => ?_⟩
      · by_cases hsend : a = .send w.task
        · subst hsend
          cases ht : r.hub.tasks w.task with
          | none =>
            rw [Delivery.step, Hub.send, ht] at hhub
            cases hhub
          | some t =>
            obtain ⟨hconn, -, pos, -, hall⟩ := h.task t ht
            exact (h.sound.mail_send ht hconn hhub).1.trans
              ((sublist_append_left _ _).trans (hall.trans hmore))
        · exact ((h.sound.mail_sublist hhub hsend).trans h.mail).trans hmore
      · cases ht : r.hub.tasks w.task with
        | none =>
          obtain ⟨_, _, _, _, _, _, -, -, -, -, hnew, -⟩ := exists_pushTask hhub ht ht'
          exact absurd hnew h.task_lt.ne
        | some t =>
          obtain ⟨hconn, hsid, -⟩ := h.task t ht
          obtain ⟨⟨hc, -, hs, hf, hr⟩, hread⟩ := h.task_step hhub ht ht'
          refine ⟨hc.trans hconn, hs.trans hsid, ?_⟩
          rw [hf, hr]
          exact hread

theorem Kept.among (h : Kept w since r) : Among w since r := by
  obtain ⟨t, conn, session, pos, hf⟩ := h.follows
  refine ⟨h.sound, h.sound.wired.task_lt _ t hf.task_eq, hf.since_le, ?_, fun u hu => ?_⟩
  · rw [← hf.account]
    exact sublist_append_left _ _
  · cases hf.task_eq.symm.trans hu
    exact ⟨hf.conn_eq, hf.sid_eq, pos, hf.cursor_eq, by rw [append_assoc, hf.account]⟩

end

theorem among_exec {setup : Setup} {w : Sub} {since : ℕ} {s s' : System} (h : Among w since s.relay)
    (hrun : exec (System.step setup) s run = some s') : Among w since s'.relay := by
  have hkept {s : System} {a s'} (h : Among w since s.relay) (hstep : s.step setup a = some s') :
      Among w since s'.relay := by
    rcases relay_step hstep with hsame | ⟨e, -, hrelay⟩
    · rw [hsame]
      exact h
    · exact h.step hrelay
  exact exec_keeps hkept h hrun

/-- Whatever happens after a client has subscribed to a session, what it has received for the
subscription are frames published for the session since then, as they were published, in their
order and none of them twice. It may have fallen behind, taken the subscription back or left,
and the source may have been restarted or removed. -/
theorem receives_only_published (setup : Setup) (config : ManagerConfig)
    {before after : List Action} {s s' s'' : System} {c : ConnId} {env : SubRequest} {t : SubTask}
    (hbefore : exec (System.step setup) (.new config) before = some s)
    (hopen : (s.relay.hub.conns c).any Conn.writing = true)
    (hsubscribe : s.step setup (.serve (.subscribe c env)) = some s')
    (hnew : s'.relay.hub.tasks s.relay.hub.nextTask = some t)
    (hafter : exec (System.step setup) s' after = some s'') :
    framesOf s.relay.hub.nextTask (s''.relay.received c) <+
      (s''.relay.published t.sid).drop (s.relay.published t.sid).length := by
  have hbegin : s.relay.step setup.delivery (.deliver (.subscribe c env)) = some s'.relay := by
    obtain ⟨e, hact, hrelay⟩ := act_of_step hsubscribe
    obtain rfl := congrArg (fun done => done.2.2) (Option.some.inj hact)
    exact hrelay
  have hend := among_exec (kept_subscribe (sound_exec hbefore) hopen hbegin hnew).among hafter
  exact (sublist_append_left _ _).trans hend.mail

/-! ## A restart -/

def oneSource : Setup := ⟨⟨fun text => if text = "a" then some 0 else none, 0⟩, BitVec.ofNat 128⟩

/-- A start goes on until its row is stored. -/
def startSteps (start task : ℕ) : List Action :=
  [.manage (.spawn start) "" "" none, .manage (.register task) "mock" "a" none,
    .manage (.store start) "" "" none]

def openRun : List Action :=
  .manage (.startSpec (.mock "a") {} .epoch) "" "" none :: startSteps 0 0 ++ [.serve .connect]

/-- The source reads a frame and is restarted, and reads another frame. -/
def restartRun : List Action :=
  [Action.frame 0 (stampAt 0) [1] "mock:a", .manage (.restart 0 {} .epoch) "" "" none] ++
    startSteps 1 1 ++ [Action.frame 1 (stampAt 0) [2] "mock:a"]

def stateAfter (s : System) (run : List Action) : System :=
  (exec (System.step oneSource) s run).getD s

theorem exec_stateAfter {s : System} (h : (exec (System.step oneSource) s run).isSome = true) :
    exec (System.step oneSource) s run = some (stateAfter s run) := by
  obtain ⟨s', hs'⟩ := Option.isSome_iff_exists.mp h
  rw [stateAfter, hs']
  rfl

def opened : System := stateAfter (.new {}) openRun

def subscribed : System := stateAfter opened [.serve (.subscribe 0 ⟨some "a", none⟩)]

/-- A client that has subscribed before a restart receives the frames of both runs. -/
theorem receives_published_restart :
    ((stateAfter subscribed restartRun).relay.published 0).length = 2 ∧
      framesOf 0 ((stateAfter subscribed restartRun).relay.received 0) <+:
        (stateAfter subscribed restartRun).relay.published 0 ∧
      ∃ (more : List Delivery.Action) (last : System),
        exec (System.step oneSource) (stateAfter subscribed restartRun) (more.map .serve) =
          some last ∧
        framesOf 0 (last.relay.received 0) =
          (stateAfter subscribed restartRun).relay.published 0 := by
  have hopened : exec (System.step oneSource) (.new {}) openRun = some opened :=
    exec_stateAfter (by decide +kernel)
  have hstep : opened.step oneSource (.serve (.subscribe 0 ⟨some "a", none⟩)) =
      some subscribed := by
    have hrun : exec (System.step oneSource) opened [.serve (.subscribe 0 ⟨some "a", none⟩)] =
        some subscribed := exec_stateAfter (by decide +kernel)
    obtain ⟨mid, hmid, hend⟩ := exec_cons hrun
    rw [hmid]
    exact hend
  have hnew : subscribed.relay.hub.tasks opened.relay.hub.nextTask =
      some ⟨0, ⟨"a", none⟩, 0, 0, 0, .receiving, 0, 0, 0⟩ := by decide +kernel
  have hstays : Guarded (System.step oneSource)
      (Stays oneSource ⟨0, ⟨some "a", none⟩, 0, opened.relay.hub.nextTask⟩) subscribed
      restartRun := by decide +kernel
  obtain ⟨hstart, more, last, -, hmore, hsame, hall⟩ := receives_published oneSource {} hopened
    (by decide +kernel) hstep hnew hstays (exec_stateAfter (by decide +kernel))
  have hnext : opened.relay.hub.nextTask = 0 := by decide +kernel
  have hnone : (opened.relay.published 0).length = 0 := by decide +kernel
  refine ⟨by decide +kernel, hstart, more, last, hmore, ?_⟩
  rw [← hsame]
  exact hall

/-- The client receives one of the two frames and leaves. -/
def leaveRun : List Action :=
  restartRun ++ [Action.serve (.recv 0), .serve (.send 0), .serve (.write 0 true),
    .serve (.close 0)]

theorem receives_only_published_leave :
    framesOf 0 ((stateAfter subscribed leaveRun).relay.received 0) ≠ [] ∧
      framesOf 0 ((stateAfter subscribed leaveRun).relay.received 0) <+
        (stateAfter subscribed leaveRun).relay.published 0 := by
  have hrun : exec (System.step oneSource) opened [.serve (.subscribe 0 ⟨some "a", none⟩)] =
      some subscribed := exec_stateAfter (by decide +kernel)
  obtain ⟨mid, hmid, hend⟩ := exec_cons hrun
  exact ⟨by decide +kernel, receives_only_published oneSource {}
    (exec_stateAfter (by decide +kernel)) (by decide +kernel) (hmid.trans hend)
    (t := ⟨0, ⟨"a", none⟩, 0, 0, 0, .receiving, 0, 0, 0⟩) (by decide +kernel)
    (exec_stateAfter (by decide +kernel))⟩

end TraceMux.Server.LiveSources
