/-
# One subscription

What the steps of the server do to one subscription: to its task and the receiver of the
task, to the connection the task sends to, and to the queue of that connection. The steps of
other clients touch none of these, and a task ends for one of three reasons only: it was
aborted, the writer of its connection has failed, or its session is gone.
-/

import TraceMux.Server.Delivery

namespace TraceMux.Server.Delivery

open Base Base.Broadcast Base.Transition TraceMux.Core Function Option

/-! ## How tasks, connections and sessions hang together -/

/-- How the tasks, the connections and the sessions of a server hang together. -/
structure Wired (s : Hub) : Prop where
  conn_lt : ∀ id conn, s.conns id = some conn → id < s.nextConn
  task_lt : ∀ id t, s.tasks id = some t → id < s.nextTask
  task_conn_lt : ∀ id t, s.tasks id = some t → t.conn < s.nextConn
  receiver_lt : ∀ id t, s.tasks id = some t → t.receiver < (s.fanout t.fanout).nextReceiver
  fanout_lt : ∀ id t, s.tasks id = some t → t.fanout < s.ingest.nextFanout
  apart : ∀ i j t t', s.tasks i = some t → s.tasks j = some t' → t.fanout = t'.fanout →
    t.receiver = t'.receiver → i = j
  session_lt : ∀ sid session, s.ingest.registry sid = some session →
    session.fanout < s.ingest.nextFanout
  /-- A channel is of one session. -/
  session_eq : ∀ sid sid' session session', s.ingest.registry sid = some session →
    s.ingest.registry sid' = some session' → session.fanout = session'.fanout → sid = sid'
  task_session : ∀ sid session id t, s.ingest.registry sid = some session →
    s.tasks id = some t → t.fanout = session.fanout → t.sid = sid
  task_sid : ∀ i j t t', s.tasks i = some t → s.tasks j = some t' → t.fanout = t'.fanout →
    t.sid = t'.sid

structure SameFor (r : ReceiverId) (c c' : Channel Bytes) : Prop where
  sent_eq : c'.sent = c.sent
  capacity_eq : c'.capacity = c.capacity
  cursor_eq : c'.cursor r = c.cursor r
  next_le : c.nextReceiver ≤ c'.nextReceiver

section Channels

variable {r : ReceiverId} {c : Channel Bytes}

theorem SameFor.refl (r : ReceiverId) (c : Channel Bytes) : SameFor r c c :=
  ⟨rfl, rfl, rfl, le_rfl⟩

theorem sameFor_cursor {r' : ReceiverId} (hne : r ≠ r') (c : Channel Bytes) (pos : Option ℕ) :
    SameFor r c { c with cursor := update c.cursor r' pos } :=
  ⟨rfl, rfl, update_of_ne hne _ _, le_rfl⟩

theorem sameFor_subscribe (hlt : r < c.nextReceiver) : SameFor r c c.subscribe.2 :=
  ⟨rfl, rfl, update_of_ne hlt.ne _ _, Nat.le_succ _⟩

end Channels

/-- A task stays where it is: on its connection, at its session, with its receiver. -/
structure SamePlace (u v : SubTask) : Prop where
  conn_eq : v.conn = u.conn
  key_eq : v.key = u.key
  sid_eq : v.sid = u.sid
  fanout_eq : v.fanout = u.fanout
  receiver_eq : v.receiver = u.receiver

theorem SamePlace.refl (u : SubTask) : SamePlace u u := ⟨rfl, rfl, rfl, rfl, rfl⟩

/-- A step that makes no tasks and no sessions. -/
structure Settled (s s' : Hub) : Prop where
  conn_lt : ∀ id conn, s'.conns id = some conn → id < s'.nextConn
  nextConn_le : s.nextConn ≤ s'.nextConn
  nextTask_le : s.nextTask ≤ s'.nextTask
  registry_eq : s'.ingest.registry = s.ingest.registry
  nextFanout_eq : s'.ingest.nextFanout = s.ingest.nextFanout
  nextReceiver_le : ∀ f, (s.fanout f).nextReceiver ≤ (s'.fanout f).nextReceiver
  task_back : ∀ i v, s'.tasks i = some v → ∃ u, s.tasks i = some u ∧ SamePlace u v

section Wiring

variable {s s' : Hub} {t : SubTask} {c : Channel Bytes}

theorem Wired.settled (h : Wired s) (hsettled : Settled s s') : Wired s' where
  conn_lt := hsettled.conn_lt
  task_lt i v hv := by
    obtain ⟨u, hu, -⟩ := hsettled.task_back i v hv
    exact (h.task_lt i u hu).trans_le hsettled.nextTask_le
  task_conn_lt i v hv := by
    obtain ⟨u, hu, hplace⟩ := hsettled.task_back i v hv
    rw [hplace.conn_eq]
    exact (h.task_conn_lt i u hu).trans_le hsettled.nextConn_le
  receiver_lt i v hv := by
    obtain ⟨u, hu, hplace⟩ := hsettled.task_back i v hv
    rw [hplace.receiver_eq, hplace.fanout_eq]
    exact (h.receiver_lt i u hu).trans_le (hsettled.nextReceiver_le _)
  fanout_lt i v hv := by
    obtain ⟨u, hu, hplace⟩ := hsettled.task_back i v hv
    rw [hplace.fanout_eq, hsettled.nextFanout_eq]
    exact h.fanout_lt i u hu
  apart i j v v' hv hv' hf hr := by
    obtain ⟨u, hu, hplace⟩ := hsettled.task_back i v hv
    obtain ⟨u', hu', hplace'⟩ := hsettled.task_back j v' hv'
    rw [hplace.fanout_eq, hplace'.fanout_eq] at hf
    rw [hplace.receiver_eq, hplace'.receiver_eq] at hr
    exact h.apart i j u u' hu hu' hf hr
  session_lt := by
    rw [hsettled.registry_eq, hsettled.nextFanout_eq]
    exact h.session_lt
  session_eq := by
    rw [hsettled.registry_eq]
    exact h.session_eq
  task_session sid session i v hsession hv hf := by
    obtain ⟨u, hu, hplace⟩ := hsettled.task_back i v hv
    rw [hsettled.registry_eq] at hsession
    rw [hplace.fanout_eq] at hf
    rw [hplace.sid_eq]
    exact h.task_session sid session i u hsession hu hf
  task_sid i j v v' hv hv' hf := by
    obtain ⟨u, hu, hplace⟩ := hsettled.task_back i v hv
    obtain ⟨u', hu', hplace'⟩ := hsettled.task_back j v' hv'
    rw [hplace.fanout_eq, hplace'.fanout_eq] at hf
    rw [hplace.sid_eq, hplace'.sid_eq]
    exact h.task_sid i j u u' hu hu' hf

variable {i : SubTaskId} {v : SubTask}

/-- Changing the channel of a task leaves the others alone. -/
theorem Wired.sameFor (h : Wired s) {id : SubTaskId} (ht : s.tasks id = some t)
    (hv : s.tasks i = some v) (hne : i ≠ id)
    (hothers : ∀ r, r ≠ t.receiver → SameFor r (s.fanout t.fanout) c) :
    SameFor v.receiver (s.fanout v.fanout) ((s.setFanout t.fanout c).fanout v.fanout) := by
  by_cases hf : v.fanout = t.fanout
  · rw [hf, Hub.fanout_setFanout_self]
    exact hothers _ fun hr => hne (h.apart i id v t hv ht hf hr)
  · rw [Hub.fanout_setFanout_of_ne hf]
    exact .refl _ _

structure Moves (r : ReceiverId) (c c' : Channel Bytes) : Prop where
  sent_eq : c'.sent = c.sent
  nextReceiver_eq : c'.nextReceiver = c.nextReceiver
  others : ∀ r', r' ≠ r → SameFor r' c c'

theorem moves_cursor (r : ReceiverId) (c : Channel Bytes) (pos : Option ℕ) :
    Moves r c { c with cursor := update c.cursor r pos } :=
  ⟨rfl, rfl, fun _ hne => sameFor_cursor hne c pos⟩

theorem Moves.nextReceiver_le (h : Moves t.receiver (s.fanout t.fanout) c) (f : FanoutId) :
    (s.fanout f).nextReceiver ≤ ((s.setFanout t.fanout c).fanout f).nextReceiver := by
  by_cases hf : f = t.fanout
  · rw [hf, Hub.fanout_setFanout_self, h.nextReceiver_eq]
  · rw [Hub.fanout_setFanout_of_ne hf]

theorem Moves.sent_setFanout (h : Moves t.receiver (s.fanout t.fanout) c) (f : FanoutId) :
    ((s.setFanout t.fanout c).fanout f).sent = (s.fanout f).sent := by
  by_cases hf : f = t.fanout
  · rw [hf, Hub.fanout_setFanout_self, h.sent_eq]
  · rw [Hub.fanout_setFanout_of_ne hf]

theorem send_grows (c : Channel Bytes) (bytes : Bytes) :
    c.sent.length ≤ (c.send bytes).2.sent.length ∧
      (c.send bytes).2.nextReceiver = c.nextReceiver := by
  unfold Channel.send
  split
  · exact ⟨le_rfl, rfl⟩
  · exact ⟨by simp, rfl⟩

/-- A table of sessions in which every channel stays with its session: each row is an old one
or the only new one, whose channel is new. -/
def RowsFrom (ingest ingest' : Ingest) : Prop :=
  ∀ sid session, ingest'.registry sid = some session →
    ingest.registry sid = some session ∨
      (session.fanout = ingest.nextFanout ∧ session.fanout < ingest'.nextFanout ∧
        ∀ sid', sid' ≠ sid → ingest'.registry sid' = ingest.registry sid')

/-- Registering touches no channel. A session that is there keeps its row. -/
theorem registerSession_rows (ingest : Ingest) (sid : Uuid) (kind iface : String)
    (label : Option String) :
    (ingest.registerSession sid kind iface label).2.fanouts = ingest.fanouts ∧
      ingest.nextFanout ≤ (ingest.registerSession sid kind iface label).2.nextFanout ∧
      RowsFrom ingest (ingest.registerSession sid kind iface label).2 := by
  unfold Ingest.registerSession
  split
  · exact ⟨rfl, le_rfl, fun _ _ hs => .inl hs⟩
  · refine ⟨rfl, Nat.le_succ _, fun sid' session hs => ?_⟩
    rcases update_some_eq_some hs with ⟨rfl, rfl⟩ | ⟨-, hold⟩
    · exact .inr ⟨rfl, Nat.lt_succ_self _, fun other hne => update_of_ne hne _ _⟩
    · exact .inl hold

theorem Wired.withIngest (h : Wired s) (ingest : Ingest)
    (hfanouts : ingest.fanouts = s.ingest.fanouts)
    (hnext : s.ingest.nextFanout ≤ ingest.nextFanout) (hrows : RowsFrom s.ingest ingest) :
    Wired { s with ingest := ingest } where
  conn_lt := h.conn_lt
  task_lt := h.task_lt
  task_conn_lt := h.task_conn_lt
  receiver_lt i t ht := by
    rw [show ({ s with ingest := ingest } : Hub).fanout t.fanout = s.fanout t.fanout from
      congrFun hfanouts _]
    exact h.receiver_lt i t ht
  fanout_lt i t ht := (h.fanout_lt i t ht).trans_le hnext
  apart := h.apart
  session_lt sid session hs := by
    rcases hrows sid session hs with hold | ⟨-, hlt, -⟩
    · exact (h.session_lt sid session hold).trans_le hnext
    · exact hlt
  session_eq sid sid' session session' hs hs' hf := by
    by_contra hne
    rcases hrows sid session hs with hold | ⟨hnew, -, hsame⟩
    · rcases hrows sid' session' hs' with hold' | ⟨hnew', -, -⟩
      · exact hne (h.session_eq sid sid' session session' hold hold' hf)
      · exact absurd (hf.trans hnew') (h.session_lt sid session hold).ne
    · have hold' := (hsame sid' (Ne.symm hne)).symm.trans hs'
      exact absurd (hf.symm.trans hnew) (h.session_lt sid' session' hold').ne
  task_session sid session i t hs ht hf := by
    rcases hrows sid session hs with hold | ⟨hnew, -, -⟩
    · exact h.task_session sid session i t hold ht hf
    · exact absurd (hf.trans hnew) (h.fanout_lt i t ht).ne
  task_sid := h.task_sid

theorem lookup_some_mem {entries : List (SubscriptionKey × SubTaskId)} {key : SubscriptionKey}
    {task : SubTaskId} (h : entries.lookup key = some task) : (key, task) ∈ entries := by
  obtain ⟨before, after, heq, -⟩ := List.lookup_eq_some_iff.mp h
  rw [heq]
  simp

theorem Wired.sameFor_subscribe (h : Wired s) (hv : s.tasks i = some v) (f : FanoutId) :
    SameFor v.receiver (s.fanout v.fanout)
      ((s.setFanout f (s.fanout f).subscribe.2).fanout v.fanout) := by
  by_cases hf : v.fanout = f
  · subst hf
    rw [Hub.fanout_setFanout_self]
    exact Delivery.sameFor_subscribe (h.receiver_lt i v hv)
  · rw [Hub.fanout_setFanout_of_ne hf]
    exact .refl _ _

/-- A new task has a receiver of its own on the channel of its session. -/
theorem Wired.pushTask (h : Wired s) {id : ConnId} {conn : Conn} {sid : Uuid}
    {session : SessionState} (hconn : s.conns id = some conn) (key : SubscriptionKey)
    (hsession : s.ingest.registry sid = some session) :
    Wired (s.pushTask id conn key sid session.fanout) where
  conn_lt := forall_update h.conn_lt (h.conn_lt id conn hconn)
  task_lt := forall_update (fun i v hv => Nat.lt_succ_of_lt (h.task_lt i v hv)) (Nat.lt_succ_self _)
  task_conn_lt := forall_update h.task_conn_lt (h.conn_lt id conn hconn)
  receiver_lt i v hv := by
    rcases update_some_eq_some hv with ⟨rfl, rfl⟩ | ⟨-, hold⟩
    · show (s.fanout session.fanout).nextReceiver <
        ((s.setFanout session.fanout (s.fanout session.fanout).subscribe.2).fanout
          session.fanout).nextReceiver
      rw [Hub.fanout_setFanout_self]
      exact Nat.lt_succ_self _
    · exact (h.receiver_lt i v hold).trans_le (h.sameFor_subscribe hold _).next_le
  fanout_lt := forall_update h.fanout_lt (h.session_lt sid session hsession)
  apart i j v v' hv hv' hf hr := by
    have hfresh : ∀ k u, s.tasks k = some u → u.fanout = session.fanout →
        u.receiver ≠ (s.fanout session.fanout).nextReceiver := by
      intro k u hu hfu
      have hlt := h.receiver_lt k u hu
      rw [hfu] at hlt
      exact hlt.ne
    rcases update_some_eq_some hv with ⟨hi, rfl⟩ | ⟨-, hold⟩
    · rcases update_some_eq_some hv' with ⟨hj, -⟩ | ⟨-, hold'⟩
      · rw [hi, hj]
      · exact absurd hr.symm (hfresh j v' hold' hf.symm)
    · rcases update_some_eq_some hv' with ⟨-, rfl⟩ | ⟨-, hold'⟩
      · exact absurd hr (hfresh i v hold hf)
      · exact h.apart i j v v' hold hold' hf hr
  session_lt := h.session_lt
  session_eq := h.session_eq
  task_session sid' session' i v hsession' hv hf := by
    rcases update_some_eq_some hv with ⟨-, rfl⟩ | ⟨-, hold⟩
    · exact h.session_eq sid sid' session session' hsession hsession' hf
    · exact h.task_session sid' session' i v hsession' hold hf
  task_sid i j v v' hv hv' hf := by
    rcases update_some_eq_some hv with ⟨-, rfl⟩ | ⟨-, hold⟩
    · rcases update_some_eq_some hv' with ⟨-, rfl⟩ | ⟨-, hold'⟩
      · rfl
      · exact (h.task_session sid session j v' hsession hold' hf.symm).symm
    · rcases update_some_eq_some hv' with ⟨-, rfl⟩ | ⟨-, hold'⟩
      · exact h.task_session sid session i v hsession hold hf
      · exact h.task_sid i j v v' hold hold' hf

theorem dropTask_frame (s : Hub) (task : SubTaskId) :
    (s.dropTask task).conns = s.conns ∧
      (s.dropTask task).tasks = Function.update s.tasks task none := by
  unfold Hub.dropTask
  split
  · next hnone => exact ⟨rfl, by rw [← hnone, update_eq_self]⟩
  · exact ⟨rfl, rfl⟩

/-! ## Every step keeps the wiring -/

namespace Wired

variable {cid : ConnId} {id : SubTaskId} {t' : SubTask} (h : Wired s)
include h

theorem setConn {old : Conn} (hold : s.conns cid = some old) (conn : Option Conn) :
    Wired (s.setConn cid conn) := by
  apply h.settled
  refine ⟨fun other c hc => ?_, le_rfl, le_rfl, rfl, rfl, fun _ => le_rfl, fun i v hv =>
    ⟨v, hv, .refl v⟩⟩
  rcases update_eq_some hc with ⟨rfl, -⟩ | ⟨-, hc⟩
  · exact h.conn_lt other old hold
  · exact h.conn_lt other c hc

theorem connected :
    Wired { s.setConn s.nextConn (some ⟨.empty, true, []⟩) with nextConn := s.nextConn + 1 } := by
  apply h.settled
  refine ⟨forall_update (fun other c hc => ?_) (Nat.lt_succ_self _), Nat.le_succ _, le_rfl, rfl,
    rfl, fun _ => le_rfl, fun i v hv => ⟨v, hv, .refl v⟩⟩
  exact Nat.lt_succ_of_lt (h.conn_lt other c hc)

theorem setTask (ht : s.tasks id = some t) (hplace : SamePlace t t')
    (hmoves : Moves t.receiver (s.fanout t.fanout) c) :
    Wired ((s.setFanout t.fanout c).setTask id (some t')) := by
  apply h.settled
  exact ⟨h.conn_lt, le_rfl, le_rfl, rfl, rfl, hmoves.nextReceiver_le,
    forall_update (fun i v hv => ⟨v, hv, .refl v⟩) ⟨t, ht, hplace⟩⟩

theorem setPhase (ht : s.tasks id = some t) (hplace : SamePlace t t') :
    Wired (s.setTask id (some t')) := by
  have hsame : (s.setFanout t.fanout (s.fanout t.fanout)).setTask id (some t') =
      s.setTask id (some t') := by
    simp [Hub.setFanout]
  rw [← hsame]
  exact h.setTask ht hplace ⟨rfl, rfl, fun r _ => .refl r _⟩

theorem moveTo (ht : s.tasks id = some t) (pos : ℕ) : Wired (s.moveTo t pos) := by
  have hsame : (s.moveTo t pos).setTask id (some t) = s.moveTo t pos := by
    rw [Hub.setTask, show some t = (s.moveTo t pos).tasks id from ht.symm, update_eq_self]
  rw [← hsame]
  exact h.setTask ht (.refl t) (moves_cursor _ _ _)

theorem dropTask (id : SubTaskId) : Wired (s.dropTask id) := by
  unfold Hub.dropTask
  split
  · exact h
  · next t ht =>
    have hmoves : Moves t.receiver (s.fanout t.fanout)
        ((s.fanout t.fanout).unsubscribe t.receiver) := moves_cursor _ _ none
    apply h.settled
    exact ⟨h.conn_lt, le_rfl, le_rfl, rfl, rfl, hmoves.nextReceiver_le, fun i v hv =>
      ⟨v, (update_none_eq_some hv).2, .refl v⟩⟩

theorem close (cid : ConnId) : Wired (s.close cid) := by
  apply h.settled
  exact ⟨fun other c hc => h.conn_lt other c (update_none_eq_some hc).2, le_rfl, le_rfl, rfl, rfl,
    fun _ => le_rfl, fun i v hv => ⟨v, hv, .refl v⟩⟩

theorem answered {conn : Conn} (hconn : s.conns cid = some conn)
    (hanswer : Answered s cid conn s') : Wired s' := by
  cases hanswer with
  | queued queue => exact h.setConn hconn _
  | closed => exact h.close cid

theorem publish (f : FanoutId) (bytes : Bytes) : Wired (s.publish f bytes) := by
  apply h.settled
  refine ⟨h.conn_lt, le_rfl, le_rfl, rfl, rfl, fun g => ?_, fun i v hv => ⟨v, hv, .refl v⟩⟩
  show (s.fanout g).nextReceiver ≤
    ((s.setFanout f ((s.fanout f).send bytes).2).fanout g).nextReceiver
  by_cases hg : g = f
  · rw [hg, Hub.fanout_setFanout_self, (send_grows _ _).2]
  · rw [Hub.fanout_setFanout_of_ne hg]

theorem step {setup : Setup} {a : Action} (hstep : Delivery.step setup s a = some s') :
    Wired s' := by
  cases stepped_of_step hstep with
  | registered sid kind iface label =>
    obtain ⟨hfanouts, hnext, hrows⟩ := registerSession_rows s.ingest sid kind iface label
    exact h.withIngest _ hfanouts hnext hrows
  | removed sid =>
    exact h.withIngest (s.ingest.removeSession sid) rfl le_rfl fun _ _ hs =>
      .inl (update_none_eq_some hs).2
  | swallowed | swallowedMetrics => exact h
  | @published sid bytes session hsession =>
    exact (h.publish session.fanout bytes).withIngest
      ((s.publish session.fanout bytes).ingest.recordFrame sid bytes.length) rfl le_rfl
      fun _ _ hs => .inl hs
  | publishedMetrics hsession => exact h.publish _ _
  | connected => exact h.connected
  | subscribed hconn htext hnew hsid hsession => exact h.pushTask hconn _ hsession
  | kept hconn htext hold => exact h
  | refused hconn hsession hanswer | malformed hconn htext hanswer | replied hconn hanswer =>
    exact h.answered hconn hanswer
  | unsubscribed hconn htext hold => exact h.setConn hconn _
  | absent hconn htext hnew => exact h
  | closed id => exact h.close id
  | received ht hphase hcursor hmessage =>
    exact h.setTask ht ⟨rfl, rfl, rfl, rfl, rfl⟩ (moves_cursor _ _ _)
  | lagged ht hphase hcursor hbehind => exact h.moveTo ht _
  | ended id => exact h.dropTask id
  | handed ht hphase hconn hwriting hidle =>
    exact (h.setConn hconn _).setPhase ht ⟨rfl, rfl, rfl, rfl, rfl⟩
  | cut ht | cancelled ht => exact h.dropTask _
  | woken ht hphase => exact h.setPhase ht ⟨rfl, rfl, rfl, rfl, rfl⟩
  | written hconn => exact h.setConn hconn _

end Wired

end Wiring

theorem wired_new : Wired .new := by
  constructor <;> intros <;> simp_all [Hub.new, Ingest.new]

/-! ## The task and its receiver -/

/-- A receiver has gone to a place, and the channel is as before. -/
structure StandsAt (r : ReceiverId) (pos : ℕ) (c c' : Channel Bytes) : Prop where
  sent_eq : c'.sent = c.sent
  capacity_eq : c'.capacity = c.capacity
  cursor_eq : c'.cursor r = some pos

theorem standsAt_moveTo (s : Hub) (t : SubTask) (pos : ℕ) :
    StandsAt t.receiver pos (s.fanout t.fanout) ((s.moveTo t pos).fanout t.fanout) := by
  rw [Hub.moveTo, Hub.fanout_setFanout_self]
  exact ⟨rfl, rfl, update_self ..⟩

/-- What a step does to a task that is still there afterwards. -/
inductive TaskMoved (s s' : Hub) (id : SubTaskId) (t : SubTask) : Action → SubTask → Prop
  | kept {a : Action} (hsame : SameFor t.receiver (s.fanout t.fanout) (s'.fanout t.fanout)) :
      TaskMoved s s' id t a t
  | published {a : Action} {sid : Uuid} {bytes : Bytes} {session : SessionState}
      (ha : a = .publishWire sid bytes ∨ a = .publishMetrics sid bytes)
      (hsession : s.ingest.registry sid = some session) (hfanout : t.fanout = session.fanout)
      (hchannel : s'.fanout t.fanout = ((s.fanout t.fanout).send bytes).2) :
      TaskMoved s s' id t a t
  | received {pos : ℕ} {bytes : Bytes} (hphase : t.phase = .receiving)
      (hcursor : (s.fanout t.fanout).cursor t.receiver = some pos)
      (hbytes : (s.fanout t.fanout).sent[pos]? = some bytes)
      (hstands : StandsAt t.receiver (pos + 1) (s.fanout t.fanout) (s'.fanout t.fanout)) :
      TaskMoved s s' id t (.recv id) { t with phase := .sending bytes }
  | lagged {pos : ℕ} (hphase : t.phase = .receiving)
      (hcursor : (s.fanout t.fanout).cursor t.receiver = some pos)
      (hbehind : pos + (s.fanout t.fanout).capacity < (s.fanout t.fanout).sent.length)
      (hstands : StandsAt t.receiver
        ((s.fanout t.fanout).sent.length - (s.fanout t.fanout).capacity) (s.fanout t.fanout)
        (s'.fanout t.fanout)) : TaskMoved s s' id t (.recv id) t
  | handed {bytes : Bytes} {phase : Phase} (hphase : t.phase = .sending bytes)
      (hwriting : (s.conns t.conn).any Conn.writing = true)
      (hidle : phase = .receiving ∨ phase = .sleeping)
      (hsame : s'.fanout t.fanout = s.fanout t.fanout) :
      TaskMoved s s' id t (.send id) { t with phase := phase, handed := t.handed + 1 }
  | woken (hphase : t.phase = .sleeping) (hsame : s'.fanout t.fanout = s.fanout t.fanout) :
      TaskMoved s s' id t (.wake id) { t with phase := .receiving }

section Tasks

variable {setup : Setup} {s s' : Hub} {a : Action} {id : SubTaskId} {t t' : SubTask}

section

variable (hw : Wired s)
include hw

/-- A task is left alone when another one ends. -/
theorem Wired.sameFor_dropTask {other : SubTaskId} (ht : (s.dropTask other).tasks id = some t) :
    s.tasks id = some t ∧
      SameFor t.receiver (s.fanout t.fanout) ((s.dropTask other).fanout t.fanout) := by
  rw [(dropTask_frame s other).2] at ht
  obtain ⟨hne, hold⟩ := update_none_eq_some ht
  refine ⟨hold, ?_⟩
  unfold Hub.dropTask
  split
  · exact .refl _ _
  · next u hu => exact hw.sameFor hu hold hne fun r hr => sameFor_cursor hr _ _

/-- A frame is stored for a task whose receiver is on the channel. -/
theorem Wired.fanout_publish {f : FanoutId} {pos : ℕ} (bytes : Bytes) (ht : s.tasks id = some t)
    (hcursor : (s.fanout t.fanout).cursor t.receiver = some pos) (hf : t.fanout = f) :
    (s.publish f bytes).fanout t.fanout =
      { s.fanout t.fanout with sent := (s.fanout t.fanout).sent ++ [bytes] } := by
  have hlt := hw.receiver_lt id t ht
  show (s.setFanout f ((s.fanout f).send bytes).2).fanout t.fanout = _
  rw [hf] at hlt hcursor ⊢
  rw [Hub.fanout_setFanout_self]
  exact Channel.send_of_receiver hlt hcursor bytes

end

theorem taskMoved_publish {sid : Uuid} {bytes : Bytes} {session : SessionState}
    (ha : a = .publishWire sid bytes ∨ a = .publishMetrics sid bytes)
    (hsession : s.ingest.registry sid = some session)
    (hchannels : s'.ingest.fanouts = (s.publish session.fanout bytes).ingest.fanouts) :
    TaskMoved s s' id t a t := by
  have hchannel : ∀ f, s'.fanout f = (s.publish session.fanout bytes).fanout f :=
    fun f => congrFun hchannels f
  by_cases hf : t.fanout = session.fanout
  · apply TaskMoved.published ha hsession hf
    rw [hchannel, hf]
    exact update_self ..
  · apply TaskMoved.kept
    rw [hchannel, show (s.publish session.fanout bytes).fanout t.fanout = s.fanout t.fanout from
      update_of_ne hf _ _]
    exact .refl _ _

theorem TaskMoved.samePlace (h : TaskMoved s s' id t a t') : SamePlace t t' := by
  cases h <;> exact ⟨rfl, rfl, rfl, rfl, rfl⟩

theorem taskMoved_of_same (ht : s.tasks id = some t)
    (hsame : s.tasks id = some t' ∧
      SameFor t'.receiver (s.fanout t'.fanout) (s'.fanout t'.fanout)) :
    TaskMoved s s' id t a t' := by
  obtain ⟨hold, hsame⟩ := hsame
  rw [ht, some.injEq] at hold
  subst hold
  exact .kept hsame

/-- All that can happen to a task that goes on. -/
theorem Wired.taskMoved (hw : Wired s) (hstep : Delivery.step setup s a = some s')
    (ht : s.tasks id = some t) (ht' : s'.tasks id = some t') : TaskMoved s s' id t a t' := by
  have hstays : ∀ {u}, s.tasks id = some u → u = t := fun hu =>
    some.inj (hu.symm.trans ht)
  cases stepped_of_step hstep with
  | registered sid kind iface label =>
    have hsame : SameFor t'.receiver (s.fanout t'.fanout)
        ((s.ingest.registerSession sid kind iface label).2.fanouts t'.fanout) := by
      rw [(registerSession_rows s.ingest sid kind iface label).1]
      exact .refl _ _
    exact taskMoved_of_same ht ⟨ht', hsame⟩
  | removed | swallowed | swallowedMetrics | connected | kept | absent | unsubscribed | closed
  | written => exact taskMoved_of_same ht ⟨ht', .refl _ _⟩
  | published hsession =>
    rw [hstays ht']
    exact taskMoved_publish (.inl rfl) hsession rfl
  | publishedMetrics hsession =>
    rw [hstays ht']
    exact taskMoved_publish (.inr rfl) hsession rfl
  | subscribed hconn htext hnew hsid hsession =>
    have hold : s.tasks id = some t' :=
      (update_of_ne (hw.task_lt id t ht).ne _ _).symm.trans ht'
    exact taskMoved_of_same ht ⟨hold, hw.sameFor_subscribe hold _⟩
  | refused _ _ hanswer | malformed _ _ hanswer | replied _ hanswer =>
    cases hanswer <;> exact taskMoved_of_same ht ⟨ht', .refl _ _⟩
  | received hu hphase hcursor hmessage =>
    rcases update_some_eq_some ht' with ⟨rfl, rfl⟩ | ⟨hne, hold⟩
    · cases hstays hu
      exact .received hphase hcursor hmessage (standsAt_moveTo s t _)
    · exact taskMoved_of_same ht
        ⟨hold, hw.sameFor hu hold hne fun r hr => sameFor_cursor hr _ _⟩
  | @lagged other u upos hu hphase hcursor hbehind =>
    by_cases hne : id = other
    · subst hne
      cases hstays hu
      cases hstays ht'
      exact .lagged hphase hcursor hbehind (standsAt_moveTo s t _)
    · exact taskMoved_of_same ht
        ⟨ht', hw.sameFor hu ht' hne fun r hr => sameFor_cursor hr _ _⟩
  | ended | cut | cancelled => exact taskMoved_of_same ht (hw.sameFor_dropTask ht')
  | handed hu hphase hconn hwriting hidle =>
    rcases update_some_eq_some ht' with ⟨rfl, rfl⟩ | ⟨-, hold⟩
    · cases hstays hu
      exact .handed hphase (by rw [hconn]; exact hwriting) hidle rfl
    · exact taskMoved_of_same ht ⟨hold, .refl _ _⟩
  | woken hu hphase =>
    rcases update_some_eq_some ht' with ⟨rfl, rfl⟩ | ⟨-, hold⟩
    · cases hstays hu
      exact .woken hphase rfl
    · exact taskMoved_of_same ht ⟨hold, .refl _ _⟩

theorem tasks_of_send (hstep : Delivery.step setup s (.send id) = some s')
    (ht : s.tasks id = some t) (hwriting : (s.conns t.conn).any Conn.writing = true) :
    ∃ phase, (phase = .receiving ∨ phase = .sleeping) ∧
      s'.tasks id = some { t with phase := phase, handed := t.handed + 1 } ∧
      ∀ f, s'.fanout f = s.fanout f := by
  cases stepped_of_step hstep with
  | handed hu hphase hconn hwriting' hidle =>
    cases hu.symm.trans ht
    exact ⟨_, hidle, update_self .., fun _ => rfl⟩
  | cut hu hno =>
    cases hu.symm.trans ht
    rw [hno] at hwriting
    cases hwriting

theorem conns_pushTask (s : Hub) (cid : ConnId) (conn : Conn) (key : SubscriptionKey) (sid : Uuid)
    (f : FanoutId) :
    (s.pushTask cid conn key sid f).conns cid =
      some { conn with subscriptions := conn.subscriptions ++ [(key, s.nextTask)] } :=
  update_self ..

theorem fanout_pushTask (s : Hub) (cid : ConnId) (conn : Conn) (key : SubscriptionKey) (sid : Uuid)
    (f : FanoutId) : (s.pushTask cid conn key sid f).fanout f = (s.fanout f).subscribe.2 :=
  update_self ..

/-- A task begins with a subscription, at the end of the channel of the session. -/
theorem exists_pushTask (hstep : Delivery.step setup s a = some s') (ht : s.tasks id = none)
    (ht' : s'.tasks id = some t') :
    ∃ cid conn env text sid session, a = .subscribe cid env ∧ s.conns cid = some conn ∧
      env.sid = some text ∧ s.ingest.registry sid = some session ∧ id = s.nextTask ∧
      t' = ⟨cid, ⟨text, env.ch⟩, sid, session.fanout, (s.fanout session.fanout).nextReceiver,
        .receiving, s.published session.fanout, 0, 0⟩ ∧ setup.parse text = some sid ∧
      conn.subscriptions.lookup ⟨text, env.ch⟩ = none ∧
      s' = s.pushTask cid conn ⟨text, env.ch⟩ sid session.fanout := by
  have hnever : ∀ {u}, s.tasks id ≠ some u := fun hu => by
    rw [ht] at hu
    cases hu
  cases stepped_of_step hstep with
  | registered | removed | swallowed | swallowedMetrics | published | publishedMetrics | connected
  | kept | absent | unsubscribed | closed | lagged | written => exact absurd ht' hnever
  | @subscribed cid env conn text sid session hconn htext hnew hsid hsession =>
    rcases update_some_eq_some ht' with ⟨rfl, rfl⟩ | ⟨-, hold⟩
    · exact ⟨cid, conn, env, text, sid, session, rfl, hconn, htext, hsession, rfl, rfl, hsid, hnew,
        rfl⟩
    · exact absurd hold hnever
  | refused _ _ hanswer | malformed _ _ hanswer | replied _ hanswer =>
    cases hanswer <;> exact absurd ht' hnever
  | ended | cut | cancelled =>
    rw [(dropTask_frame _ _).2] at ht'
    exact absurd (update_none_eq_some ht').2 hnever
  | received hu | handed hu | woken hu =>
    rcases update_some_eq_some ht' with ⟨rfl, -⟩ | ⟨-, hold⟩
    · exact absurd hu hnever
    · exact absurd hold hnever

/-- Tasks stay apart when a new one is apart from those that are there. -/
theorem Wired.apart_step {Place : Type*} {place : SubTask → Place}
    (hplace : ∀ {u v}, SamePlace u v → place v = place u) (hw : Wired s)
    (hstep : Delivery.step setup s a = some s')
    (hold : ∀ i j t t', s.tasks i = some t → s.tasks j = some t' → place t' = place t → i = j)
    (hnew : ∀ {i j t u}, s.tasks i = none → s'.tasks i = some t → s.tasks j = some u →
      place u ≠ place t) {i j : SubTaskId} (hi : s'.tasks i = some t) (hj : s'.tasks j = some t')
    (heq : place t' = place t) : i = j := by
  cases hu : s.tasks i with
  | none =>
    cases hv : s.tasks j with
    | none =>
      obtain ⟨_, _, _, _, _, _, -, -, -, -, rfl, -⟩ := exists_pushTask hstep hu hi
      obtain ⟨_, _, _, _, _, _, -, -, -, -, rfl, -⟩ := exists_pushTask hstep hv hj
      rfl
    | some v =>
      rw [hplace (hw.taskMoved hstep hv hj).samePlace] at heq
      exact absurd heq (hnew hu hi hv)
  | some u =>
    rw [hplace (hw.taskMoved hstep hu hi).samePlace] at heq
    cases hv : s.tasks j with
    | none => exact absurd heq.symm (hnew hv hj hu)
    | some v =>
      rw [hplace (hw.taskMoved hstep hv hj).samePlace] at heq
      exact hold i j u v hu hv heq

end Tasks

/-! ## The end of a task -/

/-- Why a task is not there any more after a step. -/
inductive TaskEnded (s : Hub) (id : SubTaskId) (t : SubTask) : Action → Prop
  | sessionGone (hgone : s.senderGone t = true) : TaskEnded s id t (.recv id)
  | cut (hwriting : (s.conns t.conn).any Conn.writing = false) : TaskEnded s id t (.send id)
  | cancelled (haborted : s.aborted id t = true) : TaskEnded s id t (.cancel id)

section Ends

variable {setup : Setup} {s s' : Hub} {a : Action} {id : SubTaskId} {t : SubTask}

theorem eq_of_dropTask {other : SubTaskId} (ht : s.tasks id = some t)
    (hgone : (s.dropTask other).tasks id = none) : other = id := by
  by_contra hne
  rw [(dropTask_frame s other).2, update_of_ne (Ne.symm hne), ht] at hgone
  cases hgone

theorem senderGone_of_recv (ht : s.tasks id = some t) (hrecv : s.recv id = some s')
    (hgone : s'.tasks id = none) : s.senderGone t = true := by
  revert hrecv
  fun_cases s.recv id with
  | case2 =>
    rintro ⟨⟩
    exact absurd hgone (by simp [Hub.setTask])
  | case3 =>
    rintro ⟨⟩
    exact absurd (ht.symm.trans hgone) (some_ne_none _)
  | case4 u hu hphase channel hempty h =>
    cases ht.symm.trans hu
    exact fun _ => h
  | _ => rintro ⟨⟩

theorem taskEnded_of_step (hstep : step setup s a = some s') (ht : s.tasks id = some t)
    (hgone : s'.tasks id = none) : TaskEnded s id t a := by
  have hsame : s'.tasks id ≠ s.tasks id := by
    rw [ht, hgone]
    exact (some_ne_none _).symm
  cases stepped_of_step hstep with
  | registered | removed | swallowed | swallowedMetrics | published | publishedMetrics | connected
  | kept | absent | unsubscribed | closed | lagged | written => exact absurd rfl hsame
  | subscribed hconn htext hnew hsid hsession | received hu | handed hu | woken hu =>
    obtain ⟨-, hnone⟩ | ⟨-, hold⟩ := update_eq_none hgone
    · cases hnone
    · exact absurd (ht.symm.trans hold) (some_ne_none _)
  | refused _ _ hanswer | malformed _ _ hanswer | replied _ hanswer =>
    cases hanswer <;> exact absurd rfl hsame
  | ended =>
    cases eq_of_dropTask ht hgone
    exact .sessionGone (senderGone_of_recv ht hstep hgone)
  | cut hu hwriting =>
    cases eq_of_dropTask ht hgone
    cases hu.symm.trans ht
    exact .cut hwriting
  | cancelled hu haborted =>
    cases eq_of_dropTask ht hgone
    cases hu.symm.trans ht
    exact .cancelled haborted

end Ends

/-! ## The connection -/

/-- What a step does to a connection and its queue. -/
inductive ConnMoved (s s' : Hub) (id : ConnId) (conn : Conn) : Action → Option Conn → Prop
  | kept {a : Action} : ConnMoved s s' id conn a (some conn)
  | answered {a : Action} {message : OutMessage} {queue : OutQueue}
      (ha : ∀ task, a ≠ .send task) (hpush : conn.queue.push message = some queue) :
      ConnMoved s s' id conn a (some { conn with queue := queue })
  | handed {task : SubTaskId} {t : SubTask} {bytes : Bytes} {queue : OutQueue}
      (ht : s.tasks task = some t) (hphase : t.phase = .sending bytes) (hconn : t.conn = id)
      (hpush : conn.queue.push (.data bytes) = some queue) :
      ConnMoved s s' id conn (.send task) (some { conn with queue := queue })
  | subscribed {env : SubRequest} {text : String} (htext : env.sid = some text)
      (hnew : conn.subscriptions.lookup ⟨text, env.ch⟩ = none)
      (hnext : s'.nextTask = s.nextTask + 1) :
      ConnMoved s s' id conn (.subscribe id env) (some { conn with
        subscriptions := conn.subscriptions ++ [(⟨text, env.ch⟩, s.nextTask)] })
  | unsubscribed {env : SubRequest} {text : String} {task : SubTaskId}
      (htext : env.sid = some text)
      (hold : conn.subscriptions.lookup ⟨text, env.ch⟩ = some task) :
      ConnMoved s s' id conn (.unsubscribe id env) (some { conn with
        subscriptions := conn.subscriptions.filter fun entry => entry.1 ≠ ⟨text, env.ch⟩ })
  | wrote : ConnMoved s s' id conn (.write id true) (some { conn with queue := conn.queue.pop })
  | failed :
      ConnMoved s s' id conn (.write id false)
        (some { conn with queue := .empty, writing := false })
  | closed {a : Action} (ha : a = .close id ∨ conn.writing = false) (hclosed : s' = s.close id) :
      ConnMoved s s' id conn a none

section Conns

variable {setup : Setup} {s s' : Hub} {a : Action} {id : ConnId} {conn : Conn}

section

variable (hconn : s.conns id = some conn)
include hconn

theorem connMoved_of_same (hsame : s'.conns id = s.conns id) :
    ConnMoved s s' id conn a (s'.conns id) := by
  rw [hsame, hconn]
  exact .kept

variable {cid : ConnId} {old : Conn}

/-- A step that changes one connection. -/
theorem connMoved_update {conn' : Option Conn} (hold : s.conns cid = some old)
    (hconns : s'.conns = Function.update s.conns cid conn')
    (hmoved : cid = id → old = conn → ConnMoved s s' id conn a conn') :
    ConnMoved s s' id conn a (s'.conns id) := by
  by_cases hid : cid = id
  · rw [hconns, hid, update_self]
    rw [hid, hconn] at hold
    exact hmoved hid (some.inj hold).symm
  · apply connMoved_of_same hconn
    rw [hconns, update_of_ne (Ne.symm hid)]

theorem connMoved_queueEnvelope {message : OutMessage} (hold : s.conns cid = some old)
    (ha : ∀ task, a ≠ .send task) (h : s.queueEnvelope cid old message = some s') :
    ConnMoved s s' id conn a (s'.conns id) := by
  revert h
  fun_cases s.queueEnvelope cid old message with
  | case1 => rintro ⟨⟩
  | case2 hwriting queue hpush =>
    rintro ⟨⟩
    apply connMoved_update hconn hold rfl
    rintro - rfl
    exact .answered ha hpush
  | case3 hwriting =>
    rintro ⟨⟩
    apply connMoved_update hconn hold rfl
    rintro rfl rfl
    exact .closed (.inr (Bool.not_eq_true _ ▸ hwriting)) rfl

variable {env : SubRequest}

theorem connMoved_subscribe (h : s.subscribeSession setup.parse cid env = some s') :
    ConnMoved s s' id conn (.subscribe cid env) (s'.conns id) := by
  revert h
  fun_cases s.subscribeSession setup.parse cid env with
  | case1 => rintro ⟨⟩
  | case2 old hold | case4 old hold | case5 old hold =>
    exact connMoved_queueEnvelope hconn hold fun _ h => (nomatch h)
  | case3 =>
    rintro ⟨⟩
    exact connMoved_of_same hconn rfl
  | case6 old hold key hkey hnew =>
    rintro ⟨⟩
    apply connMoved_update hconn hold rfl
    rintro rfl rfl
    rcases env with ⟨_ | text, ch⟩ <;> cases hkey
    exact .subscribed rfl (not_isSome_iff_eq_none.mp hnew) rfl

theorem connMoved_unsubscribe (h : s.unsubscribeSession cid env = some s') :
    ConnMoved s s' id conn (.unsubscribe cid env) (s'.conns id) := by
  revert h
  fun_cases s.unsubscribeSession cid env with
  | case1 => rintro ⟨⟩
  | case2 old hold => exact connMoved_queueEnvelope hconn hold fun _ h => (nomatch h)
  | case3 =>
    rintro ⟨⟩
    exact connMoved_of_same hconn rfl
  | case4 old hold key hkey task hlookup =>
    rintro ⟨⟩
    apply connMoved_update hconn hold rfl
    rintro rfl rfl
    rcases env with ⟨_ | text, ch⟩ <;> cases hkey
    exact .unsubscribed rfl hlookup

theorem connMoved_send {task : SubTaskId} (h : s.send setup.minSendInterval task = some s') :
    ConnMoved s s' id conn (.send task) (s'.conns id) := by
  revert h
  fun_cases s.send setup.minSendInterval task with
  | case1 | case4 =>
    rintro ⟨⟩
    exact connMoved_of_same hconn (congrFun (dropTask_frame _ _).1 _)
  | case3 t ht bytes hphase old hold hwriting queue hpush =>
    rintro ⟨⟩
    apply connMoved_update hconn hold rfl
    rintro hid rfl
    exact .handed ht hphase hid hpush
  | _ => rintro ⟨⟩

theorem connMoved_write {ok : Bool} (h : s.write cid ok = some s') :
    ConnMoved s s' id conn (.write cid ok) (s'.conns id) := by
  revert h
  fun_cases s.write cid ok with
  | case2 old hold =>
    rintro ⟨⟩
    apply connMoved_update hconn hold rfl
    rintro rfl rfl
    cases ok with
    | true => exact .wrote
    | false => exact .failed
  | _ => rintro ⟨⟩

end

theorem Wired.connMoved (hw : Wired s) (hstep : Delivery.step setup s a = some s')
    (hconn : s.conns id = some conn) : ConnMoved s s' id conn a (s'.conns id) := by
  cases stepped_of_step hstep with
  | registered | removed | swallowed | swallowedMetrics | published | publishedMetrics | received
  | lagged | woken => exact connMoved_of_same hconn rfl
  | connected => exact connMoved_of_same hconn (update_of_ne (hw.conn_lt id conn hconn).ne _ _)
  | subscribed | kept | refused => exact connMoved_subscribe hconn hstep
  | unsubscribed | absent | malformed => exact connMoved_unsubscribe hconn hstep
  | replied hold =>
    rw [Delivery.step, hold] at hstep
    exact connMoved_queueEnvelope hconn hold (fun _ h => by cases h) hstep
  | closed cid =>
    by_cases hid : cid = id
    · subst hid
      apply connMoved_update hconn hconn rfl
      rintro - -
      exact .closed (.inl rfl) rfl
    · exact connMoved_of_same hconn (update_of_ne (Ne.symm hid) _ _)
  | ended | cancelled => exact connMoved_of_same hconn (congrFun (dropTask_frame _ _).1 _)
  | handed | cut => exact connMoved_send hconn hstep
  | written => exact connMoved_write hconn hstep

/-- A new connection has the next number and an empty queue. -/
theorem conns_begin (hstep : Delivery.step setup s a = some s') (hnone : s.conns id = none)
    (hconn : s'.conns id = some conn) : id = s.nextConn ∧ conn = ⟨.empty, true, []⟩ := by
  have hnever : s'.conns id ≠ none := by
    rw [hconn]
    exact some_ne_none _
  have hother : ∀ {cid old}, s.conns cid = some old → ∀ new,
      update s.conns cid new id = none := by
    intro cid old hold new
    have hne : id ≠ cid := by
      rintro rfl
      rw [hnone] at hold
      cases hold
    rw [update_of_ne hne, hnone]
  cases stepped_of_step hstep with
  | registered | removed | swallowed | swallowedMetrics | published | publishedMetrics | kept
  | absent | received | lagged | woken => exact absurd hnone hnever
  | connected =>
    rcases update_some_eq_some hconn with ⟨hid, rfl⟩ | ⟨-, hold⟩
    · exact ⟨hid, rfl⟩
    · exact absurd (hold.symm.trans hnone) (some_ne_none _)
  | subscribed hold | unsubscribed hold | handed _ _ hold | written hold =>
    exact absurd (hother hold _) hnever
  | refused hold _ hanswer | malformed hold _ hanswer | replied hold hanswer =>
    cases hanswer <;> exact absurd (hother hold _) hnever
  | closed cid =>
    exact absurd ((update_none_eq_some hconn).2.symm.trans hnone) (some_ne_none _)
  | ended | cut | cancelled =>
    rw [(dropTask_frame _ _).1] at hnever
    exact absurd hnone hnever

/-- A connection that was given out is open after a step only if it was before. -/
theorem Wired.conns_of_step (hw : Wired s) (hstep : Delivery.step setup s a = some s')
    (hlt : id < s.nextConn) (hconn : s'.conns id = some conn) :
    ∃ old, s.conns id = some old ∧ ConnMoved s s' id old a (some conn) := by
  cases hold : s.conns id with
  | none => exact absurd (conns_begin hstep hold hconn).1 hlt.ne
  | some old =>
    have hmoved := hw.connMoved hstep hold
    rw [hconn] at hmoved
    exact ⟨old, rfl, hmoved⟩

/-- The connection of a task was open before if it is open now. -/
theorem Wired.isSome_of_step (hw : Wired s) (hstep : Delivery.step setup s a = some s')
    {task : SubTaskId} {t : SubTask} (ht : s.tasks task = some t)
    (hopen : (s'.conns t.conn).isSome) : (s.conns t.conn).isSome := by
  obtain ⟨conn, hconn⟩ := isSome_iff_exists.mp hopen
  obtain ⟨old, hold, -⟩ := hw.conns_of_step hstep (hw.task_conn_lt task t ht) hconn
  rw [hold]
  rfl

/-- No step gives a connection a handle of a task that was there. -/
theorem ConnMoved.entry_of_mem {old : Conn} {entry : SubscriptionKey × SubTaskId}
    (h : ConnMoved s s' id old a (some conn)) (hentry : entry ∈ conn.subscriptions) :
    entry ∈ old.subscriptions ∨ entry.2 = s.nextTask := by
  cases h with
  | kept | answered | handed | wrote | failed => exact .inl hentry
  | subscribed =>
    rcases List.mem_append.mp hentry with hmem | hmem
    · exact .inl hmem
    · rw [List.mem_singleton.mp hmem]
      exact .inr rfl
  | unsubscribed => exact .inl (List.mem_of_mem_filter hentry)

theorem aborted_eq_false {task : SubTaskId} {t : SubTask} :
    s.aborted task t = false ↔
      ∃ conn, s.conns t.conn = some conn ∧ ∃ entry ∈ conn.subscriptions, entry.2 = task := by
  unfold Hub.aborted
  cases s.conns t.conn <;> simp

/-- An aborted task stays aborted. -/
theorem Wired.aborted_of_step (hw : Wired s) (hstep : Delivery.step setup s a = some s')
    {task : SubTaskId} {t t' : SubTask} (ht : s.tasks task = some t) (hconn : t'.conn = t.conn)
    (hlive : s'.aborted task t' = false) : s.aborted task t = false := by
  obtain ⟨conn, hconn', entry, hentry, htask⟩ := aborted_eq_false.mp hlive
  rw [hconn] at hconn'
  obtain ⟨old, hold, hmoved⟩ := hw.conns_of_step hstep (hw.task_conn_lt task t ht) hconn'
  rcases hmoved.entry_of_mem hentry with hmem | hnew
  · exact aborted_eq_false.mpr ⟨old, hold, entry, hmem, htask⟩
  · exact absurd (htask.symm.trans hnew) (hw.task_lt task t ht).ne

end Conns

/-! ## Sessions and channels -/

/-- A step that leaves the sessions alone, and what the channels have stored. -/
structure Quiet (s s' : Hub) : Prop where
  registry_eq : s'.ingest.registry = s.ingest.registry
  stats_eq : s'.ingest.stats = s.ingest.stats
  published_eq : s'.published = s.published
  nextTask_le : s.nextTask ≤ s'.nextTask
  sent_eq : ∀ f, (s'.fanout f).sent = (s.fanout f).sent

/-- What a step does to the sessions and to what the channels have stored. -/
inductive Outline (s : Hub) : Action → Hub → Prop
  | quiet {a : Action} {s' : Hub} (hquiet : Quiet s s') : Outline s a s'
  | registered (sid : Uuid) (kind iface : String) (label : Option String) :
      Outline s (.registerSession sid kind iface label)
        { s with ingest := (s.ingest.registerSession sid kind iface label).2 }
  | removed (sid : Uuid) :
      Outline s (.removeSession sid) { s with ingest := s.ingest.removeSession sid }
  | published {sid : Uuid} {bytes : Bytes} {session : SessionState}
      (hsession : s.ingest.registry sid = some session) :
      Outline s (.publishWire sid bytes) { s.publish session.fanout bytes with
        ingest := (s.publish session.fanout bytes).ingest.recordFrame sid bytes.length }
  | publishedMetrics {sid : Uuid} {bytes : Bytes} {session : SessionState}
      (hsession : s.ingest.registry sid = some session) :
      Outline s (.publishMetrics sid bytes) (s.publish session.fanout bytes)

section Sessions

variable {setup : Setup} {s s' s'' : Hub} {a : Action} {sid : Uuid} {session : SessionState}

theorem Quiet.refl (s : Hub) : Quiet s s := ⟨rfl, rfl, rfl, le_rfl, fun _ => rfl⟩

theorem Quiet.trans (h : Quiet s s') (h' : Quiet s' s'') : Quiet s s'' :=
  ⟨h'.registry_eq.trans h.registry_eq, h'.stats_eq.trans h.stats_eq,
    h'.published_eq.trans h.published_eq, h.nextTask_le.trans h'.nextTask_le,
    fun f => (h'.sent_eq f).trans (h.sent_eq f)⟩

theorem quiet_setConn (s : Hub) (cid : ConnId) (conn : Option Conn) :
    Quiet s (s.setConn cid conn) :=
  ⟨rfl, rfl, rfl, le_rfl, fun _ => rfl⟩

theorem quiet_moveTo (s : Hub) (t : SubTask) (pos : ℕ) : Quiet s (s.moveTo t pos) :=
  ⟨rfl, rfl, rfl, le_rfl, (moves_cursor t.receiver (s.fanout t.fanout) (some pos)).sent_setFanout⟩

theorem quiet_pushTask (s : Hub) (cid : ConnId) (conn : Conn) (key : SubscriptionKey) (sid : Uuid)
    (g : FanoutId) : Quiet s (s.pushTask cid conn key sid g) := by
  refine ⟨rfl, rfl, rfl, Nat.le_succ _, fun f => ?_⟩
  show ((s.setFanout g (s.fanout g).subscribe.2).fanout f).sent = _
  by_cases hf : f = g
  · rw [hf, Hub.fanout_setFanout_self]
    rfl
  · rw [Hub.fanout_setFanout_of_ne hf]

theorem quiet_dropTask (s : Hub) (task : SubTaskId) : Quiet s (s.dropTask task) := by
  unfold Hub.dropTask
  split
  · exact .refl s
  · next t ht =>
    exact ⟨rfl, rfl, rfl, le_rfl,
      (moves_cursor t.receiver (s.fanout t.fanout) none).sent_setFanout⟩

theorem quiet_answered {cid : ConnId} {conn : Conn} (hanswer : Answered s cid conn s') :
    Quiet s s' := by
  cases hanswer with
  | queued | closed => exact quiet_setConn s cid _

variable (hstep : step setup s a = some s')
include hstep

theorem outline_of_step : Outline s a s' := by
  cases stepped_of_step hstep with
  | registered => exact .registered ..
  | removed => exact .removed _
  | published hsession => exact .published hsession
  | publishedMetrics hsession => exact .publishedMetrics hsession
  | swallowed | swallowedMetrics | connected | kept | absent | handed | woken | written =>
    exact .quiet ⟨rfl, rfl, rfl, le_rfl, fun _ => rfl⟩
  | subscribed => exact .quiet (quiet_pushTask ..)
  | refused _ _ hanswer | malformed _ _ hanswer | replied _ hanswer =>
    exact .quiet (quiet_answered hanswer)
  | unsubscribed | closed => exact .quiet (quiet_setConn s _ _)
  | received => exact .quiet ((quiet_moveTo s _ _).trans ⟨rfl, rfl, rfl, le_rfl, fun _ => rfl⟩)
  | lagged => exact .quiet (quiet_moveTo s _ _)
  | ended | cut | cancelled => exact .quiet (quiet_dropTask s _)

theorem nextTask_le : s.nextTask ≤ s'.nextTask := by
  cases outline_of_step hstep with
  | quiet hquiet => exact hquiet.nextTask_le
  | registered | removed | published | publishedMetrics => exact le_rfl

/-- The row of a session stays until the session is removed. Registering it again keeps the
row, and the channel with it. -/
theorem registry_of_step (hsession : s.ingest.registry sid = some session)
    (ha : a ≠ .removeSession sid) : s'.ingest.registry sid = some session := by
  cases outline_of_step hstep with
  | quiet hquiet => rw [hquiet.registry_eq, hsession]
  | registered other kind iface label =>
    unfold Ingest.registerSession
    split
    · exact hsession
    · next hnew =>
      have hne : sid ≠ other := by
        rintro rfl
        rw [hnew] at hsession
        cases hsession
      exact (update_of_ne hne _ _).trans hsession
  | removed other =>
    have hne : sid ≠ other := by
      rintro rfl
      exact ha rfl
    exact (update_of_ne hne _ _).trans hsession
  | published | publishedMetrics => exact hsession

/-- Only publishing stores frames. -/
theorem sent_of_step
    (ha : ∀ sid bytes, a ≠ .publishWire sid bytes ∧ a ≠ .publishMetrics sid bytes) (f : FanoutId) :
    (s'.fanout f).sent = (s.fanout f).sent := by
  cases outline_of_step hstep with
  | quiet hquiet => exact hquiet.sent_eq f
  | registered sid kind iface label =>
    show ((s.ingest.registerSession sid kind iface label).2.fanouts f).sent = _
    rw [(registerSession_rows s.ingest sid kind iface label).1]
  | removed => rfl
  | published => exact absurd rfl (ha _ _).1
  | publishedMetrics => exact absurd rfl (ha _ _).2

end Sessions

end TraceMux.Server.Delivery
