/-
# The numbers of data frames

Every run of a source numbers the frames it publishes, from 1. A connection carries the frames
of all its subscriptions, and a subscription goes on over the runs of its source, so that the
numbers on a connection grow only as long as it has one subscription at a time and is offered
the data frames of one run.

Beside the system we keep which run each frame of a channel is from, which run each connection
has been offered data frames by, and the frames handed to each connection.
-/

import TraceMux.Server.LiveSources
import TraceMux.Server.Subscriptions

namespace TraceMux.Server.LiveSources

open Base Base.MsgPack Base.Transition TraceMux.Core Core.Source Server.Delivery Server.Wire
  List Function Option

/-! ## Frames and their runs -/

structure Publication where
  run : TaskId
  sid : Uuid
  env : Envelope

def attempt (setup : Setup) (s : System) : Action → Option Publication
  | .frame t ts raw sourceLabel =>
    (s.running t).map fun task =>
      let sid := setup.uuid task.sid
      ⟨t, sid, dataEnvelope sid 0 (s.rawFrames t + 1) ts raw sourceLabel "bytes"⟩
  | .packet t mode ts data _ sourceLabel =>
    (s.running t).bind fun task =>
      let sid := setup.uuid task.sid
      if shouldPublish mode (s.rawFrames t + 1) then
        some ⟨t, sid, dataEnvelope sid 0 (s.rawFrames t + 1) ts data sourceLabel "datagram"⟩
      else none
  | .metrics t payload =>
    (s.running t).bind fun task =>
      let sid := setup.uuid task.sid
      (s.relay.hub.ingest.registry sid).map fun _ =>
        ⟨t, sid, metricsEnvelope sid 0 (s.rawFrames t) payload⟩
  | _ => none

/-- What an action publishes: an envelope that fits into a frame. -/
def publication (setup : Setup) (s : System) (a : Action) : Option Publication :=
  (attempt setup s a).filter fun p => (Wire.encode p.env).isOk

/-- An open connection has a task at a session, be it an aborted one. -/
def listens (s : Hub) (sid : Uuid) (c : ConnId) : Bool :=
  (s.conns c).isSome && match s.ingest.registry sid with
  | none => false
  | some session =>
    (List.range s.nextTask).any fun id =>
      (s.tasks id).any fun t => t.conn = c ∧ t.fanout = session.fanout

def dataSeqs (frames : List Envelope) : List ℕ :=
  (frames.filter fun env => env.kind = .data).map Envelope.seq

structure Numbered where
  system : System
  /-- The frames stored in every channel, with their runs. -/
  frames : FanoutId → List (TaskId × Envelope)
  /-- The run whose data frames a connection was offered last. -/
  heard : ConnId → Option TaskId
  /-- The frames handed to every connection, oldest first. -/
  sent : ConnId → List Envelope
  wire : ConnId → List Bytes

namespace Numbered

/-- No sources and no clients. -/
def new (config : ManagerConfig) : Numbered :=
  ⟨.new config, fun _ => [], fun _ => none, fun _ => [], fun _ => []⟩

/-- The server. -/
abbrev hub (o : Numbered) : Hub := o.system.relay.hub

/-- Note which channel has stored a frame. -/
def noteFrames (o : Numbered) (p : Option Publication) (after : Hub) (f : FanoutId) :
    List (TaskId × Envelope) :=
  match p with
  | none => o.frames f
  | some p =>
    if (o.hub.fanout f).sent.length < (after.fanout f).sent.length then
      o.frames f ++ [(p.run, p.env)]
    else o.frames f

def noteHeard (o : Numbered) (p : Option Publication) (c : ConnId) : Option TaskId :=
  match p with
  | none => o.heard c
  | some p => if p.env.kind = .data ∧ listens o.hub p.sid c then some p.run else o.heard c

/-- The frame a step hands to a connection. -/
def handing (o : Numbered) : Action → Option (Delivered × Uuid × Bytes)
  | .serve a => o.hub.delivery a
  | _ => none

/-- Note the envelope of the frame that is handed over. -/
def noteSent (o : Numbered) : Option (Delivered × Uuid × Bytes) → ConnId → List Envelope
  | none => o.sent
  | some (d, _, _) =>
    Function.update o.sent d.conn
      (o.sent d.conn ++ ((o.frames d.fanout)[d.index]?.map Prod.snd).toList)

def noteWire (o : Numbered) : Option (Delivered × Uuid × Bytes) → ConnId → List Bytes
  | none => o.wire
  | some (d, _, bytes) => Function.update o.wire d.conn (o.wire d.conn ++ [bytes])

def step (setup : Setup) (o : Numbered) (a : Action) : Option Numbered :=
  match o.system.step setup a with
  | none => none
  | some system =>
    some
      { system := system
        frames := o.noteFrames (publication setup o.system a) system.relay.hub
        heard := o.noteHeard (publication setup o.system a)
        sent := o.noteSent (o.handing a)
        wire := o.noteWire (o.handing a) }

end Numbered

/-- A connection subscribes to one thing at a time: when it makes a subscription it does not
have, no task of it is left. -/
def OneSubscription (o : Numbered) : Action → Prop
  | .serve (.subscribe id env) =>
    (o.hub.taskUnder id env).isSome ∨ ∀ task < o.hub.nextTask, ∀ t ∈ o.hub.tasks task, t.conn ≠ id
  | _ => True

/-- A connection has one subscription at a time, and is offered the data frames of one run. -/
def OneRun (setup : Setup) (o : Numbered) (a : Action) : Prop :=
  OneSubscription o a ∧
    ∀ p ∈ publication setup o.system a, p.env.kind = .data →
      ∀ c < o.hub.nextConn, listens o.hub p.sid c = true →
        o.heard c = none ∨ o.heard c = some p.run

instance decidableOneSubscription (o : Numbered) (a : Action) :
    Decidable (OneSubscription o a) := by
  unfold OneSubscription
  split <;> infer_instance

instance decidableOneRun (setup : Setup) (o : Numbered) (a : Action) :
    Decidable (OneRun setup o a) :=
  inferInstanceAs (Decidable (OneSubscription o a ∧ _))

/-! ## What a step publishes -/

/-- What a step of the system does to the server and to the numbers of the runs. -/
inductive Moved (setup : Setup) (s s' : System) : Action → Prop
  /-- The server counts a frame or does nothing. -/
  | still {a : Action} (hpub : publication setup s a = none) (ha : ∀ act, a ≠ .serve act)
      (hhub : s'.relay.hub = s.relay.hub ∨
        ∃ sid bytes, s'.relay.hub =
          { s.relay.hub with ingest := s.relay.hub.ingest.recordFrame sid bytes }) :
      Moved setup s s' a
  | session {a : Action} {act : Delivery.Action} (hpub : publication setup s a = none)
      (ha : ∀ act, a ≠ .serve act)
      (hact : (∃ sid kind iface label, act = .registerSession sid kind iface label) ∨
        ∃ sid, act = .removeSession sid)
      (hhub : Delivery.step setup.delivery s.relay.hub act = some s'.relay.hub) :
      Moved setup s s' a
  | published {a : Action} {p : Publication} {act : Delivery.Action}
      (hpub : publication setup s a = some p) (ha : ∀ act, a ≠ .serve act)
      (hact : act = .publishWire p.sid (toVecNamed p.env) ∨
        act = .publishMetrics p.sid (toVecNamed p.env))
      (hdata : p.env.kind = .data → p.env.seq = s.rawFrames p.run + 1 ∧
        s'.rawFrames p.run = p.env.seq)
      (hhub : Delivery.step setup.delivery s.relay.hub act = some s'.relay.hub) :
      Moved setup s s' a
  | served {act : Delivery.Action} (hserved : isServed act = true)
      (hhub : Delivery.step setup.delivery s.relay.hub act = some s'.relay.hub) :
      Moved setup s s' (.serve act)

section Moves

variable {setup : Setup} {s s' : System} {a : Action}

theorem hub_of_deliver {r r' : Relay} {act : Delivery.Action} {d : Delivery.Setup}
    (h : r.step d (.deliver act) = some r') : Delivery.step d r.hub act = some r'.hub := by
  rw [Relay.step] at h
  split at h
  · cases h
  · next hhub =>
    cases h
    exact hhub

theorem eq_toVecNamed {env : Envelope} {wire : Bytes} (h : Wire.encode env = .ok wire) :
    wire = toVecNamed env := by
  unfold Wire.encode at h
  simp only at h
  split at h
  · cases h
  · cases h
    rfl

variable {e : Option Effect}

/-- A runner publishes the envelope it has made, or ends. -/
theorem moved_of_emit {p : Publication} {rawFrames : TaskId → ℕ}
    {publish : Bytes → Delivery.Action} (hattempt : attempt setup s a = some p)
    (ha : ∀ act, a ≠ .serve act)
    (hpublish : ∀ wire, publish wire = .publishWire p.sid wire ∨
      publish wire = .publishMetrics p.sid wire)
    (hdata : p.env.kind = .data → p.env.seq = s.rawFrames p.run + 1 ∧ rawFrames p.run = p.env.seq)
    (hemit : System.emit s.manager p.run rawFrames p.env publish = (s'.manager, s'.rawFrames, e))
    (heffect : s.Relayed setup s' e) : Moved setup s s' a := by
  unfold System.emit at hemit
  split at hemit
  · next error herror =>
    obtain ⟨-, hraw, rfl⟩ : _ ∧ rawFrames = s'.rawFrames ∧ none = e := by
      simpa only [Prod.mk.injEq] using hemit
    have hpub : publication setup s a = none := by
      rw [publication, hattempt, filter_some, herror]
      rfl
    exact .still hpub ha (.inl (congrArg Relay.hub heffect))
  · next wire hwire =>
    obtain ⟨-, hraw, rfl⟩ : _ ∧ rawFrames = s'.rawFrames ∧
        some (Effect.deliver (publish wire)) = e := by
      simpa only [Prod.mk.injEq] using hemit
    have hpub : publication setup s a = some p := by
      rw [publication, hattempt, filter_some, hwire]
      rfl
    rw [eq_toVecNamed hwire] at heffect
    exact .published hpub ha (hpublish _) (hraw ▸ hdata) (hub_of_deliver heffect)

theorem moved_of_manage {act : Manager.Action} {kind iface : String} {label : Option String}
    (he : sessionEffect setup s.manager kind iface label act = e)
    (heffect : s.Relayed setup s' e) : Moved setup s s' (.manage act kind iface label) := by
  have hsession : ∀ e', sessionEffect setup s.manager kind iface label act = some e' →
      ∃ d, e' = .deliver d ∧
        ((∃ sid kind iface label, d = .registerSession sid kind iface label) ∨
          ∃ sid, d = .removeSession sid) := by
    intro e' he'
    unfold sessionEffect at he'
    split at he'
    · cases he'
      exact ⟨_, rfl, .inr ⟨_, rfl⟩⟩
    · obtain ⟨task, -, rfl⟩ := map_eq_some_iff.mp he'
      exact ⟨_, rfl, .inl ⟨_, _, _, _, rfl⟩⟩
    · obtain ⟨q, -, hq⟩ := bind_eq_some_iff.mp he'
      split at hq
      · cases hq
        exact ⟨_, rfl, .inl ⟨_, _, _, _, rfl⟩⟩
      · cases hq
    · cases he'
  cases e with
  | none => exact .still rfl nofun (.inl (congrArg Relay.hub heffect))
  | some e' =>
    obtain ⟨d, rfl, hd⟩ := hsession e' he
    exact .session rfl nofun hd (hub_of_deliver heffect)

theorem moved_of_step (h : s.step setup a = some s') : Moved setup s s' a := by
  obtain ⟨e, hact, heffect⟩ := act_of_step h
  cases a with
  | manage act kind iface label =>
    obtain ⟨m, -, hm⟩ := map_eq_some_iff.mp hact
    exact moved_of_manage (congrArg (fun done => done.2.2) hm) heffect
  | frame t ts raw sourceLabel =>
    obtain ⟨task, hrunning, hemit⟩ := map_eq_some_iff.mp hact
    have hattempt : attempt setup s (.frame t ts raw sourceLabel) =
        some ⟨t, setup.uuid task.sid, dataEnvelope (setup.uuid task.sid) 0 (s.rawFrames t + 1) ts
          raw sourceLabel "bytes"⟩ := by
      rw [attempt, hrunning]
      rfl
    exact moved_of_emit hattempt nofun (fun _ => .inl rfl)
      (fun _ => ⟨rfl, update_self ..⟩) hemit heffect
  | packet t mode ts data capturedLen sourceLabel =>
    obtain ⟨task, hrunning, hdone⟩ := map_eq_some_iff.mp hact
    by_cases hshould : shouldPublish mode (s.rawFrames t + 1) = true
    · have hattempt : attempt setup s (.packet t mode ts data capturedLen sourceLabel) =
          some ⟨t, setup.uuid task.sid, dataEnvelope (setup.uuid task.sid) 0 (s.rawFrames t + 1)
            ts data sourceLabel "datagram"⟩ := by
        rw [attempt, hrunning, bind_some, if_pos hshould]
      simp only [if_pos hshould] at hdone
      exact moved_of_emit hattempt nofun (fun _ => .inl rfl)
        (fun _ => ⟨rfl, update_self ..⟩) hdone heffect
    · have hpub : publication setup s (.packet t mode ts data capturedLen sourceLabel) = none := by
        rw [publication, attempt, hrunning, bind_some, if_neg hshould]
        rfl
      simp only [if_neg hshould, Prod.mk.injEq] at hdone
      obtain ⟨-, -, rfl⟩ := hdone
      refine .still hpub nofun (.inr ⟨setup.uuid task.sid, capturedLen, ?_⟩)
      rw [← some.inj heffect]
  | metrics t payload =>
    obtain ⟨task, hrunning, hdone⟩ := map_eq_some_iff.mp hact
    cases hsession : s.relay.hub.ingest.registry (setup.uuid task.sid) with
    | none =>
      have hpub : publication setup s (.metrics t payload) = none := by
        simp only [publication, attempt, hrunning, bind_some, hsession, map_none, filter_none]
      simp only [hsession, Prod.mk.injEq] at hdone
      obtain ⟨-, -, rfl⟩ := hdone
      exact .still hpub nofun (.inl (congrArg Relay.hub heffect))
    | some session =>
      have hattempt : attempt setup s (.metrics t payload) = some ⟨t, setup.uuid task.sid,
          metricsEnvelope (setup.uuid task.sid) 0 (s.rawFrames t) payload⟩ := by
        simp only [attempt, hrunning, bind_some, hsession, map_some]
      simp only [hsession] at hdone
      exact moved_of_emit hattempt nofun (fun _ => .inr rfl)
        nofun hdone heffect
  | serve act =>
    rw [System.act] at hact
    split at hact
    · next hserved =>
      simp only [some.injEq, Prod.mk.injEq] at hact
      obtain ⟨-, -, rfl⟩ := hact
      exact .served hserved (hub_of_deliver heffect)
    · cases hact

theorem rawFrames_le (h : s.step setup a = some s') (t : TaskId) :
    s.rawFrames t ≤ s'.rawFrames t := by
  have hnext : ∀ run, s.rawFrames t ≤
      update s.rawFrames run (s.rawFrames run + 1) t := by
    intro run
    by_cases ht : t = run
    · subst ht
      rw [update_self]
      exact Nat.le_succ _
    · rw [update_of_ne ht]
  have hemit : ∀ {m : Manager} {run : TaskId} {rawFrames : TaskId → ℕ} {env : Envelope}
      {publish : Bytes → Delivery.Action}, (System.emit m run rawFrames env publish).2.1 =
        rawFrames := by
    intro m run rawFrames env publish
    unfold System.emit
    split <;> rfl
  obtain ⟨e, hact, -⟩ := act_of_step h
  cases a with
  | manage act kind iface label =>
    obtain ⟨m, -, hm⟩ := map_eq_some_iff.mp hact
    exact (congrFun (congrArg (fun done => done.2.1) hm) t).le
  | frame run ts raw sourceLabel =>
    obtain ⟨task, -, hdone⟩ := map_eq_some_iff.mp hact
    have hraw := congrArg (fun done => done.2.1) hdone
    simp only [hemit] at hraw
    rw [← hraw]
    exact hnext run
  | packet run mode ts data capturedLen sourceLabel =>
    obtain ⟨task, -, hdone⟩ := map_eq_some_iff.mp hact
    have hraw := congrArg (fun done => done.2.1) hdone
    simp only [apply_ite (fun done : Manager × (TaskId → ℕ) × Option Effect => done.2.1), hemit,
      ite_self] at hraw
    rw [← hraw]
    exact hnext run
  | metrics run payload =>
    obtain ⟨task, -, hdone⟩ := map_eq_some_iff.mp hact
    have hraw := congrArg (fun done => done.2.1) hdone
    simp only at hraw
    split at hraw
    · exact (congrFun hraw t).le
    · rw [hemit] at hraw
      exact (congrFun hraw t).le
  | serve act =>
    rw [System.act] at hact
    split at hact
    · simp only [some.injEq, Prod.mk.injEq] at hact
      exact (congrFun hact.2.1 t).le
    · cases hact

end Moves

/-! ## The invariant -/

/-- The task of a subscription reads a channel at a position. What is ahead of it are data
frames of the run the connection has heard, with numbers above all it has been sent. -/
structure Numbered.ReadsAt (o : Numbered) (t : SubTask) (pos : ℕ) : Prop where
  cursor_eq : (o.hub.fanout t.fanout).cursor t.receiver = some pos
  pos_le : pos ≤ (o.hub.fanout t.fanout).sent.length
  inFlight_le : t.phase.inFlight ≤ pos
  /-- The frame in hand is the last one read. -/
  holds : ∀ bytes, t.phase = .sending bytes →
    (o.hub.fanout t.fanout).sent[pos - 1]? = some bytes
  ahead : ∀ i x, pos ≤ i + t.phase.inFlight → (o.frames t.fanout)[i]? = some x →
    x.2.kind = .data →
      o.heard t.conn = some x.1 ∧ ∀ env ∈ o.sent t.conn, env.kind = .data → env.seq < x.2.seq

/-- The frame a task has in hand is above all that was sent, since it was ahead until now. -/
theorem Numbered.ReadsAt.above_of_sending {o : Numbered} {t : SubTask} {pos : ℕ}
    (hr : o.ReadsAt t pos) {bytes : Bytes} (hphase : t.phase = .sending bytes)
    {x : TaskId × Envelope}
    (hx : (o.frames t.fanout)[pos - 1]? = some x) (hdata : x.2.kind = .data) :
    o.heard t.conn = some x.1 ∧
      ∀ env ∈ o.sent t.conn, env.kind = .data → env.seq < x.2.seq := by
  have hinFlight : t.phase.inFlight = 1 := by
    rw [hphase]
    rfl
  exact hr.ahead (pos - 1) x (by omega) hx hdata

theorem Numbered.ReadsAt.of_channel {o o' : Numbered} {t : SubTask} {pos : ℕ}
    (hr : o.ReadsAt t pos) (hchannel : o'.hub.fanout t.fanout = o.hub.fanout t.fanout)
    (hahead : ∀ i x, pos ≤ i + t.phase.inFlight → (o'.frames t.fanout)[i]? = some x →
      x.2.kind = .data → o'.heard t.conn = some x.1 ∧
        ∀ env ∈ o'.sent t.conn, env.kind = .data → env.seq < x.2.seq) : o'.ReadsAt t pos := by
  refine ⟨?_, ?_, hr.inFlight_le, ?_, hahead⟩
  all_goals rw [hchannel]
  · exact hr.cursor_eq
  · exact hr.pos_le
  · exact hr.holds

/-- Two frames of a channel, the first one stored earlier: data frames of one run rise. -/
def Rises (x y : TaskId × Envelope) : Prop :=
  x.1 = y.1 → x.2.kind = .data → y.2.kind = .data → x.2.seq < y.2.seq

/-- Every connection has at most one task, and is sent the data frames of one run in their
order. -/
structure InOrder (o : Numbered) : Prop where
  wired : Wired o.hub
  single : ∀ i j t t', o.hub.tasks i = some t → o.hub.tasks j = some t' → t'.conn = t.conn → i = j
  stored : ∀ f, (o.hub.fanout f).sent = (o.frames f).map fun x => toVecNamed x.2
  rising : ∀ f, (o.frames f).Pairwise Rises
  counted : ∀ f x, x ∈ o.frames f → x.2.kind = .data → x.2.seq ≤ o.system.rawFrames x.1
  reads : ∀ id t, o.hub.tasks id = some t → (o.hub.conns t.conn).isSome → ∃ pos, o.ReadsAt t pos
  bounded : ∀ c env, env ∈ o.sent c → env.kind = .data →
    ∃ run, o.heard c = some run ∧ env.seq ≤ o.system.rawFrames run
  wire_eq : ∀ c, o.wire c = (o.sent c).map toVecNamed
  increasing : ∀ c, (dataSeqs (o.sent c)).Pairwise (· < ·)

theorem inOrder_new (config : ManagerConfig) : InOrder (.new config) where
  wired := wired_new
  single _ _ _ _ h := nomatch h
  stored _ := rfl
  rising _ := .nil
  counted _ _ h := nomatch h
  reads _ _ h := nomatch h
  bounded _ _ h := nomatch h
  wire_eq _ := rfl
  increasing _ := .nil

namespace InOrder

variable {o o' : Numbered} {t t' : SubTask} {id : SubTaskId} {c : ConnId} {bytes : Bytes}
  {sid : Uuid} {session : SessionState}

/-- A frame that is sent behind others with smaller numbers. -/
theorem increasing_append {l : List Envelope} {env : Envelope}
    (h : (dataSeqs l).Pairwise (· < ·))
    (habove : env.kind = .data → ∀ e ∈ l, e.kind = .data → e.seq < env.seq) :
    (dataSeqs (l ++ [env])).Pairwise (· < ·) := by
  have hsplit : dataSeqs (l ++ [env]) = dataSeqs l ++ dataSeqs [env] := by simp [dataSeqs]
  rw [hsplit]
  by_cases hdata : env.kind = .data
  · have hone : dataSeqs [env] = [env.seq] := by simp [dataSeqs, hdata]
    rw [hone, pairwise_append]
    refine ⟨h, pairwise_singleton .., fun n hn m hm => ?_⟩
    rw [mem_singleton.mp hm]
    obtain ⟨e, he, rfl⟩ := mem_map.mp hn
    obtain ⟨hmem, hkind⟩ := mem_filter.mp he
    exact habove hdata e hmem (of_decide_eq_true hkind)
  · have hnone : dataSeqs [env] = [] := by simp [dataSeqs, hdata]
    rw [hnone, append_nil]
    exact h

theorem listens_iff {s : Hub} (hsession : s.ingest.registry sid = some session) :
    listens s sid c = true ↔ (s.conns c).isSome ∧
      ∃ id < s.nextTask, ∃ t, s.tasks id = some t ∧ t.conn = c ∧ t.fanout = session.fanout := by
  simp only [listens, hsession, Bool.and_eq_true, List.any_eq_true, List.mem_range,
    Option.any_eq_true, decide_eq_true_eq]

theorem listens_lt {s : Hub} (hw : Wired s) (hlistens : listens s sid c = true) :
    c < s.nextConn := by
  obtain ⟨conn, hconn⟩ := isSome_iff_exists.mp (Bool.and_eq_true_iff.mp hlistens).1
  exact hw.conn_lt c conn hconn

variable (h : InOrder o)
include h

variable {setup : Setup} {act : Delivery.Action}

/-- A connection still has at most one task. -/
theorem single_step (hhub : Delivery.step setup.delivery o.hub act = some o'.hub)
    (hone : OneSubscription o (.serve act)) {i j : SubTaskId} (hi : o'.hub.tasks i = some t)
    (hj : o'.hub.tasks j = some t') (hconn : t'.conn = t.conn) : i = j := by
  refine h.wired.apart_step SamePlace.conn_eq hhub h.single (fun hnone ht hu heq => ?_) hi hj hconn
  obtain ⟨cid, conn, env, text, sid, session, rfl, hcid, htext, -, -, rfl, -, hnew, -⟩ :=
    exists_pushTask hhub hnone ht
  rcases hone with hunder | hfree
  · rw [Hub.taskUnder, hcid, htext, bind_some, bind_some, hnew] at hunder
    cases hunder
  · exact hfree _ (h.wired.task_lt _ _ hu) _ hu heq

/-- A new task stands at the end of its channel. -/
theorem reads_new (hhub : Delivery.step setup.delivery o.hub act = some o'.hub)
    (hstored : (o'.hub.fanout t'.fanout).sent = (o.hub.fanout t'.fanout).sent)
    (ht : o.hub.tasks id = none) (ht' : o'.hub.tasks id = some t')
    (hframes : o'.frames = o.frames) : ∃ pos, o'.ReadsAt t' pos := by
  obtain ⟨cid, conn, env, text, sid, session, -, -, -, -, -, rfl, -, -, hpush⟩ :=
    exists_pushTask hhub ht ht'
  refine ⟨(o.hub.fanout session.fanout).sent.length, ?_, hstored ▸ le_rfl, Nat.zero_le _,
    fun _ h => (nomatch h), fun i x hi hx => ?_⟩
  · show (o'.hub.fanout session.fanout).cursor _ = _
    rw [hpush, fanout_pushTask]
    exact update_self ..
  · replace hx : (o'.frames session.fanout)[i]? = some x := hx
    obtain ⟨hlt, -⟩ := List.getElem?_eq_some_iff.mp hx
    rw [hframes] at hlt
    rw [h.stored, length_map] at hi
    exact absurd hlt (Nat.not_lt.mpr hi)

/-- A task reads on when it does not hand over a frame and none is published. -/
theorem reads_step (hhub : Delivery.step setup.delivery o.hub act = some o'.hub)
    (hpublish : ∀ sid bytes, act ≠ .publishWire sid bytes ∧ act ≠ .publishMetrics sid bytes)
    (ht' : o'.hub.tasks id = some t') (hopen : (o'.hub.conns t'.conn).isSome)
    (hsend : act ≠ .send id) (hframes : o'.frames = o.frames) (hheard : o'.heard = o.heard)
    (hsent : o'.sent t'.conn = o.sent t'.conn) :
    ∃ pos, o'.ReadsAt t' pos := by
  have hstored := sent_of_step hhub hpublish t'.fanout
  cases ht : o.hub.tasks id with
  | none => exact h.reads_new hhub hstored ht ht' hframes
  | some t =>
    have hmoved := h.wired.taskMoved hhub ht ht'
    rw [hmoved.samePlace.conn_eq] at hopen
    obtain ⟨pos, hr⟩ := h.reads id t ht (h.wired.isSome_of_step hhub ht hopen)
    -- The frames ahead are the same or fewer.
    have hread : ∀ pos', SamePlace t t' →
        (o'.hub.fanout t.fanout).cursor t.receiver = some pos' →
        pos' ≤ (o.hub.fanout t.fanout).sent.length → t'.phase.inFlight ≤ pos' →
        pos + t'.phase.inFlight ≤ pos' + t.phase.inFlight →
        (∀ bytes, t'.phase = .sending bytes →
          (o.hub.fanout t.fanout).sent[pos' - 1]? = some bytes) → o'.ReadsAt t' pos' := by
      intro pos' hplace hcursor hpos hinFlight hle hholds
      rw [hplace.fanout_eq] at hstored
      rw [hplace.conn_eq] at hsent
      refine ⟨?_, ?_, hinFlight, ?_, ?_⟩
      · rw [hplace.fanout_eq, hplace.receiver_eq]
        exact hcursor
      · rw [hplace.fanout_eq, hstored]
        exact hpos
      · rw [hplace.fanout_eq, hstored]
        exact hholds
      · rw [hplace.fanout_eq, hplace.conn_eq, hframes, hheard, hsent]
        intro i x hi hx
        exact hr.ahead i x (by omega) hx
    cases hmoved with
    | kept hsame =>
      exact ⟨pos, hread pos (.refl _) (hsame.cursor_eq.trans hr.cursor_eq) hr.pos_le
        hr.inFlight_le le_rfl hr.holds⟩
    | published ha =>
      rcases ha with rfl | rfl
      · exact absurd rfl (hpublish _ _).1
      · exact absurd rfl (hpublish _ _).2
    | received hphase hcursor hbytes hstands =>
      cases hcursor.symm.trans hr.cursor_eq
      obtain ⟨hlt, -⟩ := List.getElem?_eq_some_iff.mp hbytes
      refine ⟨pos + 1, hread (pos + 1) ⟨rfl, rfl, rfl, rfl, rfl⟩ hstands.cursor_eq hlt
        (Nat.le_add_left _ _) (by rw [hphase]; exact le_rfl) ?_⟩
      rintro _ ⟨⟩
      exact hbytes
    | lagged hphase hcursor hbehind hstands =>
      cases hcursor.symm.trans hr.cursor_eq
      have hidle : t'.phase.inFlight = 0 := by rw [hphase]; rfl
      refine ⟨_, hread _ (.refl _) hstands.cursor_eq (Nat.sub_le _ _) (by omega) (by omega) ?_⟩
      intro bytes hsending
      rw [hphase] at hsending
      cases hsending
    | handed => exact absurd rfl hsend
    | woken hphase hsame =>
      refine ⟨pos, hread pos ⟨rfl, rfl, rfl, rfl, rfl⟩ (by rw [hsame]; exact hr.cursor_eq) hr.pos_le
        (Nat.zero_le _) (by rw [hphase]; exact le_rfl) fun _ h => (nomatch h)⟩

theorem exists_frame {f : FanoutId} {i : ℕ}
    (hbytes : (o.hub.fanout f).sent[i]? = some bytes) :
    ∃ x, (o.frames f)[i]? = some x ∧ toVecNamed x.2 = bytes := by
  rw [h.stored, getElem?_map] at hbytes
  exact map_eq_some_iff.mp hbytes

variable {pos : ℕ} {x : TaskId × Envelope}

theorem reads_handed (hhub : Delivery.step setup.delivery o.hub (.send id) = some o'.hub)
    (ht : o.hub.tasks id = some t) (hr : o.ReadsAt t pos) (hphase : t.phase = .sending bytes)
    (hwriting : (o.hub.conns t.conn).any Conn.writing = true)
    (hx : (o.frames t.fanout)[pos - 1]? = some x) (hframes : o'.frames = o.frames)
    (hheard : o'.heard = o.heard) (hown : o'.sent t.conn = o.sent t.conn ++ [x.2])
    (ht' : o'.hub.tasks id = some t') : o'.ReadsAt t' pos := by
  obtain ⟨phase, hidle, hnow, hchannels⟩ := tasks_of_send hhub ht hwriting
  rw [hnow, some.injEq] at ht'
  subst ht'
  have hinFlight : t.phase.inFlight = 1 := by
    rw [hphase]
    rfl
  obtain ⟨hfree, hnone⟩ := inFlight_of_idle hidle
  have hone := hr.inFlight_le
  refine ⟨?_, ?_, hfree.le.trans (Nat.zero_le _), fun b hb => absurd hb (hnone b), ?_⟩
  · rw [hchannels]
    exact hr.cursor_eq
  · rw [hchannels]
    exact hr.pos_le
  · intro k y hk hy hdata
    replace hk : pos ≤ k + phase.inFlight := hk
    replace hy : (o'.frames t.fanout)[k]? = some y := hy
    rw [hframes] at hy
    obtain ⟨hrun, hbelow⟩ := hr.ahead k y (by omega) hy hdata
    refine ⟨by rw [hheard]; exact hrun, fun env henv hkind => ?_⟩
    replace henv : env ∈ o'.sent t.conn := henv
    rw [hown] at henv
    rcases mem_append.mp henv with hold | hnew
    · exact hbelow env hold hkind
    · -- Both frames are of the run the connection has heard.
      rw [mem_singleton.mp hnew] at hkind ⊢
      have hsame : x.1 = y.1 :=
        some.inj ((hr.above_of_sending hphase hx hkind).1.symm.trans hrun)
      obtain ⟨hlt, rfl⟩ := List.getElem?_eq_some_iff.mp hx
      obtain ⟨hlt', rfl⟩ := List.getElem?_eq_some_iff.mp hy
      exact pairwise_iff_getElem.mp (h.rising t.fanout) _ _ hlt hlt' (by omega) hsame hkind
        hdata

section Frames

variable (hraw : ∀ run, o.system.rawFrames run ≤ o'.system.rawFrames run)
  (hframes : o'.frames = o.frames) (hheard : o'.heard = o.heard)
include hraw hframes hheard

omit hframes in
theorem bounded_step {env : Envelope} (henv : env ∈ o.sent c) (hdata : env.kind = .data) :
    ∃ run, o'.heard c = some run ∧ env.seq ≤ o'.system.rawFrames run := by
  obtain ⟨run, hrun, hle⟩ := h.bounded c env henv hdata
  exact ⟨run, by rw [hheard, hrun], hle.trans (hraw run)⟩

section Quiet

variable (hsent : o'.sent = o.sent) (hwire : o'.wire = o.wire)
include hsent hwire

/-- A step that publishes nothing and hands over no frame. -/
theorem carried (hwired : Wired o'.hub)
    (hsingle : ∀ i j t t', o'.hub.tasks i = some t → o'.hub.tasks j = some t' →
      t'.conn = t.conn → i = j)
    (hstored : ∀ f, (o'.hub.fanout f).sent = (o.hub.fanout f).sent)
    (hreads : ∀ id t, o'.hub.tasks id = some t → (o'.hub.conns t.conn).isSome →
      ∃ pos, o'.ReadsAt t pos) : InOrder o' where
  wired := hwired
  single := hsingle
  stored f := by
    rw [hstored, hframes]
    exact h.stored f
  rising := by
    rw [hframes]
    exact h.rising
  counted f x hx hdata := by
    rw [hframes] at hx
    exact (h.counted f x hx hdata).trans (hraw _)
  reads := hreads
  bounded c env henv hdata := by
    rw [hsent] at henv
    exact h.bounded_step hraw hheard henv hdata
  wire_eq := by
    rw [hwire, hsent]
    exact h.wire_eq
  increasing := by
    rw [hsent]
    exact h.increasing

/-- The invariant does not look at the registry, the queues and the manager. -/
theorem congr (hwired : Wired o'.hub) (hconns : o'.hub.conns = o.hub.conns)
    (htasks : o'.hub.tasks = o.hub.tasks) (hfanouts : ∀ f, o'.hub.fanout f = o.hub.fanout f) :
    InOrder o' := by
  refine h.carried hraw hframes hheard hsent hwire hwired ?_ (fun f => by rw [hfanouts])
    fun id t ht hopen => ?_
  · rw [htasks]
    exact h.single
  · rw [htasks] at ht
    rw [hconns] at hopen
    obtain ⟨pos, hr⟩ := h.reads id t ht hopen
    refine ⟨pos, hr.of_channel (hfanouts _) ?_⟩
    rw [hframes, hheard, hsent]
    exact hr.ahead

/-- A step of a client or a task that hands over no frame. -/
theorem quiet (hhub : Delivery.step setup.delivery o.hub act = some o'.hub)
    (hone : OneSubscription o (.serve act))
    (hpublish : ∀ sid bytes, act ≠ .publishWire sid bytes ∧ act ≠ .publishMetrics sid bytes)
    (hsend : ∀ id t', o'.hub.tasks id = some t' → act ≠ .send id) : InOrder o' :=
  h.carried hraw hframes hheard hsent hwire (h.wired.step hhub)
    (fun _ _ _ _ => h.single_step hhub hone) (sent_of_step hhub hpublish) fun id t ht hopen =>
      h.reads_step hhub hpublish ht hopen (hsend id t ht) hframes hheard (by rw [hsent])

end Quiet

theorem handed (hhub : Delivery.step setup.delivery o.hub (.send id) = some o'.hub)
    (ht : o.hub.tasks id = some t) (hr : o.ReadsAt t pos) (hphase : t.phase = .sending bytes)
    (hwriting : (o.hub.conns t.conn).any Conn.writing = true)
    (hx : (o.frames t.fanout)[pos - 1]? = some x) (hbytes : toVecNamed x.2 = bytes)
    (hsent : o'.sent = Function.update o.sent t.conn (o.sent t.conn ++ [x.2]))
    (hwire : o'.wire = Function.update o.wire t.conn (o.wire t.conn ++ [bytes])) : InOrder o' := by
  have hpublish : ∀ sid wire, Delivery.Action.send id ≠ .publishWire sid wire ∧
      Delivery.Action.send id ≠ .publishMetrics sid wire := fun _ _ => ⟨nofun, nofun⟩
  have habove := hr.above_of_sending hphase hx
  have hmem := mem_of_getElem? hx
  have hother : ∀ {c}, c ≠ t.conn → o'.sent c = o.sent c := fun hne => by
    rw [hsent, update_of_ne hne]
  have hown : o'.sent t.conn = o.sent t.conn ++ [x.2] := by
    rw [hsent, update_self]
  refine {
    wired := h.wired.step hhub
    single := fun _ _ _ _ => h.single_step hhub trivial
    stored := fun f => by
      rw [sent_of_step hhub hpublish f, hframes]
      exact h.stored f
    rising := by
      rw [hframes]
      exact h.rising
    counted := fun f y hy hdata => by
      rw [hframes] at hy
      exact (h.counted f y hy hdata).trans (hraw _)
    reads := fun i t' ht' hopen => ?_
    bounded := fun c env henv hdata => ?_
    wire_eq := fun c => ?_
    increasing := fun c => ?_ }
  · by_cases hid : i = id
    · subst hid
      exact ⟨pos, h.reads_handed hhub ht hr hphase hwriting hx hframes hheard hown ht'⟩
    · have hplace : t'.conn ≠ t.conn := by
        intro hconn
        cases hu : o.hub.tasks i with
        | none =>
          obtain ⟨_, _, _, _, _, _, ha, -⟩ := exists_pushTask hhub hu ht'
          cases ha
        | some u =>
          rw [(h.wired.taskMoved hhub hu ht').samePlace.conn_eq] at hconn
          exact hid (h.single i id u t hu ht hconn.symm)
      exact h.reads_step hhub hpublish ht' hopen (fun ha => hid (by cases ha; rfl)) hframes hheard
        (hother hplace)
  · by_cases hc : c = t.conn
    · subst hc
      rw [hown] at henv
      rcases mem_append.mp henv with hold | hnew
      · exact h.bounded_step hraw hheard hold hdata
      · rw [mem_singleton.mp hnew] at hdata ⊢
        refine ⟨x.1, by rw [hheard]; exact (habove hdata).1, ?_⟩
        exact (h.counted _ x hmem hdata).trans (hraw _)
    · rw [hother hc] at henv
      exact h.bounded_step hraw hheard henv hdata
  · by_cases hc : c = t.conn
    · subst hc
      rw [hown, hwire, update_self, h.wire_eq, map_append, ← hbytes]
      rfl
    · rw [hother hc, hwire, update_of_ne hc]
      exact h.wire_eq c
  · by_cases hc : c = t.conn
    · subst hc
      rw [hown]
      exact increasing_append (h.increasing _) fun hdata => (habove hdata).2
    · rw [hother hc]
      exact h.increasing c

/-- The sender hands over a frame, or ends because its writer is gone. -/
theorem send (hhub : Delivery.step setup.delivery o.hub (.send id) = some o'.hub)
    (hsent : o'.sent = o.noteSent (o.hub.delivery (.send id)))
    (hwire : o'.wire = o.noteWire (o.hub.delivery (.send id))) : InOrder o' := by
  have hstep := hhub
  generalize hafter : o'.hub = after at hhub
  cases stepped_of_step hhub with
  | @handed _ t bytes conn queue phase ht hphase hconn hwriting hidle =>
    obtain ⟨pos, hr⟩ := h.reads id t ht (by rw [hconn]; rfl)
    obtain ⟨x, hx, hbytes⟩ := h.exists_frame (hr.holds bytes hphase)
    have hany : (o.hub.conns t.conn).any Conn.writing = true := by
      rw [hconn]
      exact hwriting
    have hdelivery : o.hub.delivery (.send id) =
        some (⟨t.conn, t.fanout, pos - 1⟩, t.sid, bytes) := by
      simp [Hub.delivery, ht, hphase, hr.cursor_eq, hany]
    rw [hdelivery] at hsent hwire
    refine h.handed hraw hframes hheard hstep ht hr hphase hany hx hbytes ?_ hwire
    rw [hsent, Numbered.noteSent, hx]
    rfl
  | @cut _ t ht hwriting =>
    have hdelivery : o.hub.delivery (.send id) = none := by
      simp only [Hub.delivery, ht, hwriting]
      split <;> rfl
    rw [hdelivery] at hsent hwire
    refine h.quiet hraw hframes hheard hsent hwire hstep trivial (fun _ _ => ⟨nofun, nofun⟩) ?_
    rintro other t' ht' ⟨⟩
    rw [hafter, (dropTask_frame _ _).2, update_self] at ht'
    cases ht'

end Frames

end InOrder

/-- A run publishes a frame for a session, and every connection that listens to the session has
heard data frames of this run only. -/
structure Publishes (o o' : Numbered) (p : Publication) (session : SessionState) : Prop where
  session_eq : o.hub.ingest.registry p.sid = some session
  wired : Wired o'.hub
  conns_eq : o'.hub.conns = o.hub.conns
  tasks_eq : o'.hub.tasks = o.hub.tasks
  fanouts_eq : o'.hub.ingest.fanouts =
    (o.hub.publish session.fanout (toVecNamed p.env)).ingest.fanouts
  raw_le : ∀ run, o.system.rawFrames run ≤ o'.system.rawFrames run
  data : p.env.kind = .data → p.env.seq = o.system.rawFrames p.run + 1 ∧
    o'.system.rawFrames p.run = p.env.seq
  one : p.env.kind = .data → ∀ c < o.hub.nextConn, listens o.hub p.sid c = true →
    o.heard c = none ∨ o.heard c = some p.run
  frames_eq : o'.frames = o.noteFrames (some p) o'.hub
  heard_eq : o'.heard = o.noteHeard (some p)
  sent_eq : o'.sent = o.sent
  wire_eq : o'.wire = o.wire

namespace Publishes

variable {o o' : Numbered} {p : Publication} {session : SessionState} {c : ConnId}
  (h : Publishes o o' p session)
include h

theorem heard_of_some (ho : InOrder o) {run : TaskId} (hrun : o.heard c = some run) :
    o'.heard c = some run := by
  rw [h.heard_eq, Numbered.noteHeard]
  split
  · next hfor =>
    rcases h.one hfor.1 c (InOrder.listens_lt ho.wired hfor.2) hfor.2 with hnone | hsame
    · rw [hnone] at hrun
      cases hrun
    · rw [← hsame]
      exact hrun
  · exact hrun

theorem channel (f : FanoutId) :
    (f = session.fanout ∧
      o'.hub.fanout f = { o.hub.fanout f with
        sent := (o.hub.fanout f).sent ++ [toVecNamed p.env] } ∧
      o'.frames f = o.frames f ++ [(p.run, p.env)]) ∨
    (o'.hub.fanout f = o.hub.fanout f ∧ o'.frames f = o.frames f) := by
  have hchannel : o'.hub.fanout f =
      (o.hub.setFanout session.fanout
        ((o.hub.fanout session.fanout).send (toVecNamed p.env)).2).fanout f :=
    congrFun h.fanouts_eq f
  have hsame : o'.hub.fanout f = o.hub.fanout f → o'.frames f = o.frames f := by
    intro hsame
    rw [h.frames_eq, Numbered.noteFrames, hsame, if_neg (lt_irrefl _)]
  by_cases hf : f = session.fanout
  · subst hf
    rw [Hub.fanout_setFanout_self] at hchannel
    unfold Broadcast.Channel.send at hchannel
    split at hchannel
    · exact .inr ⟨hchannel, hsame hchannel⟩
    · refine .inl ⟨rfl, hchannel, ?_⟩
      rw [h.frames_eq, Numbered.noteFrames, hchannel, if_pos]
      rw [length_append]
      exact Nat.lt_succ_self _
  · rw [Hub.fanout_setFanout_of_ne hf] at hchannel
    exact .inr ⟨hchannel, hsame hchannel⟩

/-- A task reads on. A data frame of its session is the last one ahead of it. -/
theorem reads (ho : InOrder o) {id : SubTaskId} {t : SubTask} (ht : o.hub.tasks id = some t)
    (hopen : (o.hub.conns t.conn).isSome) : ∃ pos, o'.ReadsAt t pos := by
  obtain ⟨pos, hr⟩ := ho.reads id t ht hopen
  have hold : ∀ i x, pos ≤ i + t.phase.inFlight → (o.frames t.fanout)[i]? = some x →
      x.2.kind = .data →
        o'.heard t.conn = some x.1 ∧
          ∀ env ∈ o'.sent t.conn, env.kind = .data → env.seq < x.2.seq := by
    intro i x hi hx hdata
    obtain ⟨hrun, hbelow⟩ := hr.ahead i x hi hx hdata
    refine ⟨h.heard_of_some ho hrun, ?_⟩
    rw [h.sent_eq]
    exact hbelow
  refine ⟨pos, ?_⟩
  rcases h.channel t.fanout with ⟨hf, hchannel, hframes⟩ | ⟨hchannel, hframes⟩
  · refine ⟨?_, ?_, hr.inFlight_le, fun bytes hphase => ?_, fun i x hi hx hdata => ?_⟩
    · rw [hchannel]
      exact hr.cursor_eq
    · rw [hchannel, length_append]
      exact Nat.le_add_right_of_le hr.pos_le
    · have hheld := hr.holds bytes hphase
      rw [hchannel, List.getElem?_append_left (List.getElem?_eq_some_iff.mp hheld).1]
      exact hheld
    · rw [hframes] at hx
      by_cases hlt : i < (o.frames t.fanout).length
      · rw [List.getElem?_append_left hlt] at hx
        exact hold i x hi hx hdata
      · rw [getElem?_append_right (Nat.le_of_not_lt hlt)] at hx
        have hnew : x = (p.run, p.env) := mem_singleton.mp (mem_of_getElem? hx)
        subst hnew
        have hlistens : listens o.hub p.sid t.conn = true :=
          (InOrder.listens_iff h.session_eq).mpr
            ⟨hopen, id, ho.wired.task_lt id t ht, t, ht, rfl, hf⟩
        refine ⟨?_, fun env henv hkind => ?_⟩
        · rw [h.heard_eq, Numbered.noteHeard]
          exact if_pos ⟨hdata, hlistens⟩
        · -- All that was sent to a connection that listens is below a new data frame.
          rw [h.sent_eq] at henv
          obtain ⟨run, hrun, hle⟩ := ho.bounded t.conn env henv hkind
          have hseq := (h.data hdata).1
          have hlt := InOrder.listens_lt ho.wired hlistens
          rcases h.one hdata t.conn hlt hlistens with hnone | hsame
          · rw [hnone] at hrun
            cases hrun
          · rw [hsame, some.injEq] at hrun
            rw [hrun] at hseq
            show env.seq < p.env.seq
            omega
  · apply hr.of_channel hchannel
    rw [hframes]
    exact hold

theorem inOrder (ho : InOrder o) : InOrder o' where
  wired := h.wired
  single := by
    rw [h.tasks_eq]
    exact ho.single
  stored f := by
    rcases h.channel f with ⟨-, hchannel, hframes⟩ | ⟨hchannel, hframes⟩
    · rw [hchannel, hframes, map_append, ← ho.stored]
      rfl
    · rw [hchannel, hframes]
      exact ho.stored f
  rising f := by
    rcases h.channel f with ⟨-, -, hframes⟩ | ⟨-, hframes⟩
    · rw [hframes, pairwise_append]
      refine ⟨ho.rising f, pairwise_singleton .., fun x hx y hy hrun hdata hnew => ?_⟩
      rw [mem_singleton.mp hy] at hrun hnew ⊢
      replace hrun : x.1 = p.run := hrun
      have hle := ho.counted f x hx hdata
      have hseq := (h.data hnew).1
      rw [hrun] at hle
      show x.2.seq < p.env.seq
      omega
    · rw [hframes]
      exact ho.rising f
  counted f x hx hdata := by
    have hold : x ∈ o.frames f → x.2.seq ≤ o'.system.rawFrames x.1 := fun hmem =>
      (ho.counted f x hmem hdata).trans (h.raw_le _)
    rcases h.channel f with ⟨-, -, hframes⟩ | ⟨-, hframes⟩
    · rw [hframes] at hx
      rcases mem_append.mp hx with hmem | hnew
      · exact hold hmem
      · rw [mem_singleton.mp hnew] at hdata ⊢
        exact (h.data hdata).2.ge
    · rw [hframes] at hx
      exact hold hx
  reads id t ht hopen := by
    rw [h.tasks_eq] at ht
    rw [h.conns_eq] at hopen
    exact h.reads ho ht hopen
  bounded c env henv hdata := by
    rw [h.sent_eq] at henv
    obtain ⟨run, hrun, hle⟩ := ho.bounded c env henv hdata
    exact ⟨run, h.heard_of_some ho hrun, hle.trans (h.raw_le run)⟩
  wire_eq := by
    rw [h.wire_eq, h.sent_eq]
    exact ho.wire_eq
  increasing := by
    rw [h.sent_eq]
    exact ho.increasing

end Publishes

namespace InOrder

variable {o o' : Numbered} {setup : Setup} {a : Action}

theorem handing_eq_none (ha : ∀ act, a ≠ .serve act) : o.handing a = none := by
  cases a with
  | serve act => exact absurd rfl (ha act)
  | _ => rfl

variable {system : System}

/-- The server changes nothing but its sessions and counters. -/
theorem settled (h : InOrder o) (hpub : publication setup o.system a = none)
    (ha : ∀ act, a ≠ .serve act) (hwired : Wired system.relay.hub)
    (hconns : system.relay.hub.conns = o.hub.conns)
    (htasks : system.relay.hub.tasks = o.hub.tasks)
    (hfanouts : ∀ f, system.relay.hub.fanout f = o.hub.fanout f)
    (hraw : ∀ t, o.system.rawFrames t ≤ system.rawFrames t) :
    InOrder
      { system := system
        frames := o.noteFrames (publication setup o.system a) system.relay.hub
        heard := o.noteHeard (publication setup o.system a)
        sent := o.noteSent (o.handing a)
        wire := o.noteWire (o.handing a) } := by
  rw [hpub, handing_eq_none ha]
  exact h.congr hraw rfl rfl rfl rfl hwired hconns htasks hfanouts

/-- Nothing is stored for a session that is not registered. -/
theorem swallowed (h : InOrder o) {p : Publication}
    (hsession : o.hub.ingest.registry p.sid = none) (hhub : system.relay.hub = o.hub)
    (hraw : ∀ t, o.system.rawFrames t ≤ system.rawFrames t) :
    InOrder
      { system := system
        frames := o.noteFrames (some p) system.relay.hub
        heard := o.noteHeard (some p)
        sent := o.sent
        wire := o.wire } := by
  have hframes : o.noteFrames (some p) system.relay.hub = o.frames := by
    funext f
    rw [Numbered.noteFrames, hhub]
    exact if_neg (lt_irrefl _)
  have hheard : o.noteHeard (some p) = o.heard := by
    funext c
    refine if_neg fun hfor => ?_
    have hlistens := hfor.2
    rw [listens, hsession, Bool.and_false] at hlistens
    cases hlistens
  rw [hframes, hheard]
  refine h.congr hraw rfl rfl rfl rfl ?_ ?_ ?_ ?_
  · show Wired system.relay.hub
    rw [hhub]
    exact h.wired
  · exact congrArg Hub.conns hhub
  · exact congrArg Hub.tasks hhub
  · intro f
    exact congrArg (fun s : Hub => s.fanout f) hhub

/-- Every step keeps the frames of a connection in order when it is offered one run. -/
theorem step (h : InOrder o) (hone : OneRun setup o a) (hstep : o.step setup a = some o') :
    InOrder o' := by
  unfold Numbered.step at hstep
  split at hstep
  · cases hstep
  · next system hsystem =>
    cases hstep
    have hraw := rawFrames_le hsystem
    cases moved_of_step hsystem with
    | still hpub ha hhub =>
      rcases hhub with hsame | ⟨sid, bytes, hcounted⟩
      · apply h.settled hpub ha _ _ _ _ hraw
        all_goals rw [hsame]
        · exact h.wired
        · exact fun _ => rfl
      · have hwired : Wired system.relay.hub := by
          rw [hcounted]
          exact h.wired.withIngest (o.hub.ingest.recordFrame sid bytes) rfl le_rfl
            fun _ _ hs => .inl hs
        apply h.settled hpub ha hwired _ _ _ hraw
        all_goals rw [hcounted]
        exact fun _ => rfl
    | session hpub ha hact hhub =>
      have hwired := h.wired.step hhub
      rcases hact with ⟨sid, kind, iface, label, rfl⟩ | ⟨sid, rfl⟩
      · replace hhub := some.inj hhub
        apply h.settled hpub ha hwired _ _ _ hraw
        all_goals rw [← hhub]
        intro f
        exact congrFun (registerSession_rows o.hub.ingest sid kind iface label).1 f
      · replace hhub := some.inj hhub
        apply h.settled hpub ha hwired _ _ _ hraw
        all_goals rw [← hhub]
        exact fun _ => rfl
    | @published _ p act hpub ha hact hdata hhub =>
      have hwired := h.wired.step hhub
      have hguard := hone.2 p hpub
      rw [hpub, handing_eq_none ha]
      cases hsession : o.hub.ingest.registry p.sid with
      | none =>
        apply h.swallowed hsession _ hraw
        rcases hact with rfl | rfl
        · rw [← some.inj hhub, Hub.publishWire, hsession]
        · rw [← some.inj hhub, Hub.publishMetrics, hsession]
      | some session =>
        obtain ⟨hconns, htasks, hfanouts⟩ : system.relay.hub.conns = o.hub.conns ∧
            system.relay.hub.tasks = o.hub.tasks ∧ system.relay.hub.ingest.fanouts =
              (o.hub.publish session.fanout (toVecNamed p.env)).ingest.fanouts := by
          rcases hact with rfl | rfl
          · rw [← some.inj hhub, publishWire_eq _ hsession]
            exact ⟨rfl, rfl, rfl⟩
          · rw [← some.inj hhub, Hub.publishMetrics, hsession]
            exact ⟨rfl, rfl, rfl⟩
        have hpublishes : Publishes o
            { system := system
              frames := o.noteFrames (some p) system.relay.hub
              heard := o.noteHeard (some p)
              sent := o.noteSent none
              wire := o.noteWire none } p session :=
          ⟨hsession, hwired, hconns, htasks, hfanouts, hraw, hdata, hguard, rfl, rfl, rfl, rfl⟩
        exact hpublishes.inOrder h
    | @served act hserved hhub =>
      have hpub : publication setup o.system (.serve act) = none := rfl
      cases act with
      | send id => exact h.send hraw rfl rfl hhub rfl rfl
      | publishWire | publishMetrics => cases hserved
      | _ =>
        exact h.quiet hraw rfl rfl rfl rfl hhub hone.1 (by simp) (by simp)

end InOrder

/-- As long as every connection has one subscription at a time and is offered the data frames of
one run, the frames handed to a connection are envelopes whose data frames have growing
numbers. -/
theorem seqs_increasing_of_oneRun (setup : Setup) (config : ManagerConfig) {run : List Action}
    {o : Numbered} (hguard : Guarded (Numbered.step setup) (OneRun setup) (.new config) run)
    (hrun : exec (Numbered.step setup) (.new config) run = some o) (c : ConnId) :
    o.wire c = (o.sent c).map toVecNamed ∧ (dataSeqs (o.sent c)).Pairwise (· < ·) := by
  have horder : InOrder o :=
    exec_invariant (fun _ _ _ h hone hstep => h.step hone hstep) (inOrder_new config) hguard hrun
  exact ⟨horder.wire_eq c, horder.increasing c⟩

/-! ## Numbers that do not grow -/

def twoSources : Setup :=
  ⟨⟨fun text => if text = "a" then some 0 else if text = "b" then some 1 else none, 0⟩,
    BitVec.ofNat 128⟩

/-- A run reads a frame, and a subscription hands it to its connection. -/
def frameSteps (run : TaskId) (sub : SubTaskId) : List Action :=
  [.frame run (stampAt 0) [1] "mock:a", .serve (.recv sub), .serve (.send sub)]

def followRun : List Action := openRun ++ [.serve (.subscribe 0 ⟨some "a", none⟩)]

/-- The numbers on the connection of the first client after a run. -/
def seqsAfter (run : List Action) : Option (List ℕ) :=
  (exec (Numbered.step twoSources) (.new {}) run).map fun o => dataSeqs (o.sent 0)

/-- The client subscribes again when the task of its first subscription has ended. -/
def againRun : List Action :=
  followRun ++ frameSteps 0 0 ++ [Action.serve (.unsubscribe 0 ⟨some "a", none⟩),
    .serve (.cancel 0), .serve (.subscribe 0 ⟨some "a", some 0⟩)] ++ frameSteps 0 1

/-- The frames of one run are numbered one after the other. -/
theorem seqs_increasing_one_run :
    seqsAfter againRun = some [1, 2] ∧
      ∃ o, exec (Numbered.step twoSources) (.new {}) againRun = some o ∧
        o.wire 0 = (o.sent 0).map toVecNamed ∧ (dataSeqs (o.sent 0)).Pairwise (· < ·) := by
  have hseqs : seqsAfter againRun = some [1, 2] := by decide +kernel
  have hguard : Guarded (Numbered.step twoSources) (OneRun twoSources) (.new {}) againRun := by
    decide +kernel
  obtain ⟨o, ho, -⟩ := map_eq_some_iff.mp hseqs
  exact ⟨hseqs, o, ho, seqs_increasing_of_oneRun twoSources {} hguard ho 0⟩

/-- Numbers repeat on a connection. A client stays subscribed to a source that is restarted: the
second run numbers its frames from 1 again. A client subscribes to two sources: each numbers its
frames from 1. -/
theorem seqs_repeat :
    seqsAfter (followRun ++ frameSteps 0 0 ++
        .manage (.restart 0 {} .epoch) "" "" none :: startSteps 1 1 ++ frameSteps 1 0) =
      some [1, 1] ∧
    seqsAfter (followRun ++ .manage (.startSpec (.mock "b") {} .epoch) "" "" none ::
        startSteps 1 1 ++ [.serve (.subscribe 0 ⟨some "b", none⟩)] ++ frameSteps 0 0 ++
        frameSteps 1 1) =
      some [1, 1] ∧
    ¬ ([1, 1] : List ℕ).Pairwise (· < ·) := by
  refine ⟨by decide +kernel, by decide +kernel, by decide⟩

end TraceMux.Server.LiveSources
