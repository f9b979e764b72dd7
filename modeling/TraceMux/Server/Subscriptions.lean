/-
# What a connection has asked for

A client subscribes to a channel of a session and takes the subscription back. Sids have
several textual forms, and a request without a channel is for channel 0. The server keeps
subscriptions under the text and the channel as they stand in the request, and the task of a
subscription sends every frame of the session, whatever its channel.

Beside the server we keep what the clients have asked for, by session and channel, and the
frames handed to each connection. The two agree as long as every connection names each session
in one way, for the channel of the frames that are published, and subscribes again only after
the task of the subscription it took back has ended.
-/

import TraceMux.Server.Forwarding

namespace TraceMux.Server.Delivery

open Base Base.Broadcast Base.Transition TraceMux.Core List Function Option

/-! ## Requests and deliveries -/

def SubRequest.channel (env : SubRequest) : ℕ := env.ch.getD 0

def SubscriptionKey.channel (key : SubscriptionKey) : ℕ := key.ch.getD 0

/-- A frame handed to a connection. A frame is known by its place in the channel of its
session. -/
structure Delivered where
  conn : ConnId
  fanout : FanoutId
  index : ℕ
  deriving DecidableEq, Repr

/-- A subscription as the client sees it: the channel of the session when it was made, and how
many frames that had stored. Taking it back aborts a task, and has taken effect when that task
is gone. -/
structure Wish where
  fanout : FanoutId
  since : ℕ
  ending : Option SubTaskId
  deriving DecidableEq, Repr

/-- The subscription has not been taken back. -/
def Wish.live (w : Wish) : Bool := w.ending.isNone

/-- The subscriptions of every connection, by session and channel. -/
abbrev Wishes := ConnId × Uuid × ℕ → Option Wish

/-- The task that a connection has under the key of a request. -/
def Hub.taskUnder (s : Hub) (id : ConnId) (env : SubRequest) : Option SubTaskId :=
  (s.conns id).bind fun conn => env.sid.bind fun text => conn.subscriptions.lookup ⟨text, env.ch⟩

/-- What a request asks for. A second request for the same asks for nothing new. -/
def ask (parse : String → Option Uuid) (s : Hub) (wishes : Wishes) : Action → Wishes
  | .subscribe id env =>
    match env.sid.bind parse with
    | none => wishes
    | some sid =>
      match s.ingest.registry sid, (wishes (id, sid, env.channel)).filter Wish.live with
      | some session, none =>
        Function.update wishes (id, sid, env.channel)
          (some ⟨session.fanout, (s.fanout session.fanout).sent.length, none⟩)
      | _, _ => wishes
  | .unsubscribe id env =>
    match env.sid.bind parse with
    | none => wishes
    | some sid =>
      match (wishes (id, sid, env.channel)).filter Wish.live with
      | none => wishes
      | some w =>
        -- Without a task to end it is over at once.
        Function.update wishes (id, sid, env.channel)
          ((s.taskUnder id env).map fun task => { w with ending := some task })
  | _ => wishes

/-- The wishes of connections that have ended are void, and those that were taken back when
their task has ended. -/
def Hub.prune (s : Hub) (wishes : Wishes) : Wishes :=
  fun place => (wishes place).filter fun w =>
    (s.conns place.1).isSome && w.ending.all fun task => (s.tasks task).isSome

/-- The frame a step hands to a connection, with its session and its bytes. The receiver of a
task that holds a frame has moved one place beyond it. -/
def Hub.delivery (s : Hub) : Action → Option (Delivered × Uuid × Bytes)
  | .send id =>
    match s.tasks id with
    | none => none
    | some t =>
      match t.phase, (s.fanout t.fanout).cursor t.receiver with
      | .sending bytes, some pos =>
        if (s.conns t.conn).any Conn.writing then
          some (⟨t.conn, t.fanout, pos - 1⟩, t.sid, bytes)
        else none
      | _, _ => none
  | _ => none

/-- The connection has a live subscription to the session and the channel of a frame, made
before the frame was published. -/
def asked (channelOf : Bytes → ℕ) (wishes : Wishes) (d : Delivered) (sid : Uuid)
    (bytes : Bytes) : Bool :=
  (wishes (d.conn, sid, channelOf bytes)).any fun w => w.fanout = d.fanout ∧ w.since ≤ d.index

/-- The server with what is asked of it and what it delivers. -/
structure Observed where
  hub : Hub
  wishes : Wishes
  /-- The frames handed to connections, oldest first. -/
  delivered : List Delivered
  /-- Those that were not asked for when they were handed over. -/
  unasked : List Delivered

namespace Observed

def new : Observed := ⟨.new, fun _ => none, [], []⟩

/-- Note what is handed over. -/
def record (channelOf : Bytes → ℕ) (o : Observed) :
    Option (Delivered × Uuid × Bytes) → Observed
  | none => o
  | some (d, sid, bytes) =>
    { o with
      delivered := o.delivered ++ [d]
      unasked := if asked channelOf o.wishes d sid bytes then o.unasked else o.unasked ++ [d] }

def step (setup : Setup) (channelOf : Bytes → ℕ) (o : Observed) (a : Action) :
    Option Observed :=
  match Delivery.step setup o.hub a with
  | none => none
  | some hub =>
    some { o.record channelOf (o.hub.delivery a) with
      hub := hub
      wishes := hub.prune (ask setup.parse o.hub o.wishes a) }

end Observed

/-- Every connection names a session in one way: it subscribes to it under one key at a time,
after the task of a subscription it took back has ended; it takes the subscription back with the
key it was made with; and the frames that are published are of the channel it has subscribed
to. -/
def OneKey (parse : String → Option Uuid) (channelOf : Bytes → ℕ) (o : Observed) :
    Action → Prop
  | .subscribe id env =>
    (∀ conn ∈ o.hub.conns id, ∀ text ∈ env.sid, ∀ entry ∈ conn.subscriptions,
      parse entry.1.sid = parse text → entry.1 = ⟨text, env.ch⟩) ∧
    ∀ task < o.hub.nextTask, ∀ t ∈ o.hub.tasks task, t.conn = id →
      env.sid.bind parse = some t.sid → o.hub.taskUnder id env = some task
  | .unsubscribe id env =>
    ∀ conn ∈ o.hub.conns id, ∀ text ∈ env.sid, ∀ entry ∈ conn.subscriptions,
      parse entry.1.sid = parse text → entry.1.channel = env.channel →
        entry.1 = ⟨text, env.ch⟩
  | .publishWire sid bytes | .publishMetrics sid bytes =>
    ∀ task < o.hub.nextTask, ∀ t ∈ o.hub.tasks task, (o.hub.conns t.conn).isSome → t.sid = sid →
      t.key.channel = channelOf bytes
  | _ => True

instance decidableOneKey (parse : String → Option Uuid) (channelOf : Bytes → ℕ) (o : Observed)
    (a : Action) : Decidable (OneKey parse channelOf o a) := by
  induction a using Action.casesOn <;> dsimp only [OneKey] <;> infer_instance

/-! ## The invariant -/

/-- The subscriptions of a connection, none if there is no such connection. -/
def Hub.keysOf (s : Hub) (id : ConnId) : List (SubscriptionKey × SubTaskId) :=
  match s.conns id with
  | none => []
  | some conn => conn.subscriptions

/-- The subscriptions of the connections are what they have asked for and not taken back. -/
structure KeysMatch (parse : String → Option Uuid) (s : Hub) (wishes : Wishes) : Prop where
  entry : ∀ id e, e ∈ s.keysOf id →
    ∃ sid w, parse e.1.sid = some sid ∧ wishes (id, sid, e.1.channel) = some w ∧ w.ending = none
  unique : ∀ id e e', e ∈ s.keysOf id → e' ∈ s.keysOf id → parse e.1.sid = parse e'.1.sid → e = e'
  wished : ∀ id sid ch w, (s.conns id).isSome → wishes (id, sid, ch) = some w → w.ending = none →
    ∃ e ∈ s.keysOf id, parse e.1.sid = some sid ∧ e.1.channel = ch

/-- The wish that a task serves. Its connection has the task, or has taken the wish back. -/
structure Backed (s : Hub) (wishes : Wishes) (id : SubTaskId) (t : SubTask) (w : Wish) :
    Prop where
  wish_eq : wishes (t.conn, t.sid, t.key.channel) = some w
  held : w.ending = none ∧ (t.key, id) ∈ s.keysOf t.conn ∨ w.ending = some id

/-- What a task has read of the frames from `since` on, and what it has yet to hand over. -/
structure Reads (channelOf : Bytes → ℕ) (c : Channel Bytes) (log : List Delivered)
    (t : SubTask) (since ch pos : ℕ) : Prop where
  cursor_eq : c.cursor t.receiver = some pos
  pos_le : pos ≤ c.sent.length
  since_le : since + t.phase.inFlight ≤ pos
  /-- The frame in hand is the last one read. -/
  holds : ∀ bytes, t.phase = .sending bytes → c.sent[pos - 1]? = some bytes
  channel_eq : ∀ i bytes, pos ≤ i + t.phase.inFlight → c.sent[i]? = some bytes →
    channelOf bytes = ch
  /-- What the connection has got of this session is behind the task. -/
  behind : ∀ d ∈ log, d.conn = t.conn → d.fanout = t.fanout →
    d.index + t.phase.inFlight < pos

/-- A task serves a subscription of its connection. -/
def Follows (parse : String → Option Uuid) (channelOf : Bytes → ℕ) (o : Observed)
    (id : SubTaskId) (t : SubTask) : Prop :=
  parse t.key.sid = some t.sid ∧ ∃ w pos, Backed o.hub o.wishes id t w ∧ w.fanout = t.fanout ∧
    Reads channelOf (o.hub.fanout t.fanout) o.delivered t w.since t.key.channel pos

/-- What holds as long as every connection names each session in one way. Nothing is said of the
tasks of closed connections, which deliver nothing. -/
structure Serves (parse : String → Option Uuid) (channelOf : Bytes → ℕ) (o : Observed) :
    Prop where
  wired : Wired o.hub
  keys : KeysMatch parse o.hub o.wishes
  void : ∀ id sid ch w, o.wishes (id, sid, ch) = some w → (o.hub.conns id).isSome
  follows : ∀ id t, o.hub.tasks id = some t → (o.hub.conns t.conn).isSome →
    Follows parse channelOf o id t
  single : ∀ i j t t', o.hub.tasks i = some t → o.hub.tasks j = some t' →
    (t'.conn, t'.sid) = (t.conn, t.sid) → i = j
  stored : ∀ d ∈ o.delivered, d.index < (o.hub.fanout d.fanout).sent.length
  nodup : o.delivered.Nodup
  unasked_eq : o.unasked = []

variable {setup : Setup} {parse : String → Option Uuid} {channelOf : Bytes → ℕ} {o : Observed}
  {s s' : Hub} {a : Action} {wishes wishes' : Wishes} {t t' : SubTask} {w : Wish} {sid : Uuid}
  {id other : ConnId} {conn : Conn} {key : SubscriptionKey} {env : SubRequest} {text : String}
  {e : SubscriptionKey × SubTaskId} {bytes : Bytes} {session : SessionState} {task : SubTaskId}

theorem keysOf_update {conn : Option Conn} (h : s'.conns = Function.update s.conns id conn) :
    s'.keysOf = Function.update s.keysOf id ((conn.map Conn.subscriptions).getD []) := by
  funext other
  by_cases hid : other = id
  · subst hid
    cases conn <;> simp [Hub.keysOf, h]
  · simp [Hub.keysOf, h, hid]

theorem keysOf_update_same (h : s'.conns = Function.update s.conns id (some conn))
    (hsubs : conn.subscriptions = s.keysOf id) : s'.keysOf = s.keysOf := by
  rw [keysOf_update h, map_some, getD_some, hsubs, update_eq_self]

theorem keysOf_eq (h : s.conns id = some conn) : s.keysOf id = conn.subscriptions := by
  simp [Hub.keysOf, h]

theorem keysOf_congr (h : s'.conns = s.conns) : s'.keysOf = s.keysOf := by
  funext id
  rw [Hub.keysOf, h, Hub.keysOf]

theorem keysOf_close (hopen : ((s.close id).conns other).isSome) :
    (s.close id).keysOf other = s.keysOf other := by
  have hne : other ≠ id := by
    rintro rfl
    simp [Hub.close, Hub.setConn] at hopen
  simp [Hub.keysOf, Hub.close, Hub.setConn, hne]

theorem isSome_of_mem (h : e ∈ s.keysOf id) : (s.conns id).isSome := by
  unfold Hub.keysOf at h
  split at h
  · cases h
  · next conn hconn => rw [hconn]; rfl

/-! ## Requests -/

theorem not_mem_of_lookup_none {entries : List (SubscriptionKey × SubTaskId)}
    (h : entries.lookup key = none) : ∀ e ∈ entries, e.1 ≠ key := by
  intro e he heq
  have hne := lookup_eq_none_iff.mp h e he
  simp [heq] at hne

theorem prune_eq_some {ch : ℕ} : s.prune wishes (id, sid, ch) = some w ↔
    wishes (id, sid, ch) = some w ∧ (s.conns id).isSome ∧
      ∀ task ∈ w.ending, (s.tasks task).isSome := by
  simp [Hub.prune, filter_eq_some_iff, Option.all_eq_true]

/-- The subscriptions and the wishes change together, and those of the tasks that go on stay,
unless they are taken back. -/
structure KeysMoved (parse : String → Option Uuid) (s s' : Hub) (wishes wishes' : Wishes) :
    Prop where
  keys : KeysMatch parse s' wishes'
  kept : ∀ id t w, s.tasks id = some t → (s'.tasks id).isSome → (s'.conns t.conn).isSome →
    parse t.key.sid = some t.sid → Backed s wishes id t w →
      ∃ ending, Backed s' wishes' id t { w with ending := ending }

theorem KeysMoved.pruned (h : KeysMoved parse s s' wishes wishes') :
    KeysMoved parse s s' wishes (s'.prune wishes') := by
  refine ⟨⟨fun id e he => ?_, h.keys.unique, fun id sid ch w hopen hwish => ?_⟩,
    fun id t w ht hgoes hopen hparse hbacked => ?_⟩
  · obtain ⟨sid, w, hparse, hwish, hlive⟩ := h.keys.entry id e he
    refine ⟨sid, w, hparse, prune_eq_some.mpr ⟨hwish, isSome_of_mem he, ?_⟩, hlive⟩
    rw [hlive]
    exact fun _ h => nomatch h
  · exact h.keys.wished id sid ch w hopen (prune_eq_some.mp hwish).1
  · obtain ⟨ending, hwish, hheld⟩ := h.kept id t w ht hgoes hopen hparse hbacked
    refine ⟨ending, prune_eq_some.mpr ⟨hwish, hopen, ?_⟩, hheld⟩
    rintro task htask
    rcases hheld with ⟨hnone, -⟩ | hsome
    · rw [hnone] at htask
      cases htask
    · cases hsome.symm.trans htask
      exact hgoes

section

variable (h : Serves parse channelOf o)
include h

/-- A step that leaves the subscriptions of the open connections alone. -/
theorem Serves.same (hkeys : ∀ id, (s'.conns id).isSome → s'.keysOf id = o.hub.keysOf id) :
    KeysMoved parse o.hub s' o.wishes o.wishes := by
  have hmem : ∀ {id e}, e ∈ s'.keysOf id → e ∈ o.hub.keysOf id := fun he =>
    hkeys _ (isSome_of_mem he) ▸ he
  refine ⟨⟨fun id e he => h.keys.entry id e (hmem he),
    fun id e e' he he' => h.keys.unique id e e' (hmem he) (hmem he'),
    fun id sid ch w hopen hwish => ?_⟩, fun id t w ht hgoes hopen hparse hbacked => ?_⟩
  · rw [hkeys id hopen]
    exact h.keys.wished id sid ch w (h.void id sid ch w hwish) hwish
  · refine ⟨w.ending, hbacked.wish_eq, ?_⟩
    rw [hkeys _ hopen]
    exact hbacked.held

theorem Serves.same_of_eq (hkeys : s'.keysOf = o.hub.keysOf) :
    KeysMoved parse o.hub s' o.wishes o.wishes := h.same fun _ _ => congrFun hkeys _

/-- A subscription to a session to which the connection has none, and for which it has no task. -/
theorem Serves.insert (w : Wish) (hlive : w.ending = none)
    (hconns : ∀ other, (s'.conns other).isSome → (o.hub.conns other).isSome)
    (hkeys : s'.keysOf = Function.update o.hub.keysOf id (o.hub.keysOf id ++ [(key, task)]))
    (hsid : parse key.sid = some sid) (hfree : ∀ e ∈ o.hub.keysOf id, parse e.1.sid ≠ some sid)
    (htasks : ∀ i t, o.hub.tasks i = some t → t.conn = id → t.sid ≠ sid) :
    KeysMoved parse o.hub s' o.wishes
      (Function.update o.wishes (id, sid, key.channel) (some w)) := by
  have hold : ∀ {other sid' ch}, ¬ (other = id ∧ sid' = sid) →
      update o.wishes (id, sid, key.channel) (some w) (other, sid', ch) =
        o.wishes (other, sid', ch) := by
    intro other sid' ch hne
    refine update_of_ne (fun heq => hne ?_) _ _
    simp only [Prod.mk.injEq] at heq
    exact ⟨heq.1, heq.2.1⟩
  have hmem : ∀ {other e}, e ∈ s'.keysOf other ↔
      e ∈ o.hub.keysOf other ∨ (other = id ∧ e = (key, task)) := by
    intro other e
    rw [hkeys]
    by_cases hother : other = id
    · subst hother
      simp
    · simp [hother]
  refine ⟨⟨fun other e he => ?_, fun other e e' he he' hparse => ?_,
    fun other sid' ch w' hopen hwish hlive' => ?_⟩, fun i t w' ht hgoes hopen hparse hbacked => ?_⟩
  · rcases hmem.mp he with he | ⟨rfl, rfl⟩
    · obtain ⟨sid', w', hparse, hwish, hlive'⟩ := h.keys.entry other e he
      refine ⟨sid', w', hparse, (hold ?_).trans hwish, hlive'⟩
      rintro ⟨rfl, rfl⟩
      exact hfree e he hparse
    · exact ⟨sid, w, hsid, update_self .., hlive⟩
  · rcases hmem.mp he with he | ⟨rfl, rfl⟩
    · rcases hmem.mp he' with he' | ⟨rfl, rfl⟩
      · exact h.keys.unique other e e' he he' hparse
      · exact absurd (hparse.trans hsid) (hfree e he)
    · rcases hmem.mp he' with he' | ⟨-, rfl⟩
      · exact absurd (hparse.symm.trans hsid) (hfree e' he')
      · rfl
  · rcases update_some_eq_some hwish with ⟨hplace, -⟩ | ⟨-, hwish⟩
    · obtain ⟨rfl, rfl, rfl⟩ := hplace
      exact ⟨(key, task), hmem.mpr (.inr ⟨rfl, rfl⟩), hsid, rfl⟩
    · obtain ⟨e, he, hrest⟩ := h.keys.wished other sid' ch w' (hconns other hopen) hwish hlive'
      exact ⟨e, hmem.mpr (.inl he), hrest⟩
  · refine ⟨w'.ending, (hold fun heq => htasks i t ht heq.1 heq.2).trans hbacked.wish_eq, ?_⟩
    exact hbacked.held.imp_left fun hheld => ⟨hheld.1, hmem.mpr (.inl hheld.2)⟩

/-- A connection takes back a subscription under the key it was made with. -/
theorem Serves.takenBack (hconn : o.hub.conns id = some conn)
    (hold : conn.subscriptions.lookup key = some task) (hsid : parse key.sid = some sid)
    (hone : ∀ e ∈ conn.subscriptions, parse e.1.sid = some sid → e.1.channel = key.channel →
      e.1 = key) (hwish : o.wishes (id, sid, key.channel) = some w) (hlive : w.ending = none) :
    KeysMoved parse o.hub (o.hub.setConn id (some { conn with
        subscriptions := conn.subscriptions.filter fun entry => entry.1 ≠ key })) o.wishes
      (update o.wishes (id, sid, key.channel) (some { w with ending := some task })) := by
  have hkeysOf := keysOf_eq hconn
  have hmem : ∀ {other e}, e ∈ (o.hub.setConn id (some { conn with
      subscriptions := conn.subscriptions.filter fun entry => entry.1 ≠ key })).keysOf other ↔
        e ∈ o.hub.keysOf other ∧ ¬ (other = id ∧ e.1 = key) := by
    intro other e
    by_cases hother : other = id
    · subst hother
      simp [Hub.keysOf, Hub.setConn, hconn]
    · simp [Hub.keysOf, Hub.setConn, hother]
  -- Only this entry is at the place of the wish.
  have hplace : ∀ {other e sid'}, e ∈ o.hub.keysOf other → parse e.1.sid = some sid' →
      ((other, sid', e.1.channel) = (id, sid, key.channel) ↔ other = id ∧ e.1 = key) := by
    intro other e sid' he hparse
    simp only [Prod.mk.injEq]
    constructor
    · rintro ⟨rfl, rfl, hch⟩
      exact ⟨rfl, hone e (hkeysOf ▸ he) hparse hch⟩
    · rintro ⟨rfl, hkey⟩
      rw [hkey, hsid, some.injEq] at hparse
      exact ⟨rfl, hparse.symm, by rw [hkey]⟩
  refine ⟨⟨fun other e he => ?_, fun other e e' he he' => h.keys.unique other e e' (hmem.mp he).1
    (hmem.mp he').1, fun other sid' ch w' hopen hwish' hlive' => ?_⟩,
    fun i t w' ht hgoes hopen hparse hbacked => ?_⟩
  · obtain ⟨he, hne⟩ := hmem.mp he
    obtain ⟨sid', w', hparse, hwish', hlive'⟩ := h.keys.entry other e he
    exact ⟨sid', w', hparse, (update_of_ne (mt (hplace he hparse).mp hne) _ _).trans hwish', hlive'⟩
  · rcases update_some_eq_some hwish' with ⟨-, rfl⟩ | ⟨hne, hwish'⟩
    · cases hlive'
    · obtain ⟨e, he, hparse, rfl⟩ :=
        h.keys.wished other sid' ch w' (h.void _ _ _ _ hwish') hwish' hlive'
      exact ⟨e, hmem.mpr ⟨he, mt (hplace he hparse).mpr hne⟩, hparse, rfl⟩
  · obtain ⟨hwish', hheld⟩ := hbacked
    by_cases heq : (t.conn, t.sid, t.key.channel) = (id, sid, key.channel)
    · -- The wish of this task is the one that is taken back.
      rw [heq, hwish, some.injEq] at hwish'
      subst hwish'
      rcases hheld with ⟨-, hentry⟩ | hending
      · obtain ⟨hid, hkey⟩ := (hplace hentry hparse).mp heq
        rw [hid] at hentry
        have hsame := h.keys.unique id _ (key, task) hentry (hkeysOf ▸ lookup_some_mem hold)
          (congrArg _ (congrArg _ hkey))
        have htask : i = task := congrArg Prod.snd hsame
        subst htask
        exact ⟨some i, by rw [heq]; exact update_self .., .inr rfl⟩
      · rw [hlive] at hending
        cases hending
    · refine ⟨w'.ending, (update_of_ne heq _ _).trans hwish', hheld.imp_left fun hheld => ?_⟩
      exact ⟨hheld.1, hmem.mpr ⟨hheld.2, mt (hplace hheld.2 hparse).mpr heq⟩⟩

theorem Serves.answered (hconn : o.hub.conns id = some conn)
    (hanswer : Answered o.hub id conn s') : KeysMoved parse o.hub s' o.wishes o.wishes := by
  cases hanswer with
  | queued queue => exact h.same_of_eq (keysOf_update_same rfl (keysOf_eq hconn).symm)
  | closed => exact h.same fun _ => keysOf_close

end

theorem ask_unknown (h : (env.sid.bind parse).bind s.ingest.registry = none) :
    ask parse s wishes (.subscribe id env) = wishes := by
  cases hsid : env.sid.bind parse with
  | none => simp only [ask, hsid]
  | some sid =>
    rw [hsid, bind_some] at h
    simp only [ask, hsid, h]

/-- A connection without a subscription under a key has none to the session, and no task for
it. -/
theorem OneKey.free (hguard : OneKey parse channelOf o (.subscribe id env))
    (hwired : Wired o.hub) (hconn : o.hub.conns id = some conn) (htext : env.sid = some text)
    (hnew : conn.subscriptions.lookup ⟨text, env.ch⟩ = none) (hsid : parse text = some sid) :
    (∀ e ∈ o.hub.keysOf id, parse e.1.sid ≠ some sid) ∧
      ∀ i t, o.hub.tasks i = some t → t.conn = id → t.sid ≠ sid := by
  obtain ⟨hentries, htasks⟩ := hguard
  constructor
  · intro e he hparse
    rw [keysOf_eq hconn] at he
    exact not_mem_of_lookup_none hnew e he
      (hentries conn hconn text htext e he (hparse.trans hsid.symm))
  · rintro i t ht hid rfl
    have hunder := htasks i (hwired.task_lt i t ht) t ht hid (by rw [htext]; exact hsid)
    rw [Hub.taskUnder, hconn, htext, bind_some, bind_some, hnew] at hunder
    cases hunder

theorem KeysMatch.ask_subscribe (h : KeysMatch parse o.hub o.wishes)
    (hconn : o.hub.conns id = some conn) (htext : env.sid = some text)
    (hsid : parse text = some sid)
    (hsession : o.hub.ingest.registry sid = some session)
    (hfree : ∀ e ∈ o.hub.keysOf id, parse e.1.sid ≠ some sid) :
    ask parse o.hub o.wishes (.subscribe id env) =
      Function.update o.wishes (id, sid, env.channel)
        (some ⟨session.fanout, (o.hub.fanout session.fanout).sent.length, none⟩) := by
  have hnew : (o.wishes (id, sid, env.channel)).filter Wish.live = none := by
    refine filter_eq_none_iff.mpr fun w hwish hlive => ?_
    obtain ⟨e, he, hparse, -⟩ := h.wished id sid _ w (by rw [hconn]; rfl) hwish
      (isNone_iff_eq_none.mp hlive)
    exact hfree e he hparse
  simp only [ask, htext, bind_some, hsid, hsession, hnew]

theorem KeysMatch.wish_under (h : KeysMatch parse o.hub o.wishes)
    (hconn : o.hub.conns id = some conn) (htext : env.sid = some text)
    (hold : conn.subscriptions.lookup ⟨text, env.ch⟩ = some task) :
    ∃ sid w, parse text = some sid ∧ env.sid.bind parse = some sid ∧
      o.wishes (id, sid, env.channel) = some w ∧ w.ending = none := by
  have hentry := lookup_some_mem hold
  rw [← keysOf_eq hconn] at hentry
  obtain ⟨sid, w, hparse, hwish, hlive⟩ := h.entry id _ hentry
  exact ⟨sid, w, hparse, by rw [htext]; exact hparse, hwish, hlive⟩

/-- In every step the subscriptions and the wishes change together. -/
theorem Serves.keysMoved (h : Serves setup.parse channelOf o)
    (hguard : OneKey setup.parse channelOf o a) (hhub : Delivery.step setup o.hub a = some s') :
    KeysMoved setup.parse o.hub s' o.wishes (ask setup.parse o.hub o.wishes a) := by
  cases stepped_of_step hhub with
  | registered | removed | swallowed | swallowedMetrics | published | publishedMetrics | received
  | lagged | woken => exact h.same_of_eq rfl
  | connected =>
    have hnone : o.hub.keysOf o.hub.nextConn = [] := by
      refine eq_nil_iff_forall_not_mem.mpr fun e he => ?_
      obtain ⟨conn, hconn⟩ := isSome_iff_exists.mp (isSome_of_mem he)
      exact absurd (h.wired.conn_lt _ conn hconn) (lt_irrefl _)
    exact h.same_of_eq (keysOf_update_same rfl hnone.symm)
  | handed _ _ hconn | written hconn =>
    exact h.same_of_eq (keysOf_update_same rfl (keysOf_eq hconn).symm)
  | ended | cut | cancelled =>
    exact h.same_of_eq (keysOf_congr (dropTask_frame _ _).1)
  | @subscribed id env conn text sid session hconn htext hnew hsid hsession =>
    obtain ⟨hfree, htasks⟩ := hguard.free h.wired hconn htext hnew hsid
    have hconns : (o.hub.pushTask id conn ⟨text, env.ch⟩ sid session.fanout).conns =
        update o.hub.conns id _ := rfl
    rw [h.keys.ask_subscribe hconn htext hsid hsession hfree]
    have hkeys : (o.hub.pushTask id conn ⟨text, env.ch⟩ sid session.fanout).keysOf =
        update o.hub.keysOf id (o.hub.keysOf id ++ [(⟨text, env.ch⟩, o.hub.nextTask)]) := by
      rw [keysOf_eq hconn]
      exact keysOf_update hconns
    refine h.insert _ rfl (fun other hother => ?_) hkeys hsid hfree htasks
    by_cases hid : other = id
    · rw [hid, hconn]
      rfl
    · rwa [hconns, update_of_ne hid] at hother
  | @kept id env conn text task hconn htext hold =>
    obtain ⟨sid, w, -, hsid, hwish, hlive⟩ := h.keys.wish_under hconn htext hold
    have hask : ask setup.parse o.hub o.wishes (.subscribe id env) = o.wishes := by
      cases hsession : o.hub.ingest.registry sid <;>
        simp [ask, hsid, hsession, hwish, Wish.live, hlive]
    rw [hask]
    exact h.same_of_eq rfl
  | refused hconn hsession hanswer =>
    rw [ask_unknown hsession]
    exact h.answered hconn hanswer
  | @unsubscribed id env conn text task hconn htext hold =>
    obtain ⟨sid, w, hparse, hsid, hwish, hlive⟩ := h.keys.wish_under hconn htext hold
    have hask : ask setup.parse o.hub o.wishes (.unsubscribe id env) =
        update o.wishes (id, sid, env.channel) (some { w with ending := some task }) := by
      have hfilter : (some w).filter Wish.live = some w := by simp [Wish.live, hlive]
      have hunder : o.hub.taskUnder id env = some task := by
        simp [Hub.taskUnder, hconn, htext, hold]
      simp only [ask, hsid, hwish, hfilter, hunder, map_some]
    rw [hask]
    exact h.takenBack hconn hold hparse (fun e he hsame hch =>
      hguard conn hconn text htext e he (hsame.trans hparse.symm) hch) hwish hlive
  | @absent id env conn text hconn htext hnew =>
    have hask : ask setup.parse o.hub o.wishes (.unsubscribe id env) = o.wishes := by
      cases hsid : env.sid.bind setup.parse with
      | none => simp only [ask, hsid]
      | some sid =>
        have hnone : (o.wishes (id, sid, env.channel)).filter Wish.live = none := by
          refine filter_eq_none_iff.mpr fun w hwish hlive => ?_
          obtain ⟨e, he, hparse, hch⟩ := h.keys.wished id sid _ w (by rw [hconn]; rfl) hwish
            (isNone_iff_eq_none.mp hlive)
          rw [keysOf_eq hconn] at he
          rw [htext, bind_some] at hsid
          exact not_mem_of_lookup_none hnew e he
            (hguard conn hconn text htext e he (hparse.trans hsid.symm) hch)
        simp only [ask, hsid, hnone]
    rw [hask]
    exact h.same_of_eq rfl
  | @malformed id env conn s' hconn htext hanswer =>
    have hask : ask setup.parse o.hub o.wishes (.unsubscribe id env) = o.wishes := by
      simp only [ask, htext, bind_none]
    rw [hask]
    exact h.answered hconn hanswer
  | replied hconn hanswer => exact h.answered hconn hanswer
  | closed id => exact h.same fun _ => keysOf_close

/-! ## What the tasks have read -/

section Reading

variable {c c' : Channel Bytes} {log : List Delivered} {since ch pos : ℕ}

theorem Reads.congr (h : Reads channelOf c log t since ch pos) (hsame : SameFor t.receiver c c') :
    Reads channelOf c' log t since ch pos := by
  obtain ⟨hcursor, hpos, hsince, hholds, hchannel, hbehind⟩ := h
  rw [← hsame.sent_eq] at hpos hholds hchannel
  exact ⟨hsame.cursor_eq.trans hcursor, hpos, hsince, hholds, hchannel, hbehind⟩

/-- Idle tasks have nothing in hand. -/
theorem inFlight_of_idle {phase : Phase} (h : phase = .receiving ∨ phase = .sleeping) :
    phase.inFlight = 0 ∧ ∀ bytes, phase ≠ .sending bytes := by
  rcases h with rfl | rfl
  · exact ⟨rfl, fun _ h => by cases h⟩
  · exact ⟨rfl, fun _ h => by cases h⟩

section

variable (h : Reads channelOf c log t since ch pos)
include h

/-- A task without a frame can stand anywhere between where it was and the end. -/
theorem Reads.idle {pos' : ℕ} (hsent : c'.sent = c.sent) (hplace : SamePlace t t')
    (hidle : t'.phase = .receiving ∨ t'.phase = .sleeping)
    (hcursor : c'.cursor t.receiver = some pos') (hle : pos ≤ pos') (hend : pos' ≤ c.sent.length) :
    Reads channelOf c' log t' since ch pos' := by
  obtain ⟨hfree, hnone⟩ := inFlight_of_idle hidle
  refine ⟨by rw [hplace.receiver_eq]; exact hcursor, by rw [hsent]; exact hend, ?_,
    fun bytes hphase => absurd hphase (hnone bytes), fun i bytes hi hbytes => ?_,
    fun d hd hconn hf => ?_⟩
  · have := h.since_le
    omega
  · rw [hsent] at hbytes
    exact h.channel_eq i bytes (by omega) hbytes
  · have := h.behind d hd (hconn.trans hplace.conn_eq) (hf.trans hplace.fanout_eq)
    omega

/-- A task takes the next frame from the channel. -/
theorem Reads.received (hphase : t.phase = .receiving) (hbytes : c.sent[pos]? = some bytes)
    (hstands : StandsAt t.receiver (pos + 1) c c') :
    Reads channelOf c' log { t with phase := .sending bytes } since ch (pos + 1) := by
  obtain ⟨hmore, -⟩ := List.getElem?_eq_some_iff.mp hbytes
  obtain ⟨-, -, hsince, -, hchannel, hbehind⟩ := h
  simp only [hphase, Phase.inFlight, Nat.add_zero] at hsince hchannel hbehind
  rw [← hstands.sent_eq] at hmore hbytes hchannel
  refine ⟨hstands.cursor_eq, hmore, Nat.succ_le_succ hsince, ?_, ?_, ?_⟩
  · rintro _ ⟨⟩
    exact hbytes
  · intro i bytes' hi hbytes'
    exact hchannel i bytes' (Nat.le_of_succ_le_succ hi) hbytes'
  · intro d hd hconn hf
    exact Nat.succ_lt_succ (hbehind d hd hconn hf)

/-- A frame of the channel is stored. -/
theorem Reads.send (hchannel : channelOf bytes = ch) :
    Reads channelOf { c with sent := c.sent ++ [bytes] } log t since ch pos := by
  refine ⟨h.cursor_eq, ?_, h.since_le, fun held hphase => ?_, fun i held hi hheld => ?_, h.behind⟩
  · rw [length_append]
    exact h.pos_le.trans (Nat.le_add_right _ _)
  · have hheld := h.holds held hphase
    rw [List.getElem?_append_left (List.getElem?_eq_some_iff.mp hheld).1]
    exact hheld
  · by_cases hold : i < c.sent.length
    · rw [List.getElem?_append_left hold] at hheld
      exact h.channel_eq i held hi hheld
    · rw [getElem?_append_right (Nat.le_of_not_lt hold)] at hheld
      have heq : held ∈ [bytes] := mem_of_getElem? hheld
      rw [mem_singleton.mp heq, hchannel]

end

theorem Serves.reads_step (h : Serves setup.parse channelOf o)
    (hguard : OneKey setup.parse channelOf o a) (hhub : Delivery.step setup o.hub a = some s')
    (ht : o.hub.tasks task = some t) (ht' : s'.tasks task = some t')
    (hopen : (o.hub.conns t.conn).isSome)
    (hr : Reads channelOf (o.hub.fanout t.fanout) log t since t.key.channel pos) :
    ∃ pos', Reads channelOf (s'.fanout t'.fanout) log t' since t.key.channel pos' := by
  cases h.wired.taskMoved hhub ht ht' with
  | kept hsame => exact ⟨pos, hr.congr hsame⟩
  | @published _ sid bytes session ha hsession hf hchannel =>
    have hasked : ∀ task < o.hub.nextTask, ∀ t ∈ o.hub.tasks task, (o.hub.conns t.conn).isSome →
        t.sid = sid → t.key.channel = channelOf bytes := by
      rcases ha with rfl | rfl
      · exact hguard
      · exact hguard
    have hsid := h.wired.task_session sid session task t hsession ht hf
    rw [hchannel, Channel.send_of_receiver (h.wired.receiver_lt task t ht) hr.cursor_eq]
    exact ⟨pos, hr.send (hasked task (h.wired.task_lt task t ht) t ht hopen hsid).symm⟩
  | received hphase hcursor hbytes hstands =>
    cases hcursor.symm.trans hr.cursor_eq
    exact ⟨_, hr.received hphase hbytes hstands⟩
  | lagged hphase hcursor hbehind hstands =>
    cases hcursor.symm.trans hr.cursor_eq
    exact ⟨_, hr.idle hstands.sent_eq (.refl t) (.inl hphase) hstands.cursor_eq (by omega)
      (by omega)⟩
  | handed hphase hwriting hidle hsame =>
    exact ⟨pos, hr.idle (congrArg _ hsame) ⟨rfl, rfl, rfl, rfl, rfl⟩ hidle (hsame ▸ hr.cursor_eq)
      le_rfl hr.pos_le⟩
  | woken hphase hsame =>
    exact ⟨pos, hr.idle (congrArg _ hsame) ⟨rfl, rfl, rfl, rfl, rfl⟩ (.inl rfl)
      (hsame ▸ hr.cursor_eq) le_rfl hr.pos_le⟩

end Reading

/-! ## Every step -/

/-- A frame that is handed over was asked for, and the connection has not got it. -/
theorem Serves.handed (h : Serves parse channelOf o) {pos : ℕ} (ht : o.hub.tasks task = some t)
    (hopen : (o.hub.conns t.conn).isSome) (hphase : t.phase = .sending bytes)
    (hcursor : (o.hub.fanout t.fanout).cursor t.receiver = some pos) :
    asked channelOf o.wishes ⟨t.conn, t.fanout, pos - 1⟩ t.sid bytes = true ∧
      pos - 1 < (o.hub.fanout t.fanout).sent.length ∧ 0 < pos ∧
      ⟨t.conn, t.fanout, pos - 1⟩ ∉ o.delivered := by
  obtain ⟨-, w, pos', ⟨hwish, -⟩, hwf, hr⟩ := h.follows task t ht hopen
  cases hcursor.symm.trans hr.cursor_eq
  have hsince := hr.since_le
  have hheld := hr.holds bytes hphase
  have hbehind := hr.behind
  simp only [hphase, Phase.inFlight] at hsince hbehind
  have hchannel : channelOf bytes = t.key.channel :=
    hr.channel_eq (pos - 1) bytes (by rw [hphase, Phase.inFlight]; omega) hheld
  refine ⟨?_, (List.getElem?_eq_some_iff.mp hheld).1, by omega, fun hgot => ?_⟩
  · simp only [asked, hchannel, hwish, Option.any_some, decide_eq_true_eq]
    exact ⟨hwf, by omega⟩
  · have hbefore : pos - 1 + 1 < pos := hbehind _ hgot rfl rfl
    omega

theorem Backed.place (h : Backed s wishes task t w) (hplace : SamePlace t t') :
    Backed s wishes task t' w := by
  obtain ⟨hconn, hkey, hsid, -, -⟩ := hplace
  constructor
  · rw [hconn, hkey, hsid]
    exact h.wish_eq
  · rw [hconn, hkey]
    exact h.held

/-- A connection still has at most one task for a session. -/
theorem Serves.single_step (h : Serves setup.parse channelOf o)
    (hguard : OneKey setup.parse channelOf o a) (hhub : Delivery.step setup o.hub a = some s')
    {i j : SubTaskId} (hi : s'.tasks i = some t) (hj : s'.tasks j = some t')
    (hsame : (t'.conn, t'.sid) = (t.conn, t.sid)) : i = j := by
  have hplace : ∀ {u v : SubTask}, SamePlace u v → (v.conn, v.sid) = (u.conn, u.sid) :=
    fun h => by rw [h.conn_eq, h.sid_eq]
  refine h.wired.apart_step hplace hhub h.single (fun hnone ht hu heq => ?_) hi hj hsame
  obtain ⟨cid, conn, env, text, sid, session, rfl, hcid, htext, -, -, rfl, hparse, hnew, -⟩ :=
    exists_pushTask hhub hnone ht
  obtain ⟨hconn, hsid⟩ := Prod.mk.inj heq
  exact (hguard.free h.wired hcid htext hnew hparse).2 _ _ hu hconn hsid

/-- The tasks serve their subscriptions after a step, when what was handed over is behind them. -/
theorem Serves.follows_step (h : Serves setup.parse channelOf o)
    (hguard : OneKey setup.parse channelOf o a) (hhub : Delivery.step setup o.hub a = some s')
    {log unasked : List Delivered}
    (hlog : ∀ i u v, o.hub.tasks i = some u → s'.tasks i = some v → ∀ d ∈ log, d ∉ o.delivered →
      d.conn = u.conn → d.fanout = u.fanout →
        ∀ pos, (s'.fanout v.fanout).cursor v.receiver = some pos → d.index + v.phase.inFlight < pos)
    (hstored : ∀ d ∈ log, d.index < (s'.fanout d.fanout).sent.length) (i : SubTaskId) (v : SubTask)
    (hv : s'.tasks i = some v) (hopen : (s'.conns v.conn).isSome) :
    Follows setup.parse channelOf
      ⟨s', s'.prune (ask setup.parse o.hub o.wishes a), log, unasked⟩ i v := by
  cases hu : o.hub.tasks i with
  | none =>
    -- A new task stands at the end of its channel.
    obtain ⟨cid, conn, env, text, sid, session, rfl, hconn, htext, hsession, rfl, rfl, hsid, hnew,
      rfl⟩ := exists_pushTask hhub hu hv
    have hbacked : Backed (o.hub.pushTask cid conn ⟨text, env.ch⟩ sid session.fanout)
        ((o.hub.pushTask cid conn ⟨text, env.ch⟩ sid session.fanout).prune
          (ask setup.parse o.hub o.wishes (.subscribe cid env))) o.hub.nextTask
        ⟨cid, ⟨text, env.ch⟩, sid, session.fanout, (o.hub.fanout session.fanout).nextReceiver,
          .receiving, o.hub.published session.fanout, 0, 0⟩
        ⟨session.fanout, (o.hub.fanout session.fanout).sent.length, none⟩ := by
      constructor
      · rw [h.keys.ask_subscribe hconn htext hsid hsession
          (hguard.free h.wired hconn htext hnew hsid).1]
        exact prune_eq_some.mpr ⟨update_self .., hopen, fun _ h => nomatch h⟩
      · rw [keysOf_eq (conns_pushTask ..)]
        exact .inl ⟨rfl, mem_append_right _ mem_cons_self⟩
    refine ⟨hsid, _, (o.hub.fanout session.fanout).sent.length, hbacked, rfl, ?_⟩
    have hsent : ∀ d ∈ log, d.fanout = session.fanout →
        d.index < (o.hub.fanout session.fanout).sent.length := by
      intro d hd hf
      have hlt := hstored d hd
      rw [hf, (quiet_pushTask ..).sent_eq] at hlt
      exact hlt
    rw [fanout_pushTask]
    refine ⟨update_self .., le_rfl, le_rfl, fun _ hphase => (nomatch hphase),
      fun i bytes hi hbytes => ?_, fun d hd _ hf => hsent d hd hf⟩
    obtain ⟨hlt, -⟩ := List.getElem?_eq_some_iff.mp hbytes
    exact absurd hlt (Nat.not_lt.mpr hi)
  | some u =>
    have hplace := (h.wired.taskMoved hhub hu hv).samePlace
    rw [hplace.conn_eq] at hopen
    have hwas := h.wired.isSome_of_step hhub hu hopen
    obtain ⟨hparse, w, pos, hbacked, hwf, hr⟩ := h.follows i u hu hwas
    obtain ⟨ending, hbacked'⟩ := (h.keysMoved hguard hhub).pruned.kept i u w hu (by rw [hv]; rfl)
      hopen hparse hbacked
    obtain ⟨pos', hr'⟩ := h.reads_step hguard hhub hu hv hwas hr
    refine ⟨by rw [hplace.key_eq, hplace.sid_eq]; exact hparse, _, pos', hbacked'.place hplace,
      hplace.fanout_eq ▸ hwf, ?_⟩
    rw [hplace.key_eq]
    refine { hr' with behind := fun d hd hconn hf => ?_ }
    by_cases hold : d ∈ o.delivered
    · exact hr'.behind d hold hconn hf
    · exact hlog i u v hu hv d hd hold (hconn.trans hplace.conn_eq) (hf.trans hplace.fanout_eq)
        pos' hr'.cursor_eq

/-- What a channel has stored stays there. -/
theorem length_sent_le (hhub : Delivery.step setup s a = some s') (f : FanoutId) :
    (s.fanout f).sent.length ≤ (s'.fanout f).sent.length := by
  have hpublish : ∀ g bytes,
      (s.fanout f).sent.length ≤ ((s.publish g bytes).fanout f).sent.length := by
    intro g bytes
    show _ ≤ ((s.setFanout g ((s.fanout g).send bytes).2).fanout f).sent.length
    by_cases hf : f = g
    · rw [hf, Hub.fanout_setFanout_self]
      exact (send_grows _ _).1
    · rw [Hub.fanout_setFanout_of_ne hf]
  cases outline_of_step hhub with
  | quiet hquiet => rw [hquiet.sent_eq]
  | registered sid kind iface label =>
    show _ ≤ ((s.ingest.registerSession sid kind iface label).2.fanouts f).sent.length
    rw [(registerSession_rows s.ingest sid kind iface label).1]
  | removed => exact le_rfl
  | published | publishedMetrics => exact hpublish _ _

theorem Serves.step {o' : Observed} (h : Serves setup.parse channelOf o)
    (hguard : OneKey setup.parse channelOf o a) (hstep : o.step setup channelOf a = some o') :
    Serves setup.parse channelOf o' := by
  unfold Observed.step at hstep
  split at hstep
  · cases hstep
  · next hub hhub =>
    cases hstep
    have hkeys := (h.keysMoved hguard hhub).pruned.keys
    have hvoid : ∀ id sid ch w,
        hub.prune (ask setup.parse o.hub o.wishes a) (id, sid, ch) = some w →
          (hub.conns id).isSome := fun _ _ _ _ hwish => (prune_eq_some.mp hwish).2.1
    have hsingle : ∀ i j t t', hub.tasks i = some t → hub.tasks j = some t' →
        (t'.conn, t'.sid) = (t.conn, t.sid) → i = j :=
      fun _ _ _ _ => h.single_step hguard hhub
    have hstored : ∀ d ∈ o.delivered, d.index < (hub.fanout d.fanout).sent.length :=
      fun d hd => (h.stored d hd).trans_le (length_sent_le hhub _)
    fun_cases o.hub.delivery a with
    | case2 id t ht bytes pos hcursor hphase hwriting =>
      have hopen : (o.hub.conns t.conn).isSome := by
        cases hconn : o.hub.conns t.conn with
        | none => simp [hconn] at hwriting
        | some conn => rfl
      obtain ⟨hasked, hlt, hpos, hnot⟩ := h.handed ht hopen hphase hcursor
      simp only [Observed.record, hasked, if_true]
      have hstored' : ∀ d ∈ o.delivered ++ [⟨t.conn, t.fanout, pos - 1⟩],
          d.index < (hub.fanout d.fanout).sent.length := by
        intro d hd
        rcases mem_append.mp hd with hold | hnew
        · exact hstored d hold
        · rw [mem_singleton.mp hnew]
          exact hlt.trans_le (length_sent_le hhub _)
      refine ⟨h.wired.step hhub, hkeys, hvoid, h.follows_step hguard hhub
        (fun i u v hu hv d hd hnew hconn hf pos' hpos' => ?_) hstored', hsingle, hstored', ?_,
        h.unasked_eq⟩
      · -- The frame is behind the task that has handed it over, and no other task is at the
        -- same session for the same connection.
        rcases mem_append.mp hd with hold | hd
        · exact absurd hold hnew
        · rw [mem_singleton.mp hd] at hconn hf ⊢
          have hsid := h.wired.task_sid i id u t hu ht hf.symm
          cases h.single id i t u ht hu (by rw [← hconn, hsid])
          obtain ⟨phase, hidle, hnow, hsame⟩ := tasks_of_send hhub ht hwriting
          cases hnow.symm.trans hv
          rw [hsame] at hpos'
          cases hcursor.symm.trans hpos'
          show pos - 1 + phase.inFlight < pos
          rw [(inFlight_of_idle hidle).1]
          omega
      · rw [nodup_append]
        refine ⟨h.nodup, by simp, fun d hd d' hd' heq => ?_⟩
        rw [heq, mem_singleton.mp hd'] at hd
        exact hnot hd
    | _ =>
      exact ⟨h.wired.step hhub, hkeys, hvoid, h.follows_step hguard hhub
        (fun _ _ _ _ _ d hd hnew => absurd hd hnew) hstored, hsingle, hstored, h.nodup,
        h.unasked_eq⟩

theorem serves_new : Serves parse channelOf .new where
  wired := wired_new
  keys := by
    constructor <;> intros <;> simp_all [Observed.new, Hub.new, Hub.keysOf]
  void _ _ _ _ hwish := by cases hwish
  follows _ _ ht := by cases ht
  single _ _ _ _ ht := by cases ht
  stored _ hd := by cases hd
  nodup := .nil
  unasked_eq := rfl

/-- As long as every connection names a session in one way and for the channel of its frames,
each frame is delivered to a connection at most once, and only while the connection has a live
subscription to the session and the channel of the frame that it made before the frame was
published. -/
theorem delivered_once_of_oneKey (setup : Setup) (channelOf : Bytes → ℕ) {run : List Action}
    {o : Observed}
    (hguard : Guarded (Observed.step setup channelOf) (OneKey setup.parse channelOf) .new run)
    (hrun : exec (Observed.step setup channelOf) .new run = some o) :
    o.delivered.Nodup ∧ o.unasked = [] := by
  have hserves := exec_invariant (fun _ _ _ h hg hs => h.step hg hs) serves_new hguard hrun
  exact ⟨hserves.nodup, hserves.unasked_eq⟩

/-! ## Two names of one session -/

def hyphenatedSid : String := "00000000-0000-0000-0000-000000000000"

/-- The same sid without hyphens. -/
def simpleSid : String := "00000000000000000000000000000000"

def twoForms : Setup :=
  ⟨fun text => if text = hyphenatedSid ∨ text = simpleSid then some 0 else none, 0⟩

/-- A client is connected to a server with one session, whose frames are of channel 0. -/
def connectRun : List Action := [.registerSession 0 "mock" "a" none, .connect]

/-- The client subscribes and takes its subscription back while a frame is under way to it. When
the task has ended a frame is published, and the client subscribes again. -/
def oneNameRun : List Action :=
  connectRun ++ [Action.subscribe 0 ⟨some hyphenatedSid, none⟩, .publishWire 0 [1], .recv 0,
    .unsubscribe 0 ⟨some hyphenatedSid, none⟩, .send 0, .cancel 0, .publishWire 0 [2],
    .subscribe 0 ⟨some hyphenatedSid, none⟩, .publishWire 0 [3], .recv 1, .send 1]

/-- A client that keeps to one name gets the first frame and the third, each once. -/
theorem delivered_once_one_name :
    ∃ o, exec (Observed.step twoForms fun _ => 0) .new oneNameRun = some o ∧
      o.delivered = [⟨0, 0, 0⟩, ⟨0, 0, 1⟩] ∧ o.delivered.Nodup ∧ o.unasked = [] := by
  have hguard : Guarded (Observed.step twoForms fun _ => 0) (OneKey twoForms.parse fun _ => 0)
      .new oneNameRun := by decide +kernel
  exact ⟨_, rfl, rfl, delivered_once_of_oneKey twoForms (fun _ => 0) hguard rfl⟩

/-- A client that subscribes under both forms of a sid gets every frame twice. One that leaves
the channel out when it subscribes and writes it out when it takes the subscription back goes on
getting frames. One that subscribes to channel 5 gets the frames of channel 0. -/
theorem two_names_deliver_twice :
    (∃ o, exec (Observed.step twoForms fun _ => 0) .new
        (connectRun ++ [.subscribe 0 ⟨some hyphenatedSid, none⟩,
          .subscribe 0 ⟨some simpleSid, none⟩, .publishWire 0 [1], .recv 0, .send 0, .recv 1,
          .send 1]) = some o ∧
      o.delivered = [⟨0, 0, 0⟩, ⟨0, 0, 0⟩] ∧ ¬ o.delivered.Nodup) ∧
    (∃ o, exec (Observed.step twoForms fun _ => 0) .new
        (connectRun ++ [.subscribe 0 ⟨some hyphenatedSid, none⟩,
          .unsubscribe 0 ⟨some hyphenatedSid, some 0⟩, .publishWire 0 [1], .recv 0,
          .send 0]) = some o ∧
      o.unasked = [⟨0, 0, 0⟩]) ∧
    ∃ o, exec (Observed.step twoForms fun _ => 0) .new
        (connectRun ++ [.subscribe 0 ⟨some hyphenatedSid, some 5⟩, .publishWire 0 [1], .recv 0,
          .send 0]) = some o ∧
      o.unasked = [⟨0, 0, 0⟩] :=
  ⟨⟨_, rfl, rfl, by decide⟩, ⟨_, rfl, rfl⟩, ⟨_, rfl, rfl⟩⟩

end TraceMux.Server.Delivery
