/-
# Writes to a UDP source

Several clients write to one UDP source. A write looks for the sink of the source, waits for its
lock, tells the sink the target of the request if it has one, and then has the sink send the
body. The target passes through a field of the sink, which all writes share.

A client can be cancelled where its task waits: for the lock, or for the socket. The control
call never waits, so that nothing comes between it and the call that takes the target. Every
datagram then goes where its own request says, or to the last peer.
-/

import Mathlib.Data.List.Nodup
import TraceMux.Base.HandOver
import TraceMux.Base.Transition
import TraceMux.Core.Sink.Udp

namespace TraceMux.Server.UdpWrites

open Base Base.Transition TraceMux.Core Core.Sink Function

/-- What a client asks for. -/
structure WriteRequest where
  body : Bytes
  target : Option String
  deriving DecidableEq, Repr

structure SinkEntry where
  /-- Whether the task of the source is over, if it has one. -/
  finished : Option Bool
  sink : Bool
  deriving DecidableEq, Repr

/-- Look for the sink. A source whose task is over loses it. -/
def findSink : Option SinkEntry → Except TraceMuxError Unit × Option SinkEntry
  | none => (.error ⟨.E2001WireMalformed, "write sid is unknown"⟩, none)
  | some entry =>
    let entry := if entry.finished = some true then ⟨none, false⟩ else entry
    (if entry.sink then .ok ()
      else .error ⟨.E2001WireMalformed, "source does not support write-back or is not running"⟩,
      some entry)

/-- Where a write stands inside the sink. -/
inductive Sending (Addr : Type)
  /-- The target is known and the socket is not ready yet. -/
  | sending (target : Addr)
  | sent
  deriving DecidableEq

structure Datagram (Addr : Type) where
  body : Bytes
  target : Addr
  deriving DecidableEq

variable {Client Addr : Type} [DecidableEq Client]

structure State (Client Addr : Type) where
  entry : Option SinkEntry
  sink : UdpSink Addr := {}
  lastPeer : Option Addr := none
  holder : Option Client := none
  phase : Client → HandOver.Phase (Sending Addr) := fun _ => .idle
  /-- The datagrams on the network, with the clients that sent them. -/
  sent : List (Client × Datagram Addr) := []
  results : List (Client × Except TraceMuxError ℕ) := []

inductive Action (Client Addr : Type)
  | write (c : Client)
  | lock (c : Client)
  | ctl (c : Client)
  | resolve (c : Client)
  /-- The socket takes the datagram, or fails. -/
  | send (c : Client) (outcome : Except String Unit)
  | complete (c : Client)
  /-- The task of a client is dropped while it waits. -/
  | cancel (c : Client)
  | recv (peer : Addr)
  | table (entry : Option SinkEntry)

/-- A write returns and gives the lock back. -/
def State.returns (s : State Client Addr) (c : Client) (result : Except TraceMuxError ℕ) :
    State Client Addr :=
  { s with
    holder := none
    phase := Function.update s.phase c .over
    results := s.results ++ [(c, result)] }

def State.goes (s : State Client Addr) (c : Client) (phase : HandOver.Phase (Sending Addr)) :
    State Client Addr :=
  { s with phase := Function.update s.phase c phase }

def prepare (net : Net Addr) (request : WriteRequest) (sink : UdpSink Addr) :
    Except TraceMuxError Unit × UdpSink Addr :=
  match request.target with
  | none => (.ok (), sink)
  | some target => sink.ctl net "udp-next-target" (some (Lines.encode target.toList))

/-- What a write does, one shared access at a time. -/
def step (net : Net Addr) (request : Client → WriteRequest) (s : State Client Addr)
    (a : Action Client Addr) : Option (State Client Addr) :=
  match a with
  | .recv peer => some { s with lastPeer := some peer }
  | .table entry => some { s with entry := entry }
  | .write c =>
    match s.phase c, findSink s.entry with
    | .idle, (.ok (), entry) => some { s.goes c .waiting with entry := entry }
    | .idle, (.error e, entry) =>
      some { s.goes c .over with entry := entry, results := s.results ++ [(c, .error e)] }
    | _, _ => none
  | .lock c =>
    match s.phase c, s.holder with
    | .waiting, none => some { s.goes c .locked with holder := some c }
    | _, _ => none
  | .ctl c =>
    match s.phase c, prepare net (request c) s.sink with
    | .locked, (.ok (), sink) => some { s.goes c .prepared with sink := sink }
    | .locked, (.error e, sink) => some { s.returns c (.error e) with sink := sink }
    | _, _ => none
  | .resolve c =>
    match s.phase c, s.sink.resolveTarget s.lastPeer with
    | .prepared, (.ok target, sink) =>
      some { s.goes c (.working (.sending target)) with sink := sink }
    | .prepared, (.error e, sink) => some { s.returns c (.error e) with sink := sink }
    | _, _ => none
  | .send c outcome =>
    match s.phase c with
    | .working (.sending target) =>
      match outcome with
      | .ok () =>
        some { s.goes c (.working .sent) with
               sent := s.sent ++ [(c, ⟨(request c).body, target⟩)] }
      | .error e => some (s.returns c (.error (sendError net target e)))
    | _ => none
  | .complete c =>
    match s.phase c with
    | .working .sent => some (s.returns c (.ok (request c).body.length))
    | _ => none
  | .cancel c =>
    match s.phase c with
    | .waiting => some (s.goes c .over)
    | .working (.sending _) => some { s.goes c .over with holder := none }
    | _ => none

/-- What the other writes see of a state. -/
def State.handOver (s : State Client Addr) : HandOver.State Client Addr (Sending Addr) :=
  ⟨s.sink.nextTarget, s.holder, s.phase⟩

def argument (net : Net Addr) (request : WriteRequest) : HandOver.Argument Addr :=
  match request.target with
  | none => .leave
  | some text =>
    match net.parse text with
    | .ok target => .put (some target)
    | .error _ => .refused

variable {net : Net Addr} {request : Client → WriteRequest} {s s' : State Client Addr}
  {a : Action Client Addr} {c : Client}

def Action.peer : Action Client Addr → Option Addr
  | .recv peer => some peer
  | _ => none

/-- A write that can have a datagram on the network. -/
def Through (phase : HandOver.Phase (Sending Addr)) : Prop :=
  phase = .working .sent ∨ phase = .over

structure Moves (net : Net Addr) (request : Client → WriteRequest) (s : State Client Addr)
    (a : Action Client Addr) (c : Client) (next : HandOver.Phase (Sending Addr))
    (s' : State Client Addr) : Prop where
  shared : HandOver.Step (fun c => argument net (request c)) s.handOver c s'.handOver
  phase : s'.phase = Function.update s.phase c next
  lastPeer : s'.lastPeer = s.lastPeer
  sent : s'.sent = s.sent
  peer : a.peer = none
  sending : ∀ target, next = .working (.sending target) →
    a = .resolve c ∧ s.phase c = .prepared ∧ s.sink.nextTarget.or s.lastPeer = some target
  through : Through (s.phase c) → Through next

/-- The socket takes a datagram. -/
structure Sends (request : Client → WriteRequest) (s : State Client Addr)
    (a : Action Client Addr) (c : Client) (target : Addr) (s' : State Client Addr) : Prop where
  phase : s.phase c = .working (.sending target)
  peer : a.peer = none
  state : s' = { s.goes c (.working .sent) with
    sent := s.sent ++ [(c, ⟨(request c).body, target⟩)] }

/-- A client that ends here moves as far as the others can see. -/
theorem moves_over
    (hshared : HandOver.Step (fun c => argument net (request c)) s.handOver c s'.handOver)
    (hphase : s'.phase = Function.update s.phase c .over) (hpeer : s'.lastPeer = s.lastPeer)
    (hsent : s'.sent = s.sent) (ha : a.peer = none) : Moves net request s a c .over s' :=
  ⟨hshared, hphase, hpeer, hsent, ha, nofun, fun _ => .inr rfl⟩

theorem moves_of_write (h : step net request s (.write c) = some s') :
    ∃ next, Moves net request s (.write c) c next s' := by
  rw [step] at h
  split at h
  · next hphase _ =>
    cases h
    refine ⟨.waiting, .ask hphase, rfl, rfl, rfl, rfl, nofun, ?_⟩
    rw [hphase]
    rintro (h | h) <;> cases h
  · next hphase _ =>
    cases h
    exact ⟨.over, moves_over (.leave (by rw [show s.handOver.phase c = _ from hphase]; rfl))
      rfl rfl rfl rfl⟩
  · cases h

theorem moves_of_lock (h : step net request s (.lock c) = some s') :
    ∃ next, Moves net request s (.lock c) c next s' := by
  rw [step] at h
  split at h
  · next hphase hfree =>
    cases h
    refine ⟨.locked, .lock hphase hfree, rfl, rfl, rfl, rfl, nofun, ?_⟩
    rw [hphase]
    rintro (h | h) <;> cases h
  · cases h

theorem moves_of_ctl (h : step net request s (.ctl c) = some s') :
    ∃ next, Moves net request s (.ctl c) c next s' := by
  rw [step] at h
  obtain ⟨hargument, hprepare⟩ | ⟨e, hprepare⟩ :
      (argument net (request c) ≠ .refused ∧ prepare net (request c) s.sink =
        (.ok (), ⟨(argument net (request c)).applied s.sink.nextTarget⟩)) ∨
      ∃ e, prepare net (request c) s.sink = (.error e, s.sink) := by
    unfold prepare argument
    cases (request c).target with
    | none => exact .inl ⟨nofun, rfl⟩
    | some text =>
      simp only [UdpSink.ctl, net.fromUtf8_encode]
      cases net.parse text with
      | error e => exact .inr ⟨_, rfl⟩
      | ok target => exact .inl ⟨nofun, rfl⟩
  · rw [hprepare] at h
    split at h
    · next hphase heq =>
      cases heq
      cases h
      refine ⟨.prepared, .prepare hphase hargument, rfl, rfl, rfl, rfl, nofun, ?_⟩
      rw [hphase]
      rintro (h | h) <;> cases h
    · next heq => cases heq
    · cases h
  · rw [hprepare] at h
    split at h
    · next heq => cases heq
    · next hphase heq =>
      cases heq
      cases h
      exact ⟨.over, moves_over (.refuse hphase) rfl rfl rfl rfl⟩
    · cases h

theorem moves_of_resolve (h : step net request s (.resolve c) = some s') :
    ∃ next, Moves net request s (.resolve c) c next s' := by
  rw [step] at h
  have hsnd := s.sink.resolveTarget_snd s.lastPeer
  split at h
  · next target sink hphase hresolve =>
    cases h
    rw [hresolve] at hsnd
    obtain rfl : sink = ⟨none⟩ := hsnd
    refine ⟨.working (.sending target), .start hphase _, rfl, rfl, rfl, rfl, ?_, ?_⟩
    · rintro _ ⟨⟩
      exact ⟨rfl, hphase, UdpSink.resolveTarget_eq_ok (by rw [hresolve])⟩
    · rw [hphase]
      rintro (h | h) <;> cases h
  · next e sink hphase hresolve =>
    cases h
    rw [hresolve] at hsnd
    obtain rfl : sink = ⟨none⟩ := hsnd
    exact ⟨.over, moves_over (.fail hphase) rfl rfl rfl rfl⟩
  · cases h

theorem moves_of_complete (h : step net request s (.complete c) = some s') :
    ∃ next, Moves net request s (.complete c) c next s' := by
  rw [step] at h
  split at h
  · next hphase =>
    cases h
    exact ⟨.over, moves_over (.finish hphase) rfl rfl rfl rfl⟩
  · cases h

theorem moves_of_cancel (h : step net request s (.cancel c) = some s') :
    ∃ next, Moves net request s (.cancel c) c next s' := by
  rw [step] at h
  split at h
  · next hphase =>
    cases h
    exact ⟨.over, moves_over (.leave (by rw [show s.handOver.phase c = _ from hphase]; rfl))
      rfl rfl rfl rfl⟩
  · next hphase =>
    cases h
    exact ⟨.over, moves_over (.finish hphase) rfl rfl rfl rfl⟩
  · cases h

/-- A step belongs to a client, or changes nothing that the writes share. -/
theorem step_cases (h : step net request s a = some s') :
    (s'.handOver = s.handOver ∧ s'.sent = s.sent ∧ s'.lastPeer = a.peer.or s.lastPeer) ∨
      (∃ c next, Moves net request s a c next s') ∨
      ∃ c target, Sends request s a c target s' := by
  cases a with
  | recv peer | table entry =>
    cases h
    exact .inl ⟨rfl, rfl, rfl⟩
  | write c => exact .inr (.inl ⟨c, moves_of_write h⟩)
  | lock c => exact .inr (.inl ⟨c, moves_of_lock h⟩)
  | ctl c => exact .inr (.inl ⟨c, moves_of_ctl h⟩)
  | resolve c => exact .inr (.inl ⟨c, moves_of_resolve h⟩)
  | complete c => exact .inr (.inl ⟨c, moves_of_complete h⟩)
  | cancel c => exact .inr (.inl ⟨c, moves_of_cancel h⟩)
  | send c outcome =>
    rw [step] at h
    split at h
    · next target hphase =>
      cases outcome with
      | ok =>
        cases h
        exact .inr (.inr ⟨c, target, hphase, rfl, rfl⟩)
      | error e =>
        cases h
        exact .inr (.inl ⟨c, .over, moves_over (.finish hphase) rfl rfl rfl rfl⟩)
    · cases h

/-- The last peer that the source has heard from in a run. -/
def lastPeer (actions : List (Action Client Addr)) : Option Addr :=
  (actions.filterMap Action.peer).getLast?

/-- The target is that of the client's own request. Without one, it is the last peer at the
moment at which the sink looks for it. -/
def GoesTo (net : Net Addr) (request : Client → WriteRequest) (past : List (Action Client Addr))
    (c : Client) (target : Addr) : Prop :=
  match (request c).target with
  | some text => net.parse text = .ok target
  | none => ∃ before after, past = before ++ .resolve c :: after ∧ lastPeer before = some target

omit [DecidableEq Client] in
theorem lastPeer_snoc (past : List (Action Client Addr)) (a : Action Client Addr) :
    lastPeer (past ++ [a]) = a.peer.or (lastPeer past) := by
  unfold lastPeer
  cases hpeer : a.peer with
  | none => simp [hpeer]
  | some peer => simp [hpeer]

omit [DecidableEq Client] in
theorem GoesTo.snoc {past : List (Action Client Addr)} {target : Addr}
    (h : GoesTo net request past c target) (a : Action Client Addr) :
    GoesTo net request (past ++ [a]) c target := by
  unfold GoesTo at h ⊢
  split
  · next text htext =>
    rw [htext] at h
    exact h
  · next htext =>
    rw [htext] at h
    obtain ⟨before, after, rfl, hpeer⟩ := h
    exact ⟨before, after ++ [a], by simp, hpeer⟩

/-- What holds of the writes after the actions of `past`. -/
structure Inv (net : Net Addr) (request : Client → WriteRequest)
    (past : List (Action Client Addr)) (s : State Client Addr) : Prop where
  shared : HandOver.Inv (fun c => argument net (request c)) s.handOver
  peer : s.lastPeer = lastPeer past
  sending : ∀ c target, s.phase c = .working (.sending target) →
    GoesTo net request past c target
  sent : ∀ e ∈ s.sent, e.2.body = (request e.1).body ∧ GoesTo net request past e.1 e.2.target
  through : ∀ c ∈ s.sent.map Prod.fst, Through (s.phase c)
  nodup : (s.sent.map Prod.fst).Nodup

omit [DecidableEq Client] in
theorem Inv.goesTo_of_prepared {past : List (Action Client Addr)} (h : Inv net request past s)
    (hphase : s.phase c = .prepared) {target : Addr}
    (htarget : s.sink.nextTarget.or s.lastPeer = some target) :
    GoesTo net request (past ++ [.resolve c]) c target := by
  obtain ⟨hargument, hregister⟩ := h.shared.prepared c hphase
  change s.sink.nextTarget = _ at hregister
  rw [hregister, h.peer] at htarget
  unfold argument at hargument htarget
  unfold GoesTo
  cases htext : (request c).target with
  | none =>
    rw [htext] at htarget
    exact ⟨past, [], rfl, htarget⟩
  | some text =>
    simp only [htext] at hargument htarget ⊢
    cases hparse : net.parse text with
    | error e =>
      rw [hparse] at hargument
      exact absurd rfl hargument
    | ok found =>
      simp only [hparse] at htarget
      exact congrArg Except.ok (Option.some.inj htarget)

/-- A client goes on without a datagram. -/
theorem Moves.inv {past : List (Action Client Addr)}
    {next : HandOver.Phase (Sending Addr)} (hmoves : Moves net request s a c next s')
    (h : Inv net request past s) : Inv net request (past ++ [a]) s' := by
  refine ⟨hmoves.shared.inv h.shared, ?_, fun d target hd => ?_, fun e he => ?_, fun d hd => ?_, ?_⟩
  · rw [lastPeer_snoc, hmoves.peer, hmoves.lastPeer]
    exact h.peer
  · rw [hmoves.phase] at hd
    by_cases heq : d = c
    · subst heq
      rw [update_self] at hd
      obtain ⟨rfl, hphase, htarget⟩ := hmoves.sending target hd
      exact h.goesTo_of_prepared hphase htarget
    · rw [update_of_ne heq] at hd
      exact (h.sending d target hd).snoc a
  · rw [hmoves.sent] at he
    exact ⟨(h.sent e he).1, (h.sent e he).2.snoc a⟩
  · rw [hmoves.sent] at hd
    rw [hmoves.phase]
    by_cases heq : d = c
    · subst heq
      rw [update_self]
      exact hmoves.through (h.through d hd)
    · rw [update_of_ne heq]
      exact h.through d hd
  · rw [hmoves.sent]
    exact h.nodup

/-- A datagram leaves for the target its client has found. -/
theorem Sends.inv {past : List (Action Client Addr)} {target : Addr}
    (hsends : Sends request s a c target s') (h : Inv net request past s) :
    Inv net request (past ++ [a]) s' := by
  have hfirst : c ∉ s.sent.map Prod.fst := by
    intro hc
    have hthrough := h.through c hc
    rw [hsends.phase] at hthrough
    rcases hthrough with hphase | hphase <;> cases hphase
  obtain rfl := hsends.state
  refine ⟨?_, ?_, fun d other hd => ?_, fun e he => ?_, fun d hd => ?_, ?_⟩
  · exact (HandOver.Step.work hsends.phase .sent).inv h.shared
  · rw [lastPeer_snoc, hsends.peer]
    exact h.peer
  · have hne : d ≠ c := by
      rintro rfl
      change update s.phase d _ d = _ at hd
      rw [update_self] at hd
      cases hd
    change update s.phase c _ d = _ at hd
    rw [update_of_ne hne] at hd
    exact (h.sending d other hd).snoc a
  · rcases List.mem_append.mp he with hold | hnew
    · exact ⟨(h.sent e hold).1, (h.sent e hold).2.snoc a⟩
    · rw [List.mem_singleton.mp hnew]
      exact ⟨rfl, (h.sending c target hsends.phase).snoc a⟩
  · change Through (update s.phase c _ d)
    by_cases heq : d = c
    · subst heq
      rw [update_self]
      exact .inl rfl
    · rw [update_of_ne heq]
      rw [List.map_append, List.mem_append] at hd
      rcases hd with hold | hnew
      · exact h.through d hold
      · exact absurd (List.mem_singleton.mp hnew) heq
  · rw [List.map_append]
    exact h.nodup.append (List.nodup_singleton c) (List.disjoint_singleton.mpr hfirst)

theorem inv_step (past : List (Action Client Addr)) (s : State Client Addr)
    (a : Action Client Addr) (s' : State Client Addr) (h : Inv net request past s)
    (hstep : step net request s a = some s') : Inv net request (past ++ [a]) s' := by
  obtain ⟨hshared, hsent, hpeer⟩ | ⟨c, next, hmoves⟩ | ⟨c, target, hsends⟩ := step_cases hstep
  · have hphase : s'.phase = s.phase := congrArg HandOver.State.phase hshared
    refine ⟨hshared ▸ h.shared, ?_, fun d target hd => ?_, fun e he => ?_, fun d hd => ?_, ?_⟩
    · rw [lastPeer_snoc, hpeer, h.peer]
    · rw [hphase] at hd
      exact (h.sending d target hd).snoc a
    · rw [hsent] at he
      exact ⟨(h.sent e he).1, (h.sent e he).2.snoc a⟩
    · rw [hsent] at hd
      rw [hphase]
      exact h.through d hd
    · rw [hsent]
      exact h.nodup
  · exact hmoves.inv h
  · exact hsends.inv h

omit [DecidableEq Client] in
theorem inv_start (entry : Option SinkEntry) :
    Inv net request [] ({ entry := entry } : State Client Addr) :=
  ⟨HandOver.inv_start, rfl, fun _ _ => nofun, fun _ => nofun, fun _ => nofun, List.nodup_nil⟩

/-- In every run, each request has at most one datagram on the network. It carries the body of
the request and goes to the request's own target, or to the last peer if it names none. -/
theorem datagrams_go_to_own_target (net : Net Addr) (request : Client → WriteRequest)
    (entry : Option SinkEntry) (actions : List (Action Client Addr)) (s : State Client Addr)
    (hrun : exec (step net request) { entry := entry } actions = some s) :
    (s.sent.map Prod.fst).Nodup ∧
      ∀ c datagram, (c, datagram) ∈ s.sent →
        datagram.body = (request c).body ∧ GoesTo net request actions c datagram.target := by
  have hguard : Guarded (step net request) (fun _ _ => True) { entry := entry } actions :=
    guarded_of_forall (fun _ _ => trivial) _ _
  have hinv : Inv net request ([] ++ actions) s :=
    exec_history_invariant (fun past s a s' h _ hstep => inv_step past s a s' h hstep)
      (inv_start entry) hguard hrun
  rw [List.nil_append] at hinv
  exact ⟨hinv.nodup, fun c datagram hmem => hinv.sent (c, datagram) hmem⟩

def twoAddresses : Net Bool where
  fromUtf8 bytes := (Lines.decode bytes).mapError fun _ => "invalid utf-8 sequence"
  fromUtf8_encode text := by rw [Lines.decode_encode, String.ofList_toList]; rfl
  parse text :=
    if text = "A" then .ok false
    else if text = "B" then .ok true
    else .error "invalid socket address syntax"
  display address := if address then "B" else "A"
  debug text := s!"{text.quote}"

/-- The first client names a target and the second does not. -/
def twoRequests : Bool → WriteRequest
  | false => ⟨[1], some "A"⟩
  | true => ⟨[2], none⟩

/-- The source hears from "B". The first client is cancelled after the sink took its target,
and the second still sends to the peer. -/
def cancelledRun : List (Action Bool Bool) :=
  [.recv true, .write false, .write true, .lock false, .ctl false, .resolve false,
    .cancel false, .lock true, .ctl true, .resolve true, .send true (.ok ()), .complete true]

theorem datagrams_go_to_own_target_cancelled :
    ∃ s, exec (step twoAddresses twoRequests) { entry := some ⟨some false, true⟩ }
        cancelledRun = some s ∧
      s.sent = [(true, ⟨[2], true⟩)] ∧
      (∀ c datagram, (c, datagram) ∈ s.sent → datagram.body = (twoRequests c).body ∧
        GoesTo twoAddresses twoRequests cancelledRun c datagram.target) := by
  have hrun : exec (step twoAddresses twoRequests) { entry := some ⟨some false, true⟩ }
      cancelledRun = some _ := rfl
  exact ⟨_, hrun, rfl, (datagrams_go_to_own_target _ _ _ _ _ hrun).2⟩

end TraceMux.Server.UdpWrites
