/-
# The sockets of the web client

A client connects, and connects again after a delay when its socket closes or cannot be made. It
keeps one socket and the handle of one timer, but the listeners of a socket act on the client
whichever socket it has by then, and a new timer takes the place of a handle without stopping the
timer behind it. A close event that comes late, from a socket that was given up, therefore makes
the client forget the socket it has, and a timer whose handle was lost survives a close.
-/

import TraceMux.Base.Transition

namespace TraceMux.Web.WireClient

open Base.Transition List

inductive ReadyState
  | connecting
  | open
  | closing
  | closed
  deriving DecidableEq, Repr

inductive Status
  | idle
  | connecting
  | open
  | closed
  | error
  deriving DecidableEq, Repr

/-- A client, with the sockets it has made and the timers that are set. -/
structure Client where
  sockets : List ReadyState := []
  ws : Option ℕ := none
  status : Status := .idle
  /-- Timers that have not fired, by number. -/
  timers : List ℕ := []
  nextTimer : ℕ := 0
  reconnectTimer : Option ℕ := none
  closedByUser : Bool := false
  /-- The sockets whose messages were passed to the listeners. -/
  passed : List ℕ := []
  deriving DecidableEq, Repr

inductive Action
  /-- A call of `connect`, and whether the socket can be made. -/
  | connect (constructs : Bool)
  | close
  | timer (id : ℕ) (constructs : Bool)
  | opened (socket : ℕ)
  | message (socket : ℕ)
  | error (socket : ℕ)
  /-- The other side closes, or the connection fails. -/
  | closing (socket : ℕ)
  | closed (socket : ℕ)
  deriving DecidableEq, Repr

namespace Client

variable (s : Client)

/-- A socket that is connecting or open. Its messages are passed to the listeners of the client,
whether it is the one the client has or not. -/
def Live (socket : ℕ) : Prop :=
  s.sockets[socket]? = some .connecting ∨ s.sockets[socket]? = some .open

instance (socket : ℕ) : Decidable (s.Live socket) := inferInstanceAs (Decidable (_ ∨ _))

def scheduleReconnect : Client :=
  if s.closedByUser then s
  else { s with
    timers := s.timers ++ [s.nextTimer]
    reconnectTimer := some s.nextTimer
    nextTimer := s.nextTimer + 1 }

def connect (constructs : Bool) : Client :=
  if ∃ socket ∈ s.ws, s.Live socket then s
  else if constructs then
    { s with
      closedByUser := false
      status := .connecting
      sockets := s.sockets ++ [.connecting]
      ws := some s.sockets.length }
  else scheduleReconnect { s with closedByUser := false, status := .error }

def closeSocket (socket : ℕ) : List ReadyState :=
  if s.Live socket then s.sockets.set socket .closing else s.sockets

def close : Client :=
  { s with
    closedByUser := true
    timers := s.timers.filter fun id => s.reconnectTimer ≠ some id
    reconnectTimer := none
    sockets := s.ws.elim s.sockets s.closeSocket
    ws := none }

/-- What the browser lets happen. -/
def Allowed : Action → Prop
  | .connect _ | .close => True
  | .timer id _ => id ∈ s.timers
  | .opened socket => s.sockets[socket]? = some .connecting
  | .message socket => s.sockets[socket]? = some .open
  | .closing socket => s.Live socket
  | .error socket | .closed socket => ∃ state ∈ s.sockets[socket]?, state ≠ .closed

instance (a : Action) : Decidable (s.Allowed a) := by
  cases a <;> dsimp only [Allowed] <;> infer_instance

def after : Action → Client
  | .connect constructs => s.connect constructs
  | .close => s.close
  | .timer id constructs => { s with timers := s.timers.erase id }.connect constructs
  | .opened socket => { s with sockets := s.sockets.set socket .open, status := .open }
  | .message socket => { s with passed := s.passed ++ [socket] }
  | .error _ => { s with status := if s.status = .closed then .closed else .error }
  | .closing socket => { s with sockets := s.sockets.set socket .closing }
  | .closed socket =>
    scheduleReconnect
      { s with sockets := s.sockets.set socket .closed, ws := none, status := .closed }

def step (a : Action) : Option Client := if s.Allowed a then some (s.after a) else none

end Client

variable {s s' : Client}

theorem step_some {a : Action} (h : s.step a = some s') : s.Allowed a ∧ s.after a = s' := by
  unfold Client.step at h
  split at h
  · next hok => exact ⟨hok, Option.some.inj h⟩
  · cases h

/-- No close event of a socket comes while another one is connecting or open. -/
def NoLateClose (s : Client) : Action → Prop
  | .closed socket => ∀ other < s.sockets.length, other ≠ socket → ¬ s.Live other
  | _ => True

instance (s : Client) (a : Action) : Decidable (NoLateClose s a) := by
  unfold NoLateClose
  split <;> infer_instance

def OneSocket (s : Client) : Prop := ∀ socket, s.Live socket → s.ws = some socket

theorem Client.Live.lt {socket : ℕ} (h : s.Live socket) : socket < s.sockets.length := by
  rcases h with h | h
  · exact (List.getElem?_eq_some_iff.mp h).1
  · exact (List.getElem?_eq_some_iff.mp h).1

/-- Setting the state of one socket leaves the others alone. -/
theorem live_of_set {i socket : ℕ} {state : ReadyState} (hs : s'.sockets = s.sockets.set i state)
    (h : s'.Live socket) :
    (socket = i ∧ (state = .connecting ∨ state = .open)) ∨ (socket ≠ i ∧ s.Live socket) := by
  rw [Client.Live, hs] at h
  by_cases hi : socket = i
  · refine .inl ⟨hi, ?_⟩
    rw [hi, getElem?_set_self'] at h
    revert h
    cases s.sockets[i]? <;> simp
  · rw [getElem?_set_ne fun he => hi he.symm] at h
    exact .inr ⟨hi, h⟩

theorem OneSocket.mono (h : OneSocket s) (hws : s'.ws = s.ws)
    (hlive : ∀ socket, s'.Live socket → s.Live socket) : OneSocket s' :=
  fun socket h' => hws.trans (h socket (hlive socket h'))

theorem OneSocket.schedule (h : OneSocket s) : OneSocket s.scheduleReconnect := by
  unfold Client.scheduleReconnect
  split
  · exact h
  · exact h.mono rfl fun _ hlive => hlive

theorem OneSocket.connect (h : OneSocket s) (constructs : Bool) :
    OneSocket (s.connect constructs) := by
  unfold Client.connect
  split
  · exact h
  · next hnone =>
    have hdead : ∀ socket, ¬ s.Live socket := fun socket hlive =>
      hnone ⟨socket, h socket hlive, hlive⟩
    split
    · intro socket hlive
      have hle := hlive.lt
      rw [length_append, length_singleton] at hle
      by_cases hlt : socket < s.sockets.length
      · rw [Client.Live, getElem?_append_left hlt] at hlive
        exact absurd hlive (hdead socket)
      · exact congrArg some (show s.sockets.length = socket by omega)
    · exact OneSocket.schedule fun socket hlive => absurd hlive (hdead socket)

theorem OneSocket.close (h : OneSocket s) : OneSocket s.close := by
  intro socket hlive
  have hsockets : s.close.sockets = s.ws.elim s.sockets s.closeSocket := rfl
  cases hws : s.ws with
  | none =>
    rw [hws] at hsockets
    rw [Client.Live, hsockets] at hlive
    exact absurd ((h socket hlive).symm.trans hws) (Option.some_ne_none _)
  | some i =>
    rw [hws, Option.elim_some, Client.closeSocket] at hsockets
    split at hsockets
    · rcases live_of_set hsockets hlive with ⟨-, hstate⟩ | ⟨hne, hother⟩
      · simp at hstate
      · exact absurd (Option.some.inj ((h socket hother).symm.trans hws)) hne
    · next hdead =>
      rw [Client.Live, hsockets] at hlive
      rw [← Option.some.inj ((h socket hlive).symm.trans hws)] at hdead
      exact absurd hlive hdead

theorem OneSocket.step (s : Client) (a : Action) (s' : Client) (h : OneSocket s)
    (hguard : NoLateClose s a) (hstep : s.step a = some s') : OneSocket s' := by
  obtain ⟨hok, rfl⟩ := step_some hstep
  cases a with
  | connect constructs => exact h.connect constructs
  | close => exact h.close
  | timer id constructs =>
    have h' : OneSocket { s with timers := s.timers.erase id } := h
    exact h'.connect constructs
  | opened i =>
    refine h.mono rfl fun socket hlive => ?_
    rcases live_of_set rfl hlive with ⟨rfl, -⟩ | ⟨-, hother⟩
    · exact .inl hok
    · exact hother
  | message i | error i => exact h.mono rfl fun _ hlive => hlive
  | closing i =>
    refine h.mono rfl fun socket hlive => ?_
    rcases live_of_set rfl hlive with ⟨-, hstate⟩ | ⟨-, hother⟩
    · simp at hstate
    · exact hother
  | closed i =>
    apply OneSocket.schedule
    intro socket hlive
    rcases live_of_set (s := s) rfl hlive with ⟨-, hstate⟩ | ⟨hne, hother⟩
    · simp at hstate
    · exact absurd hother (hguard socket hother.lt hne)

/-- Without late close events, at most one socket is connecting or open. -/
theorem live_unique_of_noLateClose {run : List Action} {s : Client}
    (hguard : Guarded Client.step NoLateClose {} run) (hrun : exec Client.step {} run = some s)
    {i j : ℕ} (hi : s.Live i) (hj : s.Live j) : i = j := by
  have hnew : OneSocket {} := fun socket hlive => absurd hlive.lt (Nat.not_lt_zero _)
  have hone := exec_invariant OneSocket.step hnew hguard hrun
  exact Option.some.inj ((hone i hi).symm.trans (hone j hj))

def replacedRun : List Action :=
  [.connect true, .opened 0, .closing 0, .closed 0, .timer 0 true, .opened 1]

theorem live_unique_replaced :
    ∃ s, exec Client.step {} replacedRun = some s ∧ s.Live 1 ∧ ∀ i, s.Live i → i = 1 :=
  ⟨_, rfl, .inr rfl, fun _ hi =>
    @live_unique_of_noLateClose replacedRun _ (by decide) rfl _ _ hi (.inr rfl)⟩

/-- The close event of the first socket comes behind the second call of `connect`. -/
theorem late_close_two_sockets :
    (exec Client.step {} [.connect true, .opened 0, .close, .connect true, .opened 1, .closed 0,
        .timer 0 true, .opened 2, .message 1, .message 2]).map
      (fun s => (decide (s.Live 1), decide (s.Live 2), s.passed)) =
        some (true, true, [1, 2]) := by
  decide

def NoSecondTimer (s : Client) : Action → Prop
  | .connect false => (∃ socket ∈ s.ws, s.Live socket) ∨ s.timers = []
  | .timer id false => (∃ socket ∈ s.ws, s.Live socket) ∨ s.timers.erase id = []
  | .closed _ => s.closedByUser = true ∨ s.timers = []
  | _ => True

instance (s : Client) (a : Action) : Decidable (NoSecondTimer s a) := by
  unfold NoSecondTimer
  split <;> infer_instance

def OneTimer (s : Client) : Prop := ∀ id ∈ s.timers, s.reconnectTimer = some id

theorem OneTimer.schedule (h : OneTimer s) (hnone : s.closedByUser = true ∨ s.timers = []) :
    OneTimer s.scheduleReconnect := by
  unfold Client.scheduleReconnect
  split
  · exact h
  · next hopen =>
    intro id hid
    rw [hnone.resolve_left hopen, nil_append] at hid
    rw [mem_singleton.mp hid]

theorem OneTimer.connect (h : OneTimer s) {constructs : Bool}
    (hnone : constructs = false → (∃ socket ∈ s.ws, s.Live socket) ∨ s.timers = []) :
    OneTimer (s.connect constructs) := by
  unfold Client.connect
  split
  · exact h
  · next hdead =>
    split
    · exact h
    · next hfails =>
      exact OneTimer.schedule h (.inr ((hnone (by simpa using hfails)).resolve_left hdead))

theorem OneTimer.step (s : Client) (a : Action) (s' : Client) (h : OneTimer s)
    (hguard : NoSecondTimer s a) (hstep : s.step a = some s') : OneTimer s' := by
  obtain ⟨-, rfl⟩ := step_some hstep
  cases a with
  | connect constructs =>
    apply h.connect
    rintro rfl
    exact hguard
  | close =>
    intro id hid
    have hmem := mem_filter.mp hid
    simp [h id hmem.1] at hmem
  | timer id constructs =>
    have h' : OneTimer { s with timers := s.timers.erase id } := fun other hother =>
      h other (mem_of_mem_erase hother)
    apply h'.connect
    rintro rfl
    exact hguard
  | closed i => exact OneTimer.schedule h hguard
  | opened i => exact h
  | message i => exact h
  | error i => exact h
  | closing i => exact h

/-- Nothing is left that could connect. -/
def AtRest (s : Client) : Prop := s.closedByUser = true ∧ s.timers = []

theorem AtRest.step (h : AtRest s) {a : Action} (hcall : ∀ ok, a ≠ .connect ok)
    (hstep : s.step a = some s') : AtRest s' ∧ s'.sockets.length = s.sockets.length := by
  obtain ⟨hok, rfl⟩ := step_some hstep
  cases a with
  | connect constructs => exact absurd rfl (hcall constructs)
  | timer id constructs =>
    have hmem : id ∈ s.timers := hok
    rw [h.2] at hmem
    cases hmem
  | close =>
    refine ⟨⟨rfl, ?_⟩, ?_⟩
    · rw [Client.after, Client.close, h.2]
      rfl
    · rw [Client.after, Client.close]
      cases s.ws with
      | none => rfl
      | some i =>
        simp only [Option.elim_some, Client.closeSocket]
        split
        · exact length_set
        · rfl
  | closed i =>
    rw [Client.after, Client.scheduleReconnect, if_pos h.1]
    exact ⟨h, length_set⟩
  | opened i => exact ⟨h, length_set⟩
  | message i => exact ⟨h, rfl⟩
  | error i => exact ⟨h, rfl⟩
  | closing i => exact ⟨h, length_set⟩

/-- Where no second timer is ever set, a client that was closed makes no socket before the next
call of `connect`. -/
theorem no_socket_after_close {before rest : List Action} {s s' : Client}
    (hguard : Guarded Client.step NoSecondTimer {} before)
    (hbefore : exec Client.step {} before = some s)
    (hrest : exec Client.step s.close rest = some s')
    (hcalls : ∀ ok, .connect ok ∉ rest) : s'.sockets.length = s.close.sockets.length := by
  have hone : OneTimer s.close :=
    OneTimer.step s .close _ (exec_invariant OneTimer.step
      (fun _ hid => absurd hid not_mem_nil) hguard hbefore) trivial rfl
  have hrest' : AtRest s.close := by
    refine ⟨rfl, eq_nil_iff_forall_not_mem.mpr fun id hid => ?_⟩
    cases hone id hid
  generalize s.close = c at hrest hrest'
  induction rest generalizing c with
  | nil =>
    cases hrest
    rfl
  | cons a rest ih =>
    obtain ⟨mid, hstep, hexec⟩ := exec_cons hrest
    obtain ⟨hmid, hlength⟩ := hrest'.step (fun ok ha => hcalls ok (ha ▸ mem_cons_self)) hstep
    rw [← hlength]
    exact ih (fun ok hok => hcalls ok (mem_cons_of_mem _ hok)) mid hexec hmid

theorem no_socket_after_close_replaced :
    ∃ s s', exec Client.step {} replacedRun = some s ∧
      exec Client.step s.close [.closed 1] = some s' ∧ s'.sockets.length = 2 :=
  ⟨_, _, rfl, rfl, @no_socket_after_close replacedRun [.closed 1] _ _
    (by decide) rfl rfl (by simp)⟩

/-- A second socket fails while the timer of the first is set, and a close stops only one timer. -/
theorem lost_timer_connects :
    (exec Client.step {} [.connect true, .closed 0, .connect true, .closed 1, .close,
        .timer 0 true]).map (fun s => s.sockets) = some [.closed, .closed, .connecting] := by
  decide

end TraceMux.Web.WireClient
