/-
# An argument handed over in a register

Clients share a resource behind a lock. A client that has the lock puts an argument in a
register of the resource, or leaves the register alone, and then starts its work, which empties
the register. It gives the lock back when the work is over.

A client can be cancelled while it waits for the lock and while it works, but not between the
two calls. Then the register is empty whenever a client gets the lock, and every work starts
with the argument of its own client.
-/

import Mathlib.Logic.Function.Basic

namespace TraceMux.Base.HandOver

variable {Client Value Work : Type}

/-- Where a client stands. -/
inductive Phase (Work : Type)
  | idle
  | waiting
  | locked
  /-- The register has been filled, or left alone. -/
  | prepared
  | working (work : Work)
  | over
  deriving DecidableEq

def Phase.holds : Phase Work → Bool
  | .locked | .prepared | .working _ => true
  | .idle | .waiting | .over => false

/-- What a client does with the register: it can put a value there or empty it. -/
inductive Argument (Value : Type)
  | leave
  | put (value : Option Value)
  | refused

/-- The register after a client is through with it. -/
def Argument.applied (argument : Argument Value) (register : Option Value) : Option Value :=
  match argument with
  | .put value => value
  | .leave | .refused => register

def Argument.value (argument : Argument Value) : Option Value := argument.applied none

structure State (Client Value Work : Type) where
  register : Option Value
  holder : Option Client
  phase : Client → Phase Work

def State.start : State Client Value Work := ⟨none, none, fun _ => .idle⟩

/-- The lock has one holder, and a value in the register is that of its client. -/
structure Inv (argument : Client → Argument Value) (s : State Client Value Work) : Prop where
  holder : ∀ c, (s.phase c).holds = true ↔ s.holder = some c
  empty : (∀ c, s.phase c ≠ .prepared) → s.register = none
  prepared : ∀ c, s.phase c = .prepared →
    argument c ≠ .refused ∧ s.register = (argument c).value

variable {argument : Client → Argument Value} {s s' : State Client Value Work} {c : Client}

theorem inv_start : Inv argument (State.start : State Client Value Work) :=
  ⟨fun _ => ⟨nofun, nofun⟩, fun _ => rfl, fun _ => nofun⟩

variable {d : Client} {phase : Phase Work} {register : Option Value} {holder : Option Client}

/-- Only the holder of the lock can have filled the register. -/
theorem Inv.ne_prepared (h : Inv argument s) (hc : (s.phase c).holds = true) (hne : d ≠ c) :
    s.phase d ≠ .prepared := by
  intro hd
  have hholder := (h.holder d).mp (by rw [hd]; rfl)
  rw [(h.holder c).mp hc, Option.some.injEq] at hholder
  exact hne hholder.symm

/-- The register is empty before the holder of the lock has filled it, and while it works. -/
theorem Inv.register_eq_none (h : Inv argument s) (hc : (s.phase c).holds = true)
    (hne : s.phase c ≠ .prepared) : s.register = none := by
  refine h.empty fun d => ?_
  by_cases heq : d = c
  · rw [heq]
    exact hne
  · exact h.ne_prepared hc heq

variable [DecidableEq Client]

def State.move (s : State Client Value Work) (c : Client) (phase : Phase Work) :
    State Client Value Work :=
  { s with phase := Function.update s.phase c phase }

/-- What a client can do. -/
inductive Step (argument : Client → Argument Value) (s : State Client Value Work) (c : Client) :
    State Client Value Work → Prop
  | ask (h : s.phase c = .idle) : Step argument s c (s.move c .waiting)
  /-- A client gives up before it has the lock. -/
  | leave (h : (s.phase c).holds = false) : Step argument s c (s.move c .over)
  | lock (h : s.phase c = .waiting) (hfree : s.holder = none) :
      Step argument s c { s.move c .locked with holder := some c }
  | refuse (h : s.phase c = .locked) :
      Step argument s c { s.move c .over with holder := none }
  | prepare (h : s.phase c = .locked) (hargument : argument c ≠ .refused) :
      Step argument s c
        { s.move c .prepared with register := (argument c).applied s.register }
  | start (h : s.phase c = .prepared) (work : Work) :
      Step argument s c { s.move c (.working work) with register := none }
  | fail (h : s.phase c = .prepared) :
      Step argument s c { s.move c .over with register := none, holder := none }
  | work {before : Work} (h : s.phase c = .working before) (after : Work) :
      Step argument s c (s.move c (.working after))
  /-- The work is over, or the client is cancelled. -/
  | finish {work : Work} (h : s.phase c = .working work) :
      Step argument s c { s.move c .over with holder := none }

theorem State.move_phase_self (s : State Client Value Work) (c : Client) (phase : Phase Work) :
    (s.move c phase).phase c = phase := by
  exact Function.update_self ..

theorem State.move_phase_of_ne (s : State Client Value Work) {c : Client} (h : d ≠ c)
    (phase : Phase Work) : (s.move c phase).phase d = s.phase d := by
  exact Function.update_of_ne h ..

/-- One client goes on, and the others see no change they care for. -/
theorem Inv.moved (h : Inv argument s) (hself : phase.holds = true ↔ holder = some c)
    (hholder : ∀ d, d ≠ c → (s.holder = some d ↔ holder = some d))
    (hprepared : phase = .prepared → argument c ≠ .refused ∧ register = (argument c).value)
    (hempty : phase ≠ .prepared → (∀ d, d ≠ c → s.phase d ≠ .prepared) → register = none)
    (hkept : ∀ d, d ≠ c → s.phase d = .prepared → register = s.register) :
    Inv argument { s.move c phase with register := register, holder := holder } := by
  refine ⟨fun d => ?_, fun hnone => ?_, fun d hd => ?_⟩
  · by_cases heq : d = c
    · subst heq
      rw [s.move_phase_self]
      exact hself
    · rw [s.move_phase_of_ne heq, h.holder d]
      exact hholder d heq
  · refine hempty ?_ fun d hd => ?_
    · have hphase := hnone c
      rw [s.move_phase_self] at hphase
      exact hphase
    · have hphase := hnone d
      rw [s.move_phase_of_ne hd] at hphase
      exact hphase
  · by_cases heq : d = c
    · subst heq
      rw [s.move_phase_self] at hd
      exact hprepared hd
    · rw [s.move_phase_of_ne heq] at hd
      rw [hkept d heq hd]
      exact h.prepared d hd

theorem Inv.pass (h : Inv argument s) (hc : (s.phase c).holds = false)
    (hphase : phase.holds = false) : Inv argument (s.move c phase) := by
  have hholder : s.holder ≠ some c := by
    rw [Ne, ← h.holder c, hc]
    exact Bool.false_ne_true
  have hne {p : Phase Work} (hp : p.holds = false) : p ≠ .prepared := by
    rintro rfl
    cases hp
  refine h.moved ?_ (fun _ _ => Iff.rfl) (fun heq => absurd heq (hne hphase)) ?_ (fun _ _ _ => rfl)
  · rw [hphase]
    exact ⟨nofun, fun heq => absurd heq hholder⟩
  · intro _ hothers
    refine h.empty fun d => ?_
    by_cases heq : d = c
    · rw [heq]
      exact hne hc
    · exact hothers d heq

/-- A client that has the lock goes on with it, or gives it back. -/
theorem Inv.go (h : Inv argument s) (hc : (s.phase c).holds = true)
    (hholder : holder = if phase.holds then some c else none)
    (hprepared : phase = .prepared → argument c ≠ .refused ∧ register = (argument c).value)
    (hempty : phase ≠ .prepared → register = none) :
    Inv argument { s.move c phase with register := register, holder := holder } := by
  refine h.moved ?_ (fun d hd => ?_) hprepared (fun hne _ => hempty hne) (fun d hd hphase => ?_)
  · rw [hholder]
    cases phase.holds <;> simp
  · rw [(h.holder c).mp hc, hholder, Option.some.injEq]
    cases phase.holds <;> simp [Ne.symm hd]
  · exact absurd hphase (h.ne_prepared hc hd)

theorem Step.inv (hstep : Step argument s c s') (h : Inv argument s) : Inv argument s' := by
  cases hstep with
  | ask hc => exact h.pass (by rw [hc]; rfl) rfl
  | leave hc => exact h.pass hc rfl
  | lock hc hfree =>
    have hnone (d : Client) : s.phase d ≠ .prepared := by
      intro hd
      have hholder := (h.holder d).mp (by rw [hd]; rfl)
      rw [hfree] at hholder
      cases hholder
    refine h.moved ⟨fun _ => rfl, fun _ => rfl⟩ (fun d hd => ?_) nofun
      (fun _ _ => h.empty hnone) (fun _ _ _ => rfl)
    rw [hfree, Option.some.injEq]
    exact ⟨nofun, fun heq => absurd heq.symm hd⟩
  | refuse hc | finish hc =>
    have hholds : (s.phase c).holds = true := by rw [hc]; rfl
    exact h.go hholds rfl nofun fun _ => h.register_eq_none hholds (by rw [hc]; nofun)
  | prepare hc hargument =>
    have hholds : (s.phase c).holds = true := by rw [hc]; rfl
    refine h.go hholds ((h.holder c).mp hholds) (fun _ => ⟨hargument, ?_⟩)
      (fun hne => absurd rfl hne)
    rw [h.register_eq_none hholds (by rw [hc]; nofun)]
    rfl
  | start hc work =>
    have hholds : (s.phase c).holds = true := by rw [hc]; rfl
    exact h.go hholds ((h.holder c).mp hholds) nofun fun _ => rfl
  | fail hc => exact h.go (by rw [hc]; rfl) rfl nofun fun _ => rfl
  | work hc after =>
    have hholds : (s.phase c).holds = true := by rw [hc]; rfl
    exact h.go hholds ((h.holder c).mp hholds) nofun
      fun _ => h.register_eq_none hholds (by rw [hc]; nofun)

end TraceMux.Base.HandOver
