/-
# Transition systems

A system is an executable step function on states: `step s a` is the state after
action `a`, or `none` where the action cannot be taken. A run is a list of
actions; a property of every run is proved by an induction that looks at one
step.

Runs may be restricted by a guard, a condition on the state in which an action is
taken. A guard is not part of the system: it says which runs a result is about.
-/

import Mathlib.Data.List.Basic
import Mathlib.Logic.Function.Basic

namespace TraceMux.Base.Transition

variable {State Action : Type*} (step : State → Action → Option State)

def exec : State → List Action → Option State
  | s, [] => some s
  | s, a :: rest =>
    match step s a with
    | none => none
    | some s' => exec s' rest

/-- Every action of the run meets the guard in the state in which it is taken. -/
def Guarded (guard : State → Action → Prop) : State → List Action → Prop
  | _, [] => True
  | s, a :: rest =>
    guard s a ∧
      match step s a with
      | none => True
      | some s' => Guarded guard s' rest

instance decidableGuarded (guard : State → Action → Prop) [∀ s a, Decidable (guard s a)] :
    ∀ (s : State) (actions : List Action), Decidable (Guarded step guard s actions)
  | _, [] => .isTrue trivial
  | s, a :: rest =>
    have : Decidable (match step s a with
        | none => True
        | some s' => Guarded step guard s' rest) :=
      match step s a with
      | none => .isTrue trivial
      | some s' => decidableGuarded guard s' rest
    inferInstanceAs (Decidable (guard s a ∧ _))

variable {step}

@[simp]
theorem exec_nil (s : State) : exec step s [] = some s := rfl

theorem exec_cons {s s' : State} {a : Action} {rest : List Action}
    (h : exec step s (a :: rest) = some s') :
    ∃ mid, step s a = some mid ∧ exec step mid rest = some s' := by
  rw [exec] at h
  split at h
  · cases h
  · next mid hmid => exact ⟨mid, hmid, h⟩

/-- Runs can be put one behind the other. -/
theorem exec_append_of {s mid s' : State} {first second : List Action}
    (hfirst : exec step s first = some mid) (hsecond : exec step mid second = some s') :
    exec step s (first ++ second) = some s' := by
  induction first generalizing s with
  | nil =>
    cases hfirst
    exact hsecond
  | cons a rest ih =>
    obtain ⟨next, hstep, hrest⟩ := exec_cons hfirst
    rw [List.cons_append, exec, hstep]
    exact ih hrest

variable {guard : State → Action → Prop}

theorem guarded_of_forall (h : ∀ s a, guard s a) (s : State) (actions : List Action) :
    Guarded step guard s actions := by
  induction actions generalizing s with
  | nil => trivial
  | cons a rest ih =>
    refine ⟨h s a, ?_⟩
    split
    · trivial
    · exact ih _

theorem Guarded.append {s mid : State} {first second : List Action}
    (hfirst : Guarded step guard s first) (hrun : exec step s first = some mid)
    (hsecond : Guarded step guard mid second) : Guarded step guard s (first ++ second) := by
  induction first generalizing s with
  | nil =>
    cases hrun
    exact hsecond
  | cons a rest ih =>
    obtain ⟨next, hstep, hrest⟩ := exec_cons hrun
    rw [Guarded, hstep] at hfirst
    rw [List.cons_append, Guarded, hstep]
    exact ⟨hfirst.1, ih hfirst.2 hrest⟩

/-- An invariant that every guarded step keeps holds after every guarded run. -/
theorem exec_invariant {Inv : State → Prop}
    (hstep : ∀ s a s', Inv s → guard s a → step s a = some s' → Inv s') {s s' : State}
    {actions : List Action} (hinit : Inv s) (hguard : Guarded step guard s actions)
    (hrun : exec step s actions = some s') : Inv s' := by
  induction actions generalizing s with
  | nil =>
    rw [exec_nil, Option.some.injEq] at hrun
    exact hrun ▸ hinit
  | cons a rest ih =>
    obtain ⟨mid, hmid, hrest⟩ := exec_cons hrun
    rw [Guarded, hmid] at hguard
    exact ih (hstep s a mid hinit hguard.1 hmid) hguard.2 hrest

theorem exec_keeps {Inv : State → Prop} (hstep : ∀ {s a s'}, Inv s → step s a = some s' → Inv s')
    {s s' : State} {actions : List Action} (hinit : Inv s) (hrun : exec step s actions = some s') :
    Inv s' :=
  exec_invariant (fun _ _ _ h (_ : True) hs => hstep h hs) hinit
    (guarded_of_forall (fun _ _ => trivial) s actions) hrun

/-- The guarded rule for invariants that speak of the actions taken so far. -/
theorem exec_history_invariant {Inv : List Action → State → Prop}
    (hstep : ∀ past s a s', Inv past s → guard s a → step s a = some s' → Inv (past ++ [a]) s')
    {past : List Action} {s s' : State} {actions : List Action} (hinit : Inv past s)
    (hguard : Guarded step guard s actions) (hrun : exec step s actions = some s') :
    Inv (past ++ actions) s' := by
  induction actions generalizing past s with
  | nil =>
    rw [exec_nil, Option.some.injEq] at hrun
    rw [List.append_nil]
    exact hrun ▸ hinit
  | cons a rest ih =>
    obtain ⟨mid, hmid, hrest⟩ := exec_cons hrun
    rw [Guarded, hmid] at hguard
    rw [List.append_cons]
    exact ih (hstep past s a mid hinit hguard.1 hmid) hguard.2 hrest

/-- When the property of an invariant is lost by every step outside the guard, it holds in all
states of a run exactly when the run is guarded. -/
theorem forall_prefix_iff_guarded {Inv P : State → Prop} (hprop : ∀ s, Inv s → P s)
    (hstep : ∀ s a s', Inv s → guard s a → step s a = some s' → Inv s')
    (hbreak : ∀ s a, Inv s → ¬ guard s a → ∃ s', step s a = some s' ∧ ¬ P s') {s : State}
    (hinit : Inv s) (actions : List Action) :
    (∀ before s', before <+: actions → exec step s before = some s' → P s') ↔
      Guarded step guard s actions := by
  induction actions generalizing s with
  | nil =>
    refine iff_of_true (fun before s' hbefore hrun => ?_) trivial
    rw [List.prefix_nil.mp hbefore, exec_nil, Option.some.injEq] at hrun
    exact hrun ▸ hprop s hinit
  | cons a rest ih =>
    constructor
    · intro h
      have hguard : guard s a := by
        by_contra hno
        obtain ⟨s', hs', hlost⟩ := hbreak s a hinit hno
        refine hlost (h [a] s' (List.prefix_append [a] rest) ?_)
        rw [exec, hs']
        rfl
      refine ⟨hguard, ?_⟩
      split
      · trivial
      · next mid hmid =>
        refine (ih (hstep s a mid hinit hguard hmid)).mp fun before s' hbefore hrun => ?_
        refine h (a :: before) s' (List.cons_prefix_cons.mpr ⟨rfl, hbefore⟩) ?_
        rw [exec, hmid]
        exact hrun
    · intro hguarded before s' hbefore hrun
      cases before with
      | nil =>
        rw [exec_nil, Option.some.injEq] at hrun
        exact hrun ▸ hprop s hinit
      | cons b before =>
        obtain ⟨rfl, htail⟩ := List.cons_prefix_cons.mp hbefore
        obtain ⟨mid, hmid, hrest⟩ := exec_cons hrun
        rw [Guarded, hmid] at hguarded
        exact (ih (hstep s b mid hinit hguarded.1 hmid)).mpr hguarded.2 before s' htail hrest

/-! ## Partial maps

States often hold tables as functions to optional values, changed at one key by
`Function.update`. A row of a changed table is the new one or an old one.
-/

variable {Key Value : Type*} [DecidableEq Key] {table : Key → Option Value} {key k : Key}

theorem update_eq_some {row : Option Value} {v : Value}
    (h : Function.update table key row k = some v) :
    (k = key ∧ row = some v) ∨ (k ≠ key ∧ table k = some v) := by
  by_cases heq : k = key
  · subst heq
    rw [Function.update_self] at h
    exact .inl ⟨rfl, h⟩
  · rw [Function.update_of_ne heq] at h
    exact .inr ⟨heq, h⟩

theorem update_some_eq_some {row v : Value}
    (h : Function.update table key (some row) k = some v) :
    (k = key ∧ v = row) ∨ (k ≠ key ∧ table k = some v) := by
  obtain ⟨hk, hnew⟩ | hold := update_eq_some h
  · exact .inl ⟨hk, (Option.some.inj hnew).symm⟩
  · exact .inr hold

theorem update_none_eq_some {v : Value}
    (h : Function.update table key none k = some v) : k ≠ key ∧ table k = some v := by
  obtain ⟨-, hnone⟩ | hold := update_eq_some h
  · cases hnone
  · exact hold

theorem forall_update {P : Key → Value → Prop} {row : Value}
    (hold : ∀ k v, table k = some v → P k v) (hnew : P key row) :
    ∀ k v, Function.update table key (some row) k = some v → P k v := by
  intro k v h
  obtain ⟨rfl, rfl⟩ | ⟨-, h⟩ := update_some_eq_some h
  · exact hnew
  · exact hold k v h

theorem update_eq_none {row : Option Value}
    (h : Function.update table key row k = none) :
    (k = key ∧ row = none) ∨ (k ≠ key ∧ table k = none) := by
  by_cases heq : k = key
  · subst heq
    rw [Function.update_self] at h
    exact .inl ⟨rfl, h⟩
  · rw [Function.update_of_ne heq] at h
    exact .inr ⟨heq, h⟩

end TraceMux.Base.Transition
