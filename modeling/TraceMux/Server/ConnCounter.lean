/-
# The connection counter

A counter with a cap, shared by any number of threads. A thread that wants a slot loads the
count and tries to exchange it for the next one, again and again, until it has the slot or
sees the cap. The exchange is the weak one: it may fail although the count is the one that was
seen. A slot is given back when its guard is dropped, by whichever thread has it then.
-/

import TraceMux.Base.Transition

namespace TraceMux.Server.ConnCounter

open Base.Transition Function

/-- The two guards: `acquire` and `acquire_owned` differ in nothing else. -/
inductive Guard
  | borrowed
  | owned
  deriving DecidableEq, Repr

variable {Thread : Type}

/-- The counter, the threads inside the loop with the count that each has seen last, and the
guards that are alive. -/
structure State (Thread : Type) where
  cap : UInt32
  cur : UInt32 := 0
  seen : Thread → Option (Guard × UInt32) := fun _ => none
  guards : List Guard := []

/-- One shared access. -/
inductive Action (Thread : Type)
  | load (t : Thread) (guard : Guard)
  | exchange (t : Thread) (spurious : Bool)
  | drop (guard : Guard)

variable [DecidableEq Thread]

def State.goes (s : State Thread) (t : Thread) (seen : Option (Guard × UInt32)) : State Thread :=
  { s with seen := update s.seen t seen }

def step (s : State Thread) : Action Thread → Option (State Thread)
  | .load t guard =>
    match s.seen t with
    | none => some (s.goes t (some (guard, s.cur)))
    | some _ => none
  | .exchange t spurious =>
    match s.seen t with
    | none => none
    | some (guard, cur) =>
      -- At the cap the call returns without a guard and does not touch the counter.
      if s.cap ≤ cur then some (s.goes t none)
      else if s.cur = cur ∧ spurious = false then
        some { s.goes t none with cur := cur + 1, guards := guard :: s.guards }
      else some (s.goes t (some (guard, s.cur)))
  | .drop guard =>
    if guard ∈ s.guards then some { s with cur := s.cur - 1, guards := s.guards.erase guard }
    else none

/-- The count is the number of guards, within the cap. -/
structure Counts (cap : UInt32) (s : State Thread) : Prop where
  cap_eq : s.cap = cap
  cur_eq : s.cur.toNat = s.guards.length
  le_cap : s.cur ≤ cap

variable {cap : UInt32} {s s' : State Thread} {a : Action Thread}

theorem Counts.goes (h : Counts cap s) (t : Thread) (seen : Option (Guard × UInt32)) :
    Counts cap (s.goes t seen) := ⟨h.cap_eq, h.cur_eq, h.le_cap⟩

/-- A slot is taken only where the count that was seen is still the count. -/
theorem Counts.step (h : Counts cap s) (hstep : step s a = some s') : Counts cap s' := by
  revert hstep
  fun_cases ConnCounter.step s a with
  | case1 | case4 | case6 =>
    rintro ⟨⟩
    exact h.goes _ _
  | case2 | case3 | case8 => rintro ⟨⟩
  | case5 t spurious guard cur hseen hlt hsame =>
    rintro ⟨⟩
    obtain ⟨rfl, -⟩ := hsame
    rw [h.cap_eq, UInt32.le_iff_toNat_le] at hlt
    have hnext : (s.cur + 1).toNat = s.cur.toNat + 1 := by
      have := cap.toNat_lt
      rw [UInt32.toNat_add, Nat.mod_eq_of_lt (by simp; omega)]
      rfl
    refine ⟨h.cap_eq, ?_, ?_⟩
    · rw [hnext, h.cur_eq]
      rfl
    · rw [UInt32.le_iff_toNat_le, hnext]
      omega
  | case7 guard hmem =>
    rintro ⟨⟩
    have hpos : 0 < s.guards.length := List.length_pos_of_mem hmem
    have hcur := h.cur_eq
    have hprev : (s.cur - 1).toNat = s.cur.toNat - 1 :=
      UInt32.toNat_sub_of_le _ _ (UInt32.le_iff_toNat_le.mpr (by simp; omega))
    refine ⟨h.cap_eq, ?_, ?_⟩
    · rw [hprev, hcur, List.length_erase_of_mem hmem]
    · have hle := UInt32.le_iff_toNat_le.mp h.le_cap
      rw [UInt32.le_iff_toNat_le, hprev]
      omega

/-- However the accesses of the threads are interleaved, the count is the number of slots that
are taken and not given back, at most the cap, and positive before every drop. -/
theorem cur_eq_length_guards {actions : List (Action Thread)}
    (hrun : exec step { cap } actions = some s) :
    s.cur ≤ cap ∧ s.cur.toNat = s.guards.length ∧ ∀ guard ∈ s.guards, 0 < s.cur := by
  have hinit : Counts cap ({ cap } : State Thread) := ⟨rfl, rfl, UInt32.zero_le⟩
  have h : Counts cap s := exec_keeps Counts.step hinit hrun
  refine ⟨h.le_cap, h.cur_eq, fun guard hguard => ?_⟩
  rw [UInt32.lt_iff_toNat_lt, h.cur_eq]
  exact List.length_pos_of_mem hguard

/-- Two threads see the same count under a cap of one slot. The second fails, is refused, and
gets the slot when it asks again after the drop. -/
def race : List (Action Bool) :=
  [.load false .borrowed, .load true .owned, .exchange false true, .exchange false false,
    .exchange true false, .exchange true false, .drop .borrowed, .load true .owned,
    .exchange true false]

theorem cur_eq_length_guards_race :
    ∃ s, exec step { cap := 1 } race = some s ∧ s.guards = [.owned] ∧ s.cur ≤ 1 ∧
      s.cur.toNat = s.guards.length ∧ ∀ guard ∈ s.guards, 0 < s.cur := by
  have hrun : exec step { cap := 1 } race = some _ := rfl
  exact ⟨_, hrun, rfl, cur_eq_length_guards hrun⟩

end TraceMux.Server.ConnCounter
