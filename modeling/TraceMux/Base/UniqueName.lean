/-
# Names made unique by a number

A name that is taken gets a number between its stem and its extension. The first number that
makes it free is used, up to a limit. Names that are given one after the other in this way are
distinct.
-/

import TraceMux.Base.PathName

namespace TraceMux.Base.UniqueName

open Base.PathName List

/-- A name up to its last dot and from there on. A dot in front does not count. -/
def splitName (name : Text) : Text × Text :=
  match rsplitDot name with
  | some (stem, ext) => if stem = [] then (name, []) else (stem, '.' :: ext)
  | none => (name, [])

def numbered (name : Text) (index : ℕ) : Text :=
  (splitName name).1 ++ '-' :: (Text.ofNat index ++ (splitName name).2)

theorem splitName_append (name : Text) : (splitName name).1 ++ (splitName name).2 = name := by
  unfold splitName
  split
  · next stem ext h =>
    split
    · exact append_nil name
    · exact (eq_of_rsplitDot h).symm
  · exact append_nil name

/-- The name itself if it is free, or else with the first number that makes it so. -/
def unique (limit : ℕ) (used : List Text) (name : Text) : Option Text :=
  if !used.contains name then some name
  else
    ((List.range' 2 (limit - 2)).map (numbered name)).find? fun free => !used.contains free

/-- Names one after the other, each free behind those before it. -/
def assign (limit : ℕ) : List Text → List Text → Option (List Text)
  | _, [] => some []
  | used, name :: names =>
    (unique limit used name).bind fun free =>
      (assign limit (free :: used) names).map fun later => free :: later

variable {limit : ℕ} {used : List Text}

theorem unique_eq_some {name free : Text} (h : unique limit used name = some free) :
    free ∉ used ∧ (free = name ∨ ∃ index, free = numbered name index) := by
  unfold unique at h
  split at h
  · next hfree =>
    cases h
    exact ⟨by simpa using hfree, .inl rfl⟩
  · have hfree := find?_some h
    obtain ⟨index, -, rfl⟩ := mem_map.mp (mem_of_find?_eq_some h)
    exact ⟨by simpa using hfree, .inr ⟨index, rfl⟩⟩

variable {names given : List Text}

theorem nodup_of_assign (h : assign limit used names = some given) :
    given.Nodup ∧ ∀ name ∈ given, name ∉ used := by
  induction names generalizing used given with
  | nil =>
    cases h
    exact ⟨nodup_nil, nofun⟩
  | cons name names ih =>
    rw [assign, Option.bind_eq_some_iff] at h
    obtain ⟨free, hfree, h⟩ := h
    obtain ⟨later, hlater, rfl⟩ := Option.map_eq_some_iff.mp h
    obtain ⟨hnodup, hnew⟩ := ih hlater
    refine ⟨nodup_cons.mpr ⟨fun hmem => hnew free hmem mem_cons_self, hnodup⟩, ?_⟩
    rw [forall_mem_cons]
    refine ⟨(unique_eq_some hfree).1, fun other hother hused => ?_⟩
    exact hnew other hother (mem_cons_of_mem free hused)

theorem length_of_assign (h : assign limit used names = some given) :
    given.length = names.length := by
  induction names generalizing used given with
  | nil =>
    cases h
    rfl
  | cons name names ih =>
    rw [assign, Option.bind_eq_some_iff] at h
    obtain ⟨free, -, h⟩ := h
    obtain ⟨later, hlater, rfl⟩ := Option.map_eq_some_iff.mp h
    rw [length_cons, length_cons, ih hlater]

theorem forall_of_assign {p : Text → Prop}
    (hnumbered : ∀ name index, p name → p (numbered name index)) (hnames : ∀ name ∈ names, p name)
    (h : assign limit used names = some given) : ∀ name ∈ given, p name := by
  induction names generalizing used given with
  | nil =>
    cases h
    exact nofun
  | cons name names ih =>
    rw [assign, Option.bind_eq_some_iff] at h
    obtain ⟨free, hfree, h⟩ := h
    obtain ⟨later, hlater, rfl⟩ := Option.map_eq_some_iff.mp h
    rw [forall_mem_cons] at hnames ⊢
    refine ⟨?_, ih hnames.2 hlater⟩
    obtain ⟨-, rfl | ⟨index, rfl⟩⟩ := unique_eq_some hfree
    · exact hnames.1
    · exact hnumbered name index hnames.1

end TraceMux.Base.UniqueName
