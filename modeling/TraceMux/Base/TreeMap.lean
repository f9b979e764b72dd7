/-
# Ordered maps and their entries

A map is determined by the list of its entries in the order of their keys. Maps whose values
name their own keys are determined by the list of their values.
-/

import Mathlib.Data.List.Basic

namespace TraceMux.Base.TreeMap

open Std

variable {Key Value : Type*} [Ord Key] [TransOrd Key] [LawfulEqOrd Key]

theorem ofList_toList [DecidableEq Key] (map : ExtTreeMap Key Value) :
    .ofList map.toList = map := by
  apply ExtTreeMap.ext_getElem?
  intro key
  cases hentry : map[key]? with
  | none =>
    apply ExtTreeMap.getElem?_ofList_of_contains_eq_false
    rw [ExtTreeMap.map_fst_toList_eq_keys, ← Bool.not_eq_true, List.contains_iff_mem,
      ExtTreeMap.mem_keys, ExtTreeMap.mem_iff_isSome_getElem?, hentry]
    exact Bool.false_ne_true
  | some value =>
    apply ExtTreeMap.getElem?_ofList_of_mem ReflCmp.compare_self
    · exact ExtTreeMap.distinct_keys_toList
    · exact ExtTreeMap.mem_toList_iff_getElem?_eq_some.mpr hentry

def values (map : ExtTreeMap Key Value) : List Value := map.toList.map Prod.snd

theorem mem_values {map : ExtTreeMap Key Value} {value : Value} :
    value ∈ values map ↔ ∃ key : Key, map[key]? = some value := by
  constructor
  · intro h
    obtain ⟨⟨key, _⟩, hentry, rfl⟩ := List.mem_map.mp h
    exact ⟨key, ExtTreeMap.mem_toList_iff_getElem?_eq_some.mp hentry⟩
  · rintro ⟨key, hentry⟩
    have hmem := ExtTreeMap.mem_toList_iff_getElem?_eq_some.mpr hentry
    exact List.mem_map.mpr ⟨(key, value), hmem, rfl⟩

/-- Where every value names its key, the entries can be had from the values. -/
theorem toList_eq_map_values (name : Value → Key) {map : ExtTreeMap Key Value}
    (hname : ∀ (key : Key) value, map[key]? = some value → name value = key) :
    map.toList = (values map).map fun value => (name value, value) := by
  rw [values, List.map_map]
  have hentries : ∀ entry ∈ map.toList,
      ((fun value => (name value, value)) ∘ Prod.snd) entry = entry := by
    rintro ⟨key, value⟩ hentry
    have hkey := hname key value (ExtTreeMap.mem_toList_iff_getElem?_eq_some.mp hentry)
    exact Prod.ext hkey rfl
  exact ((List.map_congr_left hentries).trans (List.map_id _)).symm

end TraceMux.Base.TreeMap
