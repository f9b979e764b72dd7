/-
# The session ring

A queue of entries, bounded by their bytes. A push evicts the oldest entries until the new one
fits; an entry that is larger than the whole ring evicts all of them and is dropped itself.

Sizes are 64-bit numbers and wrap. An entry is shorter than `2 ^ 63` bytes, as every buffer is.
-/

import Mathlib.Data.List.Induction
import TraceMux.Base.ByteFile

namespace TraceMux.Core

open Base List

def Entry : Type := { b : Bytes // b.length < 2 ^ 63 }

def Entry.len (e : Entry) : ℕ := e.1.length

def totalLen (items : List Entry) : ℕ := (items.map Entry.len).sum

structure Ring where
  capacity : ℕ
  used : ℕ := 0
  items : List Entry := []
  dropped : ℕ := 0

namespace Ring

/-- The loop of a push: the evicted entries, and what it leaves of the ring. -/
def evict (capacity len : ℕ) : ℕ → List Entry → List Entry × ℕ × List Entry
  | used, [] => ([], used, [])
  | used, old :: items =>
    if capacity < (used + len) % 2 ^ 64 then
      let r := evict capacity len ((used + 2 ^ 64 - old.len) % 2 ^ 64) items
      (old :: r.1, r.2)
    else ([], used, old :: items)

/-- Push an entry; also the number of entries that were evicted. -/
def push (r : Ring) (b : Entry) : Ring × ℕ :=
  let (evicted, used, items) := evict r.capacity b.len r.used r.items
  let dropped := r.dropped + evicted.length
  if b.len ≤ r.capacity then
    ({ r with used := (used + b.len) % 2 ^ 64, items := items ++ [b], dropped := dropped % 2 ^ 64 },
      evicted.length)
  else ({ r with used, items, dropped := (dropped + 1) % 2 ^ 64 }, evicted.length + 1)

def pop (r : Ring) : Option Entry × Ring :=
  match r.items with
  | [] => (none, r)
  | b :: items => (some b, { r with used := (r.used + 2 ^ 64 - b.len) % 2 ^ 64, items })

inductive Op
  | push (b : Entry)
  | pop

/-- A call, with the entries that were popped so far. -/
def apply (s : Ring × List Entry) : Op → Ring × List Entry
  | .push b => ((s.1.push b).1, s.2)
  | .pop => (s.1.pop.2, s.2 ++ s.1.pop.1.toList)

def run (capacity : ℕ) (ops : List Op) : Ring × List Entry := ops.foldl apply ({ capacity }, [])

def pushed (ops : List Op) : List Entry :=
  ops.filterMap fun op => match op with
    | .push b => some b
    | .pop => none

/-- The longest end of the held entries that fits together with so many bytes. -/
structure Longest (capacity len : ℕ) (items kept : List Entry) : Prop where
  suffix : kept <:+ items
  fits : totalLen kept + len ≤ capacity
  longest : ∀ other, other <:+ items → totalLen other + len ≤ capacity → other <:+ kept

/-- What the loop leaves: every entry is evicted or kept, and a new one that can fit does. -/
theorem evict_spec (capacity : ℕ) {len : ℕ} (hlen : len < 2 ^ 63) {items : List Entry}
    (htotal : totalLen items < 2 ^ 63) :
    ∃ evicted kept, evict capacity len (totalLen items) items = (evicted, totalLen kept, kept) ∧
      evicted ++ kept = items ∧ (len ≤ capacity → Longest capacity len items kept) ∧
      (capacity < len → kept = []) := by
  induction items with
  | nil =>
    exact ⟨[], [], rfl, rfl, fun hfits => ⟨suffix_rfl, by simpa [totalLen] using hfits,
      fun _ h _ => h⟩, fun _ => rfl⟩
  | cons old items ih =>
    have hcons : totalLen (old :: items) = old.len + totalLen items := by simp [totalLen]
    obtain ⟨evicted, kept, hevict, hsplit, hlongest, hnone⟩ := ih (by omega)
    rw [evict, Nat.mod_eq_of_lt (by omega)]
    split
    · next hfull =>
      have hused : (totalLen (old :: items) + 2 ^ 64 - old.len) % 2 ^ 64 = totalLen items := by
        omega
      rw [hused, hevict]
      refine ⟨old :: evicted, kept, rfl, by rw [cons_append, hsplit], fun hfits => ?_, hnone⟩
      obtain ⟨hsuffix, hroom, hmax⟩ := hlongest hfits
      refine ⟨hsuffix.trans (suffix_cons ..), hroom, fun other hother hfit => ?_⟩
      rcases suffix_cons_iff.mp hother with rfl | hother
      · omega
      · exact hmax other hother hfit
    · exact ⟨[], _, rfl, rfl, fun _ => ⟨suffix_rfl, by omega, fun _ h _ => h⟩, by omega⟩

/-- The bytes are counted. What was pushed is held or has left before it, in that order: some of
it was popped, and the rest is counted as dropped. -/
structure Accounted (capacity : ℕ) (ops : List Op) (r : Ring) (popped : List Entry) : Prop where
  capacity_eq : r.capacity = capacity
  used_eq : r.used = totalLen r.items
  used_le : r.used ≤ capacity
  left : ∃ left, pushed ops = left ++ r.items ∧ popped <+ left ∧
    r.dropped = (left.length - popped.length) % 2 ^ 64

variable {capacity : ℕ} {ops : List Op} {r : Ring} {popped : List Entry}

theorem Accounted.push (h : Accounted capacity ops r popped) (hcapacity : capacity < 2 ^ 63)
    (b : Entry) :
    Accounted capacity (ops ++ [.push b]) (r.push b).1 popped ∧
      (b.len ≤ capacity → ∃ kept, Longest capacity b.len r.items kept ∧
        (r.push b).1.items = kept ++ [b]) := by
  obtain ⟨rfl, hused, hle, left, hpushed, hpopped, hdropped⟩ := h
  have htotal : totalLen r.items < 2 ^ 63 := by omega
  obtain ⟨evicted, kept, hevict, hsplit, hlongest, hnone⟩ := evict_spec r.capacity b.2 htotal
  have hnow : pushed (ops ++ [.push b]) = left ++ (evicted ++ kept) ++ [b] := by
    rw [hsplit, ← hpushed, pushed, filterMap_append]
    rfl
  have hcount := hpopped.length_le
  rw [← hused] at hevict
  change evict r.capacity b.len r.used r.items = _ at hevict
  simp only [Ring.push, hevict]
  by_cases hfits : b.len ≤ r.capacity
  · have hkept := hlongest hfits
    have hroom : totalLen kept + b.len ≤ r.capacity := hkept.fits
    have hbytes : totalLen (kept ++ [b]) = totalLen kept + b.len := by simp [totalLen]
    rw [if_pos hfits]
    refine ⟨⟨rfl, ?_, ?_, left ++ evicted, by simp [hnow], hpopped.trans (sublist_append_left ..),
      ?_⟩, fun _ => ⟨kept, hkept, rfl⟩⟩
    all_goals simp only [hbytes, length_append]
    all_goals omega
  · obtain rfl := hnone (Nat.lt_of_not_le hfits)
    rw [if_neg hfits]
    refine ⟨⟨rfl, rfl, Nat.zero_le _, left ++ evicted ++ [b], by simp [hnow],
      hpopped.trans (by simp), ?_⟩, fun h => absurd h hfits⟩
    simp only [length_append, length_singleton]
    omega

theorem Accounted.pop (h : Accounted capacity ops r popped) (hcapacity : capacity < 2 ^ 63) :
    Accounted capacity (ops ++ [.pop]) r.pop.2 (popped ++ r.pop.1.toList) := by
  obtain ⟨hcap, hused, hle, left, hpushed, hpopped, hdropped⟩ := h
  have hnow : pushed (ops ++ [.pop]) = left ++ r.items := by
    rw [← hpushed, pushed, filterMap_append]
    exact append_nil _
  cases hitems : r.items with
  | nil =>
    simp only [Ring.pop, hitems, Option.toList_none, append_nil]
    exact ⟨hcap, hused, hle, left, hnow, hpopped, hdropped⟩
  | cons b items =>
    have hcons : totalLen (b :: items) = b.len + totalLen items := by simp [totalLen]
    rw [hitems] at hused hnow
    simp only [Ring.pop, hitems]
    refine ⟨hcap, ?_, ?_, left ++ [b], by simp [hnow], hpopped.append (Sublist.refl _), ?_⟩
    all_goals simp only [Option.toList_some, length_append]
    all_goals omega

/-- After every sequence of calls the ring accounts for what was pushed, and a push of an entry
that can fit keeps the longest end of the held entries that fits together with it. -/
theorem run_accounted (hcapacity : capacity < 2 ^ 63) (ops : List Op) :
    Accounted capacity ops (run capacity ops).1 (run capacity ops).2 ∧
      ∀ b : Entry, b.len ≤ capacity → ∃ kept,
        Longest capacity b.len (run capacity ops).1.items kept ∧
          ((run capacity ops).1.push b).1.items = kept ++ [b] := by
  have h : Accounted capacity ops (run capacity ops).1 (run capacity ops).2 := by
    induction ops using List.reverseRecOn with
    | nil => exact ⟨rfl, rfl, Nat.zero_le _, [], rfl, .slnil, rfl⟩
    | append_singleton ops op ih =>
      rw [run, foldl_append]
      cases op with
      | push b => exact (ih.push hcapacity b).1
      | pop => exact ih.pop hcapacity
  exact ⟨h, fun b => (h.push hcapacity b).2⟩

/-- An entry of so many bytes. -/
def ofSize (n : Fin 100) : Entry := ⟨replicate n 0, by rw [length_replicate]; omega⟩

/-- A ring of five bytes: the third entry evicts the first, and the last one all. -/
def evictions : List Op :=
  [.push (ofSize 2), .push (ofSize 3), .push (ofSize 1), .pop, .push (ofSize 6)]

theorem run_accounted_evictions :
    (run 5 evictions).1.dropped = 3 ∧ (run 5 evictions).2 = [ofSize 3] ∧
      Accounted 5 evictions (run 5 evictions).1 (run 5 evictions).2 :=
  ⟨rfl, rfl, (run_accounted (by decide) evictions).1⟩

end Ring

end TraceMux.Core
