/-
# Lower case in context

Every character has a lower case of its own but the capital sigma, which becomes another letter
at the end of a word than inside. Words go on through characters that are ignored, such as
apostrophes. The lower case of a part of a text therefore depends on what stands around it. It is
the same everywhere exactly when the part itself settles each of its sigmas.
-/

import TraceMux.Base.Text

namespace TraceMux.Base

open List

/-- The tables of Unicode that lower case rests on, with what is used of them. -/
structure CaseTable where
  toLower : Char → Text
  cased : Char → Bool
  caseIgnorable : Char → Bool
  toLower_ne_nil : ∀ c, toLower c ≠ []
  toLower_a : toLower 'a' = ['a']
  cased_a : cased 'a' = true
  caseIgnorable_a : caseIgnorable 'a' = false

namespace CaseTable

variable (table : CaseTable)

/-- The first character that is not ignored. -/
def nearest (side : Text) : Option Char := side.find? fun c => !table.caseIgnorable c

def caseIgnorableThenCased (side : Text) : Bool := (table.nearest side).any table.cased

/-- A sigma between two texts, the one before it from its end. -/
def mapUppercaseSigma (before after : Text) : Char :=
  if table.caseIgnorableThenCased before && !table.caseIgnorableThenCased after then 'ς' else 'σ'

/-- The lower case of a text between two others. -/
def lowerIn (before : Text) : Text → Text → Text
  | [], _ => []
  | c :: rest, after =>
    (if c = 'Σ' then [table.mapUppercaseSigma before (rest ++ after)] else table.toLower c) ++
      lowerIn (c :: before) rest after

def toLowercase (text : Text) : Text := table.lowerIn [] text []

/-- The two sides of a sigma say what becomes of it, whatever stands beyond them. -/
def Settled (before after : Text) : Prop :=
  ((table.nearest before).isSome ∧ (table.nearest after).isSome) ∨
    (table.nearest before).any (fun c => !table.cased c) ∨ (table.nearest after).any table.cased

instance (before after : Text) : Decidable (table.Settled before after) :=
  inferInstanceAs (Decidable (_ ∨ _))

variable {table}

theorem lowerIn_append (before s t after : Text) :
    table.lowerIn before (s ++ t) after =
      table.lowerIn before s (t ++ after) ++ table.lowerIn (s.reverse ++ before) t after := by
  induction s generalizing before with
  | nil => rfl
  | cons c s ih => simp [lowerIn, ih]

theorem nearest_append (side more : Text) :
    table.nearest (side ++ more) = (table.nearest side).or (table.nearest more) :=
  find?_append

theorem toLowercase_ne_nil {text : Text} (h : text ≠ []) : table.toLowercase text ≠ [] := by
  cases text with
  | nil => exact absurd rfl h
  | cons c rest =>
    have hlower := table.toLower_ne_nil c
    unfold toLowercase lowerIn
    split
    · simp
    · simp [hlower]

variable {before after s before' after' : Text} {x : Char}

theorem Settled.mapUppercaseSigma_eq (h : table.Settled before after) (before' after' : Text) :
    table.mapUppercaseSigma (before ++ before') (after ++ after') =
      table.mapUppercaseSigma before after := by
  unfold Settled at h
  cases hbefore : table.nearest before <;> cases hafter : table.nearest after <;>
    simp_all [mapUppercaseSigma, caseIgnorableThenCased, nearest_append]

theorem lowerIn_eq_of_settled {s before after : Text}
    (h : ∀ pre post, s = pre ++ 'Σ' :: post → table.Settled (pre.reverse ++ before) (post ++ after))
    (before' after' : Text) :
    table.lowerIn (before ++ before') s (after ++ after') = table.lowerIn before s after := by
  induction s generalizing before with
  | nil => rfl
  | cons c s ih =>
    have hrest : table.lowerIn (c :: before ++ before') s (after ++ after') =
        table.lowerIn (c :: before) s after := by
      apply ih
      intro pre post hs
      simpa using h (c :: pre) post (by rw [hs]; rfl)
    have hfirst : c = 'Σ' → table.mapUppercaseSigma (before ++ before') (s ++ (after ++ after')) =
        table.mapUppercaseSigma before (s ++ after) := by
      intro hc
      rw [← append_assoc]
      exact (h [] s (by rw [hc]; rfl)).mapUppercaseSigma_eq before' after'
    by_cases hc : c = 'Σ'
    · simp only [lowerIn, if_pos hc, hfirst hc]
      exact congrArg _ hrest
    · simp only [lowerIn, if_neg hc]
      exact congrArg _ hrest

/-- Where other surroundings make fewer sigmas into `x`, it occurs less often. -/
theorem count_lowerIn_le
    (h : ∀ pre post, s = pre ++ 'Σ' :: post →
      table.mapUppercaseSigma (pre.reverse ++ before') (post ++ after') = x →
      table.mapUppercaseSigma (pre.reverse ++ before) (post ++ after) = x) :
    (table.lowerIn before' s after').count x ≤ (table.lowerIn before s after).count x := by
  induction s generalizing before before' with
  | nil => exact le_rfl
  | cons c s ih =>
    have hrest : (table.lowerIn (c :: before') s after').count x ≤
        (table.lowerIn (c :: before) s after).count x := by
      apply ih
      intro pre post hs hx
      simpa using h (c :: pre) post (by rw [hs]; rfl) (by simpa using hx)
    simp only [lowerIn, count_append]
    refine Nat.add_le_add ?_ hrest
    split
    · next hc =>
      have hfirst := h [] s (by rw [hc]; rfl)
      simp only [reverse_nil, nil_append] at hfirst
      rw [count_singleton, count_singleton]
      split
      · next hx => rw [if_pos (beq_iff_eq.mpr (hfirst (beq_iff_eq.mp hx)))]
      · exact Nat.zero_le _
    · exact le_rfl

/-- And strictly less often, if one of them does not become `x`. -/
theorem count_lowerIn_lt {pre post : Text}
    (h : ∀ p q, pre ++ 'Σ' :: post = p ++ 'Σ' :: q →
      table.mapUppercaseSigma (p.reverse ++ before') (q ++ after') = x →
      table.mapUppercaseSigma (p.reverse ++ before) (q ++ after) = x)
    (hx : table.mapUppercaseSigma (pre.reverse ++ before) (post ++ after) = x)
    (hx' : table.mapUppercaseSigma (pre.reverse ++ before') (post ++ after') ≠ x) :
    (table.lowerIn before' (pre ++ 'Σ' :: post) after').count x <
      (table.lowerIn before (pre ++ 'Σ' :: post) after).count x := by
  have hpre : (table.lowerIn before' pre ('Σ' :: post ++ after')).count x ≤
      (table.lowerIn before pre ('Σ' :: post ++ after)).count x := by
    apply count_lowerIn_le
    rintro p q rfl
    simpa using h p (q ++ 'Σ' :: post) (by simp)
  have hpost : (table.lowerIn ('Σ' :: (pre.reverse ++ before')) post after').count x ≤
      (table.lowerIn ('Σ' :: (pre.reverse ++ before)) post after).count x := by
    apply count_lowerIn_le
    rintro p q rfl
    simpa using h (pre ++ 'Σ' :: p) q (by simp)
  simp only [lowerIn_append, lowerIn, if_true, count_append, count_singleton, hx,
    beq_self_eq_true, beq_eq_false_iff_ne.mpr hx', Bool.false_eq_true, if_false]
  omega

/-- A part keeps its lower case in every text exactly when it settles all its sigmas. The letter
`a` before or behind it does for the others. -/
theorem infix_toLowercase_iff (part : Text) :
    (∀ text, part <:+: text → table.toLowercase part <:+: table.toLowercase text) ↔
      ∀ pre post, part = pre ++ 'Σ' :: post → table.Settled pre.reverse post := by
  constructor
  · rintro h pre post rfl
    by_contra hsettled
    have hnearest : table.nearest ['a'] = some 'a' := by simp [nearest, table.caseIgnorable_a]
    cases hbefore : table.nearest pre.reverse with
    | none =>
      -- Behind a letter the sigma may end a word.
      have hlow := h ('a' :: (pre ++ 'Σ' :: post)) (suffix_cons _ _).isInfix
      have hlt : (table.lowerIn ['a'] (pre ++ 'Σ' :: post) []).count 'σ' <
          (table.lowerIn [] (pre ++ 'Σ' :: post) []).count 'σ' := by
        apply count_lowerIn_lt
        · intro p q _
          simp only [mapUppercaseSigma, caseIgnorableThenCased, nearest_append, append_nil,
            hnearest]
          cases table.nearest p.reverse <;> simp_all
        · simp [mapUppercaseSigma, caseIgnorableThenCased, hbefore]
        · simp only [Settled, hbefore] at hsettled
          simp_all [mapUppercaseSigma, caseIgnorableThenCased, nearest_append, table.cased_a]
      have hle := hlow.sublist.count_le 'σ'
      simp [toLowercase, lowerIn, table.toLower_a] at hle hlt
      omega
    | some c =>
      -- In front of a letter it does not.
      have hlow := h (pre ++ 'Σ' :: post ++ ['a']) (prefix_append _ _).isInfix
      have hlt : (table.lowerIn [] (pre ++ 'Σ' :: post) ['a']).count 'ς' <
          (table.lowerIn [] (pre ++ 'Σ' :: post) []).count 'ς' := by
        apply count_lowerIn_lt
        · intro p q _
          simp only [mapUppercaseSigma, caseIgnorableThenCased, nearest_append, append_nil]
          cases table.nearest q <;> simp_all
        · simp only [Settled, hbefore] at hsettled
          cases hafter : table.nearest post <;>
            simp_all [mapUppercaseSigma, caseIgnorableThenCased]
        · simp only [Settled, hbefore] at hsettled
          cases hafter : table.nearest post <;>
            simp_all [mapUppercaseSigma, caseIgnorableThenCased, nearest_append, table.cased_a]
      have hle := hlow.sublist.count_le 'ς'
      rw [toLowercase, toLowercase, lowerIn_append _ _ ['a']] at hle
      simp [lowerIn, table.toLower_a] at hle hlt
      omega
  · rintro hsettled text ⟨x, y, rfl⟩
    have hpart : table.lowerIn ([] ++ x.reverse) part ([] ++ y) = table.toLowercase part := by
      apply lowerIn_eq_of_settled
      simpa using hsettled
    refine ⟨table.lowerIn [] x (part ++ y), table.lowerIn (part.reverse ++ x.reverse) y [], ?_⟩
    rw [← hpart, toLowercase, lowerIn_append, lowerIn_append]
    simp

end CaseTable

end TraceMux.Base
