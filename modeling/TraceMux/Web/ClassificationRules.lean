/-
# Classification rules of the web client

The client keeps its rules by id, in memory and in the storage of the browser. Texts are
normalised on the way in: white space around them is dropped, and then they are cut to 160 units,
so that a text that was cut can end in white space. What is saved is normalised once more and
limited in number, what is in memory is not. The id of a rule that has none is made of its
texts, and different texts can make one id.
-/

import Mathlib.Data.List.Sort
import TraceMux.Base.JsString
import TraceMux.Base.Transition

namespace TraceMux.Web.ClassificationRules

open Base Base.Transition List

/-- White space of the engine; none of it has two units. -/
def isSpaceUnit (unit : UInt16) : Bool := JsString.isSpace (JsString.single unit)

def trim (s : JsString) : JsString := (s.dropWhile isSpaceUnit).rdropWhile isSpaceUnit

def maxClassificationRules : ℕ := 200

def maxClassificationTextLength : ℕ := 160

def normalizeText (value : JsString) : JsString := (trim value).take maxClassificationTextLength

def js (s : String) : JsString := JsString.ofText s.toList

def orElse (s t : JsString) : JsString := if s = [] then t else s

/-- What the client takes from the engine: lower case, and regular expressions, with or without
regard to case. -/
structure Engine where
  toLowerCase : JsString → JsString
  regExp : JsString → Bool → Option (JsString → Bool)

def dash : UInt16 := 0x2D

/-- Units that stay in an id: small letters, digits, `_` and `-`. -/
def isSlugUnit (unit : UInt16) : Bool :=
  (0x61 ≤ unit.toNat && unit.toNat ≤ 0x7A) || (0x30 ≤ unit.toNat && unit.toNat ≤ 0x39) ||
    unit.toNat == 0x5F || unit.toNat == 0x2D

/-- One dash for every run of other units; `inside` is set in a run. -/
def dashRuns : Bool → JsString → JsString
  | _, [] => []
  | inside, unit :: rest =>
    if isSlugUnit unit then unit :: dashRuns false rest
    else if inside then dashRuns true rest
    else dash :: dashRuns true rest

section Rules

variable (engine : Engine)

def slugPart (value : JsString) : JsString :=
  (((dashRuns false (engine.toLowerCase (trim value))).dropWhile (· = dash)).rdropWhile
    (· = dash)).take 48

def fallbackRuleId (contains tag : JsString) : JsString :=
  orElse (slugPart engine contains) (js "contains") ++
    dash :: orElse (slugPart engine tag) (js "tag")

inductive MatchKind
  | contains
  | regex
  deriving DecidableEq, Repr

/-- A rule, or what is read of a value for one. There a text that is missing is empty, and the
time of the update is cut to a natural number. -/
structure Rule where
  id : JsString := []
  matchKind : MatchKind := .contains
  contains : JsString := []
  tag : JsString := []
  caseSensitive : Bool := false
  enabled : Bool := true
  updatedAt : ℕ := 0
  deriving DecidableEq, Repr

def isValidRulePattern (pattern : JsString) (kind : MatchKind) : Bool :=
  trim pattern ≠ [] && (kind = .contains || (engine.regExp pattern false).isSome)

def normalizeRule (input : Rule) (fallbackId : JsString) : Option Rule :=
  if normalizeText input.contains = [] ∨ normalizeText input.tag = [] ∨
      isValidRulePattern engine (normalizeText input.contains) input.matchKind = false then none
  else some { input with
    id := orElse (orElse (normalizeText input.id) fallbackId)
      (fallbackRuleId engine (normalizeText input.contains) (normalizeText input.tag))
    contains := normalizeText input.contains
    tag := normalizeText input.tag }

/-- The own properties of an object, in their order. -/
abbrev Rules := List (JsString × Rule)

def arrayIndex (key : JsString) : Option ℕ :=
  let n := key.foldl (fun n unit => 10 * n + (unit.toNat - 0x30)) 0
  if JsString.ofText (Text.ofNat n) = key ∧ n < 2 ^ 32 - 1 then some n else none

/-- Array indices stand first, by number; other keys in the order in which they came. -/
def precedes (a b : JsString × Rule) : Bool :=
  match arrayIndex a.1, arrayIndex b.1 with
  | some i, some j => i ≤ j
  | some _, none => true
  | none, _ => false

def proto : JsString := js "__proto__"

/-- Set a property; this one is none of the object's own. -/
def assign (key : JsString) (rule : Rule) (rules : Rules) : Rules :=
  if key = proto then rules
  else if key ∈ rules.map Prod.fst then
    rules.map fun entry => if entry.1 = key then (key, rule) else entry
  else rules.orderedInsert (fun a b => precedes a b) (key, rule)

/-- Go on with normalising a list of values, `none` for one that is no object. -/
def normalizeFrom (out : Rules) : List (JsString × Option Rule) → Rules
  | [] => out
  | (id, raw) :: rest =>
    if maxClassificationRules ≤ out.length then out
    else
      match raw.bind fun input => normalizeRule engine input id with
      | some rule => normalizeFrom (assign rule.id rule out) rest
      | none => normalizeFrom out rest

/-- Rules as they are read back from the text they are saved as. -/
def values (rules : Rules) : List (JsString × Option Rule) :=
  rules.map fun entry => (entry.1, some entry.2)

/-- The rules in memory, and what the text in the storage is read as. -/
structure Client where
  memory : Rules
  storage : List (JsString × Option Rule)

def loadClassificationRules (storage : List (JsString × Option Rule)) : Rules :=
  normalizeFrom engine [] storage

def saveClassificationRules (rules : Rules) : List (JsString × Option Rule) :=
  values (normalizeFrom engine [] (values rules))

/-- The id an upsert is made under. -/
def ruleId (patch : Rule) : JsString :=
  orElse (normalizeText patch.id) (fallbackRuleId engine patch.contains patch.tag)

/-- Add or replace a rule, at the time in the patch. -/
def upsertClassificationRule (c : Client) (patch : Rule) : Option (Rule × Client) :=
  (normalizeRule engine { patch with id := ruleId engine patch } (ruleId engine patch)).map
    fun rule =>
      let memory := assign rule.id rule c.memory
      (rule, ⟨memory, saveClassificationRules engine (assign rule.id rule memory)⟩)

def deleteClassificationRule (c : Client) (id : JsString) : Client :=
  let memory := c.memory.filter fun entry => entry.1 ≠ id
  ⟨memory, saveClassificationRules engine memory⟩

inductive Edit
  | upsert (patch : Rule)
  | delete (id : JsString)

/-- One edit; an upsert that is refused changes nothing. -/
def step (c : Client) : Edit → Option Client
  | .upsert patch => some (((upsertClassificationRule engine c patch).map Prod.snd).getD c)
  | .delete id => some (deleteClassificationRule engine c id)

variable {engine} {s id : JsString} {rule patch : Rule} {rules : Rules} {unit : UInt16}
  {word : JsString} {kind : Rule → Prop} {out : Rules} {raw : Rule}

theorem isSlugUnit_dashRuns {inside : Bool} (h : unit ∈ dashRuns inside s) :
    isSlugUnit unit = true := by
  induction s generalizing inside with
  | nil => cases h
  | cons c s ih =>
    rw [dashRuns] at h
    split at h
    · next hc =>
      rcases mem_cons.mp h with rfl | h
      · exact hc
      · exact ih h
    · split at h
      · exact ih h
      · rcases mem_cons.mp h with rfl | h
        · decide
        · exact ih h

/-- A part of an id, short and without other units. -/
theorem part_slug {value : JsString} (hword : word.all isSlugUnit = true)
    (hlength : word.length ≤ 48) :
    (orElse (slugPart engine value) word).all isSlugUnit = true ∧
      (orElse (slugPart engine value) word).length ≤ 48 := by
  unfold orElse
  split
  · exact ⟨hword, hlength⟩
  · refine ⟨all_eq_true.mpr fun unit h => ?_, length_take_le _ _⟩
    have hruns := (List.rdropWhile_prefix _ _).subset (mem_of_mem_take h)
    exact isSlugUnit_dashRuns ((dropWhile_sublist _).subset hruns)

theorem isSpaceUnit_of_isSlugUnit (h : isSlugUnit unit = true) : isSpaceUnit unit = false := by
  simp only [isSlugUnit, Bool.or_eq_true, Bool.and_eq_true, decide_eq_true_eq, beq_iff_eq] at h
  have hhigh : JsString.isHigh unit = false := by simp [JsString.isHigh]; omega
  have hlow : JsString.isLow unit = false := by simp [JsString.isLow]; omega
  have hcode : (JsString.single unit).toNat = unit.toNat := by
    have hvalid : unit.toNat.isValidChar := .inl (by omega)
    rw [JsString.single, hhigh, hlow, Bool.or_self, if_neg Bool.false_ne_true, Char.ofNat,
      dif_pos hvalid]
    rfl
  simp only [isSpaceUnit, JsString.isSpace, Text.isWhitespace, hcode]
  simp
  omega

theorem normalizeText_eq_self (hspace : ∀ unit ∈ s, isSpaceUnit unit = false)
    (hlength : s.length ≤ maxClassificationTextLength) : normalizeText s = s := by
  have hleft : s.dropWhile isSpaceUnit = s := by
    apply dropWhile_eq_self_iff.mpr
    intro h
    rw [hspace _ (getElem_mem h)]
    exact Bool.false_ne_true
  have hright : s.rdropWhile isSpaceUnit = s := by
    apply rdropWhile_eq_self_iff.mpr
    intro h
    rw [hspace _ (getLast_mem h)]
    exact Bool.false_ne_true
  rw [normalizeText, trim, hleft, hright]
  exact take_of_length_le hlength

theorem normalizeText_fallbackRuleId (contains tag : JsString) :
    normalizeText (fallbackRuleId engine contains tag) = fallbackRuleId engine contains tag := by
  have hfirst : (orElse (slugPart engine contains) (js "contains")).all isSlugUnit = true ∧ _ :=
    part_slug (by decide) (by decide)
  have hsecond : (orElse (slugPart engine tag) (js "tag")).all isSlugUnit = true ∧ _ :=
    part_slug (by decide) (by decide)
  apply normalizeText_eq_self
  · intro unit h
    apply isSpaceUnit_of_isSlugUnit
    rcases mem_append.mp h with h | h
    · exact all_eq_true.mp hfirst.1 unit h
    · rcases mem_cons.mp h with rfl | h
      · decide
      · exact all_eq_true.mp hsecond.1 unit h
  · simp only [fallbackRuleId, length_append, length_cons, maxClassificationTextLength]
    omega

theorem fallbackRuleId_ne {contains tag : JsString} (h : dash ∉ word) :
    fallbackRuleId engine contains tag ≠ word := by
  rintro rfl
  exact h (mem_append_right _ mem_cons_self)

theorem mem_assign {key : JsString} (hkey : key ≠ proto) {entry : JsString × Rule} :
    entry ∈ assign key rule rules ↔ entry = (key, rule) ∨ entry.1 ≠ key ∧ entry ∈ rules := by
  rw [assign, if_neg hkey]
  split
  · next hmem =>
    obtain ⟨old, hold, hfst⟩ := mem_map.mp hmem
    rw [mem_map]
    constructor
    · rintro ⟨e, he, rfl⟩
      by_cases hk : e.1 = key
      · exact .inl (if_pos hk)
      · rw [if_neg hk]
        exact .inr ⟨hk, he⟩
    · rintro (rfl | ⟨hk, he⟩)
      · exact ⟨old, hold, if_pos hfst⟩
      · exact ⟨entry, he, if_neg hk⟩
  · next hmem =>
    rw [mem_orderedInsert]
    refine or_congr_right ⟨fun h => ⟨?_, h⟩, And.right⟩
    rintro rfl
    exact hmem (mem_map_of_mem h)

/-- Rules under their ids, no more than are saved, all of one kind. -/
structure Tidy (kind : Rule → Prop) (rules : Rules) : Prop where
  keys : (rules.map Prod.fst).Nodup
  length_le : rules.length ≤ maxClassificationRules
  entry : ∀ e ∈ rules, e.1 = e.2.id ∧ e.1 ≠ proto ∧ kind e.2

theorem Tidy.assign (h : Tidy kind rules) (hkind : kind rule)
    (hroom : rule.id ∈ rules.map Prod.fst ∨ rules.length < maxClassificationRules) :
    Tidy kind (assign rule.id rule rules) := by
  by_cases hproto : rule.id = proto
  · rw [ClassificationRules.assign, if_pos hproto]
    exact h
  have hentry : ∀ e ∈ ClassificationRules.assign rule.id rule rules,
      e.1 = e.2.id ∧ e.1 ≠ proto ∧ kind e.2 := by
    intro e he
    rcases (mem_assign hproto).mp he with rfl | ⟨-, he⟩
    · exact ⟨rfl, hproto, hkind⟩
    · exact h.entry e he
  rw [ClassificationRules.assign, if_neg hproto] at hentry ⊢
  split at hentry
  · next hmem =>
    have hkeys : (rules.map fun e => if e.1 = rule.id then (rule.id, rule) else e).map Prod.fst =
        rules.map Prod.fst := by
      rw [map_map]
      apply map_congr_left
      intro e _
      by_cases he : e.1 = rule.id
      · simp [he]
      · simp [he]
    rw [if_pos hmem]
    refine ⟨?_, ?_, hentry⟩
    · rw [hkeys]
      exact h.keys
    · rw [length_map]
      exact h.length_le
  · next hmem =>
    rw [if_neg hmem]
    refine ⟨?_, ?_, hentry⟩
    · rw [((perm_orderedInsert _ _ _).map _).nodup_iff]
      exact nodup_cons.mpr ⟨hmem, h.keys⟩
    · rw [orderedInsert_length]
      exact hroom.resolve_left hmem

theorem Tidy.perm {rules' : Rules} (h : Tidy kind rules) (hperm : rules'.Perm rules) :
    Tidy kind rules' where
  keys := (hperm.map _).nodup_iff.mpr h.keys
  length_le := hperm.length_eq.trans_le h.length_le
  entry e he := h.entry e (hperm.subset he)

/-- A rule that is read as it was written. -/
def Stays (engine : Engine) (rule : Rule) : Prop := normalizeRule engine rule rule.id = some rule

theorem normalizeFrom_perm (hkeys : ((out ++ rules).map Prod.fst).Nodup)
    (hlength : out.length + rules.length ≤ maxClassificationRules)
    (hentry : ∀ e ∈ rules, e.1 = e.2.id ∧ e.1 ≠ proto ∧ Stays engine e.2) :
    (normalizeFrom engine out (values rules)).Perm (out ++ rules) := by
  induction rules generalizing out with
  | nil =>
    rw [append_nil]
    exact .refl out
  | cons e rules ih =>
    obtain ⟨hid, hproto, hstays⟩ := hentry e mem_cons_self
    rw [length_cons] at hlength
    have hfresh : e.1 ∉ out.map Prod.fst := by
      rw [map_append, nodup_append] at hkeys
      exact fun hmem => hkeys.2.2 _ hmem _ (mem_map_of_mem mem_cons_self) rfl
    have hmiddle : (assign e.2.id e.2 out ++ rules).Perm (out ++ e :: rules) := by
      rw [← hid, assign, if_neg hproto, if_neg hfresh]
      exact ((perm_orderedInsert _ _ _).append_right _).trans perm_middle.symm
    rw [values, map_cons, normalizeFrom, if_neg (by omega), Option.bind_some, hid, hstays]
    refine (ih ?_ ?_ fun e' he' => hentry e' (mem_cons_of_mem _ he')).trans hmiddle
    · exact (hmiddle.map _).nodup_iff.mpr hkeys
    · have hle := hmiddle.length_eq
      rw [length_append, length_append, length_cons] at hle
      omega

theorem Tidy.reload (h : Tidy (Stays engine) rules) :
    (loadClassificationRules engine (values rules)).Perm rules :=
  normalizeFrom_perm h.keys ((Nat.zero_add _).trans_le h.length_le) h.entry

theorem Tidy.save (h : Tidy (Stays engine) rules) :
    (loadClassificationRules engine (saveClassificationRules engine rules)).Perm rules :=
  ((h.perm h.reload).reload).trans h.reload

/-- What is loaded is tidy, each rule made of a value. -/
theorem tidy_normalizeFrom (input : List (JsString × Option Rule))
    (h : Tidy (fun rule => ∃ raw id, normalizeRule engine raw id = some rule) out) :
    Tidy (fun rule => ∃ raw id, normalizeRule engine raw id = some rule)
      (normalizeFrom engine out input) := by
  induction input generalizing out with
  | nil => exact h
  | cons value input ih =>
    rw [normalizeFrom]
    split
    · exact h
    · next hroom =>
      split
      · next rule hrule =>
        obtain ⟨raw, -, hraw⟩ := Option.bind_eq_some_iff.mp hrule
        exact ih (h.assign ⟨raw, _, hraw⟩ (.inr (not_le.mp hroom)))
      · exact ih h

def Kept (s : JsString) : Prop := normalizeText s = s

theorem orElse_ne_nil {t : JsString} (h : t ≠ []) : orElse s t ≠ [] := by
  unfold orElse
  split
  · exact h
  · assumption

theorem normalizeRule_some (h : normalizeRule engine raw id = some rule) :
    rule.id = orElse (orElse (normalizeText raw.id) id)
        (fallbackRuleId engine rule.contains rule.tag) ∧
      rule.contains = normalizeText raw.contains ∧ rule.tag = normalizeText raw.tag := by
  unfold normalizeRule at h
  split at h
  · cases h
  · cases h
    exact ⟨rfl, rfl, rfl⟩

theorem id_eq_of_kept (h : Kept id) (hne : id ≠ []) (fallback : JsString) :
    orElse (orElse (normalizeText id) id) fallback = id := by
  rw [h, orElse, orElse, if_neg hne, if_neg hne]

theorem stays_of_kept (h : normalizeRule engine raw id = some rule) (hid : Kept rule.id)
    (hcontains : Kept rule.contains) (htag : Kept rule.tag) : Stays engine rule := by
  have hne : rule.id ≠ [] := by
    rw [(normalizeRule_some h).1]
    exact orElse_ne_nil (fallbackRuleId_ne not_mem_nil)
  unfold normalizeRule at h
  split at h
  · cases h
  · next hvalid =>
    cases h
    rw [Stays, normalizeRule, id_eq_of_kept hid hne, hcontains, htag, if_neg hvalid]

theorem kept_ruleId (h : Kept (normalizeText patch.id)) : Kept (ruleId engine patch) := by
  unfold ruleId orElse
  split
  · exact normalizeText_fallbackRuleId _ _
  · exact h

theorem upsert_some {c c' : Client}
    (h : upsertClassificationRule engine c patch = some (rule, c'))
    (hid : Kept (normalizeText patch.id)) :
    normalizeRule engine { patch with id := ruleId engine patch } (ruleId engine patch) =
        some rule ∧ rule.id = ruleId engine patch ∧
      c' = ⟨assign rule.id rule c.memory,
        saveClassificationRules engine (assign rule.id rule (assign rule.id rule c.memory))⟩ := by
  obtain ⟨rule', hrule, heq⟩ := Option.map_eq_some_iff.mp h
  cases heq
  refine ⟨hrule, ?_, rfl⟩
  rw [(normalizeRule_some hrule).1]
  exact id_eq_of_kept (kept_ruleId hid) (orElse_ne_nil (fallbackRuleId_ne not_mem_nil)) _

theorem ruleId_ne_proto (h : normalizeText patch.id ≠ proto) : ruleId engine patch ≠ proto := by
  unfold ruleId orElse
  split
  · exact fallbackRuleId_ne (by decide)
  · exact h

/-- An edit that storage and memory follow alike: the texts of a new rule, as they were cut, do
not end in white space, and there is room for it. -/
def Fits (engine : Engine) (c : Client) : Edit → Prop
  | .upsert patch =>
    Kept (normalizeText patch.id) ∧ normalizeText patch.id ≠ proto ∧
      Kept (normalizeText patch.contains) ∧ Kept (normalizeText patch.tag) ∧
      (ruleId engine patch ∈ c.memory.map Prod.fst ∨ c.memory.length < maxClassificationRules)
  | .delete _ => True

/-- What holds of a client whose edits all fit. -/
def InStep (engine : Engine) (c : Client) : Prop :=
  Tidy (Stays engine) c.memory ∧ (loadClassificationRules engine c.storage).Perm c.memory

theorem step_inStep (c : Client) (edit : Edit) (c' : Client) (h : InStep engine c)
    (hfits : Fits engine c edit) (hstep : step engine c edit = some c') : InStep engine c' := by
  cases edit with
  | delete id =>
    cases hstep
    have hsub : (c.memory.filter fun entry => entry.1 ≠ id).Sublist c.memory :=
      filter_sublist
    have htidy : Tidy (Stays engine) (c.memory.filter fun entry => entry.1 ≠ id) :=
      ⟨h.1.keys.sublist (hsub.map _), hsub.length_le.trans h.1.length_le,
        fun e he => h.1.entry e (hsub.subset he)⟩
    exact ⟨htidy, htidy.save⟩
  | upsert patch =>
    obtain ⟨hid, hproto, hcontains, htag, hroom⟩ := hfits
    cases hup : upsertClassificationRule engine c patch with
    | none =>
      rw [step, hup] at hstep
      cases hstep
      exact h
    | some pair =>
      rw [step, hup] at hstep
      cases hstep
      obtain ⟨hrule, hkey, hclient⟩ := upsert_some hup hid
      obtain ⟨-, hc, ht⟩ := normalizeRule_some hrule
      have hstays : Stays engine pair.1 := by
        apply stays_of_kept hrule
        · rw [hkey]
          exact kept_ruleId hid
        · rw [hc]
          exact hcontains
        · rw [ht]
          exact htag
      have hfree : pair.1.id ≠ proto := hkey ▸ ruleId_ne_proto hproto
      rw [← hkey] at hroom
      have htidy := h.1.assign hstays hroom
      have htwice : Tidy (Stays engine)
          (assign pair.1.id pair.1 (assign pair.1.id pair.1 c.memory)) := by
        apply htidy.assign hstays
        exact .inl (mem_map_of_mem ((mem_assign hfree).mpr (.inl rfl)))
      -- Setting the property again changes nothing.
      have hperm : (assign pair.1.id pair.1 (assign pair.1.id pair.1 c.memory)).Perm
          (assign pair.1.id pair.1 c.memory) := by
        apply (perm_ext_iff_of_nodup htwice.keys.of_map htidy.keys.of_map).mpr
        intro e
        rw [mem_assign hfree, mem_assign hfree]
        constructor
        · rintro (hnew | ⟨-, hold⟩)
          · exact .inl hnew
          · exact hold
        · rintro (hnew | hold)
          · exact .inl hnew
          · exact .inr ⟨hold.1, .inr hold⟩
      rw [Option.map_some, Option.getD_some, hclient]
      exact ⟨htidy, htwice.save.trans hperm⟩

def start (engine : Engine) (storage : List (JsString × Option Rule)) : Client :=
  ⟨loadClassificationRules engine storage, storage⟩

/-- Reloading yields the rules in memory, after edits that fit and from stored rules that
normalising leaves alone. -/
theorem reload_perm_memory {storage : List (JsString × Option Rule)} {c : Client}
    {edits : List Edit}
    (hstart : ∀ e ∈ loadClassificationRules engine storage,
      Kept e.2.id ∧ Kept e.2.contains ∧ Kept e.2.tag)
    (hfits : Guarded (step engine) (Fits engine) (start engine storage) edits)
    (hrun : exec (step engine) (start engine storage) edits = some c) :
    (loadClassificationRules engine c.storage).Perm c.memory := by
  have hloaded : Tidy (fun rule => ∃ raw id, normalizeRule engine raw id = some rule)
      (loadClassificationRules engine storage) :=
    tidy_normalizeFrom storage ⟨.nil, Nat.zero_le _, fun _ he => nomatch he⟩
  have hinit : InStep engine (start engine storage) := by
    refine ⟨⟨hloaded.keys, hloaded.length_le, fun e he => ?_⟩, .refl _⟩
    obtain ⟨hkey, hproto, raw, id, hrule⟩ := hloaded.entry e he
    obtain ⟨hid, hcontains, htag⟩ := hstart e he
    exact ⟨hkey, hproto, stays_of_kept hrule hid hcontains htag⟩
  exact (exec_invariant step_inStep hinit hfits hrun).2

/-- Two upserts without an id leave both rules exactly when their texts make different ids, or
they make one rule. -/
theorem both_present_iff {c c₁ c₂ : Client} {first second rule₁ rule₂ : Rule}
    (hid₁ : normalizeText first.id = []) (hid₂ : normalizeText second.id = [])
    (h₁ : upsertClassificationRule engine c first = some (rule₁, c₁))
    (h₂ : upsertClassificationRule engine c₁ second = some (rule₂, c₂)) :
    ((rule₁.id, rule₁) ∈ c₂.memory ∧ (rule₂.id, rule₂) ∈ c₂.memory) ↔
      fallbackRuleId engine first.contains first.tag ≠
        fallbackRuleId engine second.contains second.tag ∨ rule₁ = rule₂ := by
  obtain ⟨-, hkey₁, rfl⟩ := upsert_some h₁ (by rw [hid₁]; rfl)
  obtain ⟨-, hkey₂, rfl⟩ := upsert_some h₂ (by rw [hid₂]; rfl)
  have hfree₁ : rule₁.id ≠ proto := hkey₁ ▸ ruleId_ne_proto (by rw [hid₁]; decide)
  have hfree₂ : rule₂.id ≠ proto := hkey₂ ▸ ruleId_ne_proto (by rw [hid₂]; decide)
  have hids : fallbackRuleId engine first.contains first.tag ≠
      fallbackRuleId engine second.contains second.tag ↔ rule₁.id ≠ rule₂.id := by
    rw [hkey₁, hkey₂, ruleId, ruleId, hid₁, hid₂]
    rfl
  rw [hids, mem_assign hfree₂, mem_assign hfree₂, mem_assign hfree₁, Prod.mk.injEq]
  constructor
  · rintro ⟨⟨-, h⟩ | ⟨h, -⟩, -⟩
    · exact .inr h
    · exact .inl h
  · rintro (h | rfl)
    · exact ⟨.inr ⟨h, .inl rfl⟩, .inl rfl⟩
    · exact ⟨.inl ⟨rfl, rfl⟩, .inl rfl⟩

end Rules

def plainEngine : Engine := ⟨id, fun _ _ => none⟩

def emptyClient : Client := ⟨[], []⟩

def ruleFor (contains : String) : Rule where
  contains := js contains
  tag := js "t"

def keptRule (id contains : String) : Rule := { ruleFor contains with id := js id }

theorem both_present_letters :
    ∃ c₁ c₂ rule₁ rule₂,
      upsertClassificationRule plainEngine emptyClient (ruleFor "a") = some (rule₁, c₁) ∧
        upsertClassificationRule plainEngine c₁ (ruleFor "b") = some (rule₂, c₂) ∧
        (rule₁.id, rule₁) ∈ c₂.memory ∧ (rule₂.id, rule₂) ∈ c₂.memory := by
  refine ⟨_, _, _, _, rfl, rfl, ?_⟩
  exact (@both_present_iff plainEngine emptyClient _ _ (ruleFor "a") (ruleFor "b") _ _
    rfl rfl rfl rfl).mpr (.inl (by decide))

/-- A blank and a dash make one id, and the first rule is gone. -/
theorem blank_and_dash_collide :
    ∃ c₁ c₂, upsertClassificationRule plainEngine emptyClient (ruleFor "a b") =
          some (keptRule "a-b-t" "a b", c₁) ∧
        upsertClassificationRule plainEngine c₁ (ruleFor "a-b") =
          some (keptRule "a-b-t" "a-b", c₂) ∧
        c₂.memory = [(js "a-b-t", keptRule "a-b-t" "a-b")] :=
  ⟨_, _, rfl, rfl, by decide +kernel⟩

/-- Two rules, of which one is written again and the other one deleted. -/
def fourEdits : List Edit :=
  [.upsert (ruleFor "a"), .upsert (ruleFor "b"), .upsert (ruleFor "a"), .delete (js "b-t")]

theorem reload_perm_fourEdits :
    ∃ c, exec (step plainEngine) (start plainEngine []) fourEdits = some c ∧
      (loadClassificationRules plainEngine c.storage).Perm c.memory := by
  refine ⟨_, rfl, @reload_perm_memory plainEngine [] _ fourEdits ?_ ?_ rfl⟩
  · exact fun e he => absurd he not_mem_nil
  · exact ⟨⟨rfl, by decide, rfl, rfl, .inr (by decide)⟩,
      ⟨rfl, by decide, rfl, rfl, .inr (by decide)⟩, ⟨rfl, by decide, rfl, rfl, .inr (by decide)⟩,
      trivial, trivial⟩

/-- A text of 159 letters, a blank and a letter: the cut leaves the blank at its end in memory,
and saving drops it. -/
theorem cut_blank_lost :
    ∃ c, exec (step plainEngine) (start plainEngine [])
        [.upsert { contains := replicate 159 0x61 ++ [0x20, 0x61], tag := js "t" }] = some c ∧
      ¬ (loadClassificationRules plainEngine c.storage).Perm c.memory :=
  ⟨_, rfl, by decide +kernel⟩

end TraceMux.Web.ClassificationRules
