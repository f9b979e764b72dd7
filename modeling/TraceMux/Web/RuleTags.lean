/-
# Tags in the web client and at the server

The client tags texts itself, by the rules that it also sends to the server. There the text a
rule looks for loses the white space around it once more, and a rule without a text or a tag is
left out. The two agree on every text when the rules survive the way as they are: no white
space of the server around the text, a tag that is not blank, and no half of a pair in either.
-/

import TraceMux.Server.Classify
import TraceMux.Web.ClassificationRules

namespace TraceMux.Web.RuleTags

open Base Base.MsgPack Server Server.Detect Server.Classify Web.ClassificationRules List
open Core.Codec (addTags)

/-- Whether a rule of the client applies to a text. A rule without a text never does. -/
def ruleMatchesText (engine : Engine) (rule : Rule) (text : JsString) : Bool :=
  if rule.contains = [] then false
  else
    match rule.matchKind with
    | .regex => (engine.regExp rule.contains (!rule.caseSensitive)).any fun test => test text
    | .contains =>
      if rule.caseSensitive then decide (rule.contains <:+: text)
      else decide (engine.toLowerCase rule.contains <:+: engine.toLowerCase text)

/-- The tags of a text in the order of the rules, each once. -/
def classifyText (engine : Engine) (text : JsString) (rules : List Rule) : List JsString :=
  rules.foldl (fun out rule =>
    if ruleMatchesText engine rule text = false ∨ out.contains rule.tag then out
    else out ++ [rule.tag]) []

/-- A string as it goes over the wire, with a replacement for each half of a pair. -/
def wireText (s : JsString) : String := String.ofList s.toText

def wireClassificationRule (rule : Rule) : Value :=
  .map ((.string (if rule.matchKind = .regex then "regex" else "contains"),
      .string (wireText rule.contains)) :: (.string "tag", .string (wireText rule.tag)) ::
    if rule.caseSensitive then [(.string "case_sensitive", .boolean true)] else [])

/-- The tags that the server gives a text under the rules that the client has sent. -/
def serverTags (matchers : Matchers) (builds : String → Bool → Bool) (text : String)
    (rules : List Rule) : Except String (List String) :=
  (Requests.classifierRules builds (rules.map wireClassificationRule)).map fun classifier =>
    tagsForText matchers classifier text

/-- A rule for a text that the server takes as it is. -/
structure Survives (rule : Rule) : Prop where
  kind : rule.matchKind = .contains
  contains_eq : JsString.ofText rule.contains.toText = rule.contains
  contains_ne : rule.contains.toText ≠ []
  contains_trim : Text.trim rule.contains.toText = rule.contains.toText
  tag_eq : JsString.ofText rule.tag.toText = rule.tag
  tag_trim : Text.trim rule.tag.toText ≠ []

def received (rule : Rule) : ClassificationRule :=
  containsWithCase (wireText rule.contains) (wireText rule.tag) rule.caseSensitive

theorem trimmed_ofList {s : Text} (h : Text.trim s ≠ []) :
    Requests.trimmed (String.ofList s) = some (String.ofList (Text.trim s)) := by
  unfold Requests.trimmed
  rw [String.toList_ofList]
  split
  · next hnil => exact absurd hnil h
  · next hcons => rw [hcons]

theorem classifierRules_received (builds : String → Bool → Bool) {rules : List Rule}
    (h : ∀ rule ∈ rules, Survives rule) :
    Requests.classifierRules builds (rules.map wireClassificationRule) =
      .ok (rules.map received) := by
  induction rules with
  | nil => rfl
  | cons rule rules ih =>
    obtain ⟨hkind, -, hne, htrim, -, htag⟩ := h rule mem_cons_self
    have hcontains : Requests.trimmed (wireText rule.contains) = some (wireText rule.contains) := by
      rw [wireText, trimmed_ofList (htrim.symm ▸ hne), htrim]
    have hblank : Requests.trimmed (wireText rule.tag) ≠ none := by
      rw [wireText, trimmed_ofList htag]
      exact Option.some_ne_none _
    rw [map_cons, map_cons, Requests.classifierRules,
      ih fun rule hrule => h rule (mem_cons_of_mem _ hrule)]
    cases hcase : rule.caseSensitive <;>
      simp [wireClassificationRule, hkind, hcase, Requests.classifierRuleStr, Requests.requiredText,
        RemoteMirror.mapStr, RemoteMirror.mapGet, Value.asStr, Requests.caseSensitiveOf,
        Requests.classifierRuleOptionalStr, Requests.optionalText, hcontains, hblank,
        Requests.classifierRule, ClassificationRule.isValid, ClassificationRule.matchKind, received,
        containsWithCase, bind, Except.bind, pure, Except.pure]

/-- Strings are converted one by one unless a pair is cut. -/
theorem toText_append {unit : UInt16} (h : JsString.isLow unit = false) (s rest : JsString) :
    JsString.toText (s ++ unit :: rest) = JsString.toText s ++ JsString.toText (unit :: rest) := by
  induction s using JsString.toText.induct with
  | case1 => rfl
  | case2 first => simp [JsString.toText, h]
  | case3 first second s hpair ih => simp [JsString.toText, hpair, ih]
  | case4 first second s hpair ih =>
    rw [cons_append, cons_append, JsString.toText, if_neg hpair, JsString.toText,
      if_neg hpair, cons_append, ← ih, cons_append]

theorem toText_ofText_append (text : Text) (rest : JsString) :
    JsString.toText (JsString.ofText text ++ rest) = text ++ JsString.toText rest := by
  induction text with
  | nil => rfl
  | cons c text ih =>
    rw [JsString.ofText, flatMap_cons, append_assoc, JsString.toText_ofChar_append]
    exact congrArg (c :: ·) ih

/-- A text is found in units exactly where it is found in characters. -/
theorem ofText_infix_iff {part text : Text} :
    JsString.ofText part <:+: JsString.ofText text ↔ part <:+: text := by
  constructor
  · rintro ⟨before, behind, h⟩
    cases part with
    | nil => exact nil_infix
    | cons c part =>
      obtain ⟨unit, rest, hunits, hlow⟩ : ∃ unit rest,
          JsString.ofText (c :: part) ++ behind = unit :: rest ∧ JsString.isLow unit = false := by
        have hcode := JsString.toNat_cases c
        rw [JsString.ofText, flatMap_cons, JsString.ofChar]
        split
        · refine ⟨_, _, rfl, ?_⟩
          rw [JsString.isLow, UInt16.toNat_ofNat_of_lt' (by assumption)]
          simp
          omega
        · refine ⟨_, _, rfl, ?_⟩
          rw [JsString.isLow, UInt16.toNat_ofNat_of_lt' (show _ < 65536 by omega)]
          simp
          omega
      refine ⟨JsString.toText before, JsString.toText behind, ?_⟩
      rw [append_assoc, hunits] at h
      rw [append_assoc, ← toText_ofText_append, hunits, ← toText_append hlow, h,
        JsString.toText_ofText]
  · rintro ⟨before, behind, rfl⟩
    exact ⟨JsString.ofText before, JsString.ofText behind, by simp [JsString.ofText]⟩

section Agreement

variable {engine : Engine} {matchers : Matchers}

/-- Both sides make the same lower case. -/
structure SameLowerCase (engine : Engine) (matchers : Matchers) : Prop where
  toLowerCase_ofText : ∀ text, engine.toLowerCase (JsString.ofText text) =
    JsString.ofText (matchers.toLowercase (String.ofList text)).toList
  ne_empty : ∀ s, s ≠ "" → matchers.toLowercase s ≠ ""

theorem matches_received (hlower : SameLowerCase engine matchers) {rule : Rule}
    (h : Survives rule) (text : Text) :
    ruleMatchesText engine rule (JsString.ofText text) =
      (isActive (received rule) &&
        decide (0 < countMatches matchers (received rule) (String.ofList text))) := by
  obtain ⟨hkind, hcontains, hne, -, -, htag⟩ := h
  have hneedle : wireText rule.contains ≠ "" := fun h => hne (String.ofList_eq_empty_iff.mp h)
  have htag' : wireText rule.tag ≠ "" := by
    intro h
    rw [String.ofList_eq_empty_iff.mp h] at htag
    exact htag rfl
  have hactive : isActive (received rule) = true := by
    simp [isActive, received, containsWithCase, ClassificationRule.pattern, hneedle, htag']
  have hunits : rule.contains ≠ [] := by
    intro h
    rw [h] at hne
    exact hne rfl
  rw [hactive, Bool.true_and, ruleMatchesText, if_neg hunits, hkind]
  cases hcase : rule.caseSensitive with
  | true =>
    have hcount : countMatches matchers (received rule) (String.ofList text) =
        countSubstrings (String.ofList text) (wireText rule.contains) := by
      simp [countMatches, received, containsWithCase, ClassificationRule.matchKind, hcase]
    rw [hcount]
    simp only [if_true]
    rw [decide_eq_decide, countSubstrings_pos_iff, and_iff_right hneedle, ← hcontains,
      ofText_infix_iff, wireText, String.toList_ofList, String.toList_ofList, hcontains]
  | false =>
    have hcount : countMatches matchers (received rule) (String.ofList text) =
        countSubstrings (matchers.toLowercase (String.ofList text))
          (matchers.toLowercase (wireText rule.contains)) := by
      simp [countMatches, received, containsWithCase, ClassificationRule.matchKind, hcase]
    rw [hcount]
    simp only [Bool.false_eq_true, if_false]
    rw [decide_eq_decide, countSubstrings_pos_iff,
      and_iff_right (hlower.ne_empty _ hneedle), ← hcontains, hlower.toLowerCase_ofText,
      hlower.toLowerCase_ofText, ofText_infix_iff, hcontains]
    rfl

def clientTag (tag : String) : JsString := JsString.ofText tag.toList

theorem clientTag_injective : Function.Injective clientTag := by
  intro a b h
  have htext := congrArg JsString.toText h
  rw [clientTag, clientTag, JsString.toText_ofText, JsString.toText_ofText] at htext
  exact String.toList_inj.mp htext

/-- Both sides go through the rules alike, from the same tags on. -/
theorem foldl_received (hlower : SameLowerCase engine matchers) {rules : List Rule}
    (h : ∀ rule ∈ rules, Survives rule) (text : Text) (tags : List String) :
    rules.foldl (fun out rule =>
        if ruleMatchesText engine rule (JsString.ofText text) = false ∨ out.contains rule.tag then
          out
        else out ++ [rule.tag]) (tags.map clientTag) =
      (addTags tags ((matchingRules matchers (rules.map received) (String.ofList text)).map
        ClassificationRule.tag)).map clientTag := by
  induction rules generalizing tags with
  | nil => rfl
  | cons rule rules ih =>
    have hrule := h rule mem_cons_self
    have ih' := ih fun rule hrule => h rule (mem_cons_of_mem _ hrule)
    have htag : rule.tag = clientTag (wireText rule.tag) := by
      rw [clientTag, wireText, String.toList_ofList, hrule.tag_eq]
    have hmem : rule.tag ∈ tags.map clientTag ↔ wireText rule.tag ∈ tags := by
      nth_rewrite 1 [htag]
      exact mem_map_of_injective clientTag_injective
    have hnext :
        tags.map clientTag ++ [rule.tag] = (tags ++ [wireText rule.tag]).map clientTag := by
      rw [map_append, map_singleton, ← htag]
    rw [foldl_cons, map_cons, matchingRules, filter_cons, ← matches_received hlower hrule]
    cases hmatch : ruleMatchesText engine rule (JsString.ofText text) with
    | false => simpa [matchingRules] using ih' tags
    | true =>
      by_cases hold : wireText rule.tag ∈ tags
      · rw [if_pos (.inr (contains_iff_mem.mpr (hmem.mpr hold))), ih']
        simp [addTags, received, containsWithCase, hold, matchingRules]
      · rw [if_neg (by simp [hmem, hold]), hnext, ih']
        simp [addTags, received, containsWithCase, hold, matchingRules]

/-- Rules that survive the way give the same tags on both sides. -/
theorem classifyText_eq_serverTags (hlower : SameLowerCase engine matchers)
    (builds : String → Bool → Bool) {rules : List Rule} (h : ∀ rule ∈ rules, Survives rule)
    (text : Text) :
    ∃ tags, serverTags matchers builds (String.ofList text) rules = .ok tags ∧
      classifyText engine (JsString.ofText text) rules = tags.map clientTag := by
  refine ⟨tagsForText matchers (rules.map received) (String.ofList text), ?_, ?_⟩
  · rw [serverTags, classifierRules_received builds h]
    rfl
  · rw [tagsForText, tags_matchesForText]
    exact foldl_received hlower h text []

def letterRule : Rule where
  contains := js "a"
  tag := js "t"

theorem plain_sameLowerCase : SameLowerCase plainEngine ⟨id, fun _ _ => none⟩ :=
  ⟨fun _ => by simp [plainEngine], fun _ h => h⟩

theorem classifyText_eq_serverTags_letter :
    ∃ tags, serverTags ⟨id, fun _ _ => none⟩ (fun _ _ => true) "cat" [letterRule] = .ok tags ∧
      classifyText plainEngine (js "cat") [letterRule] = tags.map clientTag := by
  apply classifyText_eq_serverTags plain_sameLowerCase _ _ "cat".toList
  simp only [forall_mem_singleton]
  exact ⟨rfl, by decide, by decide, by decide, by decide, by decide⟩

/-- The text of a rule was cut behind a blank. The client looks for the blank, the server does
not. -/
theorem cut_blank_disagrees :
    ∃ rule, normalizeRule plainEngine
          { contains := replicate 159 0x61 ++ [0x20, 0x61], tag := js "t" } [] = some rule ∧
        classifyText plainEngine (replicate 159 0x61) [rule] = [] ∧
        serverTags ⟨id, fun _ _ => none⟩ (fun _ _ => true) (String.ofList (replicate 159 'a'))
          [rule] = .ok ["t"] := by
  refine ⟨_, rfl, ?_, ?_⟩
  · decide +kernel
  · decide +kernel

end Agreement

end TraceMux.Web.RuleTags
