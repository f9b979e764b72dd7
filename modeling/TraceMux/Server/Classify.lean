/-
# Tags of the log classifier

The rules of a classifier that match the text of a record add their tags to it. A rule that
looks for a text compares lower case with lower case unless it is case-sensitive, and lower case
is made of the rule and of the text apart. A rule can therefore lose a match by no longer looking
at case: a sigma that ends the rule is taken for the end of a word.
-/

import TraceMux.Base.Lowercase
import TraceMux.Server.ContentDetection

namespace TraceMux.Server.Classify

open Base TraceMux.Core Core.Codec Server.Detect List

/-- What new tags add to those there are: each once, in the order in which they come first. -/
structure Brings (tags new added : List String) : Prop where
  nodup : added.Nodup
  mem_iff : ∀ tag, tag ∈ added ↔ tag ∈ new ∧ tag ∉ tags
  ordered : added.Pairwise fun a b => new.idxOf a < new.idxOf b

variable (tags new : List String)

theorem addTags_concat (tag : String) :
    addTags tags (new ++ [tag]) =
      if tag ∈ addTags tags new then addTags tags new else addTags tags new ++ [tag] := by
  rw [addTags, foldl_append]
  rfl

theorem exists_brings : ∃ added, addTags tags new = tags ++ added ∧ Brings tags new added := by
  induction new using reverseRecOn with
  | nil => exact ⟨[], (append_nil _).symm, .nil, by simp, .nil⟩
  | append_singleton new tag ih =>
    obtain ⟨added, heq, hnodup, hmem, hordered⟩ := ih
    have hidx : ∀ a ∈ new, (new ++ [tag]).idxOf a = new.idxOf a := fun a ha =>
      idxOf_append_of_mem ha
    have hold : added.Pairwise fun a b => (new ++ [tag]).idxOf a < (new ++ [tag]).idxOf b := by
      apply hordered.imp_of_mem
      intro a b ha hb hlt
      rwa [hidx a ((hmem a).mp ha).1, hidx b ((hmem b).mp hb).1]
    rw [addTags_concat, heq]
    split
    · next htag =>
      refine ⟨added, rfl, hnodup, fun t => ?_, hold⟩
      rw [hmem, mem_append, mem_singleton]
      rw [mem_append, hmem] at htag
      constructor
      · exact fun h => ⟨.inl h.1, h.2⟩
      · rintro ⟨ht | rfl, hfree⟩
        · exact ⟨ht, hfree⟩
        · exact htag.resolve_left hfree
    · next htag =>
      rw [mem_append, hmem, not_or, not_and_not_right] at htag
      have hnew : tag ∉ new := fun h => htag.1 (htag.2 h)
      refine ⟨added ++ [tag], append_assoc .., ?_, fun t => ?_, ?_⟩
      · refine nodup_append.mpr ⟨hnodup, nodup_singleton _, ?_⟩
        rintro a ha b hb rfl
        rw [mem_singleton.mp hb] at ha
        exact hnew ((hmem _).mp ha).1
      · rw [mem_append, hmem, mem_append, mem_singleton]
        constructor
        · rintro (h | rfl)
          · exact ⟨.inl h.1, h.2⟩
          · exact ⟨.inr rfl, htag.1⟩
        · rintro ⟨h | rfl, hfree⟩
          · exact .inl ⟨h, hfree⟩
          · exact .inr rfl
      · refine pairwise_append.mpr ⟨hold, pairwise_singleton _ _, fun a ha b hb => ?_⟩
        have ha' := ((hmem a).mp ha).1
        rw [mem_singleton.mp hb, hidx a ha', idxOf_append_of_notMem hnew]
        exact (idxOf_lt_length_of_mem ha').trans_le (Nat.le_add_right _ _)

theorem mem_addTags {tags new : List String} {tag : String} :
    tag ∈ addTags tags new ↔ tag ∈ tags ∨ tag ∈ new := by
  obtain ⟨added, heq, hbrings⟩ := exists_brings tags new
  rw [heq, mem_append, hbrings.mem_iff]
  tauto

theorem addTags_addTags : addTags tags (addTags [] new) = addTags tags new := by
  induction new using reverseRecOn with
  | nil => rfl
  | append_singleton new tag ih =>
    rw [addTags_concat, addTags_concat]
    split
    · next htag =>
      rw [if_pos (mem_addTags.mpr (.inr ((mem_addTags.mp htag).resolve_left not_mem_nil))), ih]
    · rw [addTags_concat, ih]

section Records

variable (matchers : Matchers)

def matchingRules (classifier : List ClassificationRule) (text : String) :
    List ClassificationRule :=
  classifier.filter fun rule => isActive rule && decide (0 < countMatches matchers rule text)

theorem tags_matchesForText (classifier : List ClassificationRule) (text : String) :
    (matchesForText matchers classifier text).map ClassificationMatch.tag =
      (matchingRules matchers classifier text).map ClassificationRule.tag := by
  induction classifier with
  | nil => rfl
  | cons rule rest ih =>
    unfold matchesForText matchingRules at ih ⊢
    by_cases hactive : isActive rule
    · by_cases hcount : 0 < countMatches matchers rule text
      · simpa [hactive, hcount] using ih
      · simpa [hactive, hcount] using ih
    · simpa [hactive] using ih

variable {matchers}

/-- A classified record has the tags of the decoder and behind them those of the matching
rules. -/
theorem classified_tags {classifier : List ClassificationRule} {inner : Decoder Record}
    {s s' : inner.State} {frame : Bytes} {record : Record} {text : String}
    (h : inner.decode s frame = (.ok (some record), s')) (htext : record.text = some text) :
    ∃ added,
      (classifyingDecoder inner (tagsForText matchers classifier)).decode s frame =
          (.ok (some { record with tags := record.tags ++ added }), s') ∧
        Brings record.tags ((matchingRules matchers classifier text).map ClassificationRule.tag)
          added := by
  obtain ⟨added, heq, hbrings⟩ := exists_brings record.tags
    ((matchingRules matchers classifier text).map ClassificationRule.tag)
  refine ⟨added, ?_, hbrings⟩
  simp only [classifyingDecoder, h, htext]
  rw [tagsForText, addTags_addTags, tags_matchesForText, heq]

def constantDecoder (record : Record) : Decoder Record where
  State := Unit
  init := ()
  decode _ _ := (.ok (some record), ())

def netRules : List ClassificationRule :=
  [{ contains := "io", tag := "net" }, { contains := "warn", tag := "net" }]

def warnRecord : Record where
  text := some "warn: io"
  tags := ["old"]

theorem classified_tags_warn :
    ∃ added,
      (classifyingDecoder (constantDecoder warnRecord)
          (tagsForText ⟨id, fun _ _ => none⟩ netRules)).decode () [] =
          (.ok (some { warnRecord with tags := ["old"] ++ added }), ()) ∧
        Brings ["old"]
          ((matchingRules ⟨id, fun _ _ => none⟩ netRules "warn: io").map ClassificationRule.tag)
          added :=
  classified_tags rfl rfl

end Records

/-- A rule that looks for a text. -/
def containsWithCase (needle tag : String) (caseSensitive : Bool) : ClassificationRule where
  contains := needle
  tag := tag
  caseSensitive := caseSensitive

theorem countSubstringsFrom_pos_iff {needle : Text} (h : needle ≠ []) (haystack : Text) :
    0 < countSubstringsFrom needle 0 haystack ↔ needle <:+: haystack := by
  induction haystack with
  | nil => simp [countSubstringsFrom, h]
  | cons c rest ih =>
    rw [countSubstringsFrom, infix_cons_iff]
    split
    · next hstart =>
      rw [List.isPrefixOf_iff_prefix] at hstart
      exact iff_of_true (Nat.add_pos_left Nat.one_pos _) (.inl hstart)
    · next hstart =>
      rw [List.isPrefixOf_iff_prefix] at hstart
      rw [ih, or_iff_right hstart]

theorem countSubstrings_pos_iff {haystack needle : String} :
    0 < countSubstrings haystack needle ↔
      needle ≠ "" ∧ needle.toList <:+: haystack.toList := by
  unfold countSubstrings
  split
  · next h => simp [h]
  · next h =>
    rw [countSubstringsFrom_pos_iff fun hnil => h (String.toList_eq_nil_iff.mp hnil)]
    exact (and_iff_right h).symm

/-- Lower case from the tables of Unicode. -/
def matchersOf (table : CaseTable) (findIter : String → Bool → Option (String → ℕ)) :
    Matchers where
  toLowercase s := String.ofList (table.toLowercase s.toList)
  findIter := findIter

section Case

variable (table : CaseTable) (findIter : String → Bool → Option (String → ℕ))

/-- A rule finds all that it finds case-sensitively exactly when the text it looks for settles
each of its sigmas. -/
theorem case_insensitive_iff_settled (needle tag : String) :
    (∀ text, 0 < countMatches (matchersOf table findIter) (containsWithCase needle tag true) text →
        0 < countMatches (matchersOf table findIter) (containsWithCase needle tag false) text) ↔
      ∀ pre post, needle.toList = pre ++ 'Σ' :: post → table.Settled pre.reverse post := by
  rw [← CaseTable.infix_toLowercase_iff]
  have hsensitive : ∀ text, 0 < countMatches (matchersOf table findIter)
      (containsWithCase needle tag true) text ↔ needle ≠ "" ∧ needle.toList <:+: text.toList :=
    fun text => countSubstrings_pos_iff
  have hlower : ∀ text, 0 < countMatches (matchersOf table findIter)
      (containsWithCase needle tag false) text ↔
        needle ≠ "" ∧ table.toLowercase needle.toList <:+: table.toLowercase text.toList := by
    intro text
    refine countSubstrings_pos_iff.trans (and_congr ?_ ?_)
    · refine not_congr ⟨fun h => ?_, fun h => ?_⟩
      · by_contra hne
        apply table.toLowercase_ne_nil (mt String.toList_eq_nil_iff.mp hne)
        exact String.ofList_eq_empty_iff.mp h
      · rw [h]
        rfl
    · simp [matchersOf, containsWithCase]
  constructor
  · intro h text hinfix
    by_cases hempty : needle = ""
    · rw [hempty]
      exact nil_infix
    · have htext := (hsensitive (String.ofList text)).mpr ⟨hempty, by simpa using hinfix⟩
      simpa using ((hlower _).mp (h _ htext)).2
  · intro h text hmatch
    rw [hsensitive] at hmatch
    exact (hlower text).mpr ⟨hmatch.1, h _ hmatch.2⟩

def asciiTable : CaseTable where
  toLower c := [c.toLower]
  cased c := c.isAlpha
  caseIgnorable c := c = '\''
  toLower_ne_nil _ := List.cons_ne_nil _ _
  toLower_a := rfl
  cased_a := rfl
  caseIgnorable_a := rfl

/-- A sigma at the end of a rule is the end of a word, and inside of a text it is not. -/
theorem final_sigma_lost :
    0 < countMatches (matchersOf asciiTable fun _ _ => none) (containsWithCase "aΣ" "greek" true)
        "aΣa" ∧
      ¬ 0 < countMatches (matchersOf asciiTable fun _ _ => none)
        (containsWithCase "aΣ" "greek" false) "aΣa" := by
  decide +kernel

end Case

end TraceMux.Server.Classify
