/-
# Session directory names

A name pattern is expanded by replacing its placeholders one kind after the
other, and the result is made safe as a single directory name: every character
outside a small alphabet becomes a dash, runs of dashes collapse, dashes and
dots are trimmed from both ends, and at most 160 characters are kept.

The clock can be read back from the name when the clock placeholder stands behind
a known text and before no digit, or before a known text and behind no digit, as
long as the cut does not reach it.
-/

import TraceMux.Base.Text

namespace TraceMux.Core.SessionName

open Base List

def placeholder (name : String) : Text := '{' :: (name.toList ++ ['}'])

/-- The naming pattern of the command line. -/
def defaultCliSessionNamePattern : Text :=
  placeholder "prefix" ++ ['_'] ++ placeholder "kind" ++ ['_'] ++ placeholder "iface" ++ ['_'] ++
    placeholder "timestamp"

def defaultServerSessionNamePattern : Text :=
  "tracemux_".toList ++ placeholder "kind" ++ ['_'] ++ placeholder "iface" ++ ['_'] ++
    placeholder "unix_ns"

/-- The values available to a pattern. -/
structure SessionNameParts where
  namePrefix : Text
  kind : Text
  iface : Text
  timestamp : Text
  unixNs : ℤ
  deriving DecidableEq, Repr

/-- The placeholders in the order in which they are replaced, with their values. -/
def SessionNameParts.substitutions (parts : SessionNameParts) : List (String × Text) :=
  [("prefix", parts.namePrefix), ("kind", parts.kind), ("iface", parts.iface),
    ("timestamp", parts.timestamp), ("unix_ns", Text.ofInt parts.unixNs)]

def substitute (substitutions : List (String × Text)) (pattern : Text) : Text :=
  substitutions.foldl (fun s sub => Text.replaceAll (placeholder sub.1) sub.2 s) pattern

/-- The pattern in force: a blank one stands for the command line's. -/
def effectivePattern (pattern : Text) : Text :=
  if (Text.trim pattern).isEmpty then defaultCliSessionNamePattern else Text.trim pattern

/-- The characters kept in a name. -/
def isSafe (ch : Char) : Bool := ch.isAlphanum || ch == '-' || ch == '_' || ch == '.'

def safeChar (ch : Char) : Char := if isSafe ch then ch else '-'

/-- Map every character and push a dash only where none was pushed before. -/
def collapse : Bool → Text → Text
  | _, [] => []
  | previousDash, ch :: rest =>
    if safeChar ch = '-' then
      if previousDash then collapse true rest else '-' :: collapse true rest
    else safeChar ch :: collapse false rest

def isEdge (ch : Char) : Bool := ch == '-' || ch == '.'

/-- A name before it is cut to its maximal length. -/
def trimmedName (input : Text) : Text := Text.trimMatches isEdge (collapse false input)

def maxNameLen : ℕ := 160

/-- Make a text safe as one directory name. -/
def sanitizeSessionName (input : Text) : Text :=
  let trimmed := trimmedName input
  -- A name holds only ASCII, so bytes and characters count the same.
  let trimmed :=
    if maxNameLen < trimmed.length then Text.trimMatches isEdge (trimmed.take maxNameLen)
    else trimmed
  if trimmed.isEmpty then "session".toList else trimmed

/-- A name before its end is trimmed. -/
def cutName (input : Text) : Text := ((collapse false input).dropWhile isEdge).take maxNameLen

/-- The end may be trimmed behind the cut alone. -/
theorem sanitizeSessionName_eq (input : Text) :
    sanitizeSessionName input =
      if ((cutName input).rdropWhile isEdge).isEmpty then "session".toList
      else (cutName input).rdropWhile isEdge := by
  have hcut : cutName input = (trimmedName input ++
      ((collapse false input).dropWhile isEdge).rtakeWhile isEdge).take maxNameLen :=
    congrArg (take maxNameLen) rdropWhile_append_rtakeWhile.symm
  have hends : (∀ c ∈ (trimmedName input).head?, isEdge c = false) ∧
      ∀ c ∈ (trimmedName input).getLast?, isEdge c = false := Text.edges_trimMatches _
  have htrim : (if maxNameLen < (trimmedName input).length then
      Text.trimMatches isEdge ((trimmedName input).take maxNameLen) else trimmedName input) =
        (cutName input).rdropWhile isEdge := by
    split
    · next hlong =>
      rw [hcut, take_append_of_le_length hlong.le, Text.trimMatches,
        Text.dropWhile_eq_self fun c hc => ?_]
      rw [head?_take, if_neg (by decide)] at hc
      exact hends.1 c hc
    · next hshort =>
      rw [hcut, take_append, take_of_length_le (not_lt.mp hshort),
        Text.rdropWhile_append hends.2,
        rdropWhile_eq_nil_iff.mpr fun c hc => mem_rtakeWhile_imp (mem_of_mem_take hc), append_nil]
  simp only [sanitizeSessionName, htrim]

/-- Expand a pattern and make it safe. -/
def renderSessionName (pattern : Text) (parts : SessionNameParts) : Text :=
  sanitizeSessionName (substitute parts.substitutions (effectivePattern pattern))

variable {c : Char} {digits : Text}

theorem substitute_concat (subs : List (String × Text)) (s : Text) (hc : c ≠ '}') :
    substitute subs (s ++ [c]) = substitute subs s ++ [c] := by
  induction subs generalizing s with
  | nil => rfl
  | cons sub rest ih =>
    have hborder : Text.NoStraddle (('{' :: sub.1.toList) ++ ['}']) s [c] :=
      Text.noStraddle_of_last hc
    change Text.NoStraddle (placeholder sub.1) s [c] at hborder
    have hone : Text.replaceAll (placeholder sub.1) sub.2 [c] = [c] := by
      have hno : (placeholder sub.1).isPrefixOf [c] = false := by
        simp [placeholder, isPrefixOf]
      simp [Text.replaceAll, Text.replaceFrom, hno]
    rw [substitute, foldl_cons, Text.replaceAll_append hborder, hone]
    exact ih _

theorem substitute_cons (subs : List (String × Text)) (hc : c ≠ '{') (s : Text) :
    substitute subs (c :: s) = c :: substitute subs s := by
  induction subs generalizing s with
  | nil => rfl
  | cons sub rest ih =>
    have hstep : Text.replaceAll (placeholder sub.1) sub.2 (c :: s) =
        c :: Text.replaceAll (placeholder sub.1) sub.2 s := by
      simp [Text.replaceAll, Text.replaceFrom, placeholder, isPrefixOf, hc.symm]
    rw [substitute, foldl_cons, hstep]
    exact ih _

theorem replaceAll_around {name other : String} (hname : '{' ∉ name.toList ∧ '}' ∉ name.toList)
    (value s t : Text) :
    Text.replaceAll (placeholder name) value (s ++ (placeholder other ++ t)) =
      Text.replaceAll (placeholder name) value s ++
        (Text.replaceAll (placeholder name) value (placeholder other) ++
          Text.replaceAll (placeholder name) value t) := by
  have hfront : Text.NoStraddle (placeholder name) s (placeholder other ++ t) :=
    Text.noStraddle_of_head (by simpa using hname.1)
  have hback : Text.NoStraddle (('{' :: name.toList) ++ ['}'])
      (('{' :: other.toList) ++ ['}']) t :=
    Text.noStraddle_behind_last (by simpa using hname.2)
  rw [Text.replaceAll_append hfront]
  exact congrArg _ (Text.replaceAll_append hback)

/-- Expanding a text with the clock placeholder in it expands what stands around it
and puts the digits of the clock in between. -/
theorem substitute_around (parts : SessionNameParts) (s t : Text) :
    substitute parts.substitutions (s ++ (placeholder "unix_ns" ++ t)) =
      substitute parts.substitutions s ++
        (Text.ofInt parts.unixNs ++ substitute parts.substitutions t) := by
  have hkeep : ∀ name ∈ ["prefix", "kind", "iface", "timestamp"], ∀ value s t : Text,
      Text.replaceAll (placeholder name) value (s ++ (placeholder "unix_ns" ++ t)) =
        Text.replaceAll (placeholder name) value s ++
          (placeholder "unix_ns" ++ Text.replaceAll (placeholder name) value t) := by
    intro name hname value s t
    simp only [mem_cons, not_mem_nil, or_false] at hname
    rcases hname with rfl | rfl | rfl | rfl <;> exact replaceAll_around (by decide) value s t
  have hlast : ∀ value s t : Text,
      Text.replaceAll (placeholder "unix_ns") value (s ++ (placeholder "unix_ns" ++ t)) =
        Text.replaceAll (placeholder "unix_ns") value s ++
          (value ++ Text.replaceAll (placeholder "unix_ns") value t) := by
    intro value s t
    rw [replaceAll_around (by decide)]
    exact congrArg (fun x => _ ++ (x ++ _)) (append_nil value)
  simp only [substitute, SessionNameParts.substitutions, foldl_cons, foldl_nil]
  rw [hkeep "prefix" (by simp), hkeep "kind" (by simp), hkeep "iface" (by simp),
    hkeep "timestamp" (by simp), hlast]

/-- Letters and digits are kept and neither trimmed nor cut at. -/
theorem isAlphanum_kept (h : c.isAlphanum = true) :
    safeChar c = c ∧ c ≠ '-' ∧ c ≠ '.' := by
  refine ⟨if_pos (by simp [isSafe, h]), ?_, ?_⟩
  all_goals
    rintro rfl
    exact absurd h (by decide)

theorem isDigit_safeChar (hc : c.isDigit = false) : (safeChar c).isDigit = false := by
  unfold safeChar
  split
  · exact hc
  · decide

theorem collapse_append_word {w : Text} (hw : ∀ c ∈ w, c.isAlphanum = true) (rest : Text) :
    collapse false (w ++ rest) = w ++ collapse false rest := by
  induction w with
  | nil => rfl
  | cons c w ih =>
    obtain ⟨hkeep, hdash, -⟩ := isAlphanum_kept (hw c mem_cons_self)
    rw [cons_append, collapse, hkeep, if_neg hdash, ih fun d hd => hw d (mem_cons_of_mem _ hd),
      cons_append]

/-- Collapsing a text that ends outside the digits leaves one that does. -/
theorem rtakeWhile_isDigit_collapse (s : Text) (hc : c.isDigit = false) (previousDash : Bool) :
    (collapse previousDash (s ++ [c])).rtakeWhile Char.isDigit = [] ∧
      (previousDash = false → collapse previousDash (s ++ [c]) ≠ []) := by
  -- The second half serves the induction: behind a pushed character that is not
  -- a dash the output is never empty, so its last character is the one to look at.
  induction s generalizing previousDash with
  | nil =>
    have hmapped := isDigit_safeChar hc
    rw [nil_append, collapse]
    split
    · cases previousDash
      · exact ⟨by decide, by simp⟩
      · exact ⟨rfl, by simp⟩
    · refine ⟨?_, by simp⟩
      rw [collapse, rtakeWhile_eq_nil_iff]
      intro _
      simpa using hmapped
  | cons d rest ih =>
    have hpush : ∀ (e : Char) (t : Text), t.rtakeWhile Char.isDigit = [] →
        (t ≠ [] ∨ e.isDigit = false) → (e :: t).rtakeWhile Char.isDigit = [] := by
      intro e t ht hor
      rw [rtakeWhile_eq_nil_iff] at ht ⊢
      intro _
      by_cases hnil : t = []
      · subst hnil
        simpa using hor
      · rw [getLast_cons hnil]
        exact ht hnil
    rw [cons_append, collapse]
    split
    · cases previousDash
      · exact ⟨hpush _ _ (ih true).1 (.inr (by decide)), by simp⟩
      · exact ⟨(ih true).1, by simp⟩
    · exact ⟨hpush _ _ (ih false).1 (.inl ((ih false).2 rfl)), by simp⟩

theorem rtakeWhile_dropWhile {p q : Char → Bool} {s : Text} (hs : s.rtakeWhile q = []) :
    (s.dropWhile p).rtakeWhile q = [] := by
  rw [rtakeWhile_eq_nil_iff] at hs ⊢
  intro hne
  have hsuffix := dropWhile_suffix p (l := s)
  have hs_ne : s ≠ [] := by
    rintro rfl
    exact hne rfl
  rw [hsuffix.getLast hne]
  exact hs hs_ne

theorem isEdge_of_isDigit (h : c.isDigit = true) : isEdge c = false := by
  have hkept := isAlphanum_kept (c := c) (by simp [Char.isAlphanum, h])
  simp [isEdge, hkept.2]

theorem length_collapse_le (previousDash : Bool) (s : Text) :
    (collapse previousDash s).length ≤ s.length := by
  fun_induction collapse previousDash s with
  | case1 => exact le_rfl
  | case2 ch rest hdash ih => exact ih.trans (Nat.le_succ _)
  | case3 previousDash ch rest hdash hfirst ih => exact Nat.succ_le_succ ih
  | case4 previousDash ch rest hdash ih => exact Nat.succ_le_succ ih

variable (hne : digits ≠ []) (hdigits : ∀ c ∈ digits, c.isDigit = true) (s t : Text)

include hne hdigits

theorem collapse_around (previousDash : Bool) :
    collapse previousDash (s ++ (digits ++ t)) =
      collapse previousDash s ++ (digits ++ collapse false t) := by
  have hword : ∀ c ∈ digits, c.isAlphanum = true := fun c hc => by
    simp [Char.isAlphanum, hdigits c hc]
  induction s generalizing previousDash with
  | nil =>
    obtain ⟨d, ds, rfl⟩ := exists_cons_of_ne_nil hne
    obtain ⟨hkeep, hdash, -⟩ := isAlphanum_kept (hword d mem_cons_self)
    change collapse previousDash (d :: (ds ++ t)) = d :: (ds ++ collapse false t)
    rw [collapse, hkeep, if_neg hdash,
      collapse_append_word fun c hc => hword c (mem_cons_of_mem _ hc)]
  | cons c rest ih =>
    rw [cons_append, collapse, collapse]
    split
    · split
      · exact ih true
      · rw [ih true, cons_append]
    · rw [ih false, cons_append]

theorem dropWhile_around :
    (collapse false (s ++ (digits ++ t))).dropWhile isEdge =
      (collapse false s).dropWhile isEdge ++ digits ++ collapse false t := by
  rw [collapse_around hne hdigits, append_assoc, Text.dropWhile_append_of_head]
  intro c hc
  rw [head?_append_of_ne_nil _ hne] at hc
  exact isEdge_of_isDigit (hdigits c (mem_of_mem_head? hc))

/-- A name is never trimmed at its digits. -/
theorem getLast?_around : ∀ c ∈ (s ++ digits).getLast?, isEdge c = false := by
  intro c hc
  rw [getLast?_append_of_ne_nil _ hne] at hc
  exact isEdge_of_isDigit (hdigits c (mem_of_getLast? hc))

/-- The digits stand in the name behind what is left of the text before them. -/
theorem sanitizeSessionName_leads (ht : ∀ c ∈ t.head?, c.isDigit = false)
    (hlen : s.length + digits.length ≤ maxNameLen) :
    ∃ behind, sanitizeSessionName (s ++ (digits ++ t)) =
        (collapse false s).dropWhile isEdge ++ (digits ++ behind) ∧
      behind.takeWhile Char.isDigit = [] := by
  have hshort : ((collapse false s).dropWhile isEdge ++ digits).length ≤ maxNameLen := by
    have hdrop := (dropWhile_suffix isEdge (l := collapse false s)).length_le
    have hle := length_collapse_le false s
    rw [length_append]
    omega
  rw [sanitizeSessionName_eq, cutName, dropWhile_around hne hdigits, take_append,
    take_of_length_le hshort, Text.rdropWhile_append (getLast?_around hne hdigits _),
    if_neg (by simp [hne])]
  refine ⟨_, append_assoc .., ?_⟩
  apply Text.takeWhile_of_prefix ((List.rdropWhile_prefix ..).trans (List.take_prefix ..))
  cases t with
  | nil => simp [collapse]
  | cons c t =>
    rw [collapse]
    split
    · rintro _ ⟨⟩
      decide
    · rintro _ ⟨⟩
      exact isDigit_safeChar (ht c rfl)

/-- The digits stand in the name before what is left of the text behind them. -/
theorem sanitizeSessionName_trails (hs : ∀ c ∈ s.getLast?, c.isDigit = false)
    (hlen : (trimmedName (s ++ (digits ++ t))).length ≤ maxNameLen) :
    ∃ before, sanitizeSessionName (s ++ (digits ++ t)) =
        before ++ digits ++ (collapse false t).rdropWhile isEdge ∧
      before.rtakeWhile Char.isDigit = [] := by
  have htrim : trimmedName (s ++ (digits ++ t)) =
      (collapse false s).dropWhile isEdge ++ digits ++ (collapse false t).rdropWhile isEdge := by
    rw [trimmedName, Text.trimMatches, dropWhile_around hne hdigits,
      Text.rdropWhile_append (getLast?_around hne hdigits _)]
  refine ⟨(collapse false s).dropWhile isEdge, ?_, ?_⟩
  · simp only [sanitizeSessionName, Nat.not_lt.mpr hlen, if_false]
    rw [htrim, if_neg (by simp [hne])]
  · apply rtakeWhile_dropWhile
    rcases eq_nil_or_concat' s with rfl | ⟨init, c, rfl⟩
    · rfl
    · exact (rtakeWhile_isDigit_collapse init (hs c getLast?_concat) false).1

omit hne hdigits

/-- The clock stands in the name behind a text that expands to `before`, and before no digit. -/
def Leads (before pattern : Text) (parts : SessionNameParts) : Prop :=
  ∃ s t, effectivePattern pattern = s ++ (placeholder "unix_ns" ++ t) ∧
    substitute parts.substitutions s = before ∧
    (∀ c ∈ t.head?, c.isDigit = false ∧ c ≠ '{') ∧
    before.length + (Text.ofInt parts.unixNs).length ≤ maxNameLen

/-- The clock stands in the name before a text that expands to `behind`, and behind no digit. -/
def Trails (behind pattern : Text) (parts : SessionNameParts) : Prop :=
  ∃ s t, effectivePattern pattern = s ++ (placeholder "unix_ns" ++ t) ∧
    substitute parts.substitutions t = behind ∧
    (∀ c ∈ s.getLast?, c.isDigit = false ∧ c ≠ '}') ∧
    (trimmedName (substitute parts.substitutions (effectivePattern pattern))).length ≤ maxNameLen

section clock

variable {pattern pattern' : Text} {parts parts' : SessionNameParts} {ns ns' : ℕ}

theorem Leads.name {before : Text} (h : Leads before pattern parts) (hns : parts.unixNs = ns) :
    ∃ behind, renderSessionName pattern parts =
        (collapse false before).dropWhile isEdge ++ (Text.ofNat ns ++ behind) ∧
      behind.takeWhile Char.isDigit = [] := by
  obtain ⟨s, t, hpattern, rfl, ht, hlen⟩ := h
  have hdigits : Text.ofInt parts.unixNs = Text.ofNat ns := by rw [hns]; rfl
  rw [hdigits] at hlen
  rw [renderSessionName, hpattern, substitute_around, hdigits]
  refine sanitizeSessionName_leads (Text.ofNat_ne_nil ns) (fun _ hc => Text.isDigit_of_mem_ofNat hc)
    _ _ ?_ hlen
  cases t with
  | nil => rintro c ⟨⟩
  | cons c t =>
    rw [substitute_cons _ (ht c rfl).2]
    rintro _ ⟨⟩
    exact (ht c rfl).1

theorem Trails.name {behind : Text} (h : Trails behind pattern parts) (hns : parts.unixNs = ns) :
    ∃ before, renderSessionName pattern parts =
        before ++ Text.ofNat ns ++ (collapse false behind).rdropWhile isEdge ∧
      before.rtakeWhile Char.isDigit = [] := by
  obtain ⟨s, t, hpattern, rfl, hs, hlen⟩ := h
  have hdigits : Text.ofInt parts.unixNs = Text.ofNat ns := by rw [hns]; rfl
  rw [hpattern, substitute_around, hdigits] at hlen
  rw [renderSessionName, hpattern, substitute_around, hdigits]
  refine sanitizeSessionName_trails (Text.ofNat_ne_nil ns)
    (fun _ hc => Text.isDigit_of_mem_ofNat hc) _ _ ?_ hlen
  rcases eq_nil_or_concat' s with rfl | ⟨init, c, rfl⟩
  · rintro c ⟨⟩
  · rw [substitute_concat _ _ (hs c getLast?_concat).2, getLast?_concat]
    rintro _ ⟨⟩
    exact (hs c getLast?_concat).1

end clock

end TraceMux.Core.SessionName
