/-
# What a session name is made of

Whatever the pattern and its values hold, the name that comes out is a short word over a small
alphabet, and making it safe again changes nothing. The alphabet and the trimming say nothing
about the names that Windows keeps for devices: a pattern may give one of these.
-/

import Mathlib.Data.List.Chain
import TraceMux.Base.Lines
import TraceMux.Core.SessionName

namespace TraceMux.Core.SafeNames

open Base SessionName List

variable {s t : Text} {previousDash : Bool}

/-- Characters of the alphabet, with no two dashes in a row. -/
structure Clean (s : Text) : Prop where
  safe : ∀ c ∈ s, isSafe c = true
  single : s.IsChain fun a b => ¬ (a = '-' ∧ b = '-')

theorem Clean.of_isInfix (h : Clean s) (ht : t <:+: s) : Clean t :=
  ⟨fun c hc => h.safe c (ht.subset hc), h.single.infix ht⟩

theorem isSafe_safeChar (c : Char) : isSafe (safeChar c) = true := by
  unfold safeChar
  split
  · assumption
  · decide

/-- What collapsing leaves is clean, and begins with a dash only where none was pushed before. -/
theorem clean_collapse (previousDash : Bool) (s : Text) :
    Clean (collapse previousDash s) ∧
      (previousDash = true → ∀ c ∈ (collapse previousDash s).head?, c ≠ '-') := by
  fun_induction collapse previousDash s with
  | case1 => exact ⟨⟨by simp, .nil⟩, by simp⟩
  | case2 ch rest hdash ih => exact ih
  | case3 previousDash ch rest hdash hfirst ih =>
    refine ⟨⟨forall_mem_cons.mpr ⟨by decide, ih.1.safe⟩, isChain_cons.mpr ⟨?_, ih.1.single⟩⟩,
      fun h => absurd h hfirst⟩
    exact fun c hc hboth => ih.2 rfl c hc hboth.2
  | case4 previousDash ch rest hdash ih =>
    refine ⟨⟨forall_mem_cons.mpr ⟨isSafe_safeChar ch, ih.1.safe⟩,
      isChain_cons.mpr ⟨?_, ih.1.single⟩⟩, fun _ => by simpa using hdash⟩
    exact fun c _ hboth => hdash hboth.1

theorem collapse_eq_self (h : Clean s) (hstart : previousDash = true → ∀ c ∈ s.head?, c ≠ '-') :
    collapse previousDash s = s := by
  induction s generalizing previousDash with
  | nil => rfl
  | cons c rest ih =>
    have hkeep : safeChar c = c := if_pos (h.safe c mem_cons_self)
    have hrest : Clean rest := h.of_isInfix (suffix_cons c rest).isInfix
    have hnext := (isChain_cons.mp h.single).1
    rw [collapse, hkeep]
    split
    · next hdash =>
      rw [if_neg fun hp => hstart hp c rfl hdash,
        ih hrest fun _ d hd heq => hnext d hd ⟨hdash, heq⟩, hdash]
    · rw [ih hrest (by simp)]

/-- What a name looks like. -/
structure WellFormed (name : Text) : Prop extends Clean name where
  ne_nil : name ≠ []
  short : name.length ≤ maxNameLen
  start : ∀ c ∈ name.head?, isEdge c = false
  ending : ∀ c ∈ name.getLast?, isEdge c = false

/-- A trimmed part of a collapsed text is a name, or there is nothing left of it. -/
theorem wellFormed_part {input : Text} (ht : t <:+: collapse false input)
    (hshort : (Text.trimMatches isEdge t).length ≤ maxNameLen) :
    WellFormed (if (Text.trimMatches isEdge t).isEmpty then "session".toList
      else Text.trimMatches isEdge t) := by
  split
  · exact ⟨⟨by simp [isSafe], by decide⟩, by decide, by decide, by simp [isEdge], by simp [isEdge]⟩
  · next hne =>
    exact {
      toClean := (clean_collapse false input).1.of_isInfix ((Text.trimMatches_infix ..).trans ht)
      ne_nil := by simpa using hne
      short := hshort
      start := (Text.edges_trimMatches t).1
      ending := (Text.edges_trimMatches t).2 }

theorem wellFormed_sanitizeSessionName (input : Text) : WellFormed (sanitizeSessionName input) := by
  by_cases hcut : maxNameLen < (trimmedName input).length
  · simp only [sanitizeSessionName, hcut, if_true]
    have hpart := (List.take_prefix maxNameLen (trimmedName input)).isInfix.trans
      (Text.trimMatches_infix ..)
    exact wellFormed_part hpart
      ((Text.trimMatches_infix ..).length_le.trans (length_take_le ..))
  · simp only [sanitizeSessionName, hcut, if_false]
    exact wellFormed_part (infix_refl _) (not_lt.mp hcut)

theorem sanitizeSessionName_eq_self (h : WellFormed s) : sanitizeSessionName s = s := by
  have htrim : trimmedName s = s := by
    rw [trimmedName, collapse_eq_self h.toClean (by simp),
      Text.trimMatches_eq_self h.start h.ending]
  simp only [sanitizeSessionName, htrim, Nat.not_lt.mpr h.short, if_false]
  rw [if_neg (by simpa using h.ne_nil)]

theorem WellFormed.length_encode (h : WellFormed s) : (Lines.encode s).length = s.length := by
  rw [Lines.encode_ascii, length_map]
  intro c hc
  have hsafe := h.safe c hc
  simp only [isSafe, Bool.or_eq_true, beq_iff_eq] at hsafe
  rcases hsafe with ((hword | rfl) | rfl) | rfl
  · have hcode := Text.toNat_of_isAlphanum hword
    omega
  all_goals decide

/-- A session name is well formed, in bytes as in characters, and safe as it is. -/
theorem wellFormed_renderSessionName (pattern : Text) (parts : SessionNameParts) :
    WellFormed (renderSessionName pattern parts) ∧
      (Lines.encode (renderSessionName pattern parts)).length ≤ maxNameLen ∧
      sanitizeSessionName (renderSessionName pattern parts) = renderSessionName pattern parts := by
  have hname : WellFormed (renderSessionName pattern parts) := wellFormed_sanitizeSessionName _
  exact ⟨hname, hname.length_encode.trans_le hname.short, sanitizeSessionName_eq_self hname⟩

/-- The names that Windows keeps for devices. -/
def reservedNames : List Text :=
  ["CON", "PRN", "AUX", "NUL", "COM1", "COM2", "COM3", "COM4", "COM5", "COM6", "COM7", "COM8",
    "COM9", "LPT1", "LPT2", "LPT3", "LPT4", "LPT5", "LPT6", "LPT7", "LPT8", "LPT9"].map
      String.toList

/-- A directory can have the name on Windows: neither the name nor what stands before its first
dot is reserved, in upper or lower case. -/
def Usable (name : Text) : Prop :=
  name.map Char.toUpper ∉ reservedNames ∧
    (name.takeWhile (· ≠ '.')).map Char.toUpper ∉ reservedNames

theorem isAlphanum_of_toUpper {c : Char} (h : c.toUpper.isAlphanum = true) :
    c.isAlphanum = true := by
  delta Char.toUpper at h
  split at h
  · next hlower =>
    have halpha : c.isLower = true :=
      Bool.and_eq_true_iff.mpr ⟨decide_eq_true hlower.1, decide_eq_true hlower.2⟩
    delta Char.isAlphanum Char.isAlpha
    rw [halpha, Bool.or_true, Bool.true_or]
  · exact h

/-- Device names are short words. -/
theorem reserved_word {device : Text} (h : device.map Char.toUpper ∈ reservedNames) :
    device ≠ [] ∧ device.length ≤ maxNameLen ∧ ∀ c ∈ device, c.isAlphanum = true := by
  have hall : ∀ name ∈ reservedNames,
      name ≠ [] ∧ name.length ≤ maxNameLen ∧ name.all Char.isAlphanum = true := by decide
  obtain ⟨hne, hlen, hword⟩ := hall _ h
  refine ⟨fun hnil => hne (by rw [hnil]; rfl), by rwa [length_map] at hlen, fun c hc => ?_⟩
  exact isAlphanum_of_toUpper (all_eq_true.mp hword _ (mem_map_of_mem hc))

/-- The stem decides: a device name has no dot. -/
theorem not_usable_iff (name : Text) :
    ¬ Usable name ↔ (name.takeWhile (· ≠ '.')).map Char.toUpper ∈ reservedNames := by
  constructor
  · intro h
    by_cases hname : name.map Char.toUpper ∈ reservedNames
    · rwa [takeWhile_eq_self_iff.mpr fun c hc => ?_]
      simpa using (isAlphanum_kept ((reserved_word hname).2.2 c hc)).2.2
    · by_contra hstem
      exact h ⟨hname, hstem⟩
  · exact fun h husable => husable.2 h

/-! ## Which texts give a device name -/

theorem dropWhile_collapse (previousDash : Bool) (s : Text) :
    (collapse previousDash s).dropWhile isEdge =
      collapse false (s.dropWhile fun c => isEdge (safeChar c)) := by
  fun_induction collapse previousDash s with
  | case1 => rfl
  | case2 ch rest hdash ih => rwa [dropWhile_cons_of_pos (by rw [hdash]; rfl)]
  | case3 previousDash ch rest hdash hfirst ih =>
    rwa [dropWhile_cons_of_pos rfl, dropWhile_cons_of_pos (by rw [hdash]; rfl)]
  | case4 previousDash ch rest hdash ih =>
    by_cases hedge : isEdge (safeChar ch) = true
    · simpa [dropWhile_cons, hedge] using ih
    · simp [hedge, collapse, hdash]

/-- What is no dash in a collapsed text stands in the text itself. -/
theorem exists_of_collapse_eq {w x : Text} (hw : ∀ c ∈ w, c ≠ '-')
    (h : collapse false s = w ++ x) : ∃ rest, s = w ++ rest ∧ collapse false rest = x := by
  induction w generalizing s with
  | nil => exact ⟨s, rfl, h⟩
  | cons c w ih =>
    obtain ⟨hc, hbehind⟩ := forall_mem_cons.mp hw
    cases s with
    | nil => cases h
    | cons ch rest =>
      rw [collapse, cons_append] at h
      split at h
      · exact absurd (cons.inj h).1.symm hc
      · obtain ⟨rfl, hrest⟩ := cons.inj h
        obtain ⟨rest', rfl, hx⟩ := ih hbehind hrest
        have hkeep : safeChar ch = ch := by
          unfold safeChar at hc ⊢
          split
          · rfl
          · next hunsafe => exact absurd (if_neg hunsafe) hc
        exact ⟨rest', by rw [hkeep, cons_append], hx⟩

/-- The text, without what is trimmed at its start, begins with a device name, and behind it
comes a dot or nothing that the trimmed and cut name keeps. -/
def NamesDevice (text : Text) : Prop :=
  ∃ device rest, text.dropWhile (fun c => isEdge (safeChar c)) = device ++ rest ∧
    device.map Char.toUpper ∈ reservedNames ∧
    (rest.head? = some '.' ∨
      ∀ c ∈ (collapse false rest).take (maxNameLen - device.length), isEdge c = true)

variable {device rest : Text}

/-- What is left of a text that begins with a device name. -/
theorem rdropWhile_cutName (hdevice : device.map Char.toUpper ∈ reservedNames)
    (h : s.dropWhile (fun c => isEdge (safeChar c)) = device ++ rest) :
    (cutName s).rdropWhile isEdge = device ++
      ((collapse false rest).take (maxNameLen - device.length)).rdropWhile isEdge := by
  obtain ⟨-, hlen, hword⟩ := reserved_word hdevice
  rw [cutName, dropWhile_collapse, h, collapse_append_word hword, take_append,
    take_of_length_le hlen, Text.rdropWhile_append fun c hc => ?_]
  simp [isEdge, (isAlphanum_kept (hword c (mem_of_getLast? hc))).2]

theorem not_usable_of_namesDevice (h : NamesDevice s) : ¬ Usable (sanitizeSessionName s) := by
  obtain ⟨device, rest, htext, hdevice, hbehind⟩ := h
  obtain ⟨hne, -, hword⟩ := reserved_word hdevice
  rw [not_usable_iff, sanitizeSessionName_eq, rdropWhile_cutName hdevice htext,
    if_neg (by simp [hne]), takeWhile_append_of_pos fun c hc => ?_]
  · have hstop : takeWhile (· ≠ '.') (((collapse false rest).take
        (maxNameLen - device.length)).rdropWhile isEdge) = [] := by
      rcases hbehind with hdot | hedges
      · obtain ⟨rest, rfl⟩ := head?_eq_some_iff.mp hdot
        apply Text.takeWhile_of_prefix ((List.rdropWhile_prefix ..).trans (List.take_prefix ..))
        rintro c ⟨⟩
        decide
      · rw [rdropWhile_eq_nil_iff.mpr hedges]
        rfl
    rwa [hstop, append_nil]
  · simpa using (isAlphanum_kept (hword c hc)).2.2

theorem namesDevice_of_not_usable (h : ¬ Usable (sanitizeSessionName s)) : NamesDevice s := by
  rw [not_usable_iff, sanitizeSessionName_eq] at h
  split at h
  · exact absurd h (by decide)
  · generalize hstem : takeWhile _ _ = device at h
    obtain ⟨-, hlen, hword⟩ := reserved_word h
    -- The stem, what stands behind it in the name, what is trimmed off and what is cut off.
    generalize htail : ((cutName s).rdropWhile isEdge).dropWhile (· ≠ '.') = tail
    have hname : (cutName s).rdropWhile isEdge = device ++ tail := by
      rw [← hstem, ← htail, takeWhile_append_dropWhile]
    have hcut : cutName s = device ++ (tail ++ (cutName s).rtakeWhile isEdge) := by
      rw [← append_assoc, ← hname, rdropWhile_append_rtakeWhile]
    have hall : collapse false (s.dropWhile fun c => isEdge (safeChar c)) =
        device ++ (tail ++ (cutName s).rtakeWhile isEdge ++
          ((collapse false s).dropWhile isEdge).drop maxNameLen) := by
      rw [← append_assoc, ← hcut, cutName, take_append_drop, dropWhile_collapse]
    obtain ⟨rest, htext, hrest⟩ :=
      exists_of_collapse_eq (fun c hc => (isAlphanum_kept (hword c hc)).2.1) hall
    refine ⟨device, rest, htext, h, ?_⟩
    cases tail with
    | nil =>
      right
      intro c hc
      rw [cutName, dropWhile_collapse, htext, collapse_append_word hword, take_append,
        take_of_length_le hlen] at hcut
      rw [append_cancel_left hcut] at hc
      exact mem_rtakeWhile_imp hc
    | cons d tail =>
      left
      have hdot := head?_dropWhile_not (· ≠ '.') ((cutName s).rdropWhile isEdge)
      rw [htail] at hdot
      obtain rfl : d = '.' := by simpa using hdot
      obtain ⟨rest, rfl, -⟩ := exists_of_collapse_eq (w := ['.']) (by simp) hrest
      rfl

/-- A name is usable exactly if the expanded pattern gives no device name. -/
theorem usable_renderSessionName (pattern : Text) (parts : SessionNameParts) :
    Usable (renderSessionName pattern parts) ↔
      ¬ NamesDevice (substitute parts.substitutions (effectivePattern pattern)) := by
  rw [renderSessionName, ← not_iff_not, not_not]
  exact ⟨namesDevice_of_not_usable, not_usable_of_namesDevice⟩

example : ∀ text ∈ ["my-lab", "eth0", "lab", "com7-.log"],
    Usable (renderSessionName (placeholder "iface") ⟨[], [], text.toList, [], 0⟩) := by
  unfold Usable
  decide

/-- A serial port may give its name to a directory, and a dot behind the prefix is enough with
the pattern of the command line. -/
theorem not_usable_renderSessionName :
    ¬ Usable (renderSessionName (placeholder "iface") ⟨[], [], "COM7".toList, [], 0⟩) ∧
      ¬ Usable (renderSessionName defaultCliSessionNamePattern
        ⟨"nul.".toList, "serial".toList, "COM7".toList, "20260101-000000".toList, 0⟩) := by
  unfold Usable
  decide

end TraceMux.Core.SafeNames
