/-
# Text

Text as a list of characters, with the operations of a string library that name
and path handling rests on: trimming by a predicate, replacing every occurrence
of a needle from the left, and numerals.

The main fact about replacement is a frame rule. If no occurrence can straddle
the border between two parts of a text, replacing in the whole is replacing in
the parts.
-/

import Mathlib.Data.List.DropRight
import Mathlib.Data.List.Infix
import Mathlib.Data.String.Basic
import Mathlib.Tactic.Linarith

namespace TraceMux.Base

open List

abbrev Text := List Char

namespace Text

/-- The characters with the Unicode property `White_Space`. -/
def isWhitespace (c : Char) : Bool :=
  let n := c.toNat
  (0x9 ≤ n && n ≤ 0xD) || n == 0x20 || n == 0x85 || n == 0xA0 || n == 0x1680 ||
    (0x2000 ≤ n && n ≤ 0x200A) || n == 0x2028 || n == 0x2029 || n == 0x202F ||
    n == 0x205F || n == 0x3000

def trimMatches (p : Char → Bool) (s : Text) : Text := (s.dropWhile p).rdropWhile p

/-- Drop white space from both ends. -/
def trim (s : Text) : Text := trimMatches isWhitespace s

variable {p : Char → Bool} {stem needle value a t line : Text} {c : Char} {n : ℕ}

theorem dropWhile_eq_self {s : Text} (h : ∀ c ∈ s.head?, p c = false) : s.dropWhile p = s := by
  cases s with
  | nil => rfl
  | cons c rest => rw [dropWhile_cons, h c rfl]; rfl

theorem rdropWhile_eq_self {s : Text} (h : ∀ c ∈ s.getLast?, p c = false) :
    s.rdropWhile p = s := by
  refine rdropWhile_eq_self_iff.mpr fun hne => ?_
  simp [h _ (getLast?_eq_some_getLast hne)]

theorem getLast?_rdropWhile {s : Text} : ∀ c ∈ (s.rdropWhile p).getLast?, p c = false := by
  intro c hc
  obtain ⟨hne, rfl⟩ := mem_getLast?_eq_getLast hc
  simpa using rdropWhile_last_not p s hne

/-- Trimming the start stops at a part that begins outside `p`. -/
theorem dropWhile_append_of_head (s : Text) (h : ∀ c ∈ stem.head?, p c = false) :
    (s ++ stem).dropWhile p = s.dropWhile p ++ stem := by
  rw [dropWhile_append]
  split
  · next hempty => rw [dropWhile_eq_self h, isEmpty_iff.mp hempty, nil_append]
  · rfl

theorem takeWhile_of_prefix {s : Text} (h : t <+: s) (hs : ∀ c ∈ s.head?, p c = false) :
    t.takeWhile p = [] := by
  cases t with
  | nil => rfl
  | cons c t =>
    obtain ⟨behind, rfl⟩ := h
    rw [takeWhile_cons_of_neg (by simp [hs c rfl])]

theorem trimMatches_infix (p : Char → Bool) (s : Text) : trimMatches p s <:+: s :=
  (List.rdropWhile_prefix ..).isInfix.trans (dropWhile_suffix p).isInfix

theorem edges_trimMatches (s : Text) :
    (∀ c ∈ (trimMatches p s).head?, p c = false) ∧
      ∀ c ∈ (trimMatches p s).getLast?, p c = false := by
  refine ⟨fun c hc => ?_, getLast?_rdropWhile⟩
  obtain ⟨rest, hrest⟩ := rdropWhile_prefix p (s.dropWhile p)
  have hhead : (s.dropWhile p).head? = some c := by
    rw [← hrest, head?_append, show ((s.dropWhile p).rdropWhile p).head? = some c from hc]
    rfl
  have hnot := head?_dropWhile_not p s
  rwa [hhead] at hnot

theorem trimMatches_eq_self {s : Text} (hstart : ∀ c ∈ s.head?, p c = false)
    (hend : ∀ c ∈ s.getLast?, p c = false) : trimMatches p s = s := by
  rw [trimMatches, dropWhile_eq_self hstart, rdropWhile_eq_self hend]

/-- Trimming the end stops at a part that ends outside `p`. -/
theorem rdropWhile_append (h : ∀ c ∈ stem.getLast?, p c = false) (s : Text) :
    (stem ++ s).rdropWhile p = stem ++ s.rdropWhile p := by
  induction s using reverseRecOn with
  | nil => rw [append_nil, rdropWhile_eq_self h, rdropWhile_nil, append_nil]
  | append_singleton s c ih =>
    rw [← append_assoc, rdropWhile_concat, rdropWhile_concat]
    split
    · exact ih
    · rw [append_assoc]

/-- The codes of letters and digits. -/
theorem toNat_of_isAlphanum (h : c.isAlphanum = true) :
    65 ≤ c.toNat ∧ c.toNat ≤ 90 ∨ 97 ≤ c.toNat ∧ c.toNat ≤ 122 ∨
      48 ≤ c.toNat ∧ c.toNat ≤ 57 := by
  delta Char.isAlphanum Char.isAlpha Char.isUpper Char.isLower Char.isDigit at h
  simp only [Bool.or_eq_true, Bool.and_eq_true, decide_eq_true_eq, or_assoc] at h
  exact h

/-- Replacement with `skip` characters of an occurrence still to pass over. -/
def replaceFrom (needle value : Text) : ℕ → Text → Text
  | _, [] => []
  | skip + 1, _ :: rest => replaceFrom needle value skip rest
  | 0, c :: rest =>
    if needle.isPrefixOf (c :: rest) then
      value ++ replaceFrom needle value (needle.length - 1) rest
    else c :: replaceFrom needle value 0 rest

/-- Replace every occurrence of a nonempty needle, found from the left without
overlap. -/
def replaceAll (needle value s : Text) : Text := replaceFrom needle value 0 s

/-- No occurrence of the needle starts in `a` and ends in `t`. -/
def NoStraddle (needle a t : Text) : Prop :=
  ∀ stem, stem <:+ a → stem ≠ [] → needle <+: stem ++ t → needle <+: stem

theorem replaceFrom_append (hborder : NoStraddle needle a t) {skip : ℕ} (hskip : skip ≤ a.length) :
    replaceFrom needle value skip (a ++ t) =
      replaceFrom needle value skip a ++ replaceAll needle value t := by
  induction a generalizing skip with
  | nil =>
    have hzero : skip = 0 := by simpa using hskip
    subst hzero
    rfl
  | cons c rest ih =>
    have hrest : NoStraddle needle rest t := fun stem hstem =>
      hborder stem (hstem.trans (suffix_cons c rest))
    cases skip with
    | succ skip =>
      have hle : skip ≤ rest.length := by simpa using hskip
      exact ih hrest hle
    | zero =>
      have hsame : needle.isPrefixOf (c :: (rest ++ t)) = needle.isPrefixOf (c :: rest) := by
        rw [Bool.eq_iff_iff, isPrefixOf_iff_prefix, isPrefixOf_iff_prefix]
        constructor
        · exact hborder (c :: rest) suffix_rfl (by simp)
        · intro h
          exact h.trans (prefix_append (c :: rest) t)
      rw [cons_append, replaceFrom, replaceFrom, hsame]
      split
      · next hocc =>
        have hfit := (List.isPrefixOf_iff_prefix.mp hocc).length_le
        rw [length_cons] at hfit
        rw [ih hrest (by omega), append_assoc]
      · rw [ih hrest (Nat.zero_le _), cons_append]

theorem replaceAll_append (hborder : NoStraddle needle a t) :
    replaceAll needle value (a ++ t) =
      replaceAll needle value a ++ replaceAll needle value t :=
  replaceFrom_append hborder (Nat.zero_le _)

/-- A needle that has its first character nowhere else cannot straddle a border
behind which that character stands. -/
theorem noStraddle_of_head {first : Char} {body : Text} (hbody : first ∉ body) :
    NoStraddle (first :: body) a (first :: t) := by
  intro stem _ hne hocc
  cases stem with
  | nil => exact absurd rfl hne
  | cons c rest =>
    rw [cons_append] at hocc
    obtain ⟨hfirst, htail⟩ := cons_prefix_cons.mp hocc
    rw [cons_prefix_cons]
    refine ⟨hfirst, ?_⟩
    rcases prefix_or_prefix_of_prefix htail (prefix_append rest _) with h | h
    · exact h
    · -- The body would reach over the border and contain the first character.
      obtain ⟨beyond, rfl⟩ := h
      cases beyond with
      | nil => simp
      | cons d beyond =>
        rw [prefix_append_right_inj, cons_prefix_cons] at htail
        exact absurd (by simp [htail.1]) hbody

/-- A needle cannot straddle the border before a character it does not end in. -/
theorem noStraddle_of_last {init : Text} {last : Char} (hlast : c ≠ last) :
    NoStraddle (init ++ [last]) a [c] := by
  intro stem _ _ hocc
  rcases prefix_concat_iff.mp (by simpa using hocc) with h | h
  · exact absurd (append_inj' h rfl).2 (by simpa using Ne.symm hlast)
  · exact h

/-- A needle that has its last character nowhere else cannot straddle a border before which
that character stands. -/
theorem noStraddle_behind_last {init : Text} {last : Char} (hinit : last ∉ init) :
    NoStraddle (init ++ [last]) (a ++ [last]) t := by
  intro stem hstem hne hocc
  rcases prefix_or_prefix_of_prefix hocc (prefix_append stem t) with h | h
  · exact h
  · rcases prefix_concat_iff.mp h with heq | hinside
    · rw [heq]
    · have hlast : stem.getLast hne = last := by rw [hstem.getLast hne, getLast_concat]
      exact absurd (hinside.subset (hlast ▸ getLast_mem hne)) hinit

def ofNat (n : ℕ) : Text := Nat.toDigits 10 n

theorem isDigit_of_mem_ofNat (h : c ∈ ofNat n) : c.isDigit = true :=
  Nat.isDigit_of_mem_toDigits (by decide) (by decide) h

theorem ofNat_ne_nil (n : ℕ) : ofNat n ≠ [] := Nat.toDigits_ne_nil

/-- The decimal digits of an integer, with a sign in front of a negative one. -/
def ofInt : ℤ → Text
  | .ofNat n => ofNat n
  | .negSucc n => '-' :: ofNat (n + 1)

/-- A number padded with zeros to a width; the sign counts and stays in front. -/
def ofIntPadded (width : ℕ) : ℤ → Text
  | .ofNat n => List.replicate (width - (ofNat n).length) '0' ++ ofNat n
  | .negSucc n =>
    '-' :: (List.replicate (width - 1 - (ofNat (n + 1)).length) '0' ++ ofNat (n + 1))

theorem ofIntPadded_natCast_inj {width m : ℕ}
    (h : ofIntPadded width (m : ℤ) = ofIntPadded width (n : ℤ)) : m = n := by
  have hvalue : ∀ k : ℕ, Nat.ofDigitChars 10 (ofIntPadded width (k : ℤ)) 0 = k := by
    intro k
    show Nat.ofDigitChars 10 (replicate (width - (ofNat k).length) '0' ++ ofNat k) 0 = k
    rw [Nat.ofDigitChars_append, Nat.ofDigitChars_replicate_zero, Nat.mul_zero, ofNat,
      Nat.ofDigitChars_ten_toDigits]
  rw [← hvalue m, h, hvalue n]

/-- The last `count` digits of the hexadecimal numeral of a number. -/
def hexDigits : ℕ → ℕ → Text
  | 0, _ => []
  | count + 1, n => hexDigits count (n / 16) ++ [Nat.digitChar (n % 16)]

theorem mem_hexDigits {c : Char} {count n : ℕ} (h : c ∈ hexDigits count n) :
    c ∈ "0123456789abcdef".toList := by
  induction count generalizing n with
  | zero => cases h
  | succ count ih =>
    rcases mem_append.mp h with h | h
    · exact ih h
    · have hdigits : ∀ d < 16, Nat.digitChar d ∈ "0123456789abcdef".toList := by decide
      rw [mem_singleton.mp h]
      exact hdigits (n % 16) (Nat.mod_lt n (by decide))

def stripCr (line : Text) : Text := if line.getLast? = some '\r' then line.dropLast else line

/-- The lines of a text of which `seen` was read since the last line feed. -/
def linesFrom (seen : Text) : Text → List Text
  | [] => if seen = [] then [] else [seen]
  | c :: rest =>
    if c = '\n' then stripCr seen :: linesFrom [] rest else linesFrom (seen ++ [c]) rest

def lines (s : Text) : List Text := linesFrom [] s

theorem linesFrom_line (h : '\n' ∉ line) (seen rest : Text) :
    linesFrom seen (line ++ '\n' :: rest) = stripCr (seen ++ line) :: lines rest := by
  induction line generalizing seen with
  | nil => simp [linesFrom, lines]
  | cons c line ih =>
    rw [mem_cons, not_or] at h
    rw [cons_append, linesFrom, if_neg (Ne.symm h.1), ih h.2, append_assoc, singleton_append]

theorem lines_line (hlf : '\n' ∉ line) (hcr : line.getLast? ≠ some '\r') (rest : Text) :
    lines (line ++ '\n' :: rest) = line :: lines rest := by
  rw [lines, linesFrom_line hlf, nil_append, stripCr, if_neg hcr]

def byteLen (s : Text) : ℕ := (s.map Char.utf8Size).sum

/-- Cut a text behind its first `n` bytes; none inside a character or behind the end. -/
def splitAtByte : ℕ → Text → Option (Text × Text)
  | 0, s => some ([], s)
  | _ + 1, [] => none
  | n + 1, c :: rest =>
    if c.utf8Size ≤ n + 1 then
      (splitAtByte (n + 1 - c.utf8Size) rest).map fun cut => (c :: cut.1, cut.2)
    else none

/-- A cut falls between two characters. -/
theorem splitAtByte_eq_some {s first second : Text} :
    splitAtByte n s = some (first, second) ↔ s = first ++ second ∧ byteLen first = n := by
  constructor
  · intro h
    fun_induction splitAtByte n s generalizing first with
    | case1 =>
      cases h
      exact ⟨rfl, rfl⟩
    | case3 n c rest hfit ih =>
      obtain ⟨cut, hcut, hpair⟩ := Option.map_eq_some_iff.mp h
      cases hpair
      obtain ⟨rfl, hlen⟩ := ih hcut
      rw [byteLen] at hlen
      refine ⟨rfl, ?_⟩
      rw [byteLen, map_cons, sum_cons]
      omega
    | case2 | case4 => cases h
  · rintro ⟨rfl, rfl⟩
    induction first with
    | nil => cases second <;> rfl
    | cons c first ih =>
      obtain ⟨k, hk⟩ := Nat.exists_eq_add_one.mpr c.utf8Size_pos
      have hlen : byteLen (c :: first) = k + byteLen first + 1 := by
        rw [byteLen, map_cons, sum_cons, hk, byteLen]
        omega
      rw [hlen, cons_append, splitAtByte, if_pos (by omega)]
      have hrest : k + byteLen first + 1 - c.utf8Size = byteLen first := by omega
      rw [hrest, ih]
      rfl

end Text

end TraceMux.Base
