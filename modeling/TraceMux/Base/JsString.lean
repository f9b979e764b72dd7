/-
# Strings of code units

A string of a script engine is a list of 16-bit units. Two surrogates in a row are one
character beyond the first plane, and a surrogate on its own is none: where a text is needed,
the replacement character stands for it. A text is its own reading.
-/

import TraceMux.Base.Text

namespace TraceMux.Base

/-- A string of a script engine. -/
abbrev JsString := List UInt16

namespace JsString

/-- What the engine takes for white space. -/
def isSpace (c : Char) : Bool := (Text.isWhitespace c && c.toNat != 0x85) || c.toNat == 0xFEFF

/-- The first unit of a pair. -/
def isHigh (unit : UInt16) : Bool := 0xD800 ≤ unit.toNat && unit.toNat < 0xDC00

/-- The second unit of a pair. -/
def isLow (unit : UInt16) : Bool := 0xDC00 ≤ unit.toNat && unit.toNat < 0xE000

def single (unit : UInt16) : Char :=
  if isHigh unit || isLow unit then '�' else Char.ofNat unit.toNat

def pair (high low : UInt16) : Char :=
  Char.ofNat (0x10000 + (high.toNat - 0xD800) * 0x400 + (low.toNat - 0xDC00))

def toText : JsString → Text
  | [] => []
  | [unit] => [single unit]
  | unit :: next :: rest =>
    if isHigh unit && isLow next then pair unit next :: toText rest
    else single unit :: toText (next :: rest)

/-- The units of a character. -/
def ofChar (c : Char) : JsString :=
  if c.toNat < 0x10000 then [UInt16.ofNat c.toNat]
  else [UInt16.ofNat (0xD800 + (c.toNat - 0x10000) / 0x400),
    UInt16.ofNat (0xDC00 + (c.toNat - 0x10000) % 0x400)]

def ofText (text : Text) : JsString := text.flatMap ofChar

theorem toText_cons {unit : UInt16} (h : isHigh unit = false) (rest : JsString) :
    toText (unit :: rest) = single unit :: toText rest := by
  cases rest with
  | nil => rfl
  | cons next rest => rw [toText, h, Bool.false_and, if_neg Bool.false_ne_true]

theorem toNat_cases (c : Char) :
    c.toNat < 0xD800 ∨ 0xE000 ≤ c.toNat ∧ c.toNat < 0x110000 := by
  rcases c.valid with h | h
  · exact .inl h
  · exact .inr ⟨h.1, h.2⟩

theorem toText_ofChar_append (c : Char) (rest : JsString) :
    toText (ofChar c ++ rest) = c :: toText rest := by
  have hcode := toNat_cases c
  by_cases hplane : c.toNat < 0x10000
  · have hunit : (UInt16.ofNat c.toNat).toNat = c.toNat := UInt16.toNat_ofNat_of_lt' hplane
    have hhigh : isHigh (UInt16.ofNat c.toNat) = false := by
      rw [isHigh, hunit, Bool.and_eq_false_iff, decide_eq_false_iff_not, decide_eq_false_iff_not]
      omega
    have hlow : isLow (UInt16.ofNat c.toNat) = false := by
      rw [isLow, hunit, Bool.and_eq_false_iff, decide_eq_false_iff_not, decide_eq_false_iff_not]
      omega
    rw [ofChar, if_pos hplane, List.singleton_append, toText_cons hhigh, single, hhigh, hlow, hunit]
    exact congrArg (· :: toText rest) (Char.ofNat_toNat c)
  · have hhigh : (UInt16.ofNat (0xD800 + (c.toNat - 0x10000) / 0x400)).toNat =
        0xD800 + (c.toNat - 0x10000) / 0x400 :=
      UInt16.toNat_ofNat_of_lt' (show _ < 65536 by omega)
    have hlow : (UInt16.ofNat (0xDC00 + (c.toNat - 0x10000) % 0x400)).toNat =
        0xDC00 + (c.toNat - 0x10000) % 0x400 :=
      UInt16.toNat_ofNat_of_lt' (show _ < 65536 by omega)
    have hpair : (isHigh (UInt16.ofNat (0xD800 + (c.toNat - 0x10000) / 0x400)) &&
        isLow (UInt16.ofNat (0xDC00 + (c.toNat - 0x10000) % 0x400))) = true := by
      rw [isHigh, isLow, hhigh, hlow]
      simp only [Bool.and_eq_true, decide_eq_true_eq]
      omega
    have hcodes : 0x10000 + (0xD800 + (c.toNat - 0x10000) / 0x400 - 0xD800) * 0x400 +
        (0xDC00 + (c.toNat - 0x10000) % 0x400 - 0xDC00) = c.toNat := by omega
    rw [ofChar, if_neg hplane, List.cons_append, List.cons_append, List.nil_append, toText,
      if_pos hpair, pair, hhigh, hlow, hcodes, Char.ofNat_toNat]

theorem toNat_of_mem_ofChar {unit : UInt16} {c : Char} (h : unit ∈ ofChar c)
    (hunit : unit.toNat < 0xD800) : unit.toNat = c.toNat := by
  have hcode := toNat_cases c
  unfold ofChar at h
  split at h
  · next hplane =>
    rw [List.mem_singleton.mp h]
    exact UInt16.toNat_ofNat_of_lt' hplane
  · rw [List.mem_pair] at h
    rcases h with rfl | rfl
    · rw [UInt16.toNat_ofNat_of_lt' (show _ < 65536 by omega)] at hunit
      omega
    · rw [UInt16.toNat_ofNat_of_lt' (show _ < 65536 by omega)] at hunit
      omega

theorem toText_ofText (text : Text) : toText (ofText text) = text := by
  induction text with
  | nil => rfl
  | cons c text ih =>
    rw [ofText, List.flatMap_cons, toText_ofChar_append]
    exact congrArg (c :: ·) ih

end JsString

end TraceMux.Base
