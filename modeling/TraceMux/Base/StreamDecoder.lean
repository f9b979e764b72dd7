/-
# Text decoders over byte streams

A decoder of a text encoding is a machine that is fed one byte at a time: each byte gives
some characters, malformed input is marked in their place, and what is still pending at
the end is given up. Feeding is compositional, so that a stream can be decoded in pieces
wherever the machine is back in its initial state.

The decoders of UTF-8 and UTF-16 are here, with one replacement for every maximal
beginning of a sequence that is cut off.
-/

import TraceMux.Base.Lines
import TraceMux.Base.Text

namespace TraceMux.Base

open List

/-- A decoder. What it gives is a character, or none for malformed input. -/
structure StreamDecoder where
  State : Type
  init : State
  step : State → UInt8 → State × List (Option Char)
  finish : State → List (Option Char)
  finish_init : finish init = []

namespace StreamDecoder

variable (d : StreamDecoder)

def feed : d.State → Bytes → d.State × List (Option Char)
  | s, [] => (s, [])
  | s, b :: rest =>
    let first := d.step s b
    let later := feed first.1 rest
    (later.1, first.2 ++ later.2)

/-- Decode a whole stream. -/
def decode (bytes : Bytes) : List (Option Char) :=
  (d.feed d.init bytes).2 ++ d.finish (d.feed d.init bytes).1

/-- Decode the rest of a stream. -/
def decodeFrom (s : d.State) (bytes : Bytes) : List (Option Char) :=
  (d.feed s bytes).2 ++ d.finish (d.feed s bytes).1

/-- Characters with a replacement for each malformed part. -/
def replaced (units : List (Option Char)) : Text := units.map (·.getD (Char.ofNat 0xFFFD))

/-- Whether something was malformed. -/
def hadErrors (units : List (Option Char)) : Bool := units.any (·.isNone)

variable (s : d.State)

theorem feed_append (first second : Bytes) :
    d.feed s (first ++ second) =
      ((d.feed (d.feed s first).1 second).1,
        (d.feed s first).2 ++ (d.feed (d.feed s first).1 second).2) := by
  induction first generalizing s with
  | nil => rfl
  | cons b rest ih => simp only [cons_append, feed, ih, append_assoc]

theorem decode_eq_decodeFrom (bytes : Bytes) : d.decode bytes = d.decodeFrom d.init bytes := rfl

theorem decodeFrom_nil : d.decodeFrom s [] = d.finish s := rfl

theorem decodeFrom_cons (b : UInt8) (bytes : Bytes) :
    d.decodeFrom s (b :: bytes) = (d.step s b).2 ++ d.decodeFrom (d.step s b).1 bytes :=
  append_assoc _ _ _

@[simp]
theorem decode_nil : d.decode [] = [] := by
  rw [decode, feed, d.finish_init, append_nil]

/-- A stream that is cut where the decoder is back in its initial state is decoded piece
by piece. -/
theorem decode_append {first : Bytes} (h : (d.feed d.init first).1 = d.init) (second : Bytes) :
    d.decode (first ++ second) = d.decode first ++ d.decode second := by
  simp only [decode, feed_append, h, d.finish_init, append_nil, append_assoc]

variable {units : List (Option Char)}

theorem mem_replaced (h : hadErrors units = true) : Char.ofNat 0xFFFD ∈ replaced units := by
  obtain ⟨unit, hunit, hnone⟩ := any_eq_true.mp h
  rw [Option.isNone_iff_eq_none] at hnone
  subst hnone
  exact mem_map_of_mem hunit

theorem map_replaced (h : hadErrors units = false) : (replaced units).map some = units := by
  rw [replaced, map_map]
  apply (map_congr_left _).trans (map_id units)
  intro unit hunit
  have hsome := any_eq_false.mp h unit hunit
  rw [Bool.not_eq_true, Option.isNone_eq_false_iff] at hsome
  obtain ⟨c, rfl⟩ := Option.isSome_iff_exists.mp hsome
  rfl

end StreamDecoder

namespace Utf8

/-- A sequence that has begun: the bytes it still needs, the range of the next one, and
the code point so far. -/
structure State where
  needed : ℕ := 0
  lower : ℕ := 0x80
  upper : ℕ := 0xBF
  codePoint : ℕ := 0
  deriving DecidableEq, Repr

/-- The first byte of a sequence. -/
def start (b : ℕ) : State × List (Option Char) :=
  if b ≤ 0x7F then ({}, [some (Char.ofNat b)])
  else if 0xC2 ≤ b ∧ b ≤ 0xDF then ({ needed := 1, codePoint := b % 0x20 }, [])
  else if 0xE0 ≤ b ∧ b ≤ 0xEF then
    ({ needed := 2
       lower := if b = 0xE0 then 0xA0 else 0x80
       upper := if b = 0xED then 0x9F else 0xBF
       codePoint := b % 0x10 }, [])
  else if 0xF0 ≤ b ∧ b ≤ 0xF4 then
    ({ needed := 3
       lower := if b = 0xF0 then 0x90 else 0x80
       upper := if b = 0xF4 then 0x8F else 0xBF
       codePoint := b % 0x08 }, [])
  else ({}, [none])

/-- One byte. A byte that does not continue the sequence ends it as malformed and begins
another. -/
def step (s : State) (b : UInt8) : State × List (Option Char) :=
  let b := b.toNat
  if s.needed = 0 then start b
  else if s.lower ≤ b ∧ b ≤ s.upper then
    let codePoint := s.codePoint * 64 + b % 64
    if s.needed = 1 then ({}, [some (Char.ofNat codePoint)])
    else ({ needed := s.needed - 1, codePoint := codePoint }, [])
  else ((start b).1, none :: (start b).2)

def decoder : StreamDecoder where
  State := State
  init := {}
  step := step
  finish s := if s.needed = 0 then [] else [none]
  finish_init := rfl

/-- `String::from_utf8_lossy`. -/
def lossy (bytes : Bytes) : Text := StreamDecoder.replaced (decoder.decode bytes)

end Utf8

namespace Utf16

/-- The first byte of a code unit, and the first unit of a pair. -/
structure State where
  lead : Option UInt8 := none
  surrogate : Option ℕ := none
  deriving DecidableEq, Repr

/-- A code unit that does not complete a pair. -/
def start (unit : ℕ) : State × List (Option Char) :=
  if 0xD800 ≤ unit ∧ unit ≤ 0xDBFF then ({ surrogate := some unit }, [])
  else if 0xDC00 ≤ unit ∧ unit ≤ 0xDFFF then ({}, [none])
  else ({}, [some (Char.ofNat unit)])

/-- One byte; `be` when the first byte of a unit is the high one. -/
def step (be : Bool) (s : State) (b : UInt8) : State × List (Option Char) :=
  match s.lead with
  | none => ({ s with lead := some b }, [])
  | some lead =>
    let unit := if be then lead.toNat * 256 + b.toNat else b.toNat * 256 + lead.toNat
    match s.surrogate with
    | none => start unit
    | some high =>
      if 0xDC00 ≤ unit ∧ unit ≤ 0xDFFF then
        ({}, [some (Char.ofNat (0x10000 + (high - 0xD800) * 0x400 + (unit - 0xDC00)))])
      else ((start unit).1, none :: (start unit).2)

def decoder (be : Bool) : StreamDecoder where
  State := State
  init := {}
  step := step be
  finish s := if s.lead.isNone ∧ s.surrogate.isNone then [] else [none]
  finish_init := rfl

end Utf16

namespace Utf8

variable {b lower upper codePoint : ℕ} {s : State} {bytes : Bytes}

theorem step_init (hb : b < 256) : step {} (UInt8.ofNat b) = start b := by
  have hbyte : (UInt8.ofNat b).toNat = b := by
    rw [UInt8.toNat_ofNat']
    omega
  rw [step, hbyte]
  rfl

/-- A byte in the middle of a sequence. -/
theorem step_middle {needed : ℕ} (hlower : lower ≤ b) (hupper : b ≤ upper) (hb : b < 256) :
    step ⟨needed + 2, lower, upper, codePoint⟩ (UInt8.ofNat b) =
      ({ needed := needed + 1, codePoint := codePoint * 64 + b % 64 }, []) := by
  have hbyte : (UInt8.ofNat b).toNat = b := by
    rw [UInt8.toNat_ofNat']
    omega
  simp only [step, hbyte]
  rw [if_neg (by omega), if_pos ⟨hlower, hupper⟩, if_neg (by omega)]
  rfl

/-- The last byte holds the low bits of the code point. -/
theorem step_lowBits (n : ℕ) :
    step ⟨1, 0x80, 0xBF, n / 64⟩ (UInt8.ofNat (n % 0x40 + 0x80)) =
      ({}, [some (Char.ofNat n)]) := by
  have hbyte : (UInt8.ofNat (n % 0x40 + 0x80)).toNat = n % 0x40 + 0x80 := by
    rw [UInt8.toNat_ofNat']
    omega
  simp only [step, hbyte]
  rw [if_neg (by omega), if_pos (by omega)]
  show (({} : State), [some (Char.ofNat (n / 64 * 64 + (n % 0x40 + 0x80) % 64))]) = _
  congr 4
  omega

theorem feed_encodeChar (c : Char) :
    decoder.feed decoder.init (String.utf8EncodeChar c) = (decoder.init, [some c]) := by
  have hvalid : c.val.toNat < 0xD800 ∨ 0xDFFF < c.val.toNat ∧ c.val.toNat < 0x110000 := c.valid
  have hchar : Char.ofNat c.val.toNat = c := Char.ofNat_toNat c
  generalize hn : c.val.toNat = n at hvalid hchar
  simp only [String.utf8EncodeChar, hn]
  -- One case for each length; the ranges of the second byte keep out overlong sequences,
  -- surrogates and what lies beyond the last plane.
  split
  · next hone =>
    have hfirst : step {} (UInt8.ofNat n) = ({}, [some (Char.ofNat n)]) := by
      rw [step_init (by omega), start, if_pos hone]
    simp only [StreamDecoder.feed, decoder, hfirst, hchar]
    rfl
  split
  · next hone htwo =>
    have hfirst : step {} (UInt8.ofNat (n / 64 % 0x20 + 0xC0)) =
        (⟨1, 0x80, 0xBF, n / 64⟩, []) := by
      rw [step_init (by omega), start, if_neg (by omega), if_pos (by omega)]
      congr 2
      omega
    simp only [StreamDecoder.feed, decoder, hfirst, step_lowBits, hchar]
    rfl
  split
  · next htwo hthree =>
    have hfirst : step {} (UInt8.ofNat (n / 4096 % 0x10 + 0xE0)) =
        (⟨2, if n / 4096 + 0xE0 = 0xE0 then 0xA0 else 0x80,
          if n / 4096 + 0xE0 = 0xED then 0x9F else 0xBF, n / 4096⟩, []) := by
      have hbyte : n / 4096 % 0x10 + 0xE0 = n / 4096 + 0xE0 := by omega
      rw [hbyte, step_init (by omega), start, if_neg (by omega), if_neg (by omega),
        if_pos (by omega)]
      congr 2
      omega
    have hmiddle : step ⟨2, if n / 4096 + 0xE0 = 0xE0 then 0xA0 else 0x80,
        if n / 4096 + 0xE0 = 0xED then 0x9F else 0xBF, n / 4096⟩
        (UInt8.ofNat (n / 64 % 0x40 + 0x80)) = (⟨1, 0x80, 0xBF, n / 64⟩, []) := by
      rw [step_middle (by split <;> omega) (by split <;> omega) (by omega)]
      congr 2
      omega
    simp only [StreamDecoder.feed, decoder, hfirst, hmiddle, step_lowBits, hchar]
    rfl
  · next htwo hthree =>
    have hfirst : step {} (UInt8.ofNat (n / 262144 % 0x08 + 0xF0)) =
        (⟨3, if n / 262144 + 0xF0 = 0xF0 then 0x90 else 0x80,
          if n / 262144 + 0xF0 = 0xF4 then 0x8F else 0xBF, n / 262144⟩, []) := by
      have hbyte : n / 262144 % 0x08 + 0xF0 = n / 262144 + 0xF0 := by omega
      rw [hbyte, step_init (by omega), start, if_neg (by omega), if_neg (by omega),
        if_neg (by omega), if_pos (by omega)]
      congr 2
      omega
    have hsecond : step ⟨3, if n / 262144 + 0xF0 = 0xF0 then 0x90 else 0x80,
        if n / 262144 + 0xF0 = 0xF4 then 0x8F else 0xBF, n / 262144⟩
        (UInt8.ofNat (n / 4096 % 0x40 + 0x80)) = (⟨2, 0x80, 0xBF, n / 4096⟩, []) := by
      rw [step_middle (by split <;> omega) (by split <;> omega) (by omega)]
      congr 2
      omega
    have hthird : step ⟨2, 0x80, 0xBF, n / 4096⟩ (UInt8.ofNat (n / 64 % 0x40 + 0x80)) =
        (⟨1, 0x80, 0xBF, n / 64⟩, []) := by
      rw [step_middle (by omega) (by omega) (by omega)]
      congr 2
      omega
    simp only [StreamDecoder.feed, decoder, hfirst, hsecond, hthird, step_lowBits, hchar]
    rfl

theorem feed_encode (text : Text) :
    decoder.feed decoder.init (Lines.encode text) = (decoder.init, text.map some) := by
  induction text with
  | nil => rfl
  | cons c rest ih =>
    rw [Lines.encode, flatMap_cons, StreamDecoder.feed_append, feed_encodeChar]
    rw [Lines.encode] at ih
    rw [ih]
    rfl

theorem decode_encode (text : Text) : decoder.decode (Lines.encode text) = text.map some := by
  rw [StreamDecoder.decode, feed_encode, decoder.finish_init, append_nil]

theorem needed_step {b : UInt8} (h : (step s b).2 = []) : (step s b).1.needed ≠ 0 := by
  have hstart (n : ℕ) (hn : (start n).2 = []) : (start n).1.needed ≠ 0 := by
    revert hn
    fun_cases start n with
    | case1 | case5 => rintro ⟨⟩
    | _ => simp
  revert h
  fun_cases step s b with
  | case1 => exact hstart b.toNat
  | case3 hneeded hrange codePoint hone =>
    simp only
    omega
  | _ => rintro ⟨⟩

theorem needed_feed (hne : bytes ≠ []) (h : (decoder.feed s bytes).2 = []) :
    ((decoder.feed s bytes).1 : State).needed ≠ 0 := by
  induction bytes generalizing s with
  | nil => exact absurd rfl hne
  | cons b rest ih =>
    obtain ⟨hfirst, hlater⟩ := append_eq_nil_iff.mp h
    by_cases hrest : rest = []
    · subst hrest
      exact needed_step hfirst
    · exact ih hrest hlater

theorem decode_cut {c : Char} {part rest : Bytes} (h : part ++ rest = String.utf8EncodeChar c)
    (hpart : part ≠ []) (hrest : rest ≠ []) : decoder.decode part = [none] := by
  have hwhole := feed_encodeChar c
  rw [← h, StreamDecoder.feed_append, Prod.mk.injEq] at hwhole
  obtain ⟨hend, hout⟩ := hwhole
  have hnone : (decoder.feed decoder.init part).2 = [] := by
    by_contra hsome
    -- The character is already there, so that the rest would give nothing.
    have hlater : (decoder.feed (decoder.feed decoder.init part).1 rest).2 = [] := by
      have hlength := congrArg length hout
      have hpos := length_pos_iff.mpr hsome
      rw [length_append, length_singleton] at hlength
      exact length_eq_zero_iff.mp (by omega)
    have hneeded := needed_feed hrest hlater
    rw [hend] at hneeded
    exact hneeded rfl
  have hfinish : decoder.finish (decoder.feed decoder.init part).1 = [none] :=
    if_neg (needed_feed hpart hnone)
  rw [StreamDecoder.decode, hnone, hfinish, nil_append]

/-- The first part of a text in UTF-8 is well-formed exactly if it ends between two characters. -/
theorem hadErrors_of_prefix_iff {text : Text} (h : bytes <+: Lines.encode text) :
    StreamDecoder.hadErrors (decoder.decode bytes) = false ↔
      ∃ first, first <+: text ∧ bytes = Lines.encode first := by
  constructor
  · intro hclean
    induction text generalizing bytes with
    | nil =>
      rw [Lines.encode, flatMap_nil, prefix_nil] at h
      exact ⟨[], nil_prefix, h⟩
    | cons c text ih =>
      obtain ⟨later, hlater⟩ := h
      obtain ⟨part, hwhole, hpart⟩ | ⟨rest, hbytes, hrest⟩ :=
        append_eq_append_iff.mp hlater
      · by_cases hempty : bytes = []
        · exact ⟨[], nil_prefix, hempty⟩
        by_cases hcut : part = []
        · subst hcut
          rw [append_nil] at hwhole
          refine ⟨[c], prefix_append [c] text, ?_⟩
          rw [Lines.encode, flatMap_singleton, hwhole]
        · rw [decode_cut hwhole.symm hempty hcut] at hclean
          cases hclean
      · have hchar := congrArg Prod.fst (feed_encodeChar c)
        rw [hbytes, StreamDecoder.decode_append _ hchar, StreamDecoder.hadErrors,
          any_append, Bool.or_eq_false_iff] at hclean
        obtain ⟨first, hfirst, rfl⟩ := ih ⟨later, hrest.symm⟩ hclean.2
        refine ⟨c :: first, cons_prefix_cons.mpr ⟨rfl, hfirst⟩, ?_⟩
        rw [hbytes, Lines.encode, Lines.encode, flatMap_cons]
  · rintro ⟨first, -, rfl⟩
    rw [decode_encode]
    simp [StreamDecoder.hadErrors]

end Utf8

end TraceMux.Base
