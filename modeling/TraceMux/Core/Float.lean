/-
# Narrowing a double

A double is narrowed to a single by rounding to the nearest, ties to even. A large
finite double becomes infinite that way: the bound is the double half way between the
largest single and the next power of two. Both formats are bit patterns.
-/

import TraceMux.Core.Time

namespace TraceMux.Core

/-- A double-precision float as its bit pattern. -/
abbrev F64 := UInt64

/-- Divide by a power of two and round to the nearest, ties to even. -/
def roundShift (n shift : ℕ) : ℕ :=
  let quotient := n / 2 ^ shift
  let twice := 2 * (n % 2 ^ shift)
  if twice < 2 ^ shift ∨ (twice = 2 ^ shift ∧ quotient % 2 = 0) then quotient else quotient + 1

namespace F64

/-- The single of a double without its sign. The fields of a finite double are read as
`significand * 2 ^ (low - 1074)`; the last bit of the single counts `2 ^ (last - 1074)`,
never less than `2 ^ (-149)`. A significand that rounds up to a power of two carries into
the exponent. -/
def magnitudeToF32 (exponent fraction : ℕ) : ℕ :=
  if exponent = 0x7FF then
    if fraction = 0 then 0x7F800000 else 0x7FC00000 + fraction / 2 ^ 29 % 2 ^ 22
  else
    let significand := if exponent = 0 then fraction else 2 ^ 52 + fraction
    let low := exponent - 1
    let last := max (low + 29) 925
    min 0x7F800000 ((last - 925) * 2 ^ 23 + roundShift significand (last - low))

/-- The value of a double as a single. -/
def toF32 (x : F64) : F32 :=
  let bits := x.toNat
  UInt32.ofNat (bits / 2 ^ 63 * 2 ^ 31 + magnitudeToF32 (bits / 2 ^ 52 % 2 ^ 11) (bits % 2 ^ 52))

-- 1, 0.1, the largest single, and a tie that rounds to the even neighbour.
example : [0x3FF0000000000000, 0x3FB999999999999A, 0x47EFFFFFE0000000, 0x3FF0000010000000].map
    toF32 = [0x3F800000, 0x3DCCCCCD, 0x7F7FFFFF, 0x3F800000] := by decide

end F64

theorem F32.isFinite_iff (x : F32) : F32.isFinite x = true ↔ x.toNat % 2 ^ 31 < 0x7F800000 := by
  have hand : ((x >>> 23) &&& 0xFF).toNat = x.toNat / 2 ^ 23 % 2 ^ 8 := by
    rw [UInt32.toNat_and, UInt32.toNat_shiftRight]
    exact (Nat.and_two_pow_sub_one_eq_mod _ 8).trans (by rw [Nat.shiftRight_eq_div_pow]; rfl)
  have hfinite : F32.isFinite x = true ↔ x.toNat / 2 ^ 23 % 2 ^ 8 ≠ 0xFF := by
    rw [F32.isFinite, decide_eq_true_eq, ne_eq, ← UInt32.toNat_inj, hand]
    rfl
  rw [hfinite]
  omega

theorem roundShift_le (n shift : ℕ) : roundShift n shift ≤ n / 2 ^ shift + 1 := by
  simp only [roundShift]
  split <;> omega

theorem le_roundShift (n shift : ℕ) : n / 2 ^ shift ≤ roundShift n shift := by
  simp only [roundShift]
  split <;> omega

namespace F64

theorem roundShift_significand_le {significand shift : ℕ} (hsignificand : significand < 2 ^ 53)
    (hshift : 29 ≤ shift) : roundShift significand shift ≤ 2 ^ 24 := by
  have hdiv : significand / 2 ^ shift ≤ significand / 2 ^ 29 :=
    Nat.div_le_div_left (Nat.pow_le_pow_right (by decide) hshift) (by decide)
  have hround := roundShift_le significand shift
  omega

theorem roundShift_significand_lt_iff {fraction : ℕ} (hfraction : fraction < 2 ^ 52) :
    roundShift (2 ^ 52 + fraction) 29 < 2 ^ 24 ↔ fraction < 2 ^ 52 - 2 ^ 28 := by
  simp only [roundShift]
  split <;> omega

/-- Below the bound the magnitude is that of a finite single, and it always fits beside a
sign. -/
theorem magnitudeToF32_lt {exponent fraction : ℕ} (hexponent : exponent < 2 ^ 11)
    (hfraction : fraction < 2 ^ 52) :
    (magnitudeToF32 exponent fraction < 0x7F800000 ↔
      exponent * 2 ^ 52 + fraction < 0x47EFFFFFF0000000) ∧
      magnitudeToF32 exponent fraction < 2 ^ 31 := by
  by_cases hspecial : exponent = 0x7FF
  · rw [magnitudeToF32, if_pos hspecial]
    split <;> omega
  simp only [magnitudeToF32, if_neg hspecial]
  -- The exponents below, at and above that of the bound.
  rcases Nat.lt_trichotomy exponent 0x47E with hsmall | hbound | hlarge
  · have hsignificand : (if exponent = 0 then fraction else 2 ^ 52 + fraction) < 2 ^ 53 := by
      split <;> omega
    have hround := roundShift_significand_le hsignificand
      (by omega : 29 ≤ max (exponent - 1 + 29) 925 - (exponent - 1))
    omega
  · have hshift : max (exponent - 1 + 29) 925 - (exponent - 1) = 29 := by omega
    have hround := roundShift_significand_lt_iff hfraction
    rw [if_neg (by omega : exponent ≠ 0), hshift]
    omega
  · have hshift : max (exponent - 1 + 29) 925 - (exponent - 1) = 29 := by omega
    have hround := le_roundShift (2 ^ 52 + fraction) 29
    rw [if_neg (by omega : exponent ≠ 0), hshift]
    omega

theorem isFinite_toF32_iff (x : F64) :
    F32.isFinite x.toF32 = true ↔ x.toNat % 2 ^ 63 < 0x47EFFFFFF0000000 := by
  obtain ⟨hiff, hmagnitude⟩ := magnitudeToF32_lt
    (Nat.mod_lt (x.toNat / 2 ^ 52) (by decide : 0 < 2 ^ 11))
    (Nat.mod_lt x.toNat (by decide : 0 < 2 ^ 52))
  rw [F32.isFinite_iff, toF32, UInt32.toNat_ofNat']
  omega

end F64

end TraceMux.Core
