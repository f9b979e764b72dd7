/-
# CRC-32

The checksum of the IEEE 802.3 polynomial in its reflected form, one bit at a
time. Developments that only store and compare checksums keep the function a
parameter; this is the function to put there when a concrete one is needed.

The division is linear in exclusive or, so that eight places at a time can be looked up in a
table.
-/

import TraceMux.Base.ByteFile

namespace TraceMux.Base

/-- Shift one bit out of the register and divide by the reflected polynomial. -/
def crc32Bit (crc : UInt32) : UInt32 :=
  if crc &&& 1 = 1 then (crc >>> 1) ^^^ 0xEDB88320 else crc >>> 1

def crc32Byte (crc : UInt32) (byte : UInt8) : UInt32 :=
  Nat.iterate crc32Bit 8 (crc ^^^ byte.toUInt32)

/-- The checksum of a string of bytes. -/
def crc32Ieee (data : Bytes) : UInt32 :=
  data.foldl crc32Byte 0xFFFFFFFF ^^^ 0xFFFFFFFF

/-- The register moves by one place, and the polynomial is added if a bit fell out. -/
theorem toBitVec_crc32Bit (crc : UInt32) : (crc32Bit crc).toBitVec =
    (crc.toBitVec >>> 1) ^^^ (if crc.toBitVec.getLsbD 0 then 0xEDB88320#32 else 0#32) := by
  have hlow : (crc &&& 1).toBitVec =
      BitVec.setWidth 32 (BitVec.ofBool (crc.toBitVec.getLsbD 0)) := by
    exact BitVec.and_one_eq_setWidth_ofBool_getLsbD
  cases hbit : crc.toBitVec.getLsbD 0 with
  | false =>
    have hzero : crc &&& 1 ≠ 1 := by
      intro hone
      rw [hone, hbit] at hlow
      exact absurd hlow (by decide)
    rw [crc32Bit, if_neg hzero, if_neg Bool.false_ne_true, BitVec.xor_zero]
    rfl
  | true =>
    have hone : crc &&& 1 = 1 := by
      rw [hbit] at hlow
      exact UInt32.toBitVec_inj.mp hlow
    rw [crc32Bit, if_pos hone, if_pos rfl]
    rfl

theorem crc32Bit_xor (a b : UInt32) : crc32Bit (a ^^^ b) = crc32Bit a ^^^ crc32Bit b := by
  apply UInt32.toBitVec_inj.mp
  rw [UInt32.toBitVec_xor, toBitVec_crc32Bit, toBitVec_crc32Bit, toBitVec_crc32Bit,
    UInt32.toBitVec_xor, BitVec.getLsbD_xor, BitVec.ushiftRight_xor_distrib]
  have hpoly (x y p : BitVec 32) : x ^^^ y = (x ^^^ p) ^^^ (y ^^^ p) := by
    rw [BitVec.xor_assoc, ← BitVec.xor_assoc p, BitVec.xor_comm p y, BitVec.xor_assoc y,
      BitVec.xor_self, BitVec.xor_zero]
  cases a.toBitVec.getLsbD 0 <;> cases b.toBitVec.getLsbD 0
  · simp
  · simp [BitVec.xor_assoc]
  · simp only [Bool.xor_false, if_true, Bool.false_eq_true, if_false, BitVec.xor_zero]
    rw [BitVec.xor_assoc, BitVec.xor_comm _ (0xEDB88320#32), ← BitVec.xor_assoc]
  · simpa using hpoly _ _ _

theorem crc32Bits_xor (n : ℕ) (a b : UInt32) :
    crc32Bit^[n] (a ^^^ b) = crc32Bit^[n] a ^^^ crc32Bit^[n] b := by
  induction n generalizing a b with
  | zero => rfl
  | succ n ih => rw [Function.iterate_succ_apply, crc32Bit_xor, ih]; rfl

/-- A register whose low bits are clear only moves. -/
theorem toBitVec_crc32Bits {crc : UInt32} {n : ℕ}
    (h : ∀ i < n, crc.toBitVec.getLsbD i = false) :
    (crc32Bit^[n] crc).toBitVec = crc.toBitVec >>> n := by
  induction n with
  | zero => exact (BitVec.ushiftRight_zero _).symm
  | succ n ih =>
    have hlow : (crc.toBitVec >>> n).getLsbD 0 = false := by
      exact h n (Nat.lt_succ_self n)
    rw [Function.iterate_succ_apply', toBitVec_crc32Bit, ih fun i hi => h i (Nat.lt_succ_of_lt hi),
      hlow, if_neg Bool.false_ne_true, BitVec.xor_zero, ← BitVec.shiftRight_add]

theorem and_xor_and_not (x mask : UInt32) : x = (x &&& mask) ^^^ (x &&& ~~~mask) := by
  apply UInt32.toBitVec_inj.mp
  rw [UInt32.toBitVec_xor, UInt32.toBitVec_and, UInt32.toBitVec_and, UInt32.toBitVec_not]
  ext i hi
  rw [BitVec.getElem_xor, BitVec.getElem_and, BitVec.getElem_and, BitVec.getElem_not]
  cases x.toBitVec[i] <;> cases mask.toBitVec[i] <;> rfl

theorem getLsbD_not_octet :
    ∀ i < 32, (~~~(255 : UInt32)).toBitVec.getLsbD i = decide (8 ≤ i) := by
  decide

theorem getLsbD_toUInt32 (byte : UInt8) (i : ℕ) :
    byte.toUInt32.toBitVec.getLsbD (8 + i) = false := by
  rw [UInt8.toBitVec_toUInt32, BitVec.getLsbD_setWidth, BitVec.getLsbD_of_ge _ _ (by omega),
    Bool.and_false]

theorem crc32Byte_eq (crc : UInt32) (byte : UInt8) :
    crc32Byte crc byte =
      crc32Bit^[8] ((crc ^^^ byte.toUInt32) &&& 255) ^^^ (crc >>> 8) := by
  have hclear : ∀ i < 8, ((crc ^^^ byte.toUInt32) &&& ~~~255).toBitVec.getLsbD i = false := by
    intro i hi
    rw [UInt32.toBitVec_and, BitVec.getLsbD_and, getLsbD_not_octet i (by omega),
      decide_eq_false (by omega), Bool.and_false]
  have hrest : crc32Bit^[8] ((crc ^^^ byte.toUInt32) &&& ~~~255) = crc >>> 8 := by
    apply UInt32.toBitVec_inj.mp
    rw [toBitVec_crc32Bits hclear]
    apply BitVec.eq_of_getLsbD_eq
    intro i hi
    rw [BitVec.getLsbD_ushiftRight, UInt32.toBitVec_and, BitVec.getLsbD_and, UInt32.toBitVec_xor,
      BitVec.getLsbD_xor, getLsbD_toUInt32, Bool.xor_false, UInt32.toBitVec_shiftRight]
    have hshift : (crc.toBitVec >>> (UInt32.toBitVec 8 % 32)).getLsbD i =
        crc.toBitVec.getLsbD (8 + i) := BitVec.getLsbD_ushiftRight _ _ _
    rw [hshift]
    by_cases hin : 8 + i < 32
    · rw [getLsbD_not_octet (8 + i) hin, decide_eq_true (Nat.le_add_right 8 i), Bool.and_true]
    · rw [BitVec.getLsbD_of_ge _ _ (Nat.not_lt.mp hin), Bool.false_and]
  calc crc32Byte crc byte
      = crc32Bit^[8] (((crc ^^^ byte.toUInt32) &&& 255) ^^^
          ((crc ^^^ byte.toUInt32) &&& ~~~255)) := by
        rw [← and_xor_and_not]
        rfl
    _ = crc32Bit^[8] ((crc ^^^ byte.toUInt32) &&& 255) ^^^ (crc >>> 8) := by
        rw [crc32Bits_xor, hrest]

end TraceMux.Base
