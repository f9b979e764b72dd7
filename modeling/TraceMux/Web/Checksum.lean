/-
# Checksums in the numbers of the engine

The engine cuts the operands of a bitwise operator to 32 bits and reads its result as a signed
number, except behind `>>>`. A checksum in the making can therefore be negative. The server
computes with registers of 32 bits, bit by bit, over the pieces that it reads.
-/

import TraceMux.Server.StoredZip
import TraceMux.Web.StoredZip

namespace TraceMux.Web.Checksum

open Base List Server.StoredZip

/-- The operator `^`. -/
def bitXor (a b : ℤ) : ℤ := (BitVec.ofInt 32 a ^^^ BitVec.ofInt 32 b).toInt

/-- The operator `&`. -/
def bitAnd (a b : ℤ) : ℤ := (BitVec.ofInt 32 a &&& BitVec.ofInt 32 b).toInt

/-- The operator `>>>`. -/
def shiftRight (a : ℤ) (places : ℕ) : ℤ := (BitVec.ofInt 32 a >>> places).toNat

def tableBit (value : ℤ) : ℤ :=
  if bitAnd value 1 ≠ 0 then bitXor 0xEDB88320 (shiftRight value 1) else shiftRight value 1

def crc32Table : List ℤ := (List.range 256).map fun i : ℕ => shiftRight (tableBit^[8] i) 0

def crc32Step (crc : ℤ) (byte : UInt8) : ℤ :=
  bitXor (crc32Table[(bitAnd (bitXor crc byte.toNat) 0xFF).toNat]?.getD 0) (shiftRight crc 8)

def crc32 (body : Bytes) : ℤ :=
  shiftRight (bitXor (body.foldl crc32Step 0xFFFFFFFF) 0xFFFFFFFF) 0

/-- The engine takes a number for a register. -/
def Reads (value : ℤ) (register : UInt32) : Prop := BitVec.ofInt 32 value = register.toBitVec

variable {value : ℤ} {register : UInt32}

theorem Reads.bitXor (h : Reads value register) {value' : ℤ} {register' : UInt32}
    (h' : Reads value' register') : Reads (bitXor value value') (register ^^^ register') := by
  rw [Reads, Checksum.bitXor, BitVec.ofInt_toInt, h, h', UInt32.toBitVec_xor]

theorem ofInt_shiftRight (a : ℤ) (places : ℕ) :
    BitVec.ofInt 32 (shiftRight a places) = BitVec.ofInt 32 a >>> places := by
  rw [shiftRight, BitVec.ofInt_natCast, BitVec.ofNat_toNat, BitVec.setWidth_eq]

theorem Reads.tableBit (h : Reads value register) : Reads (tableBit value) (crc32Bit register) := by
  have hlow : bitAnd value 1 =
      (BitVec.setWidth 32 (BitVec.ofBool (register.toBitVec.getLsbD 0))).toInt := by
    rw [bitAnd, h]
    exact congrArg BitVec.toInt BitVec.and_one_eq_setWidth_ofBool_getLsbD
  rw [Reads, toBitVec_crc32Bit, Checksum.tableBit, hlow]
  cases register.toBitVec.getLsbD 0 with
  | false =>
    rw [if_neg (by decide), ofInt_shiftRight, h, if_neg Bool.false_ne_true, BitVec.xor_zero]
  | true =>
    rw [if_pos (by decide), Checksum.bitXor, BitVec.ofInt_toInt, ofInt_shiftRight, h, if_pos rfl,
      BitVec.xor_comm]
    rfl

theorem Reads.tableBits (h : Reads value register) (n : ℕ) :
    Reads (Checksum.tableBit^[n] value) (crc32Bit^[n] register) := by
  induction n with
  | zero => exact h
  | succ n ih =>
    rw [Function.iterate_succ_apply', Function.iterate_succ_apply']
    exact ih.tableBit

theorem reads_natCast (n : ℕ) : Reads n (UInt32.ofNat n) := BitVec.ofInt_natCast 32 n

theorem reads_table (n : ℕ) :
    Reads (crc32Table[n]?.getD 0) (StoredZip.crc32Table[n]?.getD 0) := by
  rw [crc32Table, StoredZip.crc32Table, getElem?_map, getElem?_map]
  cases (List.range 256)[n]? with
  | none => rfl
  | some i =>
    refine (ofInt_shiftRight _ 0).trans ?_
    exact (reads_natCast i).tableBits 8

theorem Reads.step (h : Reads value register) (byte : UInt8) :
    Reads (crc32Step value byte) (StoredZip.crc32Step register byte) := by
  have hbyte : Reads byte.toNat byte.toUInt32 := by
    refine (reads_natCast _).trans (congrArg UInt32.toBitVec ?_)
    exact UInt32.toNat_inj.mp (by simp)
  -- The index is read with its sign, but it is below 256.
  have hindex : (bitAnd (Checksum.bitXor value byte.toNat) 0xFF).toNat =
      ((register ^^^ byte.toUInt32) &&& 255).toNat := by
    rw [bitAnd, h.bitXor hbyte]
    have hlow : ((register ^^^ byte.toUInt32).toBitVec &&& BitVec.ofInt 32 0xFF).toNat ≤ 255 := by
      exact Nat.and_le_right
    exact congrArg Int.toNat (BitVec.toInt_eq_toNat_of_lt (by omega))
  rw [crc32Step, hindex]
  refine (reads_table _).bitXor ((ofInt_shiftRight _ _).trans ?_)
  rw [h]
  rfl

/-- The engine computes with registers, and its result is not negative. -/
theorem crc32_eq_toNat (body : Bytes) : crc32 body = ((StoredZip.crc32 body).toNat : ℤ) := by
  have hrun : Reads (body.foldl crc32Step 0xFFFFFFFF)
      (body.foldl StoredZip.crc32Step 0xFFFFFFFF) :=
    foldl_rel rfl fun byte _ _ _ h => h.step byte
  have hend : Reads 0xFFFFFFFF 0xFFFFFFFF := rfl
  rw [crc32, shiftRight, hrun.bitXor hend, BitVec.ushiftRight_zero]
  rfl

theorem crc32Loop_pieces {pieces : List Bytes} (hpieces : ∀ piece ∈ pieces, piece ≠ [])
    (rest : List (Except String Bytes)) (crc : UInt32) (size : ℕ) :
    crc32Loop (pieces.map .ok ++ .ok [] :: rest) crc size =
      .ok (pieces.flatten.foldl crc32Byte crc ^^^ 0xFFFFFFFF, size + pieces.flatten.length) := by
  induction pieces generalizing crc size with
  | nil => rfl
  | cons piece pieces ih =>
    obtain ⟨hne, hpieces⟩ := forall_mem_cons.mp hpieces
    rw [map_cons, cons_append, crc32Loop, if_neg (mt length_eq_zero_iff.mp hne), ih hpieces,
      flatten_cons, foldl_append, length_append, Nat.add_assoc]

/-- However the content of a file is read, the server finds the checksum of the client. -/
theorem crc32File_eq_client {body : Bytes} {pieces : List Bytes} (hbody : pieces.flatten = body)
    (hpieces : ∀ piece ∈ pieces, piece ≠ []) (rest : List (Except String Bytes)) :
    ∃ crc : UInt32,
      crc32File (.ok (pieces.map .ok ++ .ok [] :: rest)) = .ok (crc, body.length) ∧
        (crc.toNat : ℤ) = crc32 body := by
  subst hbody
  refine ⟨crc32Ieee pieces.flatten, ?_, ?_⟩
  · rw [crc32File, crc32Loop_pieces hpieces, Nat.zero_add]
    rfl
  · rw [crc32_eq_toNat, StoredZip.crc32_eq]

theorem crc32File_check :
    ∃ crc : UInt32, crc32File (.ok [.ok [49, 50], .ok [51], .ok []]) = .ok (crc, 3) ∧
      (crc.toNat : ℤ) = crc32 [49, 50, 51] :=
  crc32File_eq_client (show [[49, 50], [51]].flatten = [49, 50, 51] from rfl) (by decide) []

end TraceMux.Web.Checksum
