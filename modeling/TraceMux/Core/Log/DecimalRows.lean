/-
# Rows as numbers in braces

A codec with the laws that are asked of the serialiser. A row is numbered, and its text
is the decimal number between braces; every index entry has one. It stands in for the
JSON text where a result is evaluated on a particular directory.
-/

import Mathlib.Logic.Equiv.List
import Mathlib.Tactic.DeriveEncodable
import TraceMux.Core.Log.Index

namespace TraceMux.Core.Log.DecimalRows

open Base List

instance encodableChar : Encodable Char :=
  Encodable.ofLeftInverse Char.toNat Char.ofNat Char.ofNat_toNat

instance encodableString : Encodable String :=
  Encodable.ofLeftInverse String.toList String.ofList fun s => by simp

instance encodableBitVec {w : ℕ} : Encodable (BitVec w) :=
  Encodable.ofLeftInverse BitVec.toNat (BitVec.ofNat w) (by simp)

instance encodableUInt32 : Encodable UInt32 :=
  Encodable.ofLeftInverse UInt32.toNat UInt32.ofNat (by simp)

deriving instance Encodable for ClockQuality

deriving instance Encodable for ClockSource

deriving instance Encodable for Dir

deriving instance Encodable for Kind

deriving instance Encodable for IndexEntry

/-- The number of a row between braces. -/
def rowText (entry : IndexEntry) : Text := '{' :: (Text.ofNat (Encodable.encode entry) ++ ['}'])

/-- Read a row back. Only digits between braces are accepted, and only the number of a row. -/
def parseRow (text : String) : Except String IndexEntry :=
  match text.toList with
  | '{' :: rest =>
    if rest.getLast? = some '}' ∧ rest.dropLast.all Char.isDigit then
      match Encodable.decode (Nat.ofDigitChars 10 rest.dropLast 0) with
      | some entry => .ok entry
      | none => .error "no such row"
    else .error "expected a number in braces"
  | _ => .error "expected a brace"

def codec : RowCodec where
  pieces entry := [Lines.encode (rowText entry)]
  fromStr := parseRow

theorem text_eq (entry : IndexEntry) : codec.text entry = Lines.encode (rowText entry) := by
  simp [RowCodec.text, codec]

variable {entry : IndexEntry}

/-- A row has printable ASCII characters only, and no line feed among them. -/
theorem ascii_rowText {c : Char} (h : c ∈ rowText entry) : 32 ≤ c.toNat ∧ c.toNat ≤ 127 := by
  rw [rowText, mem_cons, mem_append, mem_singleton] at h
  rcases h with rfl | h | rfl
  · decide
  · have hdigit := Text.isDigit_of_mem_ofNat h
    rw [Char.isDigit, Bool.and_eq_true, decide_eq_true_eq, decide_eq_true_eq] at hdigit
    have hlow : '0'.toNat ≤ c.toNat := hdigit.1
    have hhigh : c.toNat ≤ '9'.toNat := hdigit.2
    have hzero : '0'.toNat = 48 := rfl
    have hnine : '9'.toNat = 57 := rfl
    omega
  · decide

theorem text_eq_map (entry : IndexEntry) :
    codec.text entry = (rowText entry).map fun c => UInt8.ofNat c.toNat := by
  rw [text_eq, Lines.encode_ascii fun c hc => (ascii_rowText hc).2]

theorem notMem_text {b : UInt8} (hb : b.toNat < 32) : b ∉ codec.text entry := by
  rw [text_eq_map]
  intro h
  obtain ⟨c, hc, rfl⟩ := mem_map.mp h
  obtain ⟨hlow, hhigh⟩ := ascii_rowText hc
  rw [UInt8.toNat_ofNat'] at hb
  omega

theorem parseLine_encode (text : Text) :
    codec.parseLine (Lines.encode text) =
      match parseRow (String.ofList text) with
      | .error message => .error (.serde message)
      | .ok entry => .ok entry := by
  rw [RowCodec.parseLine, Lines.decode_encode]
  rfl

/-- The beginning of a row is the row of a beginning of its text: no byte is cut in two. -/
theorem exists_take_of_prefix {cut : Bytes} (h : cut <+: codec.text entry) :
    ∃ n, cut = Lines.encode ((rowText entry).take n) := by
  refine ⟨cut.length, ?_⟩
  have htake := prefix_iff_eq_take.mp h
  rw [htake, text_eq_map, Lines.encode_ascii fun c hc =>
    (ascii_rowText (mem_of_mem_take hc)).2, map_take, length_take]
  simp

theorem parseRow_ofList_cons (rest : Text) :
    parseRow (String.ofList ('{' :: rest)) =
      if rest.getLast? = some '}' ∧ rest.dropLast.all Char.isDigit then
        match Encodable.decode (Nat.ofDigitChars 10 rest.dropLast 0) with
        | some entry => .ok entry
        | none => .error "no such row"
      else .error "expected a number in braces" := by
  rw [parseRow, String.toList_ofList]
  rfl

/-- What was written is read back. -/
theorem parseRow_rowText (entry : IndexEntry) :
    parseRow (String.ofList (rowText entry)) = .ok entry := by
  have hdigits : (Text.ofNat (Encodable.encode entry)).all Char.isDigit := by
    rw [all_eq_true]
    exact fun c hc => Text.isDigit_of_mem_ofNat hc
  rw [rowText, parseRow_ofList_cons, dropLast_concat, getLast?_concat,
    if_pos ⟨rfl, hdigits⟩, Text.ofNat, Nat.ofDigitChars_ten_toDigits, Encodable.encodek]

/-- A line is rejected unless digits and a brace follow the opening brace. -/
theorem parseLine_rejects {rest : Text}
    (h : ¬ (rest.getLast? = some '}' ∧ rest.dropLast.all Char.isDigit)) :
    ∃ e, codec.parseLine (Lines.encode ('{' :: rest)) = .error e := by
  rw [parseLine_encode, parseRow_ofList_cons, if_neg h]
  exact ⟨_, rfl⟩

/-- A nonempty beginning of a row is an opening brace and a beginning of the rest. -/
theorem exists_take_of_prefix_ne_nil {cut : Bytes} (h : cut <+: codec.text entry) (hne : cut ≠ []) :
    ∃ n, cut = Lines.encode
      ('{' :: (Text.ofNat (Encodable.encode entry) ++ ['}']).take n) := by
  obtain ⟨n, rfl⟩ := exists_take_of_prefix h
  cases n with
  | zero => exact absurd rfl hne
  | succ n => exact ⟨n, rfl⟩

theorem notMem_ofNat {c : Char} (hc : c.isDigit = false) (n : ℕ) : c ∉ Text.ofNat n := by
  intro h
  rw [Text.isDigit_of_mem_ofNat h] at hc
  cases hc

theorem codec_lawful : codec.Lawful where
  lf_notMem _ := notMem_text (by decide)
  getLast_ne _ h := notMem_text (by decide) (mem_of_getLast? h)
  ne_nil entry h := by
    cases h
  roundTrip entry _ := by
    refine ⟨entry.driftPpm, ?_⟩
    rw [text_eq, parseLine_encode, parseRow_rowText]

/-- No proper beginning of a row is a row. -/
theorem codec_strict : codec.Strict where
  toLawful := codec_lawful
  rejects_cut entry cut hcut hne htext := by
    obtain ⟨n, rfl⟩ := exists_take_of_prefix_ne_nil hcut hne
    apply parseLine_rejects
    rintro ⟨hlast, -⟩
    by_cases hn : n ≤ (Text.ofNat (Encodable.encode entry)).length
    · rw [take_append_of_le_length hn] at hlast
      exact notMem_ofNat (by decide) _ (mem_of_mem_take (mem_of_getLast? hlast))
    · apply htext
      rw [text_eq, rowText, take_of_length_le]
      rw [length_append, length_singleton]
      omega
  rejects_joined entry cut next hcut hne := by
    obtain ⟨n, rfl⟩ := exists_take_of_prefix_ne_nil hcut hne
    rw [text_eq, Lines.encode, Lines.encode, ← flatMap_append, cons_append]
    apply parseLine_rejects
    rintro ⟨-, hdigits⟩
    rw [rowText, ← cons_append, ← append_assoc, dropLast_concat,
      all_append, Bool.and_eq_true, all_cons, Bool.and_eq_true] at hdigits
    exact absurd hdigits.2.1 (by decide)

/-- The codec of decimal rows that writes `null` for a row whose drift is not finite. -/
def nullCodec : RowCodec where
  pieces entry :=
    [if F32.isFinite entry.driftPpm then codec.text entry else Lines.encode "null".toList]
  fromStr := parseRow

theorem nullCodec_text (entry : IndexEntry) :
    nullCodec.text entry =
      if F32.isFinite entry.driftPpm then codec.text entry else Lines.encode "null".toList := by
  simp [RowCodec.text, nullCodec]

theorem nullCodec_rejectsNull : nullCodec.RejectsNull where
  lf_notMem entry := by
    rw [nullCodec_text]
    split
    · exact codec_lawful.lf_notMem entry
    · decide
  getLast_ne entry := by
    rw [nullCodec_text]
    split
    · exact codec_lawful.getLast_ne entry
    · decide
  ne_nil entry := by
    rw [nullCodec_text]
    split
    · exact codec_lawful.ne_nil entry
    · decide
  roundTrip entry hfinite := by
    rw [nullCodec_text, if_pos hfinite]
    exact codec_lawful.roundTrip entry hfinite
  rejects_null entry hnull := by
    have hparse : ∃ e, codec.parseLine (Lines.encode "null".toList) = .error e := by
      exact ⟨_, rfl⟩
    rw [nullCodec_text, hnull, if_neg Bool.false_ne_true]
    exact hparse

end TraceMux.Core.Log.DecimalRows
