/-
# The NMEA decoder

A sentence begins with `$` or `!`. Behind its last asterisk a checksum may stand: two
hexadecimal digits with the exclusive or of the bytes in between. The decoder reads two
characters there as a number of Rust, which may have a plus sign, and looks at nothing behind
them.

The header of the sentence is cut behind its second byte once it has five. The header is text
by then, and the cut panics inside a character.
-/

import TraceMux.Base.StreamDecoder
import TraceMux.Core.Pipeline

namespace TraceMux.Core.Nmea

open Base List

def xorChecksum (body : Bytes) : UInt8 := body.foldl (· ^^^ ·) 0

/-- The position of the last byte of a kind. -/
def rposition (b : UInt8) : Bytes → Option ℕ
  | [] => none
  | x :: rest =>
    match rposition b rest with
    | some i => some (i + 1)
    | none => if x = b then some 0 else none

/-- The value of a hexadecimal digit. -/
def hexDigit (b : UInt8) : Option ℕ :=
  let n := b.toNat
  if 0x30 ≤ n ∧ n ≤ 0x39 then some (n - 0x30)
  else if 0x41 ≤ n ∧ n ≤ 0x46 then some (n - 0x37)
  else if 0x61 ≤ n ∧ n ≤ 0x66 then some (n - 0x57)
  else none

/-- The digits of a number below 256. Bytes that are not UTF-8 are not digits either. -/
def hexNumber : ℕ → Bytes → Option ℕ
  | value, [] => some value
  | value, b :: rest =>
    match hexDigit b with
    | none => none
    | some digit =>
      if value * 16 + digit < 256 then hexNumber (value * 16 + digit) rest else none

/-- `u8::from_str_radix` with radix 16. A plus sign may stand before the digits. -/
def fromStrRadix (s : Bytes) : Option ℕ :=
  match s with
  | [] => none
  | [b] => hexDigit b
  | b :: rest => if b = 0x2B then hexNumber 0 rest else hexNumber 0 (b :: rest)

/-- The payload between the start character and the checksum, and whether the checksum is
right if there is one. -/
def splitChecksum (body : Bytes) : Bytes × Option Bool :=
  match rposition 0x2A body with
  | some idx =>
    if idx + 3 ≤ body.length then
      let computed := xorChecksum ((body.take idx).drop 1)
      let stated := fromStrRadix ((body.drop (idx + 1)).take 2)
      ((body.take idx).drop 1, some (stated = some computed.toNat))
    else (body.drop 1, none)
  | none => (body.drop 1, none)

/-- The talker and the message of a header. None if the header is cut inside a character. -/
def splitHeader (header : Text) : Option (Text × Text) :=
  if 5 ≤ header.byteLen then header.splitAtByte 2 else some ([], header)

/-- The first part of a payload. -/
def headerOf (payload : Bytes) : Text := ((Utf8.lossy payload).splitOn ',').headD []

/-- The frame without the line ends behind it. -/
def sentence (frame : Bytes) : Bytes := frame.rdropWhile fun b => b = 0x0D ∨ b = 0x0A

/-- Whether a sentence begins as one. -/
def isSentence (body : Bytes) : Bool := body.head? = some 0x24 ∨ body.head? = some 0x21

def jsonText (s : Text) : JsonValue := .string (String.ofList s)

/-- Decode a frame: a record or none. No result means a panic. -/
def decode (frame : Bytes) : Option (Option Record) :=
  let body := sentence frame
  if body = [] then some none
  else if isSentence body then
    let (payload, checksumOk) := splitChecksum body
    (splitHeader (headerOf payload)).map fun (talker, message) =>
      some {
        text := some (String.ofList (Utf8.lossy body))
        fields := .object [
          ("talker", jsonText talker),
          ("message", jsonText message),
          ("parts", .array (((Utf8.lossy payload).splitOn ',').tail.map jsonText)),
          ("checksum_ok", (checksumOk.map JsonValue.bool).getD .null)]
        tags := if checksumOk = some false then ["checksum_mismatch"] else [] }
  else
    some (some {
      text := some (String.ofList (Utf8.lossy body))
      fields := .object []
      tags := ["not_nmea"] })

/-- A header that can be cut: it is short, or its first two bytes are whole characters. -/
def Cuttable (header : Text) : Prop :=
  header.byteLen < 5 ∨ ∃ talker message, header = talker ++ message ∧ talker.byteLen = 2

theorem isSome_splitHeader (header : Text) : (splitHeader header).isSome ↔ Cuttable header := by
  rw [splitHeader]
  split
  · next hlong =>
    rw [Option.isSome_iff_exists, Prod.exists]
    simp only [Text.splitAtByte_eq_some]
    exact (or_iff_right (Nat.not_lt.mpr hlong)).symm
  · next hshort => exact iff_of_true rfl (.inl (Nat.lt_of_not_le hshort))

/-- The decoder returns exactly when the frame is not a sentence or its header can be cut. -/
theorem decode_returns_iff (frame : Bytes) :
    (decode frame).isSome ↔ (isSentence (sentence frame) = true →
      Cuttable (headerOf (splitChecksum (sentence frame)).1)) := by
  rw [← isSome_splitHeader, decode]
  by_cases hempty : sentence frame = []
  · simp [hempty, isSentence]
  · cases isSentence (sentence frame) <;> simp [hempty]

/-- A header with a character of two bytes behind its first letter. -/
theorem decode_panics : decode (Lines.encode "$GÄGA,1".toList) = none := by decide +kernel

def ReportsCorrect (frame : Bytes) : Prop :=
  ∃ record entries, decode frame = some (some record) ∧ record.fields = .object entries ∧
    entries.lookup "checksum_ok" = some (.bool true)

/-- What the decoder compares: two characters of the field are read as the checksum. -/
def ReadsAsChecksum (payload field : Bytes) : Prop :=
  2 ≤ field.length ∧ fromStrRadix (field.take 2) = some (xorChecksum payload).toNat

def IsTwoDigits (field : Bytes) : Prop :=
  ∃ hi lo, field = [hi, lo] ∧ (hexDigit hi).isSome ∧ (hexDigit lo).isSome

/-- The field is two hexadecimal digits with the checksum of the payload. -/
def IsChecksum (payload field : Bytes) : Prop :=
  ∃ hi lo high low, field = [hi, lo] ∧ hexDigit hi = some high ∧ hexDigit lo = some low ∧
    high * 16 + low = (xorChecksum payload).toNat

variable {b : UInt8} {field frame : Bytes}

theorem hexDigit_lt {digit : ℕ} (h : hexDigit b = some digit) : digit < 16 := by
  revert h
  fun_cases hexDigit b <;> rintro ⟨⟩ <;> omega

theorem fromStrRadix_digits {hi lo : UInt8} {high low : ℕ} (hhi : hexDigit hi = some high)
    (hlo : hexDigit lo = some low) : fromStrRadix [hi, lo] = some (high * 16 + low) := by
  have hplus : hi ≠ 0x2B := by
    rintro rfl
    cases hhi
  have hhigh := hexDigit_lt hhi
  have hlow := hexDigit_lt hlo
  simp only [fromStrRadix, if_neg hplus]
  rw [hexNumber, hhi]
  simp only [Nat.zero_mul, Nat.zero_add]
  rw [if_pos (by omega), hexNumber, hlo]
  simp only
  rw [if_pos (by omega), hexNumber]

theorem isChecksum_iff (payload field : Bytes) :
    IsChecksum payload field ↔ ReadsAsChecksum payload field ∧ IsTwoDigits field := by
  constructor
  · rintro ⟨hi, lo, high, low, rfl, hhi, hlo, hvalue⟩
    refine ⟨⟨le_rfl, ?_⟩, hi, lo, rfl, by simp [hhi], by simp [hlo]⟩
    rw [← hvalue]
    exact fromStrRadix_digits hhi hlo
  · rintro ⟨⟨-, hreads⟩, hi, lo, rfl, hhi, hlo⟩
    obtain ⟨high, hhi⟩ := Option.isSome_iff_exists.mp hhi
    obtain ⟨low, hlo⟩ := Option.isSome_iff_exists.mp hlo
    have hvalue := (fromStrRadix_digits hhi hlo).symm.trans hreads
    exact ⟨hi, lo, high, low, rfl, hhi, hlo, Option.some.inj hvalue⟩

theorem rposition_eq_none {l : Bytes} (h : b ∉ l) : rposition b l = none := by
  induction l with
  | nil => rfl
  | cons x rest ih =>
    rw [mem_cons, not_or] at h
    rw [rposition, ih h.2]
    exact if_neg (Ne.symm h.1)

theorem rposition_append (h : b ∉ field) (before : Bytes) :
    rposition b (before ++ b :: field) = some before.length := by
  induction before with
  | nil =>
    rw [nil_append, rposition, rposition_eq_none h]
    exact if_pos rfl
  | cons x rest ih => rw [cons_append, rposition, ih, length_cons]

theorem reportsCorrect_iff (h : isSentence (sentence frame) = true) :
    ReportsCorrect frame ↔ (splitChecksum (sentence frame)).2 = some true ∧
      Cuttable (headerOf (splitChecksum (sentence frame)).1) := by
  have hne : sentence frame ≠ [] := by
    intro hempty
    rw [hempty] at h
    cases h
  rw [← isSome_splitHeader]
  cases hcut : splitHeader (headerOf (splitChecksum (sentence frame)).1) with
  | none => simp [ReportsCorrect, decode, hne, h, hcut]
  | some cut =>
    cases hok : (splitChecksum (sentence frame)).2 <;>
      simp [ReportsCorrect, decode, hne, h, hcut, hok, lookup_cons]

/-- The decoder is right about a checksum exactly when a field it reads as the checksum is two
digits for a header that can be cut, and no two digits for one that cannot. -/
theorem reportsCorrect_isChecksum_iff {payload : Bytes} {start : UInt8}
    (hframe : sentence frame = start :: (payload ++ 0x2A :: field))
    (hstart : start = 0x24 ∨ start = 0x21) (hfield : 0x2A ∉ field) :
    (ReportsCorrect frame ↔ IsChecksum payload field) ↔
      (ReadsAsChecksum payload field → (Cuttable (headerOf payload) ↔ IsTwoDigits field)) := by
  have hsentence : isSentence (sentence frame) = true := by simp [hframe, isSentence, hstart]
  have hidx := rposition_append hfield (start :: payload)
  rw [cons_append] at hidx
  rw [isChecksum_iff, reportsCorrect_iff hsentence, hframe, ← and_congr_right_iff]
  simp only [splitChecksum, hidx]
  by_cases hlen : 2 ≤ field.length
  · simp [ReadsAsChecksum, hlen]
  · simp [ReadsAsChecksum, hlen]

/-- A right checksum of a header that can be cut: `$AD*05`. -/
theorem reportsCorrect_isChecksum_two :
    (ReportsCorrect [0x24, 0x41, 0x44, 0x2A, 0x30, 0x35] ↔ IsChecksum [0x41, 0x44] [0x30, 0x35]) ↔
      (ReadsAsChecksum [0x41, 0x44] [0x30, 0x35] →
        (Cuttable (headerOf [0x41, 0x44]) ↔ IsTwoDigits [0x30, 0x35])) :=
  reportsCorrect_isChecksum_iff (by decide) (.inl rfl) (by decide)

/-- A plus sign and one digit pass for a checksum: `$AD*+5`. -/
theorem plus_sign_reported :
    ReportsCorrect [0x24, 0x41, 0x44, 0x2A, 0x2B, 0x35] ∧
      ¬ IsChecksum [0x41, 0x44] [0x2B, 0x35] := by
  constructor
  · exact (reportsCorrect_iff (by decide)).mpr ⟨by decide, .inl (by decide)⟩
  · rintro ⟨hi, lo, high, low, hfield, hhi, -⟩
    cases hfield
    cases hhi

end TraceMux.Core.Nmea
