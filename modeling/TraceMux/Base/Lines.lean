/-
# Lines of a byte stream

The lines a buffered reader yields: the pieces between line feeds, a carriage
return before a line feed dropped with it, and a last piece without a line feed
when it is not empty. Each line must be valid UTF-8.
-/

import TraceMux.Base.ByteFile

namespace TraceMux.Base.Lines

open List

def lf : UInt8 := 0x0A

def cr : UInt8 := 0x0D

/-- A line that ended in a line feed loses a carriage return as well. -/
def stripCr (line : Bytes) : Bytes := if line.getLast? = some cr then line.dropLast else line

/-- The lines of a stream of which `seen` was read since the last line feed. -/
def splitFrom (seen : Bytes) : Bytes → List Bytes
  | [] => if seen = [] then [] else [seen]
  | b :: rest => if b = lf then stripCr seen :: splitFrom [] rest else splitFrom (seen ++ [b]) rest

/-- The lines of a stream. -/
def split (bytes : Bytes) : List Bytes := splitFrom [] bytes

def decode (line : Bytes) : Except IoError String :=
  match String.fromUTF8? line.toByteArray with
  | some text => .ok text
  | none => .error (.other "stream did not contain valid UTF-8")

def encode (text : List Char) : Bytes := text.flatMap String.utf8EncodeChar

theorem decode_encode (text : List Char) : decode (encode text) = .ok (String.ofList text) := by
  have hvalid : (encode text).toByteArray.IsValidUTF8 := ⟨text, rfl⟩
  rw [decode, String.fromUTF8?, dif_pos hvalid]
  rfl

variable {line tail : Bytes} {text : List Char}

theorem encode_ascii (h : ∀ c ∈ text, c.toNat ≤ 127) :
    encode text = text.map fun c => UInt8.ofNat c.toNat := by
  rw [encode, ← flatMap_pure_eq_map]
  apply flatMap_congr
  intro c hc
  have hle : c.val.toNat ≤ 127 := h c hc
  rw [String.utf8EncodeChar]
  simp only [hle, if_true]
  rfl

/-- A byte below 128 stands for itself: it is in a text only as a character. -/
theorem exists_of_mem_encode {b : UInt8} (hb : b.toNat < 128) (h : b ∈ encode text) :
    ∃ c ∈ text, c.toNat = b.toNat := by
  rw [encode, mem_flatMap] at h
  obtain ⟨c, hc, hbyte⟩ := h
  refine ⟨c, hc, ?_⟩
  have hbig : ∀ n, 128 ≤ n → n < 256 → b ≠ UInt8.ofNat n := by
    rintro n hlow hhigh rfl
    rw [UInt8.toNat_ofNat'] at hb
    omega
  have hn : c.toNat = c.val.toNat := rfl
  simp only [String.utf8EncodeChar] at hbyte
  generalize c.val.toNat = n at hbyte hn
  split at hbyte
  · rw [mem_singleton] at hbyte
    rw [hbyte, hn, UInt8.toNat_ofNat']
    omega
  · -- The bytes of longer sequences are all above the limit.
    exfalso
    split at hbyte
    · simp only [mem_cons, not_mem_nil, or_false] at hbyte
      rcases hbyte with h | h
      all_goals exact hbig _ (by omega) (by omega) h
    · split at hbyte
      · simp only [mem_cons, not_mem_nil, or_false] at hbyte
        rcases hbyte with h | h | h
        all_goals exact hbig _ (by omega) (by omega) h
      · simp only [mem_cons, not_mem_nil, or_false] at hbyte
        rcases hbyte with h | h | h | h
        all_goals exact hbig _ (by omega) (by omega) h

@[simp]
theorem split_nil : split [] = [] := rfl

theorem splitFrom_line (h : lf ∉ line) (seen rest : Bytes) :
    splitFrom seen (line ++ lf :: rest) = stripCr (seen ++ line) :: split rest := by
  induction line generalizing seen with
  | nil => simp [splitFrom, split]
  | cons b line ih =>
    rw [mem_cons, not_or] at h
    rw [cons_append, splitFrom, if_neg (Ne.symm h.1), ih h.2, append_assoc, singleton_append]

theorem split_line (hlf : lf ∉ line) (hcr : line.getLast? ≠ some cr) (rest : Bytes) :
    split (line ++ lf :: rest) = line :: split rest := by
  rw [split, splitFrom_line hlf, nil_append, stripCr, if_neg hcr]

theorem splitFrom_tail (h : lf ∉ tail) (seen : Bytes) :
    splitFrom seen tail = if seen ++ tail = [] then [] else [seen ++ tail] := by
  induction tail generalizing seen with
  | nil => simp [splitFrom]
  | cons b tail ih =>
    rw [mem_cons, not_or] at h
    rw [splitFrom, if_neg (Ne.symm h.1), ih h.2, append_assoc, singleton_append]

theorem split_tail (h : lf ∉ tail) (hne : tail ≠ []) : split tail = [tail] := by
  rw [split, splitFrom_tail h, nil_append, if_neg hne]

/-- The lines of a text that was written line by line, and of what follows it. -/
theorem split_lines {lines : List Bytes} (hlf : ∀ line ∈ lines, lf ∉ line)
    (hcr : ∀ line ∈ lines, line.getLast? ≠ some cr) (rest : Bytes) :
    split (lines.flatMap (· ++ [lf]) ++ rest) = lines ++ split rest := by
  induction lines with
  | nil => simp
  | cons line lines ih =>
    rw [flatMap_cons, append_assoc, append_assoc, singleton_append,
      split_line (hlf line mem_cons_self) (hcr line mem_cons_self),
      ih (fun l hl => hlf l (mem_cons_of_mem _ hl))
        (fun l hl => hcr l (mem_cons_of_mem _ hl)), cons_append]

/-- Texts without line feeds and carriage returns are the lines of the file in which each of them
is ended by a line feed. -/
theorem split_encode {texts : List (List Char)}
    (h : ∀ text ∈ texts, ∀ c ∈ text, c ≠ '\n' ∧ c ≠ '\r') :
    split (encode (texts.flatMap (· ++ ['\n']))) = texts.map encode := by
  have hplain : ∀ line ∈ texts.map encode, lf ∉ line ∧ cr ∉ line := by
    intro line hline
    obtain ⟨text, htext, rfl⟩ := mem_map.mp hline
    constructor
    · intro hlf
      obtain ⟨c, hc, hcode⟩ := exists_of_mem_encode (by decide) hlf
      exact (h text htext c hc).1 (Char.toNat_inj.mp hcode)
    · intro hcr
      obtain ⟨c, hc, hcode⟩ := exists_of_mem_encode (by decide) hcr
      exact (h text htext c hc).2 (Char.toNat_inj.mp hcode)
  have hbytes : encode (texts.flatMap (· ++ ['\n'])) =
      (texts.map encode).flatMap (· ++ [lf]) ++ [] := by
    rw [encode, flatMap_assoc, flatMap_map, append_nil]
    apply flatMap_congr
    intro text _
    rw [flatMap_append, encode]
    rfl
  rw [hbytes, split_lines (fun line hline => (hplain line hline).1) _ [], split_nil,
    append_nil]
  intro line hline hlast
  exact (hplain line hline).2 (mem_of_getLast? hlast)

end TraceMux.Base.Lines
