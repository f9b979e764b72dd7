/-
# Shift_JIS

The decoder and the encoder of the Encoding Standard, over any index of JIS X 0208 in which no
pointer stands for an ASCII character. A character that cannot be encoded becomes a decimal
character reference.

Shift_JIS and UTF-8 have ASCII in common and nothing else: a text has the same bytes in both
only if all of it is ASCII, and so has a byte string that is well-formed Shift_JIS and the same
text in both. For the texts, UTF-8 gets ahead with the first character that is not ASCII and
stays ahead. For the bytes, a character other than ASCII has at least two bytes in UTF-8 and
at most two in Shift_JIS.
-/

import TraceMux.Base.StreamDecoder

namespace TraceMux.Base.ShiftJis

open List

/-- An index of JIS X 0208: the character of a pointer. -/
structure Index where
  character : ℕ → Option Char
  nonAscii : ∀ {pointer c}, character pointer = some c → 0x80 ≤ c.toNat

variable (index : Index)

def pointerOf (lead byte : ℕ) : Option ℕ :=
  let offset := if byte < 0x7F then 0x40 else 0x41
  let leadOffset := if lead < 0xA0 then 0x81 else 0xC1
  if 0x40 ≤ byte ∧ byte ≤ 0x7E ∨ 0x80 ≤ byte ∧ byte ≤ 0xFC then
    some ((lead - leadOffset) * 188 + byte - offset)
  else
    none

/-- The character of a pointer. Some pointers are for private use. -/
def characterOf (pointer : ℕ) : Option Char :=
  if 8836 ≤ pointer ∧ pointer ≤ 10715 then
    some (Char.ofNat (0xE000 - 8836 + pointer))
  else
    index.character pointer

/-- A byte that does not complete a character. -/
def start (b : ℕ) : Option ℕ × List (Option Char) :=
  if b ≤ 0x80 then
    (none, [some (Char.ofNat b)])
  else if 0xA1 ≤ b ∧ b ≤ 0xDF then
    (none, [some (Char.ofNat (0xFF61 - 0xA1 + b))])
  else if 0x81 ≤ b ∧ b ≤ 0x9F ∨ 0xE0 ≤ b ∧ b ≤ 0xFC then
    (some b, [])
  else
    (none, [none])

/-- One byte. The state is a first byte that waits for the second one. -/
def step (s : Option ℕ) (b : UInt8) : Option ℕ × List (Option Char) :=
  match s with
  | none => start b.toNat
  | some lead =>
    match (pointerOf lead b.toNat).bind (characterOf index) with
    | some c => (none, [some c])
    | none =>
      -- An ASCII byte is read again.
      if b.toNat < 0x80 then
        (none, [none, some (Char.ofNat b.toNat)])
      else
        (none, [none])

def decoder : StreamDecoder where
  State := Option ℕ
  init := none
  step := step index
  finish s := if s = none then [] else [none]
  finish_init := rfl

def pointerCount : ℕ := 11280

/-- The pointer of a character. The duplicates of one range are not used. -/
def pointerFor (c : Char) : Option ℕ :=
  (List.range pointerCount).find? fun pointer =>
    ¬ (8272 ≤ pointer ∧ pointer ≤ 8835) ∧ index.character pointer = some c

def encodeChar (c : Char) : Option Bytes :=
  let n := c.toNat
  if n ≤ 0x80 then
    some [UInt8.ofNat n]
  else if n = 0xA5 then
    some [0x5C]
  else if n = 0x203E then
    some [0x7E]
  else if 0xFF61 ≤ n ∧ n ≤ 0xFF9F then
    some [UInt8.ofNat (n - 0xFF61 + 0xA1)]
  else
    match pointerFor index (if n = 0x2212 then Char.ofNat 0xFF0D else c) with
    | none => none
    | some pointer =>
      let lead := pointer / 188
      let leadOffset := if lead < 0x1F then 0x81 else 0xC1
      let trail := pointer % 188
      let offset := if trail < 0x3F then 0x40 else 0x41
      some [UInt8.ofNat (lead + leadOffset), UInt8.ofNat (trail + offset)]

def reference (c : Char) : Bytes :=
  38 :: 35 :: (Nat.toDigits 10 c.toNat).map (fun digit => UInt8.ofNat digit.toNat) ++ [59]

/-- Encode a text; whether something had to be replaced. -/
def encode (text : Text) : Bytes × Bool :=
  (text.flatMap fun c => (encodeChar index c).getD (reference c),
    text.any fun c => (encodeChar index c).isNone)

variable {n pointer : ℕ} {s : Option ℕ}

theorem toNat_byte (h : n < 256) : (UInt8.ofNat n).toNat = n := by
  rw [UInt8.toNat_ofNat']
  omega

variable {c : Char} {bytes : Bytes} {b : UInt8}

theorem utf8_ascii (h : c.toNat < 0x80) : String.utf8EncodeChar c = [UInt8.ofNat c.toNat] := by
  have hn : c.val.toNat = c.toNat := rfl
  rw [String.utf8EncodeChar, hn, if_pos (by omega)]

/-- What UTF-8 makes of a character other than ASCII. -/
structure Utf8Bytes (c : Char) (first second : UInt8) (later : Bytes) : Prop where
  bytes : String.utf8EncodeChar c = first :: second :: later
  high : ∀ b ∈ String.utf8EncodeChar c, 0x80 ≤ b.toNat
  lead_le : 0xC2 ≤ first.toNat
  two : later = [] → first.toNat ≤ 0xDF
  katakana : 0xFF61 ≤ c.toNat → c.toNat ≤ 0xFF9F → first.toNat = 0xEF

theorem utf8_nonAscii (h : 0x80 ≤ c.toNat) :
    ∃ first second later, Utf8Bytes c first second later := by
  have hn : c.val.toNat = c.toNat := rfl
  have hbytes := String.utf8EncodeChar.eq_1 c
  rw [hn, if_neg (by omega)] at hbytes
  split at hbytes
  · refine ⟨_, _, _, hbytes, ?_, ?_, ?_, ?_⟩
    · rw [hbytes]
      simp only [forall_mem_cons]
      refine ⟨?_, ?_, nofun⟩ <;> rw [toNat_byte (by omega)] <;> omega
    · rw [toNat_byte (by omega)]
      omega
    · intro _
      rw [toNat_byte (by omega)]
      omega
    · omega
  · split at hbytes
    · refine ⟨_, _, _, hbytes, ?_, ?_, nofun, ?_⟩
      · rw [hbytes]
        simp only [forall_mem_cons]
        refine ⟨?_, ?_, ?_, nofun⟩ <;> rw [toNat_byte (by omega)] <;> omega
      · rw [toNat_byte (by omega)]
        omega
      · intro hlower hupper
        rw [toNat_byte (by omega)]
        omega
    · refine ⟨_, _, _, hbytes, ?_, ?_, nofun, by omega⟩
      · rw [hbytes]
        simp only [forall_mem_cons]
        refine ⟨?_, ?_, ?_, ?_, nofun⟩ <;> rw [toNat_byte (by omega)] <;> omega
      · rw [toNat_byte (by omega)]
        omega

/-- What Shift_JIS makes of a character. -/
def encoded (c : Char) : Bytes := (encodeChar index c).getD (reference c)

theorem encoded_ascii (h : c.toNat < 0x80) : encoded index c = [UInt8.ofNat c.toNat] := by
  rw [encoded, encodeChar, if_pos (by omega)]
  rfl

theorem pointerFor_lt (h : pointerFor index c = some pointer) : pointer < pointerCount := by
  unfold pointerFor at h
  have hmem := mem_of_find?_eq_some h
  exact mem_range.mp hmem

/-- What Shift_JIS makes of a character other than ASCII: something that begins with an ASCII
byte, one byte with which UTF-8 does not begin, or two bytes. -/
theorem encoded_nonAscii (h : 0x80 ≤ c.toNat) :
    (∃ first later, encoded index c = first :: later ∧ first.toNat < 0x80) ∨
      (∃ byte, encoded index c = [byte] ∧
        ∀ first second later, Utf8Bytes c first second later → byte ≠ first) ∨
      ∃ first second, encoded index c = [first, second] ∧
        (first.toNat < 0xC2 ∨ 0xDF < first.toNat) := by
  rw [encoded, encodeChar]
  simp only
  by_cases h80 : c.toNat ≤ 0x80
  · right
    left
    rw [if_pos h80]
    refine ⟨_, rfl, ?_⟩
    rintro first second later hutf8 rfl
    have := hutf8.lead_le
    rw [toNat_byte (by omega)] at this
    omega
  rw [if_neg h80]
  by_cases hyen : c.toNat = 0xA5
  · rw [if_pos hyen]
    exact .inl ⟨_, _, rfl, by decide⟩
  rw [if_neg hyen]
  by_cases hline : c.toNat = 0x203E
  · rw [if_pos hline]
    exact .inl ⟨_, _, rfl, by decide⟩
  rw [if_neg hline]
  by_cases hkana : 0xFF61 ≤ c.toNat ∧ c.toNat ≤ 0xFF9F
  · right
    left
    rw [if_pos hkana]
    refine ⟨_, rfl, ?_⟩
    rintro first second later hutf8 rfl
    have := hutf8.katakana hkana.1 hkana.2
    rw [toNat_byte (by omega)] at this
    omega
  rw [if_neg hkana]
  cases hpointer : pointerFor index (if c.toNat = 0x2212 then Char.ofNat 0xFF0D else c) with
  | none => exact .inl ⟨_, _, rfl, by decide⟩
  | some pointer =>
    have hlt := pointerFor_lt index hpointer
    have hcount : pointerCount = 11280 := rfl
    right
    right
    refine ⟨_, _, rfl, ?_⟩
    split
    · rw [toNat_byte (by omega)]
      omega
    · rw [toNat_byte (by omega)]
      omega

/-- Once UTF-8 is ahead of Shift_JIS it stays ahead. -/
theorem encoded_ne_behind (text : Text) {pending : Bytes} (hne : pending ≠ [])
    (hhigh : ∀ b ∈ pending, 0x80 ≤ b.toNat) :
    text.flatMap (encoded index) ≠ pending ++ Lines.encode text := by
  induction text generalizing pending with
  | nil =>
    intro heq
    exact hne (append_eq_nil_iff.mp heq.symm).1
  | cons c text ih =>
    intro heq
    obtain ⟨first, pending, rfl⟩ := exists_cons_of_ne_nil hne
    have hfirst := hhigh first mem_cons_self
    rw [flatMap_cons, Lines.encode, flatMap_cons] at heq
    by_cases hascii : c.toNat < 0x80
    · rw [encoded_ascii index hascii] at heq
      have hbyte := congrArg UInt8.toNat (cons.inj heq).1
      rw [toNat_byte (by omega)] at hbyte
      omega
    · have hnonAscii := Nat.le_of_not_lt hascii
      obtain ⟨lead, trail, later, hutf8⟩ := utf8_nonAscii hnonAscii
      have hlead := hutf8.high
      rw [hutf8.bytes] at heq hlead
      obtain ⟨byte, more, hbytes, hbyte⟩ | ⟨byte, hbytes, -⟩ | ⟨byte, byte', hbytes, -⟩ :=
        encoded_nonAscii index hnonAscii
      · rw [hbytes] at heq
        have := congrArg UInt8.toNat (cons.inj heq).1
        omega
      · rw [hbytes, cons_append, nil_append, cons_append] at heq
        have hrest := (cons.inj heq).2
        rw [← append_assoc] at hrest
        refine ih (by simp) ?_ hrest
        intro b hb
        exact (mem_append.mp hb).elim (fun hb => hhigh b (mem_cons_of_mem _ hb))
          (hlead b)
      · rw [hbytes, cons_append, cons_append, nil_append, cons_append] at heq
        have hrest := (cons.inj heq).2
        cases pending with
        | nil =>
          refine ih (cons_ne_nil _ _) ?_ (cons.inj hrest).2
          exact fun b hb => hlead b (mem_cons_of_mem _ hb)
        | cons second pending =>
          rw [cons_append] at hrest
          have htail := (cons.inj hrest).2
          rw [← append_assoc] at htail
          refine ih (by simp) ?_ htail
          intro b hb
          refine (mem_append.mp hb).elim (fun hb => hhigh b ?_) (hlead b)
          exact mem_cons_of_mem _ (mem_cons_of_mem _ hb)

theorem encode_eq_utf8_iff (text : Text) :
    (encode index text).1 = Lines.encode text ↔ ∀ c ∈ text, c.toNat < 0x80 := by
  have hencode : (encode index text).1 = text.flatMap (encoded index) := rfl
  rw [hencode]
  constructor
  · intro heq
    induction text with
    | nil => exact nofun
    | cons c text ih =>
      rw [flatMap_cons, Lines.encode, flatMap_cons] at heq
      by_cases hascii : c.toNat < 0x80
      · rw [encoded_ascii index hascii, utf8_ascii hascii] at heq
        exact forall_mem_cons.mpr ⟨hascii, ih rfl (cons.inj heq).2⟩
      · exfalso
        have hnonAscii := Nat.le_of_not_lt hascii
        obtain ⟨lead, trail, later, hutf8⟩ := utf8_nonAscii hnonAscii
        obtain ⟨byte, more, hbytes, hbyte⟩ | ⟨byte, hbytes, hbyte⟩ |
          ⟨byte, byte', hbytes, hbyte⟩ := encoded_nonAscii index hnonAscii
        · rw [hbytes, hutf8.bytes] at heq
          have hlead := hutf8.lead_le
          rw [← (cons.inj heq).1] at hlead
          omega
        · rw [hbytes, hutf8.bytes] at heq
          exact hbyte lead trail later hutf8 (cons.inj heq).1
        · rw [hbytes, hutf8.bytes] at heq
          obtain ⟨rfl, hrest⟩ := cons.inj heq
          have htail := (cons.inj hrest).2
          have hlead := hutf8.lead_le
          have hlater : later ≠ [] := by
            intro hnil
            have := hutf8.two hnil
            omega
          refine encoded_ne_behind index text hlater ?_ htail
          intro b hb
          apply hutf8.high
          rw [hutf8.bytes]
          exact mem_cons_of_mem _ (mem_cons_of_mem _ hb)
  · intro hascii
    apply flatMap_congr
    intro c hc
    rw [encoded_ascii index (hascii c hc), utf8_ascii (hascii c hc)]

/-! ## Bytes

Characters are counted as one byte or two. UTF-8 takes at least that many bytes for its
characters, Shift_JIS at most that many. -/

def weight (c : Char) : ℕ := if c.toNat < 0x80 then 1 else 2

/-- What the characters among some units count. -/
def weights (units : List (Option Char)) : ℕ := (units.map fun unit => unit.elim 0 weight).sum

theorem weights_append (first second : List (Option Char)) :
    weights (first ++ second) = weights first + weights second := by
  rw [weights, map_append, sum_append]
  rfl

theorem weight_le (c : Char) : weight c ≤ 2 := by
  rw [weight]
  split <;> omega

theorem le_weight (c : Char) : 1 ≤ weight c := by
  rw [weight]
  split <;> omega

theorem weight_nonAscii (h : 0x80 ≤ c.toNat) : weight c = 2 := if_neg (by omega)

theorem toNat_charOfNat (h : n < 0xD800 ∨ 0xDFFF < n ∧ n < 0x110000) :
    (Char.ofNat n).toNat = n := by
  have hvalid : n.isValidChar := h
  rw [Char.ofNat, dif_pos hvalid]
  rfl

def pendingUtf8 (s : Utf8.State) : ℕ := if s.needed = 0 then 0 else 1

theorem weights_start_utf8 (b : ℕ) :
    weights (Utf8.start b).2 + pendingUtf8 (Utf8.start b).1 ≤ 1 := by
  fun_cases Utf8.start b with
  | case1 hascii =>
    have hweight : weight (Char.ofNat b) = 1 := by
      rw [weight, toNat_charOfNat (by omega), if_pos (by omega)]
    simp [weights, pendingUtf8, hweight]
  | _ => simp [weights, pendingUtf8]

theorem weights_step_utf8 (s : Utf8.State) (b : UInt8) :
    weights (Utf8.step s b).2 + pendingUtf8 (Utf8.step s b).1 ≤ 1 + pendingUtf8 s := by
  have hstart := weights_start_utf8 b.toNat
  rw [Utf8.step]
  split
  · exact hstart.trans (Nat.le_add_right _ _)
  · next hneeded =>
    have hpending : pendingUtf8 s = 1 := if_neg hneeded
    rw [hpending]
    split
    · split
      · have := weight_le (Char.ofNat (s.codePoint * 64 + b.toNat % 64))
        simpa [weights, pendingUtf8] using this
      · simp [weights, pendingUtf8]
        split <;> omega
    · have hnone : weights (none :: (Utf8.start b.toNat).2) = weights (Utf8.start b.toNat).2 :=
        Nat.zero_add _
      simp only [hnone]
      omega

/-- What is left of a stream counts at most its bytes and the one that is pending. -/
theorem weights_utf8_le (s : Utf8.decoder.State) (bytes : Bytes) :
    weights (Utf8.decoder.decodeFrom s bytes) ≤ bytes.length + pendingUtf8 s := by
  induction bytes generalizing s with
  | nil =>
    have hfinish : Utf8.decoder.finish s = if s.needed = 0 then [] else [none] := rfl
    rw [StreamDecoder.decodeFrom_nil, hfinish]
    split <;> exact Nat.zero_le _
  | cons b bytes ih =>
    have hstep : weights (Utf8.decoder.step s b).2 + pendingUtf8 (Utf8.decoder.step s b).1 ≤
        1 + pendingUtf8 s := weights_step_utf8 s b
    have hrest := ih (Utf8.decoder.step s b).1
    rw [StreamDecoder.decodeFrom_cons, weights_append, length_cons]
    omega

/-- A byte in the middle of a well-formed sequence is not counted. -/
theorem weights_middle_utf8_le {s : Utf8.decoder.State} (hneeded : 2 ≤ s.needed)
    (hclean : StreamDecoder.hadErrors (Utf8.decoder.decodeFrom s bytes) = false) :
    weights (Utf8.decoder.decodeFrom s bytes) ≤ bytes.length := by
  cases bytes with
  | nil =>
    have hfinish : Utf8.decoder.finish s = [none] := if_neg (by omega)
    rw [StreamDecoder.decodeFrom_nil, hfinish]
    exact Nat.zero_le 0
  | cons b bytes =>
    rw [StreamDecoder.decodeFrom_cons] at hclean ⊢
    have hstep : Utf8.decoder.step s b = _ := Utf8.step.eq_1 s b
    rw [hstep] at hclean ⊢
    rw [if_neg (by omega)] at hclean ⊢
    split
    · rw [if_neg (by omega)]
      have hpending : pendingUtf8 ⟨s.needed - 1, 0x80, 0xBF, s.codePoint * 64 + b.toNat % 64⟩ =
          1 := if_neg (by simp only; omega)
      have hrest := weights_utf8_le
        ⟨s.needed - 1, 0x80, 0xBF, s.codePoint * 64 + b.toNat % 64⟩ bytes
      rw [hpending] at hrest
      exact hrest
    · next hrange =>
      rw [if_neg hrange] at hclean
      cases hclean

/-- Behind the first byte of three or four, UTF-8 takes more bytes than are counted. -/
theorem weights_utf8_lt {lead : UInt8} (hlead : 0xE0 ≤ lead.toNat)
    (hclean : StreamDecoder.hadErrors (Utf8.decoder.decode (lead :: bytes)) = false) :
    weights (Utf8.decoder.decode (lead :: bytes)) < (lead :: bytes).length := by
  rw [StreamDecoder.decode_eq_decodeFrom, StreamDecoder.decodeFrom_cons] at hclean ⊢
  have hstep : Utf8.decoder.step Utf8.decoder.init lead = Utf8.start lead.toNat := rfl
  rw [hstep] at hclean ⊢
  rw [length_cons, Nat.lt_succ_iff]
  unfold Utf8.start at hclean ⊢
  rw [if_neg (by omega), if_neg (by omega)] at hclean ⊢
  split
  · next hthree =>
    rw [if_pos hthree] at hclean
    exact weights_middle_utf8_le (Nat.le_refl 2) hclean
  · next hthree =>
    rw [if_neg hthree] at hclean
    split
    · next hfour =>
      rw [if_pos hfour] at hclean
      exact weights_middle_utf8_le (Nat.le_succ 2) hclean
    · next hfour =>
      rw [if_neg hfour] at hclean
      cases hclean

/-- A byte waits for its second one. -/
def pendingSjis (s : Option ℕ) : ℕ := if s = none then 0 else 1

theorem characterOf_nonAscii (h : characterOf index pointer = some c) : 0x80 ≤ c.toNat := by
  rw [characterOf] at h
  split at h
  · rw [← Option.some.inj h, toNat_charOfNat (by omega)]
    omega
  · exact index.nonAscii h

theorem weights_start_sjis {b : ℕ} (hclean : StreamDecoder.hadErrors (start b).2 = false) :
    1 ≤ weights (start b).2 + pendingSjis (start b).1 := by
  revert hclean
  fun_cases start b with
  | case1 => exact fun _ => le_weight (Char.ofNat b)
  | case2 => exact fun _ => le_weight (Char.ofNat (0xFF61 - 0xA1 + b))
  | case3 => exact fun _ => Nat.le_refl 1
  | case4 => rintro ⟨⟩

theorem weights_step_sjis (hclean : StreamDecoder.hadErrors (step index s b).2 = false) :
    1 + pendingSjis s ≤ weights (step index s b).2 + pendingSjis (step index s b).1 := by
  cases s with
  | none => exact weights_start_sjis hclean
  | some lead =>
    rw [step] at hclean ⊢
    cases hchar : (pointerOf lead b.toNat).bind (characterOf index) with
    | none =>
      rw [hchar] at hclean
      simp only at hclean
      split at hclean <;> cases hclean
    | some c =>
      obtain ⟨pointer, -, hc⟩ := Option.bind_eq_some_iff.mp hchar
      have hweight := weight_nonAscii (characterOf_nonAscii index hc)
      simp [weights, hweight, pendingSjis]

/-- What is left of a well-formed stream counts its bytes and the one that is pending. -/
theorem le_weights_sjis {s : (decoder index).State}
    (hclean : StreamDecoder.hadErrors ((decoder index).decodeFrom s bytes) = false) :
    bytes.length + pendingSjis s ≤ weights ((decoder index).decodeFrom s bytes) := by
  induction bytes generalizing s with
  | nil =>
    cases s with
    | none => exact Nat.le_refl 0
    | some lead => cases hclean
  | cons b bytes ih =>
    rw [StreamDecoder.decodeFrom_cons, StreamDecoder.hadErrors, any_append,
      Bool.or_eq_false_iff] at hclean
    have hstep : 1 + pendingSjis s ≤ weights ((decoder index).step s b).2 +
        pendingSjis ((decoder index).step s b).1 := weights_step_sjis index hclean.1
    have hrest := ih hclean.2
    rw [StreamDecoder.decodeFrom_cons, weights_append, length_cons]
    omega

/-- Behind a katakana of one byte, more is counted than Shift_JIS takes. -/
theorem lt_weights_sjis {kana : UInt8} (hlower : 0xA1 ≤ kana.toNat) (hupper : kana.toNat ≤ 0xDF)
    (hclean : StreamDecoder.hadErrors ((decoder index).decode (kana :: bytes)) = false) :
    (kana :: bytes).length < weights ((decoder index).decode (kana :: bytes)) := by
  have hstep : (decoder index).step (decoder index).init kana =
      ((decoder index).init, [some (Char.ofNat (0xFF61 - 0xA1 + kana.toNat))]) := by
    have hstart : (decoder index).step (decoder index).init kana = start kana.toNat := rfl
    rw [hstart, start, if_neg (by omega), if_pos ⟨hlower, hupper⟩]
    rfl
  rw [StreamDecoder.decode_eq_decodeFrom, StreamDecoder.decodeFrom_cons, hstep] at hclean ⊢
  have hrest := le_weights_sjis index hclean
  have hweight : weight (Char.ofNat (0xFF61 - 0xA1 + kana.toNat)) = 2 := by
    apply weight_nonAscii
    rw [toNat_charOfNat (by omega)]
    omega
  rw [weights_append, length_cons]
  have hkana : weights [some (Char.ofNat (0xFF61 - 0xA1 + kana.toNat))] = 2 := hweight
  rw [hkana]
  omega

/-- An ASCII byte is the same character in both. -/
theorem decode_ascii (hb : b.toNat < 0x80) (bytes : Bytes) :
    (decoder index).decode (b :: bytes) =
        some (Char.ofNat b.toNat) :: (decoder index).decode bytes ∧
      Utf8.decoder.decode (b :: bytes) =
        some (Char.ofNat b.toNat) :: Utf8.decoder.decode bytes := by
  constructor
  · have hstep : (decoder index).step (decoder index).init b =
        ((decoder index).init, [some (Char.ofNat b.toNat)]) := if_pos (by omega)
    rw [StreamDecoder.decode_eq_decodeFrom, StreamDecoder.decodeFrom_cons, hstep]
    rfl
  · have hstep : Utf8.decoder.step Utf8.decoder.init b =
        (Utf8.decoder.init, [some (Char.ofNat b.toNat)]) := if_pos (by omega)
    rw [StreamDecoder.decode_eq_decodeFrom, StreamDecoder.decodeFrom_cons, hstep]
    rfl

/-- Behind a byte that is not ASCII the two decodings differ. -/
theorem decode_ne_utf8 (hb : 0x80 ≤ b.toNat)
    (hclean : StreamDecoder.hadErrors ((decoder index).decode (b :: bytes)) = false) :
    (decoder index).decode (b :: bytes) ≠ Utf8.decoder.decode (b :: bytes) := by
  intro heq
  have hutf8 : weights (Utf8.decoder.decode (b :: bytes)) ≤ (b :: bytes).length :=
    weights_utf8_le Utf8.decoder.init (b :: bytes)
  have hsjis : (b :: bytes).length ≤ weights ((decoder index).decode (b :: bytes)) :=
    le_weights_sjis index hclean
  by_cases hlead : 0xE0 ≤ b.toNat
  · have := weights_utf8_lt hlead (heq ▸ hclean)
    rw [heq] at hsjis
    omega
  · by_cases hkana : 0xA1 ≤ b.toNat
    · have := lt_weights_sjis index hkana (by omega) hclean
      rw [heq] at this
      omega
    · -- No sequence of UTF-8 begins with such a byte.
      have hstep : Utf8.decoder.step Utf8.decoder.init b = (Utf8.decoder.init, [none]) := by
        have hstart : Utf8.decoder.step Utf8.decoder.init b = Utf8.start b.toNat := rfl
        rw [hstart, Utf8.start, if_neg (by omega), if_neg (by omega), if_neg (by omega),
          if_neg (by omega)]
        rfl
      rw [heq, StreamDecoder.decode_eq_decodeFrom, StreamDecoder.decodeFrom_cons, hstep] at hclean
      cases hclean

/-- Well-formed Shift_JIS is decoded to the same in both encodings exactly when all of it is
ASCII. -/
theorem decode_eq_utf8_iff
    (hclean : StreamDecoder.hadErrors ((decoder index).decode bytes) = false) :
    (decoder index).decode bytes = Utf8.decoder.decode bytes ↔ ∀ b ∈ bytes, b.toNat < 0x80 := by
  induction bytes with
  | nil => simp
  | cons b bytes ih =>
    rw [forall_mem_cons]
    by_cases hascii : b.toNat < 0x80
    · obtain ⟨hsjis, hutf8⟩ := decode_ascii index hascii bytes
      rw [hsjis] at hclean
      rw [hsjis, hutf8, cons_inj_right, ih hclean]
      exact (and_iff_right hascii).symm
    · have hne := decode_ne_utf8 index (Nat.le_of_not_lt hascii) hclean
      exact iff_of_false hne fun hall => hascii hall.1

end TraceMux.Base.ShiftJis
