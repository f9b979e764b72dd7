/-
# Encodings by label

An encoding decodes and encodes. Both directions look up a label and fall back to UTF-8
without a word when the label is not known. `cp932` is offered among the encodings of a
source, next to `shift_jis` and as one of its family, but it is no label of the Encoding
Standard: what is decoded or encoded under it is UTF-8. The two labels agree where UTF-8
and Shift_JIS do, which is on ASCII.
-/

import TraceMux.Base.ShiftJis
import TraceMux.Core.Codec

namespace TraceMux.Core.Codec

open Base

structure Encoding where
  decoder : StreamDecoder
  /-- The bytes of a text, and whether something had to be replaced. -/
  encode : Text → Bytes × Bool

/-- The encodings that are known by a label, in both directions. -/
structure EncodingTable where
  forLabel : String → Option Encoding

namespace Encoding

def utf8 : Encoding := ⟨Utf8.decoder, fun text => (Lines.encode text, false)⟩

def shiftJis (index : ShiftJis.Index) : Encoding :=
  ⟨ShiftJis.decoder index, ShiftJis.encode index⟩

end Encoding

namespace EncodingTable

variable (table : EncodingTable)

def encodings : Encodings := ⟨fun label => (table.forLabel label).map Encoding.decoder⟩

def encodingForLabel (label : String) : Encoding := (table.forLabel label).getD .utf8

end EncodingTable

/-- Encode a text under a label: the bytes, and whether something had to be replaced. -/
def encodeText (table : EncodingTable) (text : Text) (label : String) : Bytes × Bool :=
  (table.encodingForLabel label).encode text

theorem encodingForLabel_encodings (table : EncodingTable) (label : String) :
    encodingForLabel table.encodings label = (table.encodingForLabel label).decoder :=
  Option.getD_map Encoding.decoder .utf8 (table.forLabel label)

section Labels

variable {encodings : Encodings} {label label' : String}

theorem decode_of_forBom_isSome {bytes : Bytes} (h : (forBom bytes).isSome) :
    decode encodings label bytes = decode encodings label' bytes := by
  have hunits : decodeUnits encodings label bytes = decodeUnits encodings label' bytes := by
    obtain ⟨mark, hmark⟩ := Option.isSome_iff_exists.mp h
    rw [decodeUnits, decodeUnits, encodingOf, encodingOf, hmark]
  rw [decode, decode, hunits]

end Labels

/-- The two labels are the same on bytes with a byte order mark, and without one where UTF-8
and Shift_JIS give the same text and the same flag. Of well-formed Shift_JIS, that is ASCII.
They are the same on texts that are ASCII. -/
theorem cp932_shiftJis_iff {table : EncodingTable} {index : ShiftJis.Index}
    (hcp932 : table.forLabel "cp932" = none)
    (hshiftJis : table.forLabel "shift_jis" = some (.shiftJis index)) :
    (∀ bytes, decode table.encodings "cp932" bytes = decode table.encodings "shift_jis" bytes ↔
      (forBom bytes).isSome ∨
        StreamDecoder.replaced (Utf8.decoder.decode bytes) =
            StreamDecoder.replaced ((ShiftJis.decoder index).decode bytes) ∧
          StreamDecoder.hadErrors (Utf8.decoder.decode bytes) =
            StreamDecoder.hadErrors ((ShiftJis.decoder index).decode bytes)) ∧
    (∀ bytes, forBom bytes = none → (decode table.encodings "shift_jis" bytes).2 = false →
      (decode table.encodings "cp932" bytes = decode table.encodings "shift_jis" bytes ↔
        ∀ b ∈ bytes, b.toNat < 0x80)) ∧
    ∀ text, (encodeText table text "cp932").1 = (encodeText table text "shift_jis").1 ↔
      ∀ c ∈ text, c.toNat < 0x80 := by
  have hutf8 : table.encodingForLabel "cp932" = .utf8 := by
    rw [EncodingTable.encodingForLabel, hcp932]
    rfl
  have hsjis : table.encodingForLabel "shift_jis" = .shiftJis index := by
    rw [EncodingTable.encodingForLabel, hshiftJis]
    rfl
  have hdecoder : encodingForLabel table.encodings "cp932" = Utf8.decoder := by
    rw [encodingForLabel_encodings, hutf8]
    rfl
  have hdecoder' : encodingForLabel table.encodings "shift_jis" = ShiftJis.decoder index := by
    rw [encodingForLabel_encodings, hsjis]
    rfl
  refine ⟨?_, ?_, ?_⟩
  · intro bytes
    cases hbom : forBom bytes with
    | some mark =>
      have hsome : (forBom bytes).isSome := Option.isSome_of_eq_some hbom
      exact iff_of_true (decode_of_forBom_isSome hsome) (.inl rfl)
    | none =>
      rw [decode, decode, decodeUnits_of_forBom hbom, decodeUnits_of_forBom hbom, hdecoder,
        hdecoder', Prod.mk.injEq]
      exact (or_iff_right Bool.false_ne_true).symm
  · intro bytes hbom hclean
    rw [decode, decodeUnits_of_forBom hbom, hdecoder'] at hclean
    rw [← ShiftJis.decode_eq_utf8_iff index hclean, decode, decode, decodeUnits_of_forBom hbom,
      decodeUnits_of_forBom hbom, hdecoder, hdecoder', Prod.mk.injEq]
    constructor
    · rintro ⟨htext, hflag⟩
      rw [← StreamDecoder.map_replaced hclean, ← htext]
      exact StreamDecoder.map_replaced (hflag.trans hclean)
    · intro heq
      rw [heq]
      exact ⟨rfl, rfl⟩
  · intro text
    rw [encodeText, encodeText, hutf8, hsjis, eq_comm]
    exact ShiftJis.encode_eq_utf8_iff index text

def hiragana : ShiftJis.Index where
  character pointer :=
    if 282 ≤ pointer ∧ pointer ≤ 364 then some (Char.ofNat (0x3041 + (pointer - 282))) else none
  nonAscii := by
    intro pointer c h
    split at h
    · rw [← Option.some.inj h, ShiftJis.toNat_charOfNat (by omega)]
      omega
    · cases h

/-- UTF-8, and Shift_JIS with the hiragana alone, under two of its labels. -/
def hiraganaTable : EncodingTable where
  forLabel label :=
    if label = "utf-8" then some .utf8
    else if label = "shift_jis" ∨ label = "sjis" then some (.shiftJis hiragana)
    else none

theorem cp932_shiftJis_hiragana :
    hiraganaTable.forLabel "cp932" = none ∧
      hiraganaTable.forLabel "shift_jis" = some (.shiftJis hiragana) ∧
      (encodeText hiraganaTable [Char.ofNat 0x61] "cp932").1 =
        (encodeText hiraganaTable [Char.ofNat 0x61] "shift_jis").1 :=
  ⟨rfl, rfl, ((cp932_shiftJis_iff rfl rfl).2.2 _).mpr
    (List.forall_mem_singleton.mpr (by decide))⟩

/-- The two bytes of one hiragana, and the hiragana. -/
theorem cp932_ne_shiftJis :
    decode hiraganaTable.encodings "shift_jis" [0x82, 0xA0] = ([Char.ofNat 0x3042], false) ∧
      decode hiraganaTable.encodings "cp932" [0x82, 0xA0] =
        ([Char.ofNat 0xFFFD, Char.ofNat 0xFFFD], true) ∧
      encodeText hiraganaTable [Char.ofNat 0x3042] "shift_jis" = ([0x82, 0xA0], false) ∧
      encodeText hiraganaTable [Char.ofNat 0x3042] "cp932" = ([0xE3, 0x81, 0x82], false) := by
  decide +kernel

end TraceMux.Core.Codec
