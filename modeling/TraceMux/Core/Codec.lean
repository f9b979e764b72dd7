/-
# Text of bytes

Bytes are decoded under the encoding of a label; a label that is not known means UTF-8. A
byte order mark at the beginning goes before the label. The decoder of a pipeline decodes
every frame on its own, and the classifier around it adds tags to what was decoded.

Decoding a byte string in pieces gives its text only where no piece depends on the one
before it. The condition is stated for any list of pieces.
-/

import TraceMux.Base.StreamDecoder
import TraceMux.Core.Pipeline

namespace TraceMux.Core.Codec

open Base

structure Encodings where
  forLabel : String → Option StreamDecoder

variable (encodings : Encodings) (label : String)

def encodingForLabel : StreamDecoder := (encodings.forLabel label).getD Utf8.decoder

/-- The encoding a byte order mark stands for, with the length of the mark. -/
def forBom (bytes : Bytes) : Option (StreamDecoder × ℕ) :=
  if [0xEF, 0xBB, 0xBF].isPrefixOf bytes then some (Utf8.decoder, 3)
  else if [0xFF, 0xFE].isPrefixOf bytes then some (Utf16.decoder false, 2)
  else if [0xFE, 0xFF].isPrefixOf bytes then some (Utf16.decoder true, 2)
  else none

def encodingOf (bytes : Bytes) : StreamDecoder :=
  match forBom bytes with
  | some (encoding, _) => encoding
  | none => encodingForLabel encodings label

/-- The bytes without a byte order mark. -/
def withoutBom (bytes : Bytes) : Bytes :=
  match forBom bytes with
  | some (_, length) => bytes.drop length
  | none => bytes

/-- What is decoded of some bytes, malformed parts marked. -/
def decodeUnits (bytes : Bytes) : List (Option Char) :=
  (encodingOf encodings label bytes).decode (withoutBom bytes)

/-- Decode bytes under a label: the text, and whether something had to be replaced. -/
def decode (bytes : Bytes) : Text × Bool :=
  (StreamDecoder.replaced (decodeUnits encodings label bytes),
    StreamDecoder.hadErrors (decodeUnits encodings label bytes))

@[simp]
theorem decode_nil : (decode encodings label []).1 = [] := by
  simp [decode, decodeUnits, withoutBom, forBom, StreamDecoder.replaced]

/-- The text decoder: every frame with bytes becomes one record. -/
def utf8TextDecoder : Decoder Record where
  State := Unit
  init := ()
  decode _ frame :=
    if frame = [] then (.ok none, ())
    else
      let decoded := decode encodings label frame
      (.ok (some {
        text := some (String.ofList decoded.1)
        tags := if decoded.2 then ["decode_error"] else [] }), ())

def addTags (tags new : List String) : List String :=
  new.foldl (fun tags tag => if tag ∈ tags then tags else tags ++ [tag]) tags

/-- A decoder with a classifier, which gives the tags of a text. -/
def classifyingDecoder (inner : Decoder Record) (tagsForText : String → List String) :
    Decoder Record where
  State := inner.State
  init := inner.init
  decode s frame :=
    match inner.decode s frame with
    | (.ok (some record), s') =>
      match record.text with
      | some text => (.ok (some { record with tags := addTags record.tags (tagsForText text) }), s')
      | none => (.ok (some record), s')
    | other => other

/-- Pieces between which nothing is carried over. A byte order mark stands only at the very
beginning, whole and for the encoding of the label, and behind every piece that others
follow the decoder is back in its initial state. -/
def Aligned : List Bytes → Prop
  | [] => True
  | piece :: rest =>
    rest.flatten = [] ∨
      (forBom (piece ++ rest.flatten) = forBom piece ∧
        encodingOf encodings label piece = encodingForLabel encodings label ∧
        ((encodingOf encodings label piece).feed (encodingOf encodings label piece).init
          (withoutBom piece)).1 = (encodingOf encodings label piece).init ∧
        forBom rest.flatten = none ∧ Aligned rest)

variable {encodings label} {bytes piece : Bytes}

theorem length_le_of_forBom {encoding : StreamDecoder} {length : ℕ}
    (h : forBom bytes = some (encoding, length)) : length ≤ bytes.length := by
  revert h
  fun_cases forBom bytes with
  | case1 hbom | case2 _ hbom | case3 _ _ hbom =>
    rintro ⟨⟩
    exact (List.isPrefixOf_iff_prefix.mp hbom).length_le
  | case4 => rintro ⟨⟩

/-- Bytes behind a piece do not change how it is read, when they do not complete a byte
order mark. -/
theorem withoutBom_append (rest : Bytes) (h : forBom (piece ++ rest) = forBom piece) :
    withoutBom (piece ++ rest) = withoutBom piece ++ rest := by
  unfold withoutBom
  rw [h]
  cases hbom : forBom piece with
  | none => rfl
  | some mark => exact List.drop_append_of_le_length (length_le_of_forBom hbom)

theorem decodeUnits_of_forBom (h : forBom bytes = none) :
    decodeUnits encodings label bytes = (encodingForLabel encodings label).decode bytes := by
  rw [decodeUnits, encodingOf, withoutBom, h]

theorem flatMap_decode_of_aligned {pieces : List Bytes} (h : Aligned encodings label pieces) :
    pieces.flatMap (fun piece => (decode encodings label piece).1) =
      (decode encodings label pieces.flatten).1 := by
  induction pieces with
  | nil => simp
  | cons piece rest ih =>
    rw [List.flatMap_cons, List.flatten_cons]
    rcases h with hlast | ⟨hbom, hencoding, hreset, hrest, haligned⟩
    · have hempty : rest.flatMap (fun piece => (decode encodings label piece).1) = [] := by
        rw [List.flatMap_eq_nil_iff]
        intro piece hpiece
        rw [List.flatten_eq_nil_iff.mp hlast piece hpiece, decode_nil]
      rw [hempty, hlast, List.append_nil, List.append_nil]
    · have hsame : encodingOf encodings label (piece ++ rest.flatten) =
          encodingOf encodings label piece := by
        rw [encodingOf, encodingOf, hbom]
      have hunits : decodeUnits encodings label (piece ++ rest.flatten) =
          decodeUnits encodings label piece ++ decodeUnits encodings label rest.flatten := by
        rw [decodeUnits, hsame, withoutBom_append _ hbom, StreamDecoder.decode_append _ hreset,
          decodeUnits_of_forBom hrest, ← hencoding]
        rfl
      rw [ih haligned, decode, decode, decode, hunits]
      exact List.map_append.symm

end TraceMux.Core.Codec
