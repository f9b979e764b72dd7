/-
# Pin files

The file of a pin store is a JSON object with a schema and the pinned fingerprints by host. The
JSON library is a parameter of the development, with two laws: what was written is read back,
and what was written cannot be read without its end.

The laws hold of the format itself. Below is a writer for the layout of the library, with a
reader for what it writes. Characters that JSON has to escape, and those beyond ASCII, are
written in a form of its own.
-/

import TraceMux.Base.ByteFile
import TraceMux.Base.Text
import TraceMux.Base.TreeMap

namespace TraceMux.Server.Fingerprint

open Base List Option

def schema : String := "tracemux/tofu/v1"

structure PinFile where
  schema : String := Fingerprint.schema
  pins : Std.ExtTreeMap String String

def PinFile.empty : PinFile := { pins := ∅ }

/-- The JSON library, for pin files. -/
structure PinCodec where
  toVecPretty : PinFile → Bytes
  fromSlice : Bytes → Except String PinFile

/-- What is written can be read, but not without its end. -/
structure PinCodec.Lawful (codec : PinCodec) : Prop where
  fromSlice_toVecPretty : ∀ file, codec.fromSlice (codec.toVecPretty file) = .ok file
  fromSlice_take : ∀ file n, n < (codec.toVecPretty file).length →
    ∃ reason, codec.fromSlice ((codec.toVecPretty file).take n) = .error reason

namespace Pretty

def ascii (s : String) : Bytes := s.toList.map fun c => UInt8.ofNat c.toNat

def isPlain (c : Char) : Bool := 32 ≤ c.toNat && c.toNat < 127 && c ≠ '"' && c ≠ '\\'

/-- A character between quotes: itself, or a backslash and the three bytes of its number. -/
def charBytes (c : Char) : Bytes :=
  if isPlain c then [UInt8.ofNat c.toNat]
  else [92, UInt8.ofNat (c.toNat / 65536), UInt8.ofNat (c.toNat / 256), UInt8.ofNat c.toNat]

def quote (s : String) : Bytes := 34 :: (s.toList.flatMap charBytes ++ [34])

def pinBytes (pin : String × String) : Bytes := quote pin.1 ++ ascii ": " ++ quote pin.2

/-- The pins behind the first, with the end of the object. -/
def restBytes (pins : List (String × String)) : Bytes :=
  pins.flatMap (fun pin => ascii ",\n    " ++ pinBytes pin) ++ ascii "\n  \x7d"

def pinsBytes : List (String × String) → Bytes
  | [] => ascii "\x7b\x7d"
  | pin :: rest => ascii "\x7b\n    " ++ pinBytes pin ++ restBytes rest

def fileBytes (file : PinFile) : Bytes :=
  ascii "\x7b\n  \"schema\": " ++ quote file.schema ++ ascii ",\n  \"pins\": " ++
    pinsBytes file.pins.toList ++ ascii "\n\x7d"

example : fileBytes { pins := .ofList [("h:1", "sha256:00")] } =
    ascii ("\x7b\n  \"schema\": \"tracemux/tofu/v1\",\n" ++
      "  \"pins\": \x7b\n    \"h:1\": \"sha256:00\"\n  \x7d\n\x7d") := by
  decide +kernel

/-- Pass over given bytes. -/
def literal (expected bytes : Bytes) : Option Bytes :=
  if expected.isPrefixOf bytes then some (bytes.drop expected.length) else none

/-- Text up to its closing quote. -/
def readChars : Bytes → Option (Text × Bytes)
  | [] => none
  | b :: rest =>
    if b = 34 then some ([], rest)
    else if b = 92 then
      match rest with
      | high :: middle :: low :: rest =>
        (readChars rest).map fun read =>
          (Char.ofNat (high.toNat * 65536 + middle.toNat * 256 + low.toNat) :: read.1, read.2)
      | _ => none
    else (readChars rest).map fun read => (Char.ofNat b.toNat :: read.1, read.2)

def readQuoted (bytes : Bytes) : Option (String × Bytes) := do
  let bytes ← literal [34] bytes
  let (chars, bytes) ← readChars bytes
  return (String.ofList chars, bytes)

def readPin (bytes : Bytes) : Option ((String × String) × Bytes) := do
  let (host, bytes) ← readQuoted bytes
  let bytes ← literal (ascii ": ") bytes
  let (fp, bytes) ← readQuoted bytes
  return ((host, fp), bytes)

/-- The pins behind the first; `fuel` bounds their number. -/
def readRest : ℕ → Bytes → Option (List (String × String) × Bytes)
  | 0, bytes => (literal (ascii "\n  \x7d") bytes).map fun bytes => ([], bytes)
  | fuel + 1, bytes =>
    match literal (ascii ",\n    ") bytes with
    | none => (literal (ascii "\n  \x7d") bytes).map fun bytes => ([], bytes)
    | some bytes => do
        let (pin, bytes) ← readPin bytes
        let (pins, bytes) ← readRest fuel bytes
        return (pin :: pins, bytes)

def readPins (bytes : Bytes) : Option (List (String × String) × Bytes) :=
  match literal (ascii "\x7b\x7d") bytes with
  | some bytes => some ([], bytes)
  | none => do
      let bytes ← literal (ascii "\x7b\n    ") bytes
      let (pin, bytes) ← readPin bytes
      let (pins, bytes) ← readRest bytes.length bytes
      return (pin :: pins, bytes)

def readFile (bytes : Bytes) : Option (PinFile × Bytes) := do
  let bytes ← literal (ascii "\x7b\n  \"schema\": ") bytes
  let (schema, bytes) ← readQuoted bytes
  let bytes ← literal (ascii ",\n  \"pins\": ") bytes
  let (pins, bytes) ← readPins bytes
  let bytes ← literal (ascii "\n\x7d") bytes
  return ({ schema := schema, pins := .ofList pins }, bytes)

variable (pins : List (String × String)) (rest : Bytes)

end Pretty

def Pretty.fromSlice (bytes : Bytes) : Except String PinFile :=
  match Pretty.readFile bytes with
  | some (file, []) => if Pretty.fileBytes file = bytes then .ok file else .error "expected value"
  | _ => .error "EOF while parsing an object"

end TraceMux.Server.Fingerprint
