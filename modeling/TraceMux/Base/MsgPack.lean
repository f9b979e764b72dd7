/-
# MessagePack

Values and their encoding in the shortest form of each family, as the common
writers emit it. Only writing is here. Lengths beyond 32 bits keep their low 32
bits in the header, which is what a writer that casts the length does.
-/

import TraceMux.Base.ByteFile

namespace TraceMux.Base.MsgPack

open List

/-- A MessagePack value. Floats are their bit patterns. -/
inductive Value
  | nil
  | boolean (b : Bool)
  | integer (i : ℤ)
  | f32 (bits : UInt32)
  | f64 (bits : UInt64)
  | string (s : String)
  | binary (data : Bytes)
  | array (items : List Value)
  | map (entries : List (Value × Value))

namespace Value

def asStr : Value → Option String
  | .string s => some s
  | _ => none

/-- The number of a value, if it is one of 64 bits with a sign. -/
def asI64 : Value → Option ℤ
  | .integer i => if -2 ^ 63 ≤ i ∧ i < 2 ^ 63 then some i else none
  | _ => none

/-- The number of a value, if it is one of 64 bits without a sign. -/
def asU64 : Value → Option ℕ
  | .integer i => if 0 ≤ i ∧ i < 2 ^ 64 then some i.toNat else none
  | _ => none

end Value

def toBeBytes (width n : ℕ) : Bytes := (toLeBytes width n).reverse

/-- A header: a short form that holds small lengths in the marker itself, then a
marker with one, two or four length bytes. Families without a one-byte length
skip that form. -/
def header (fixLimit : ℕ) (fix : ℕ → UInt8) (one : Option UInt8) (two four : UInt8) (len : ℕ) :
    Bytes :=
  if len < fixLimit then [fix len]
  else if len < 2 ^ 8 ∧ one.isSome then one.toList ++ toBeBytes 1 len
  else if len < 2 ^ 16 then two :: toBeBytes 2 len
  else four :: toBeBytes 4 len

/-- Integers in the smallest form that holds them. -/
def encodeInteger (i : ℤ) : Bytes :=
  if 0 ≤ i then
    let n := i.toNat
    if n < 2 ^ 7 then [UInt8.ofNat n]
    else if n < 2 ^ 8 then 0xCC :: toBeBytes 1 n
    else if n < 2 ^ 16 then 0xCD :: toBeBytes 2 n
    else if n < 2 ^ 32 then 0xCE :: toBeBytes 4 n
    else 0xCF :: toBeBytes 8 n
  else if -2 ^ 5 ≤ i then [UInt8.ofNat (2 ^ 8 + i).toNat]
  else if -2 ^ 7 ≤ i then 0xD0 :: toBeBytes 1 (2 ^ 8 + i).toNat
  else if -2 ^ 15 ≤ i then 0xD1 :: toBeBytes 2 (2 ^ 16 + i).toNat
  else if -2 ^ 31 ≤ i then 0xD2 :: toBeBytes 4 (2 ^ 32 + i).toNat
  else 0xD3 :: toBeBytes 8 (2 ^ 64 + i).toNat

def encodeString (s : String) : Bytes :=
  let data := s.toUTF8.toList
  header (2 ^ 5) (fun n => UInt8.ofNat (0xA0 + n)) (some 0xD9) 0xDA 0xDB data.length ++ data

def encodeBinary (data : Bytes) : Bytes :=
  header 0 (fun _ => 0) (some 0xC4) 0xC5 0xC6 data.length ++ data

def arrayHeader (len : ℕ) : Bytes :=
  header (2 ^ 4) (fun n => UInt8.ofNat (0x90 + n)) none 0xDC 0xDD len

def mapHeader (len : ℕ) : Bytes :=
  header (2 ^ 4) (fun n => UInt8.ofNat (0x80 + n)) none 0xDE 0xDF len

mutual

def encode : Value → Bytes
  | .nil => [0xC0]
  | .boolean b => [if b then 0xC3 else 0xC2]
  | .integer i => encodeInteger i
  | .f32 bits => 0xCA :: toBeBytes 4 bits.toNat
  | .f64 bits => 0xCB :: toBeBytes 8 bits.toNat
  | .string s => encodeString s
  | .binary data => encodeBinary data
  | .array items => arrayHeader items.length ++ encodeItems items
  | .map entries => mapHeader entries.length ++ encodeEntries entries

def encodeItems : List Value → Bytes
  | [] => []
  | item :: rest => encode item ++ encodeItems rest

def encodeEntries : List (Value × Value) → Bytes
  | [] => []
  | (key, value) :: rest => encode key ++ encode value ++ encodeEntries rest

end

theorem length_header (fixLimit : ℕ) (fix : ℕ → UInt8) (one : Option UInt8) (two four : UInt8)
    (len : ℕ) : 0 < (header fixLimit fix one two four len).length ∧
      (header fixLimit fix one two four len).length ≤ 5 := by
  unfold header
  split
  · simp
  · split
    · cases one <;> simp [toBeBytes, toLeBytes_length]
    · split <;> simp [toBeBytes, toLeBytes_length]

mutual

/-- A bound on the size of a value, with every header as long as it can be. -/
def sizeBound : Value → ℕ
  | .nil => 1
  | .boolean _ => 1
  | .integer _ => 9
  | .f32 _ => 5
  | .f64 _ => 9
  | .string s => s.utf8ByteSize + 5
  | .binary data => data.length + 5
  | .array items => itemsBound items + 5
  | .map entries => entriesBound entries + 5

/-- A bound on the size of values one behind the other. -/
def itemsBound : List Value → ℕ
  | [] => 0
  | item :: rest => sizeBound item + itemsBound rest

def entriesBound : List (Value × Value) → ℕ
  | [] => 0
  | (key, value) :: rest => sizeBound key + sizeBound value + entriesBound rest

end

/-- A map is at least as long as each of its values. -/
theorem encode_le_encode_map {key value : Value} {entries : List (Value × Value)}
    (h : (key, value) ∈ entries) :
    (encode value).length ≤ (encode (.map entries)).length := by
  have hentries : (encode value).length ≤ (encodeEntries entries).length := by
    induction entries with
    | nil => cases h
    | cons entry rest ih =>
      obtain ⟨key', value'⟩ := entry
      rw [encodeEntries, length_append, length_append]
      rcases mem_cons.mp h with heq | hrest
      · cases heq
        omega
      · have := ih hrest
        omega
  rw [encode, length_append]
  omega

end TraceMux.Base.MsgPack
