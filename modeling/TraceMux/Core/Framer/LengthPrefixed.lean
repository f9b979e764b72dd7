/-
# The length-prefixed framer

A header of one, two, four or eight bytes declares how long the payload behind it is, with
or without the header itself. The framer is a stable cutter; what it refuses is a header
that declares more than the limit. Payloads that are within the limit come back from their
encoding, in whatever chunks it arrives.

Lengths are natural numbers. The sum of header and payload is a `usize` in the source, and a
limit below `2 ^ 32` keeps it far from its end.
-/

import TraceMux.Core.Framer.Feed

namespace TraceMux.Core

open Base Base.Framing List

/-- Width of the length prefix. -/
inductive HeaderWidth
  | u8
  | u16
  | u32
  | u64
  deriving DecidableEq, Repr

def HeaderWidth.bytes : HeaderWidth → ℕ
  | .u8 => 1
  | .u16 => 2
  | .u32 => 4
  | .u64 => 8

theorem HeaderWidth.bytes_pos (width : HeaderWidth) : 0 < width.bytes := by
  cases width <;> decide

/-- Endian-ness of the length header. -/
inductive Endian
  | big
  | little
  deriving DecidableEq, Repr

structure LengthPrefixedFramer where
  width : HeaderWidth
  endian : Endian
  includeHeader : Bool
  maxFrame : ℕ
  deriving DecidableEq, Repr

namespace LengthPrefixedFramer

variable (f : LengthPrefixedFramer)

/-- The number in a header. -/
def readLen (hdr : Bytes) : ℕ :=
  match f.width, f.endian with
  | .u8, _ => fromLeBytes hdr
  | _, .big => fromLeBytes hdr.reverse
  | _, .little => fromLeBytes hdr

/-- How long the payload behind a header is. -/
def payloadLen (hdr : Bytes) : ℕ :=
  if f.includeHeader then f.readLen hdr - f.width.bytes else f.readLen hdr

/-- The error of a header that declares too much. -/
def overflow (declared : ℕ) : TraceMuxError :=
  ⟨.E1003FramerOverflow, s!"length-prefixed: declared {declared} > max {f.maxFrame}"⟩

def pollFrame (buf : Bytes) : Except TraceMuxError (Option Bytes) × Bytes :=
  let hdrLen := f.width.bytes
  if buf.length < hdrLen then
    (.ok none, buf)
  else
    let payloadLen := f.payloadLen (buf.take hdrLen)
    if f.maxFrame < payloadLen then
      (.error (f.overflow payloadLen), buf)
    else if buf.length < hdrLen + payloadLen then
      (.ok none, buf)
    else
      (.ok (some ((buf.drop hdrLen).take payloadLen)), (buf.drop hdrLen).drop payloadLen)

def declared (buf : Bytes) : ℕ := f.payloadLen (buf.take f.width.bytes)

/-- The buffer begins with a whole frame. -/
def Complete (buf : Bytes) : Prop :=
  f.width.bytes + f.declared buf ≤ buf.length ∧ f.declared buf ≤ f.maxFrame

instance (buf : Bytes) : Decidable (f.Complete buf) := inferInstanceAs (Decidable (_ ∧ _))

/-- Cut the first frame off. -/
def cut (buf : Bytes) : Option (Bytes × Bytes) :=
  if f.Complete buf then
    some ((buf.drop f.width.bytes).take (f.declared buf),
      (buf.drop f.width.bytes).drop (f.declared buf))
  else
    none

def lengthCutter : Cutter UInt8 Bytes where
  cut := f.cut
  suffix := by
    intro buf frame rest h
    rw [cut] at h
    split at h
    · cases h
      exact (List.drop_suffix _ _).trans (List.drop_suffix _ _)
    · cases h
  shorter := by
    intro buf frame rest h
    rw [cut] at h
    split at h
    · next hcomplete =>
      cases h
      have hpos := f.width.bytes_pos
      have hlength := hcomplete.1
      rw [List.length_drop, List.length_drop]
      omega
    · cases h

/-- The check of a buffer without a whole frame. -/
def check (buf : Bytes) : Option TraceMuxError :=
  if f.width.bytes ≤ buf.length ∧ f.maxFrame < f.declared buf then
    some (f.overflow (f.declared buf))
  else
    none

/-- The length-prefixed framer cuts frames, and checks the header of what is not one yet. -/
def cutting : CuttingFramer where
  pollFrame := f.pollFrame
  cutter := f.lengthCutter
  check := f.check
  poll_eq := by
    intro buf
    have hcut : f.lengthCutter.cut buf = f.cut buf := rfl
    have hdeclared : f.payloadLen (buf.take f.width.bytes) = f.declared buf := rfl
    rw [hcut, cut, check, pollFrame]
    simp only [hdeclared]
    by_cases hshort : buf.length < f.width.bytes
    · rw [if_pos hshort, if_neg fun h => absurd h.1 (by omega),
        if_neg fun h => absurd h.1 (Nat.not_le.mpr hshort)]
    · rw [if_neg hshort]
      by_cases hmax : f.maxFrame < f.declared buf
      · rw [if_pos hmax, if_neg fun h => absurd h.2 (Nat.not_le.mpr hmax),
          if_pos ⟨Nat.le_of_not_lt hshort, hmax⟩]
      · rw [if_neg hmax]
        by_cases hpayload : buf.length < f.width.bytes + f.declared buf
        · rw [if_pos hpayload, if_neg fun h => absurd h.1 (Nat.not_le.mpr hpayload),
            if_neg fun h => hmax h.2]
        · rw [if_neg hpayload, if_pos ⟨Nat.le_of_not_lt hpayload, Nat.le_of_not_lt hmax⟩]

def feed (chunks : List Bytes) : List Bytes × Except TraceMuxError Bytes :=
  f.cutting.feed chunks

theorem stable : f.lengthCutter.Stable := by
  intro buf frame rest hcut more
  have hcut' : f.cut buf = some (frame, rest) := hcut
  rw [cut] at hcut'
  split at hcut'
  · next hcomplete =>
    have hlength := hcomplete.1
    have hdeclared : f.declared (buf ++ more) = f.declared buf := by
      rw [declared, take_append_of_le_length (by omega)]
      rfl
    have hcomplete' : f.Complete (buf ++ more) := by
      rw [Complete, hdeclared, length_append]
      exact ⟨by omega, hcomplete.2⟩
    cases hcut'
    show f.cut (buf ++ more) = _
    rw [cut, if_pos hcomplete', hdeclared, drop_append_of_le_length (by omega),
      take_append_of_le_length (by rw [length_drop]; omega),
      drop_append_of_le_length (by rw [length_drop]; omega)]
  · cases hcut'

/-! ## Encoding

What a peer sends: the payload behind a header that declares it. -/

def declaration (payload : Bytes) : ℕ :=
  if f.includeHeader then payload.length + f.width.bytes else payload.length

def header (n : ℕ) : Bytes :=
  match f.endian with
  | .big => (toLeBytes f.width.bytes n).reverse
  | .little => toLeBytes f.width.bytes n

def encode (payload : Bytes) : Bytes := f.header (f.declaration payload) ++ payload

/-- The payload is within the limit, and the header has room for its length. -/
def Fits (payload : Bytes) : Prop :=
  payload.length ≤ f.maxFrame ∧ f.declaration payload < 256 ^ f.width.bytes

instance (payload : Bytes) : Decidable (f.Fits payload) := inferInstanceAs (Decidable (_ ∧ _))

variable {f} {payload : Bytes}

theorem length_header (n : ℕ) : (f.header n).length = f.width.bytes := by
  rw [header]
  split <;> simp

theorem readLen_header {n : ℕ} (h : n < 256 ^ f.width.bytes) : f.readLen (f.header n) = n := by
  have hread := fromLeBytes_toLeBytes h
  have hback : fromLeBytes (toLeBytes f.width.bytes n).reverse.reverse = n := by
    rwa [reverse_reverse]
  obtain ⟨width, endian, includeHeader, maxFrame⟩ := f
  cases endian with
  | little => cases width <;> exact hread
  | big =>
    cases width with
    | u8 => exact hread
    | u16 => exact hback
    | u32 => exact hback
    | u64 => exact hback

section

variable (h : f.Fits payload)
include h

theorem payloadLen_header : f.payloadLen (f.header (f.declaration payload)) = payload.length := by
  rw [payloadLen, readLen_header h.2, declaration]
  split
  · exact Nat.add_sub_cancel _ _
  · rfl

theorem declared_of_prefix {buf : Bytes} (hbuf : f.header (f.declaration payload) <+: buf) :
    f.declared buf = payload.length := by
  obtain ⟨rest, rfl⟩ := hbuf
  rw [declared, ← length_header (f.declaration payload), take_left, payloadLen_header h]

theorem cut_encode (rest : Bytes) : f.cut (f.encode payload ++ rest) = some (payload, rest) := by
  have hheader : (f.header (f.declaration payload)).length = f.width.bytes := length_header _
  have hdeclared : f.declared (f.encode payload ++ rest) = payload.length := by
    apply declared_of_prefix h
    exact ⟨payload ++ rest, by rw [encode, append_assoc]⟩
  have hcomplete : f.Complete (f.encode payload ++ rest) := by
    rw [Complete, hdeclared, encode, length_append, length_append, hheader]
    exact ⟨by omega, h.1⟩
  rw [cut, if_pos hcomplete, hdeclared, encode, append_assoc, ← hheader, drop_left,
    take_left, drop_left]

theorem cut_part {part : Bytes} (hpart : part <+: f.encode payload)
    (hne : part ≠ f.encode payload) : f.cut part = none ∧ f.check part = none := by
  have hlt : part.length < f.width.bytes + payload.length := by
    have hlength := hpart.length_le.lt_of_ne fun heq => hne (hpart.eq_of_length heq)
    rwa [encode, length_append, length_header] at hlength
  rw [cut, check]
  by_cases hshort : part.length < f.width.bytes
  · exact ⟨if_neg fun h => absurd h.1 (by omega), if_neg fun h => absurd h.1 (by omega)⟩
  · -- The header is there, and declares the payload.
    have hheader : f.header (f.declaration payload) <+: part := by
      apply prefix_of_prefix_length_le (prefix_append _ payload) hpart
      rw [length_header]
      omega
    have hdeclared := declared_of_prefix h hheader
    have hcomplete : ¬ f.Complete part := by
      intro hcomplete
      have := hdeclared ▸ hcomplete.1
      omega
    rw [if_neg hcomplete, hdeclared]
    exact ⟨rfl, if_neg fun hlong => absurd h.1 (Nat.not_le.mpr hlong.2)⟩

end

/-- Payloads within the limit, encoded one behind the other, come back in order from every
division of the encoding into chunks, and nothing is left over. -/
theorem feed_encoded {payloads chunks : List Bytes} (hfits : ∀ payload ∈ payloads, f.Fits payload)
    (hchunks : chunks.flatten = payloads.flatMap f.encode) :
    f.feed chunks = (payloads, .ok []) := by
  rw [feed, CuttingFramer.feed_eq]
  apply f.stable.runChecked_flatMap _ _ _ hchunks
  · exact fun payload hpayload => cut_encode (hfits payload hpayload)
  · exact fun payload hpayload part hpart hne => cut_part (hfits payload hpayload) hpart hne
  · exact if_neg fun h => absurd h.1 (Nat.not_le.mpr f.width.bytes_pos)

/-- Two payloads behind headers of two bytes, with a boundary inside a header. -/
theorem feed_encoded_divided :
    (LengthPrefixedFramer.mk .u16 .big true 4).feed [[0], [3, 97, 0], [2]] =
      ([[97], []], .ok []) := by
  have hfits : ∀ payload ∈ [[97], []], (LengthPrefixedFramer.mk .u16 .big true 4).Fits payload := by
    decide
  exact feed_encoded hfits (by decide)

end LengthPrefixedFramer

end TraceMux.Core
