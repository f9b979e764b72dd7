/-
# Byte files

A regular file as the operating system shows it to a program: a finite string
of bytes, and for every open handle a cursor into it. Only the operations an
append-oriented program needs are here: reading an exact number of bytes at the
cursor, overwriting at the cursor, and cutting the file to a length.

Reads fail in one way only, by meeting the end of the file. Writes are complete;
a program that must survive an incomplete write is given the shorter file. A buffered writer
hands small writes over in larger ones; it loses and reorders nothing.
-/

import Mathlib.Data.List.Basic
import Mathlib.Tactic.Linarith
import Mathlib.Tactic.Ring

namespace TraceMux.Base

abbrev Bytes := List UInt8

/-- The errors a file operation can report. -/
inductive IoError
  | unexpectedEof
  | other (message : String)
  deriving DecidableEq, Repr

namespace IoError

def display : IoError → String
  | .unexpectedEof => "failed to fill whole buffer"
  | .other message => message

end IoError

/-- An open handle: the contents of the file and the position of the cursor. -/
structure OpenFile where
  bytes : Bytes
  pos : ℕ
  deriving DecidableEq, Repr

namespace OpenFile

def remaining (f : OpenFile) : Bytes := f.bytes.drop f.pos

/-- Move the cursor to an absolute position. -/
def seekStart (f : OpenFile) (pos : ℕ) : OpenFile := { f with pos := pos }

/-- Read exactly `n` bytes at the cursor, or report the end of the file. -/
def readExact (f : OpenFile) (n : ℕ) : Except IoError (Bytes × OpenFile) :=
  if n ≤ f.remaining.length then
    .ok (f.remaining.take n, { f with pos := f.pos + n })
  else .error .unexpectedEof

/-- Write `data` at the cursor. A cursor behind the end leaves a run of zero
bytes in the gap, as a regular file does. -/
def writeAll (f : OpenFile) (data : Bytes) : OpenFile where
  bytes := f.bytes.take f.pos ++ List.replicate (f.pos - f.bytes.length) 0 ++ data ++
    f.bytes.drop (f.pos + data.length)
  pos := f.pos + data.length

/-- Cut the file, or extend it with zero bytes, to `len` bytes. The cursor does
not move. -/
def setLen (f : OpenFile) (len : ℕ) : OpenFile :=
  { f with bytes := f.bytes.take len ++ List.replicate (len - f.bytes.length) 0 }

@[simp]
theorem seekStart_remaining (f : OpenFile) (pos : ℕ) :
    (f.seekStart pos).remaining = f.bytes.drop pos := rfl

variable {f : OpenFile} {data : Bytes} {n : ℕ}

theorem readExact_of_remaining {rest : Bytes} (h : f.remaining = data ++ rest) :
    f.readExact data.length = .ok (data, { f with pos := f.pos + data.length }) := by
  have hlen : data.length ≤ f.remaining.length := by simp [h]
  rw [readExact, if_pos hlen, h, List.take_left]

theorem readExact_of_short (h : f.remaining.length < n) :
    f.readExact n = .error .unexpectedEof := by
  rw [readExact, if_neg (by omega)]

theorem readExact_ok {g : OpenFile} (h : f.readExact n = .ok (data, g)) :
    n ≤ f.remaining.length ∧ data = f.remaining.take n ∧ g = { f with pos := f.pos + n } := by
  unfold readExact at h
  split at h
  · next hle =>
    simp only [Except.ok.injEq, Prod.mk.injEq] at h
    exact ⟨hle, h.1.symm, h.2.symm⟩
  · cases h

theorem readExact_length {g : OpenFile} (h : f.readExact n = .ok (data, g)) :
    data.length = n := by
  obtain ⟨hle, rfl, -⟩ := readExact_ok h
  rw [List.length_take, Nat.min_eq_left hle]

theorem readExact_error {e : IoError} (h : f.readExact n = .error e) :
    e = .unexpectedEof ∧ f.remaining.length < n := by
  unfold readExact at h
  split at h
  · cases h
  · next hlt =>
    simp only [Except.error.injEq] at h
    exact ⟨h.symm, by omega⟩

theorem remaining_advance (f : OpenFile) (n : ℕ) :
    ({ f with pos := f.pos + n } : OpenFile).remaining = f.remaining.drop n := by
  simp [remaining, List.drop_drop]

theorem readExact_remaining {g : OpenFile} (h : f.readExact n = .ok (data, g)) :
    g.remaining = f.remaining.drop n := by
  obtain ⟨-, -, rfl⟩ := readExact_ok h
  exact f.remaining_advance n

theorem exists_readExact {rest : Bytes} (h : f.remaining = data ++ rest) (hn : data.length = n) :
    ∃ g, f.readExact n = .ok (data, g) ∧ g.remaining = rest := by
  subst hn
  have hread := readExact_of_remaining h
  refine ⟨_, hread, ?_⟩
  rw [readExact_remaining hread, h, List.drop_left]

theorem writeAll_at_end (h : f.pos = f.bytes.length) (data : Bytes) :
    f.writeAll data = ⟨f.bytes ++ data, f.bytes.length + data.length⟩ := by
  simp [writeAll, h]

theorem setLen_bytes_of_le {len : ℕ} (h : len ≤ f.bytes.length) :
    (f.setLen len).bytes = f.bytes.take len := by
  have hzero : len - f.bytes.length = 0 := by omega
  simp [setLen, hzero]

end OpenFile

/-- A reading of the system clock, in nanoseconds since the Unix epoch. -/
abbrev SystemTime := ℤ

structure DiskFile where
  bytes : Bytes
  modified : SystemTime
  deriving DecidableEq, Repr

namespace DiskFile

def contents : Option DiskFile → Bytes
  | some file => file.bytes
  | none => []

/-- Open for appending; a file that does not exist is created. -/
def openAppend (now : SystemTime) : Option DiskFile → Option DiskFile
  | some file => some file
  | none => some ⟨[], now⟩

def append (now : SystemTime) (file : Option DiskFile) (data : Bytes) : Option DiskFile :=
  if data = [] then file else some ⟨contents file ++ data, now⟩

/-- Replace the whole file. -/
def write (now : SystemTime) (data : Bytes) : Option DiskFile := some ⟨data, now⟩

@[simp]
theorem contents_some (file : DiskFile) : contents (some file) = file.bytes := rfl

variable (now : SystemTime) (file : Option DiskFile)

@[simp]
theorem contents_openAppend : contents (openAppend now file) = contents file := by
  cases file <;> rfl

@[simp]
theorem contents_append (data : Bytes) :
    contents (append now file data) = contents file ++ data := by
  by_cases hdata : data = []
  · simp [append, hdata]
  · simp [append, hdata]

theorem isSome_openAppend : (openAppend now file).isSome := by
  cases file <;> rfl

theorem isSome_append {now : SystemTime} {file : Option DiskFile} {data : Bytes}
    (h : file.isSome) : (append now file data).isSome := by
  unfold append
  split
  · exact h
  · rfl

end DiskFile

/-- A buffer of at most `capacity` pending bytes. -/
structure BufWriter (capacity : ℕ) where
  pending : Bytes
  fits : pending.length ≤ capacity
  deriving DecidableEq

namespace BufWriter

variable {capacity : ℕ}

def empty : BufWriter capacity := ⟨[], Nat.zero_le _⟩

/-- Room left in the buffer. -/
def spare (w : BufWriter capacity) : ℕ := capacity - w.pending.length

def push (w : BufWriter capacity) (data : Bytes) (h : data.length ≤ w.spare) :
    BufWriter capacity where
  pending := w.pending ++ data
  fits := by
    have := w.fits
    rw [spare] at h
    rw [List.length_append]
    omega

/-- Write all of `data`: the bytes handed to the file, and the buffer after. Data
that does not fit makes room first; data as large as the buffer goes around it. -/
def writeAll (w : BufWriter capacity) (data : Bytes) : Bytes × BufWriter capacity :=
  if h : data.length ≤ w.spare then
    if data.length < capacity then ([], w.push data h) else (data, w)
  else if h : data.length < capacity then
    (w.pending, (empty : BufWriter capacity).push data (Nat.le_of_lt h))
  else (w.pending ++ data, empty)

def writePieces (w : BufWriter capacity) : List Bytes → Bytes × BufWriter capacity
  | [] => ([], w)
  | piece :: rest =>
    let first := w.writeAll piece
    let later := first.2.writePieces rest
    (first.1 ++ later.1, later.2)

/-- Hand over everything. -/
def flush (w : BufWriter capacity) : Bytes × BufWriter capacity := (w.pending, empty)

@[simp]
theorem empty_pending : (empty : BufWriter capacity).pending = [] := rfl

theorem writeAll_bytes (w : BufWriter capacity) (data : Bytes) :
    (w.writeAll data).1 ++ (w.writeAll data).2.pending = w.pending ++ data := by
  unfold writeAll
  split
  · next hspare =>
    split
    · rfl
    · next hlarge =>
      have hempty : w.pending = [] := by
        rw [← List.length_eq_zero_iff]
        rw [spare] at hspare
        have hfits := w.fits
        omega
      simp [hempty]
  · split
    · simp [push]
    · simp

theorem writePieces_bytes (w : BufWriter capacity) (pieces : List Bytes) :
    (w.writePieces pieces).1 ++ (w.writePieces pieces).2.pending = w.pending ++ pieces.flatten := by
  induction pieces generalizing w with
  | nil => simp [writePieces]
  | cons piece rest ih =>
    rw [writePieces, List.append_assoc, ih, ← List.append_assoc, writeAll_bytes,
      List.append_assoc, List.flatten_cons]

end BufWriter

/-- The `width` low-order bytes of `n`, least significant first. -/
def toLeBytes : ℕ → ℕ → Bytes
  | 0, _ => []
  | width + 1, n => UInt8.ofNat (n % 256) :: toLeBytes width (n / 256)

def fromLeBytes : Bytes → ℕ
  | [] => 0
  | b :: rest => b.toNat + 256 * fromLeBytes rest

@[simp]
theorem toLeBytes_length (width n : ℕ) : (toLeBytes width n).length = width := by
  induction width generalizing n with
  | zero => rfl
  | succ width ih => simp [toLeBytes, ih]

theorem fromLeBytes_toLeBytes_mod (width n : ℕ) :
    fromLeBytes (toLeBytes width n) = n % 256 ^ width := by
  induction width generalizing n with
  | zero => simp [toLeBytes, fromLeBytes, Nat.mod_one]
  | succ width ih =>
    have hbyte : (UInt8.ofNat (n % 256)).toNat = n % 256 := by
      simp [UInt8.toNat_ofNat']
    rw [toLeBytes, fromLeBytes, ih, hbyte, pow_succ, mul_comm (256 ^ width) 256, Nat.mod_mul]

theorem fromLeBytes_toLeBytes {width n : ℕ} (h : n < 256 ^ width) :
    fromLeBytes (toLeBytes width n) = n := by
  rw [fromLeBytes_toLeBytes_mod, Nat.mod_eq_of_lt h]

theorem toLeBytes_fromLeBytes (bytes : Bytes) :
    toLeBytes bytes.length (fromLeBytes bytes) = bytes := by
  induction bytes with
  | nil => rfl
  | cons b rest ih =>
    have hb : b.toNat < 256 := b.toNat_lt
    have hlow : (b.toNat + 256 * fromLeBytes rest) % 256 = b.toNat := by omega
    have hhigh : (b.toNat + 256 * fromLeBytes rest) / 256 = fromLeBytes rest := by omega
    rw [List.length_cons, toLeBytes, fromLeBytes, hlow, hhigh, ih, UInt8.ofNat_toNat]

end TraceMux.Base
