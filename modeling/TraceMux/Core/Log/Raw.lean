/-
# The raw payload file

`raw.bin` holds the payloads of a session one behind the other. The writer keeps the
offset of the next payload itself: it is read from the file once, when the writer is
opened. The reader seeks to an offset and reads an exact number of bytes.
-/

import TraceMux.Base.ByteFile

namespace TraceMux.Core.Log

open Base List

def defaultBufSize : ℕ := 8 * 1024

/-- The largest length an index row can hold. -/
def u32Max : ℕ := 2 ^ 32 - 1

/-- Append-only writer for `raw.bin`. `pos` counts the bytes appended, the pending ones
included. -/
structure RawWriter where
  inner : BufWriter defaultBufSize
  pos : ℕ
  deriving DecidableEq

namespace RawWriter

/-- Open `raw.bin` for appending. -/
def create (file : Option DiskFile) : RawWriter := ⟨.empty, (DiskFile.contents file).length⟩

/-- Append a payload: its offset and length, the bytes that go to the file at once, and
the writer after it. -/
def append (w : RawWriter) (data : Bytes) : (ℕ × ℕ) × Bytes × RawWriter :=
  let written := w.inner.writeAll data
  ((w.pos, min data.length u32Max), written.1, ⟨written.2, w.pos + data.length⟩)

/-- Flush the buffer: the bytes that go to the file, and the writer after it. -/
def flush (w : RawWriter) : Bytes × RawWriter :=
  let flushed := w.inner.flush
  (flushed.1, ⟨flushed.2, w.pos⟩)

theorem append_bytes (w : RawWriter) (data : Bytes) :
    (w.append data).2.1 ++ (w.append data).2.2.inner.pending = w.inner.pending ++ data :=
  w.inner.writeAll_bytes data

end RawWriter

/-- Random access to `raw.bin`: the `len` bytes at `off`. -/
def readAt (raw : Bytes) (off len : ℕ) : Except IoError Bytes :=
  (((⟨raw, 0⟩ : OpenFile).seekStart off).readExact len).map Prod.fst

theorem readAt_eq (raw : Bytes) (off len : ℕ) :
    readAt raw off len =
      if len ≤ (raw.drop off).length then .ok ((raw.drop off).take len)
      else .error .unexpectedEof := by
  rw [readAt, OpenFile.readExact, OpenFile.seekStart_remaining]
  split <;> rfl

theorem readAt_range (before data after : Bytes) :
    readAt (before ++ (data ++ after)) before.length data.length = .ok data := by
  rw [readAt_eq, drop_left, take_left, if_pos (by simp)]

/-- The offsets and the lengths under which payloads are noted that lie behind each other from
`start` on. -/
def ranges : ℕ → List Bytes → List (ℕ × ℕ)
  | _, [] => []
  | start, data :: rest => (start, min data.length u32Max) :: ranges (start + data.length) rest

/-- Each range denotes its payload, as far as its length can say, also when the file grows. -/
theorem readAt_ranges (payloads : List Bytes) (before after : Bytes) :
    (ranges before.length payloads).map
        (fun range => readAt (before ++ (payloads.flatten ++ after)) range.1 range.2) =
      payloads.map fun data => .ok (data.take u32Max) := by
  induction payloads generalizing before with
  | nil => rfl
  | cons data rest ih =>
    have hlen : min data.length u32Max = (data.take u32Max).length := by
      rw [length_take, Nat.min_comm]
    have hbytes : before ++ ((data :: rest).flatten ++ after) =
        (before ++ data) ++ (rest.flatten ++ after) := by
      simp
    have hfirst : readAt (before ++ ((data :: rest).flatten ++ after))
        before.length (data.take u32Max).length = .ok (data.take u32Max) := by
      have hsplit : before ++ ((data :: rest).flatten ++ after) =
          before ++ (data.take u32Max ++ (data.drop u32Max ++ (rest.flatten ++ after))) := by
        rw [hbytes, append_assoc, ← append_assoc (data.take u32Max), take_append_drop]
      rw [hsplit]
      apply readAt_range
    have hrest := ih (before ++ data)
    rw [← hbytes, length_append] at hrest
    rw [ranges, map_cons, map_cons, hrest, hlen, hfirst]

theorem readAt_append {raw data : Bytes} {off len : ℕ} (h : readAt raw off len = .ok data)
    (more : Bytes) : readAt (raw ++ more) off len = .ok data := by
  rw [readAt_eq] at h ⊢
  split at h
  · next hle =>
    rw [drop_append, length_append, if_pos (Nat.le_add_right_of_le hle),
      take_append_of_le_length hle, h]
  · cases h

end TraceMux.Core.Log
