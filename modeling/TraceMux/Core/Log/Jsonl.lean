/-
# Files of JSON lines

`index.jsonl`, `lines.jsonl` and `frames.jsonl` are written alike: one JSON object
and a line feed for every entry, through a buffered writer on a file opened for
appending. The text of an object is the serialiser's; it reaches the writer in pieces.
-/

import TraceMux.Base.Lines
import TraceMux.Core.Log.Raw
import TraceMux.Core.Pipeline

namespace TraceMux.Core.Log

open Base

/-- Append-only writer of JSON lines. -/
structure JsonlWriter where
  inner : BufWriter defaultBufSize
  deriving DecidableEq

namespace JsonlWriter

def create : JsonlWriter := ⟨.empty⟩

/-- Append one entry, given the pieces of its text: the bytes that go to the file at
once, and the writer after it. -/
def append (w : JsonlWriter) (pieces : List Bytes) : Bytes × JsonlWriter :=
  let written := w.inner.writePieces (pieces ++ [[Lines.lf]])
  (written.1, ⟨written.2⟩)

def flush (w : JsonlWriter) : Bytes × JsonlWriter :=
  let flushed := w.inner.flush
  (flushed.1, ⟨flushed.2⟩)

def appendFlushed (w : JsonlWriter) (pieces : List Bytes) : Bytes × JsonlWriter :=
  let appended := w.append pieces
  let flushed := appended.2.flush
  (appended.1 ++ flushed.1, flushed.2)

theorem appendFlushed_bytes {w : JsonlWriter} (h : w.inner.pending = []) (pieces : List Bytes) :
    (w.appendFlushed pieces).1 = pieces.flatten ++ [Lines.lf] := by
  have hbytes := w.inner.writePieces_bytes (pieces ++ [[Lines.lf]])
  rw [h, List.nil_append, List.flatten_append, List.flatten_singleton] at hbytes
  exact hbytes

end JsonlWriter

end TraceMux.Core.Log
