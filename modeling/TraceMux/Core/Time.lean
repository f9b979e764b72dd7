/-
# Timestamps

The envelope of clock readings that goes with every record: the time at the
source and at the server, the server's monotonic clock, and what is known about
the quality of the source's clock. A float is its bit pattern.
-/

import TraceMux.Base.Text

namespace TraceMux.Core

open Base

abbrev Uuid := BitVec 128

namespace Uuid

/-- The canonical form: 32 hexadecimal digits in groups of 8, 4, 4, 4 and 12. -/
def hyphenated (id : Uuid) : Text :=
  let n := id.toNat
  Text.hexDigits 8 (n / 2 ^ 96) ++ ['-'] ++ Text.hexDigits 4 (n / 2 ^ 80) ++ ['-'] ++
    Text.hexDigits 4 (n / 2 ^ 64) ++ ['-'] ++ Text.hexDigits 4 (n / 2 ^ 48) ++ ['-'] ++
    Text.hexDigits 12 n

example : String.ofList (hyphenated 0xc0ffee) = "00000000-0000-0000-0000-000000c0ffee" := by decide

theorem mem_hyphenated {c : Char} {id : Uuid} (h : c ∈ id.hyphenated) :
    c ∈ "-0123456789abcdef".toList := by
  have hdigits {count n : ℕ} (hc : c ∈ Text.hexDigits count n) :
      c ∈ "-0123456789abcdef".toList := List.mem_cons_of_mem '-' (Text.mem_hexDigits hc)
  have hdash (hc : c ∈ ['-']) : c ∈ "-0123456789abcdef".toList := by
    rw [List.mem_singleton.mp hc]
    exact List.mem_cons_self
  simp only [hyphenated, List.mem_append] at h
  rcases h with (((((((h | h) | h) | h) | h) | h) | h) | h) | h
  all_goals first
    | exact hdigits h
    | exact hdash h

end Uuid

/-- The numbers that a signed 64-bit integer can tell. -/
def InI64 (n : ℤ) : Prop := -2 ^ 63 ≤ n ∧ n < 2 ^ 63

instance decidablePredInI64 : DecidablePred InI64 := fun _ => inferInstanceAs (Decidable (_ ∧ _))

/-- Cast to a signed 64-bit integer: what does not fit wraps around. -/
def wrapI64 (n : ℤ) : ℤ := (n + 2 ^ 63) % 2 ^ 64 - 2 ^ 63

inductive ClockQuality
  | synced
  | bestEffort
  | unknown
  | imported
  deriving DecidableEq, Repr

/-- Where a timestamp came from. -/
inductive ClockSource
  | system
  | ntp
  | ptp
  | monotonic
  | imported
  deriving DecidableEq, Repr

/-- A single-precision float as its bit pattern. -/
abbrev F32 := UInt32

/-- Neither infinite nor not a number: the exponent is not all ones. -/
def F32.isFinite (x : F32) : Bool := (x >>> 23) &&& 0xFF ≠ 0xFF

/-- The timestamps attached to every record and frame. -/
structure DualTimestamp where
  tsOriginNs : ℤ
  tsIngestNs : ℤ
  monoNs : ℕ
  bootId : Uuid
  nodeId : Uuid
  clockOffsetMs : ℤ
  clockQuality : ClockQuality
  driftPpm : F32
  clockSource : ClockSource
  deriving DecidableEq, Repr

/-- The stamp of a host with an unsynchronised clock, for what came in at `ns`. -/
def stampAt (ns : ℤ) : DualTimestamp where
  tsOriginNs := ns
  tsIngestNs := ns
  monoNs := 0
  bootId := 0
  nodeId := 0
  clockOffsetMs := 0
  clockQuality := .unknown
  driftPpm := 0
  clockSource := .system

/-- A source of stamps. The clock moves on between two calls; the number says which reading
of it a call takes. -/
structure TimeSource where
  stampOrigin : ℕ → DualTimestamp
  stampIngest : ℕ → DualTimestamp → DualTimestamp

/-- The time source of the server: the clock of the system and its monotonic clock. -/
structure SystemTimeSource where
  bootId : Uuid
  nodeId : Uuid
  lastOffsetMs : ℤ := 0
  unixNsNow : ℕ → ℤ
  monoNs : ℕ → ℕ

namespace SystemTimeSource

/-- The stamp of what is read here. -/
def stampOrigin (src : SystemTimeSource) (i : ℕ) : DualTimestamp where
  tsOriginNs := src.unixNsNow i
  tsIngestNs := src.unixNsNow i
  monoNs := src.monoNs i
  bootId := src.bootId
  nodeId := src.nodeId
  clockOffsetMs := 0
  clockQuality := .bestEffort
  driftPpm := 0
  clockSource := .system

/-- Stamp what was read elsewhere. What is known of the clock there is kept. -/
def stampIngest (src : SystemTimeSource) (i : ℕ) (origin : DualTimestamp) : DualTimestamp :=
  { origin with
    tsIngestNs := src.unixNsNow i
    monoNs := src.monoNs i
    bootId := src.bootId
    clockOffsetMs := src.lastOffsetMs }

/-- The stamps of a runner, one for every frame. -/
def stamps (src : SystemTimeSource) (i : ℕ) : DualTimestamp :=
  src.stampIngest (2 * i + 1) (src.stampOrigin (2 * i))

def timeSource (src : SystemTimeSource) : TimeSource where
  stampOrigin := src.stampOrigin
  stampIngest := src.stampIngest

end SystemTimeSource

end TraceMux.Core
