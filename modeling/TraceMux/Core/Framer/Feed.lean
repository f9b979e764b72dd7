/-
# Feeding a framer

A runner appends what a source yields to one buffer and takes frames from it until the
framer needs more bytes or fails. Framers without a state of their own are cutters with a
check: what is known of cutting a stream in chunks is known of them.
-/

import TraceMux.Base.Framing
import TraceMux.Core.Pipeline

namespace TraceMux.Core

open Base Base.Framing

namespace Framer

variable (framer : Framer)

def drainFor : ℕ → framer.State → Bytes →
    List Bytes × Except TraceMuxError (framer.State × Bytes)
  | 0, s, buf => ([], .ok (s, buf))
  | n + 1, s, buf =>
    match framer.pollFrame s buf with
    | (.error e, _, _) => ([], .error e)
    | (.ok none, s, buf) => ([], .ok (s, buf))
    | (.ok (some frame), s, buf) => (frame :: (drainFor n s buf).1, (drainFor n s buf).2)

/-- Take frames from a buffer until the framer needs more bytes. Every frame takes a byte at
least, and the last call takes none. -/
def drain (s : framer.State) (buf : Bytes) :
    List Bytes × Except TraceMuxError (framer.State × Bytes) :=
  framer.drainFor (buf.length + 1) s buf

/-- Feed the chunks of a stream: the frames, and what is left in the buffer or the error that
has ended it. -/
def feed : framer.State → Bytes → List Bytes → List Bytes × Except TraceMuxError Bytes
  | _, buf, [] => ([], .ok buf)
  | s, buf, chunk :: rest =>
    match framer.drain s (buf ++ chunk) with
    | (frames, .error e) => (frames, .error e)
    | (frames, .ok (s, buf)) => (frames ++ (feed s buf rest).1, (feed s buf rest).2)

variable {framer} {s s' : framer.State} {buf buf' frame : Bytes} {e : TraceMuxError}

theorem drainFor_eq {n : ℕ} (h : buf.length < n) :
    framer.drainFor n s buf = framer.drain s buf := by
  have hfuel : ∀ (n m : ℕ) (s : framer.State) (buf : Bytes), buf.length < n → buf.length < m →
      framer.drainFor n s buf = framer.drainFor m s buf := by
    intro n
    induction n with
    | zero => exact fun _ _ _ h => absurd h (Nat.not_lt_zero _)
    | succ n ih =>
      intro m s buf hn hm
      cases m with
      | zero => exact absurd hm (Nat.not_lt_zero _)
      | succ m =>
        rw [drainFor, drainFor]
        split
        · rfl
        · rfl
        · next hpoll =>
          have hlt := framer.consumes _ _ _ _ _ hpoll
          rw [ih m _ _ (by omega) (by omega)]
  exact hfuel n (buf.length + 1) s buf h (Nat.lt_succ_self _)

theorem drain_of_none (h : framer.pollFrame s buf = (.ok none, s', buf')) :
    framer.drain s buf = ([], .ok (s', buf')) := by
  rw [drain, drainFor, h]

theorem drain_of_frame (h : framer.pollFrame s buf = (.ok (some frame), s', buf')) :
    framer.drain s buf = (frame :: (framer.drain s' buf').1, (framer.drain s' buf').2) := by
  rw [drain, drainFor, h]
  simp only
  rw [drainFor_eq (framer.consumes _ _ _ _ _ h)]

end Framer

/-- A framer that cuts frames off, and checks what it cannot cut. -/
structure CuttingFramer where
  pollFrame : Bytes → Except TraceMuxError (Option Bytes) × Bytes
  cutter : Cutter UInt8 Bytes
  check : Bytes → Option TraceMuxError
  poll_eq : ∀ buf, pollFrame buf =
    match cutter.cut buf with
    | some (frame, rest) => (.ok (some frame), rest)
    | none =>
      match check buf with
      | some e => (.error e, buf)
      | none => (.ok none, buf)

namespace CuttingFramer

variable (f : CuttingFramer)

def framer : Framer where
  State := Unit
  init := ()
  pollFrame _ buf := ((f.pollFrame buf).1, (), (f.pollFrame buf).2)
  consumes := by
    intro _ buf frame _ buf' h
    rw [f.poll_eq] at h
    split at h
    · next hcut =>
      obtain ⟨-, hrest⟩ := Prod.mk.inj h
      obtain ⟨-, rfl⟩ := Prod.mk.inj hrest
      exact f.cutter.shorter hcut
    · split at h
      · cases h
      · cases h

def feed (chunks : List Bytes) : List Bytes × Except TraceMuxError Bytes :=
  f.framer.feed f.framer.init [] chunks

variable {f}

variable (s : f.framer.State) (buf : Bytes)

theorem framer_pollFrame :
    f.framer.pollFrame s buf = ((f.pollFrame buf).1, f.framer.init, (f.pollFrame buf).2) := rfl

def checked (f : CuttingFramer) (left : Bytes) : Except TraceMuxError (f.framer.State × Bytes) :=
  match f.check left with
  | some e => .error e
  | none => .ok (f.framer.init, left)

theorem drainFor_eq {n : ℕ} {buf : Bytes} (h : buf.length < n) :
    f.framer.drainFor n s buf = (f.cutter.frames buf, f.checked (f.cutter.left buf)) := by
  induction n generalizing s buf with
  | zero => exact absurd h (Nat.not_lt_zero _)
  | succ n ih =>
    rw [Framer.drainFor, framer_pollFrame, f.poll_eq buf]
    cases hcut : f.cutter.cut buf with
    | none =>
      rw [Cutter.frames_of_none hcut, Cutter.left_of_none hcut, checked]
      cases f.check buf <;> rfl
    | some cutOff =>
      have hshorter := f.cutter.shorter hcut
      rw [Cutter.frames_of_some hcut, Cutter.left_of_some hcut]
      simp only
      rw [ih f.framer.init (by omega)]

theorem drain_eq : f.framer.drain s buf = (f.cutter.frames buf, f.checked (f.cutter.left buf)) :=
  drainFor_eq s (Nat.lt_succ_self _)

theorem feed_from (chunks : List Bytes) :
    f.framer.feed s buf chunks = f.cutter.runChecked f.check buf chunks := by
  induction chunks generalizing s buf with
  | nil => rfl
  | cons chunk rest ih =>
    rw [Framer.feed, Cutter.runChecked, drain_eq, checked]
    cases f.check (f.cutter.left (buf ++ chunk)) with
    | some e => rfl
    | none =>
      simp only
      rw [ih]

theorem feed_eq (f : CuttingFramer) (chunks : List Bytes) :
    f.feed chunks = f.cutter.runChecked f.check [] chunks :=
  feed_from ..

end CuttingFramer

end TraceMux.Core
