/-
# Broadcast channels

A channel with one sending side and any number of receivers. Messages are kept
in a ring of fixed capacity; sending never waits. A receiver that has fallen
behind by more than the capacity has lost messages: its next receive reports how
many, and moves it to the oldest message still there.
-/

import Mathlib.Data.List.Basic
import Mathlib.Logic.Function.Basic

namespace TraceMux.Base.Broadcast

/-- Receivers in the order in which they subscribed. -/
abbrev ReceiverId := ℕ

/-- A channel: every message stored so far, oldest first, and for each receiver the
position of the message it reads next. -/
structure Channel (Message : Type*) where
  capacity : ℕ
  sent : List Message
  cursor : ReceiverId → Option ℕ
  nextReceiver : ReceiverId

/-- What a receive finds. -/
inductive Received (Message : Type*)
  | message (m : Message)
  | lagged (missed : ℕ)
  | empty

namespace Channel

variable {Message : Type*}

def new (capacity : ℕ) : Channel Message := ⟨capacity, [], fun _ => none, 0⟩

def receiverCount (c : Channel Message) : ℕ :=
  (List.range c.nextReceiver).countP fun r => (c.cursor r).isSome

/-- Send a message. Without receivers it is returned to the sender and not stored. -/
def send (c : Channel Message) (m : Message) : Option ℕ × Channel Message :=
  if c.receiverCount = 0 then (none, c)
  else (some c.receiverCount, { c with sent := c.sent ++ [m] })

/-- A new receiver reads what is sent from now on. -/
def subscribe (c : Channel Message) : ReceiverId × Channel Message :=
  (c.nextReceiver,
    { c with
      cursor := Function.update c.cursor c.nextReceiver (some c.sent.length)
      nextReceiver := c.nextReceiver + 1 })

def unsubscribe (c : Channel Message) (r : ReceiverId) : Channel Message :=
  { c with cursor := Function.update c.cursor r none }

/-- Receive the next message, or learn how many are lost. -/
def recv (c : Channel Message) (r : ReceiverId) :
    Option (Received Message × Channel Message) :=
  match c.cursor r with
  | none => none
  | some pos =>
    if pos + c.capacity < c.sent.length then
      let oldest := c.sent.length - c.capacity
      some (.lagged (oldest - pos), { c with cursor := Function.update c.cursor r (some oldest) })
    else
      match c.sent[pos]? with
      | some m =>
        some (.message m, { c with cursor := Function.update c.cursor r (some (pos + 1)) })
      | none => some (.empty, c)

/-- How many messages a receiver at this position can still receive. -/
def queued (c : Channel Message) (pos : ℕ) : ℕ := min (c.sent.length - pos) c.capacity

variable {c : Channel Message} {r : ReceiverId} {pos : ℕ}

theorem receiverCount_pos (hlt : r < c.nextReceiver) (h : c.cursor r = some pos) :
    c.receiverCount ≠ 0 := by
  rw [receiverCount, ← Nat.pos_iff_ne_zero, List.countP_pos_iff]
  exact ⟨r, List.mem_range.mpr hlt, by rw [h]; rfl⟩

theorem send_of_receiver (hlt : r < c.nextReceiver) (h : c.cursor r = some pos) (m : Message) :
    (c.send m).2 = { c with sent := c.sent ++ [m] } := by
  rw [send, if_neg (receiverCount_pos hlt h)]

end Channel

end TraceMux.Base.Broadcast
