/-
# One-time tickets

A ledger keeps tickets that stand for a grant until they are redeemed or expire. Beside the
table of live tickets it has a journal of who was issued which ticket and who redeemed it.

A ledger is sound when the journal tells a proper story: every redemption comes after the
issue of the same ticket for the same grant, the clock read by the redeemer was before the
expiry, and the ticket had not been redeemed. Soundness is kept by every operation, as long
as no ticket is issued again after it has been redeemed. The table may be changed by many
callers in any order, one operation at a time.
-/

import TraceMux.Base.Transition

namespace TraceMux.Base.OneTime

open Base.Transition List

variable {Caller Ticket Grant : Type*}

/-- What a live ticket stands for, and when it ceases to. -/
structure Stored (Grant : Type*) where
  grant : Grant
  expiresAt : ℕ

/-- What happened to a ticket. -/
inductive Entry (Caller Ticket Grant : Type*)
  | issued (caller : Caller) (ticket : Ticket) (stored : Stored Grant)
  /-- The ticket was taken by a caller that had read the clock at `now`. -/
  | redeemed (caller : Caller) (ticket : Ticket) (grant : Grant) (now : ℕ)

def Entry.ticket : Entry Caller Ticket Grant → Ticket
  | .issued _ ticket _ => ticket
  | .redeemed _ ticket _ _ => ticket

def Unredeemed (journal : List (Entry Caller Ticket Grant)) (ticket : Ticket) : Prop :=
  ∀ caller grant now, Entry.redeemed caller ticket grant now ∉ journal

/-- Journals, oldest entry first, in which every ticket that is redeemed had been issued, was
not expired and was not redeemed before. -/
inductive Orderly : List (Entry Caller Ticket Grant) → Prop
  | nil : Orderly []
  | issued {journal : List (Entry Caller Ticket Grant)} (h : Orderly journal) (caller : Caller)
      (ticket : Ticket) (stored : Stored Grant) :
      Orderly (journal ++ [.issued caller ticket stored])
  | redeemed {journal : List (Entry Caller Ticket Grant)} (h : Orderly journal)
      {issuer : Caller} {ticket : Ticket} {stored : Stored Grant} {now : ℕ}
      (hissued : Entry.issued issuer ticket stored ∈ journal) (hnow : now < stored.expiresAt)
      (hunredeemed : Unredeemed journal ticket) (caller : Caller) :
      Orderly (journal ++ [.redeemed caller ticket stored.grant now])

/-- What the journal says before a redemption. -/
theorem Orderly.of_redeemed {journal : List (Entry Caller Ticket Grant)} (h : Orderly journal)
    {caller : Caller} {ticket : Ticket} {grant : Grant} {now : ℕ}
    (hmem : Entry.redeemed caller ticket grant now ∈ journal) :
    ∃ before after issuer expiresAt,
      journal = before ++ .redeemed caller ticket grant now :: after ∧
      Entry.issued issuer ticket ⟨grant, expiresAt⟩ ∈ before ∧ now < expiresAt ∧
      Unredeemed before ticket := by
  induction h with
  | nil => cases hmem
  | issued h other t stored ih =>
    have hold := (mem_append.mp hmem).resolve_right (by simp)
    obtain ⟨before, after, issuer, expiresAt, rfl, htold⟩ := ih hold
    exact ⟨before, after ++ [.issued other t stored], issuer, expiresAt,
      by rw [append_assoc, cons_append], htold⟩
  | @redeemed journal h issuer t stored at' hissued hnow hunredeemed other ih =>
    rcases mem_append.mp hmem with hold | hnew
    · obtain ⟨before, after, issuer, expiresAt, rfl, htold⟩ := ih hold
      exact ⟨before, after ++ [.redeemed other t stored.grant at'], issuer, expiresAt,
        by rw [append_assoc, cons_append], htold⟩
    · cases mem_singleton.mp hnew
      exact ⟨journal, [], issuer, stored.expiresAt, rfl, hissued, hnow, hunredeemed⟩

variable (Caller Ticket Grant) in
/-- Live tickets with a journal. -/
structure Ledger where
  table : Ticket → Option (Stored Grant)
  /-- Oldest entry first. -/
  journal : List (Entry Caller Ticket Grant)

namespace Ledger

def empty : Ledger Caller Ticket Grant := ⟨fun _ => none, []⟩

def pruneExpired (l : Ledger Caller Ticket Grant) (now : ℕ) : Ledger Caller Ticket Grant :=
  { l with table := fun ticket => (l.table ticket).filter fun stored => now < stored.expiresAt }

/-- The journal is orderly, and live tickets are those issued and not redeemed. -/
structure Sound (l : Ledger Caller Ticket Grant) : Prop where
  orderly : Orderly l.journal
  issued : ∀ ticket stored, l.table ticket = some stored →
    ∃ caller, Entry.issued caller ticket stored ∈ l.journal
  unredeemed : ∀ ticket stored, l.table ticket = some stored → Unredeemed l.journal ticket

theorem sound_empty : (empty : Ledger Caller Ticket Grant).Sound where
  orderly := .nil
  issued _ _ h := by cases h
  unredeemed _ _ h := by cases h

variable {l : Ledger Caller Ticket Grant}

/-- Tickets may be dropped from the table at any time. -/
theorem Sound.of_table (h : l.Sound) {table : Ticket → Option (Stored Grant)}
    (hsub : ∀ ticket stored, table ticket = some stored → l.table ticket = some stored) :
    Sound { l with table := table } where
  orderly := h.orderly
  issued ticket stored hlive := h.issued ticket stored (hsub ticket stored hlive)
  unredeemed ticket stored hlive := h.unredeemed ticket stored (hsub ticket stored hlive)

theorem Sound.pruneExpired (h : l.Sound) (now : ℕ) : (l.pruneExpired now).Sound := by
  apply h.of_table
  intro ticket stored hlive
  exact (Option.filter_eq_some_iff.mp hlive).1

variable [DecidableEq Ticket]

def insert (l : Ledger Caller Ticket Grant) (caller : Caller) (ticket : Ticket)
    (stored : Stored Grant) : Ledger Caller Ticket Grant where
  table := Function.update l.table ticket (some stored)
  journal := l.journal ++ [.issued caller ticket stored]

def remove (l : Ledger Caller Ticket Grant) (ticket : Ticket) : Ledger Caller Ticket Grant :=
  { l with table := Function.update l.table ticket none }

/-- Take a ticket out of the table and note who has it. -/
def redeem (l : Ledger Caller Ticket Grant) (caller : Caller) (ticket : Ticket) (grant : Grant)
    (now : ℕ) : Ledger Caller Ticket Grant where
  table := Function.update l.table ticket none
  journal := l.journal ++ [.redeemed caller ticket grant now]

theorem Sound.remove (h : l.Sound) (ticket : Ticket) : (l.remove ticket).Sound := by
  apply h.of_table
  intro other stored hlive
  exact (update_none_eq_some hlive).2

theorem Sound.insert (h : l.Sound) (caller : Caller) {ticket : Ticket} (stored : Stored Grant)
    (hunredeemed : Unredeemed l.journal ticket) : (l.insert caller ticket stored).Sound where
  orderly := h.orderly.issued caller ticket stored
  issued := by
    refine forall_update (fun other stored' hold => ?_)
      ⟨caller, mem_append_right _ (mem_singleton_self _)⟩
    exact (h.issued other stored' hold).imp fun _ => mem_append_left _
  unredeemed other stored' hlive redeemer grant now hmem := by
    have hold := (mem_append.mp hmem).resolve_right (by simp)
    rcases update_some_eq_some hlive with ⟨rfl, -⟩ | ⟨-, hother⟩
    · exact hunredeemed redeemer grant now hold
    · exact h.unredeemed other stored' hother redeemer grant now hold

theorem Sound.redeem (h : l.Sound) (caller : Caller) {ticket : Ticket} {stored : Stored Grant}
    (hlive : l.table ticket = some stored) {now : ℕ} (hnow : now < stored.expiresAt) :
    (l.redeem caller ticket stored.grant now).Sound := by
  obtain ⟨issuer, hissued⟩ := h.issued ticket stored hlive
  refine ⟨h.orderly.redeemed hissued hnow (h.unredeemed ticket stored hlive) caller,
    fun other stored' hother => ?_, fun other stored' hother redeemer grant at' hmem => ?_⟩
  · obtain ⟨-, hold⟩ := update_none_eq_some hother
    obtain ⟨issuer', hissued'⟩ := h.issued other stored' hold
    exact ⟨issuer', mem_append_left _ hissued'⟩
  · obtain ⟨hne, hold⟩ := update_none_eq_some hother
    rcases mem_append.mp hmem with hmem | hmem
    · exact h.unredeemed other stored' hold redeemer grant at' hmem
    · cases mem_singleton.mp hmem
      exact hne rfl

end Ledger

end TraceMux.Base.OneTime
