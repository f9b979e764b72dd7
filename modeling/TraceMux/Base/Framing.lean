/-
# Cutting frames from a stream

A cutter takes one frame from the front of a buffer, if the buffer holds one. A stream is
cut as it arrives: each chunk is appended to what is left over, and frames are cut off
until the buffer holds none. Whether the frames depend on how the stream was divided into
chunks is a question about the cutter: they do not where a frame that is cut off a buffer
is also cut off any longer one.

A check of what is left over may end the cutting. It sees the buffer only when no frame is
left in it.
-/

import Mathlib.Data.List.Infix

namespace TraceMux.Base.Framing

open List

variable {α β ε : Type}

/-- Cut one frame from the front of a buffer. -/
structure Cutter (α β : Type) where
  cut : List α → Option (β × List α)
  suffix : ∀ {buf frame rest}, cut buf = some (frame, rest) → rest <:+ buf
  shorter : ∀ {buf frame rest}, cut buf = some (frame, rest) → rest.length < buf.length

namespace Cutter

variable (c : Cutter α β)

def drainFor : ℕ → List α → List β × List α
  | 0, buf => ([], buf)
  | n + 1, buf =>
    match c.cut buf with
    | none => ([], buf)
    | some (frame, rest) => (frame :: (drainFor n rest).1, (drainFor n rest).2)

/-- Cut all frames from a buffer: the frames, and what is left over. -/
def drain (buf : List α) : List β × List α := c.drainFor buf.length buf

def frames (buf : List α) : List β := (c.drain buf).1

def left (buf : List α) : List α := (c.drain buf).2

/-- Cut a stream as it arrives in chunks. -/
def run : List α → List (List α) → List β × List α
  | buf, [] => ([], buf)
  | buf, chunk :: rest =>
    (c.frames (buf ++ chunk) ++ (run (c.left (buf ++ chunk)) rest).1,
      (run (c.left (buf ++ chunk)) rest).2)

/-- Cut a stream as it arrives in chunks, with a check of what each chunk leaves over. -/
def runChecked (check : List α → Option ε) : List α → List (List α) → List β × Except ε (List α)
  | buf, [] => ([], .ok buf)
  | buf, chunk :: rest =>
    match check (c.left (buf ++ chunk)) with
    | some e => (c.frames (buf ++ chunk), .error e)
    | none =>
      (c.frames (buf ++ chunk) ++ (runChecked check (c.left (buf ++ chunk)) rest).1,
        (runChecked check (c.left (buf ++ chunk)) rest).2)

variable {c} {buf rest more : List α} {frame : β}

theorem drainFor_eq {n : ℕ} (h : buf.length ≤ n) : c.drainFor n buf = c.drain buf := by
  have hfuel : ∀ (n m : ℕ) (buf : List α), buf.length ≤ n → buf.length ≤ m →
      c.drainFor n buf = c.drainFor m buf := by
    intro n
    induction n with
    | zero =>
      intro m buf hn _
      obtain rfl : buf = [] := length_eq_zero_iff.mp (Nat.le_zero.mp hn)
      cases m with
      | zero => rfl
      | succ m =>
        cases hcut : c.cut [] with
        | none => rw [drainFor, drainFor, hcut]
        | some cutOff => exact absurd (c.shorter hcut) (Nat.not_lt_zero _)
    | succ n ih =>
      intro m buf hn hm
      cases hcut : c.cut buf with
      | none => cases m <;> simp [drainFor, hcut]
      | some cutOff =>
        have hlt := c.shorter hcut
        cases m with
        | zero => omega
        | succ m =>
          simp only [drainFor, hcut]
          rw [ih m cutOff.2 (by omega) (by omega)]
  exact hfuel n buf.length buf h le_rfl

theorem drain_of_none (h : c.cut buf = none) : c.drain buf = ([], buf) := by
  unfold drain
  cases buf.length with
  | zero => rfl
  | succ n => rw [drainFor, h]

theorem drain_of_some (h : c.cut buf = some (frame, rest)) :
    c.drain buf = (frame :: c.frames rest, c.left rest) := by
  have hlt := c.shorter h
  obtain ⟨n, hn⟩ := Nat.exists_eq_add_one_of_ne_zero (Nat.ne_zero_of_lt hlt)
  rw [drain, hn, drainFor, h]
  simp only
  rw [drainFor_eq (by omega)]
  rfl

theorem frames_of_none (h : c.cut buf = none) : c.frames buf = [] := by
  rw [frames, drain_of_none h]

theorem left_of_none (h : c.cut buf = none) : c.left buf = buf := by
  rw [left, drain_of_none h]

theorem frames_of_some (h : c.cut buf = some (frame, rest)) :
    c.frames buf = frame :: c.frames rest := by
  rw [frames, drain_of_some h]

theorem left_of_some (h : c.cut buf = some (frame, rest)) : c.left buf = c.left rest := by
  rw [left, drain_of_some h]

/-- What holds of a buffer without a frame, and of a buffer whenever of what is behind its
first frame, holds of all buffers. -/
@[elab_as_elim]
theorem drain_induction (c : Cutter α β) {motive : List α → Prop}
    (none : ∀ buf, c.cut buf = .none → motive buf)
    (some : ∀ buf frame rest, c.cut buf = .some (frame, rest) → motive rest → motive buf)
    (buf : List α) : motive buf := by
  induction hlength : buf.length using Nat.strong_induction_on generalizing buf with
  | _ n ih =>
    cases hcut : c.cut buf with
    | none => exact none buf hcut
    | some cutOff =>
      have hlt := c.shorter hcut
      exact some buf cutOff.1 cutOff.2 hcut (ih cutOff.2.length (hlength ▸ hlt) cutOff.2 rfl)

theorem cut_left (c : Cutter α β) (buf : List α) : c.cut (c.left buf) = none := by
  induction buf using drain_induction c with
  | none buf hcut => rwa [left_of_none hcut]
  | some buf frame rest hcut ih => rwa [left_of_some hcut]

theorem left_suffix (c : Cutter α β) (buf : List α) : c.left buf <:+ buf := by
  induction buf using drain_induction c with
  | none buf hcut => rw [left_of_none hcut]
  | some buf frame rest hcut ih =>
    rw [left_of_some hcut]
    exact ih.trans (c.suffix hcut)

theorem cut_nil (c : Cutter α β) : c.cut [] = none := by
  cases hcut : c.cut [] with
  | none => rfl
  | some cutOff => exact absurd (c.shorter hcut) (Nat.not_lt_zero _)

/-- A frame that is cut off a buffer is cut off every longer one. -/
def Stable (c : Cutter α β) : Prop :=
  ∀ ⦃buf frame rest⦄, c.cut buf = some (frame, rest) →
    ∀ more, c.cut (buf ++ more) = some (frame, rest ++ more)

theorem Stable.drain_append (h : c.Stable) (buf more : List α) :
    c.drain (buf ++ more) =
      (c.frames buf ++ c.frames (c.left buf ++ more), c.left (c.left buf ++ more)) := by
  induction buf using drain_induction c with
  | none buf hcut =>
    rw [frames_of_none hcut, left_of_none hcut]
    rfl
  | some buf frame rest hcut ih =>
    rw [drain_of_some (h hcut more), frames, left, ih, frames_of_some hcut, left_of_some hcut]
    rfl

theorem Stable.run_eq (h : c.Stable) (chunks : List (List α)) (hbuf : c.cut buf = none) :
    c.run buf chunks = c.drain (buf ++ chunks.flatten) := by
  induction chunks generalizing buf with
  | nil => rw [flatten_nil, append_nil, drain_of_none hbuf, run]
  | cons chunk rest ih =>
    rw [flatten_cons, ← append_assoc, h.drain_append, run, ih (c.cut_left (buf ++ chunk))]
    rfl

/-- What is left over does not depend on whether the frames before it were cut off. -/
def LeftLocal (c : Cutter α β) : Prop :=
  ∀ buf more, c.left (c.left buf ++ more) = c.left (buf ++ more)

theorem LeftLocal.run_left (h : c.LeftLocal) (chunks : List (List α)) (hbuf : c.cut buf = none) :
    (c.run buf chunks).2 = c.left (buf ++ chunks.flatten) := by
  induction chunks generalizing buf with
  | nil => rw [flatten_nil, append_nil, left_of_none hbuf, run]
  | cons chunk rest ih =>
    rw [run, ih (c.cut_left (buf ++ chunk)), h, flatten_cons, append_assoc]

variable {check : List α → Option ε} {chunks : List (List α)}

theorem run_of_runChecked {out : List β} (h : c.runChecked check buf chunks = (out, .ok rest)) :
    c.run buf chunks = (out, rest) := by
  induction chunks generalizing buf out with
  | nil =>
    cases h
    rfl
  | cons chunk chunks ih =>
    rw [runChecked] at h
    split at h
    · cases h
    · obtain ⟨rfl, hleft⟩ := Prod.mk.inj h
      rw [run, ih (Prod.ext rfl hleft)]

theorem runChecked_prefix (c : Cutter α β) (check : List α → Option ε) (buf : List α)
    (chunks : List (List α)) : (c.runChecked check buf chunks).1 <+: (c.run buf chunks).1 := by
  induction chunks generalizing buf with
  | nil => exact prefix_refl _
  | cons chunk rest ih =>
    rw [runChecked, run]
    split
    · exact prefix_append _ _
    · exact prefix_append_right_inj _ |>.mpr (ih _)

/-- A run fails exactly when the check finds something behind one of the chunks. -/
theorem runChecked_error_iff (c : Cutter α β) (check : List α → Option ε) (buf : List α)
    (chunks : List (List α)) :
    (∃ e, (c.runChecked check buf chunks).2 = .error e) ↔
      ∃ before, before ≠ [] ∧ before <+: chunks ∧ (check (c.run buf before).2).isSome := by
  induction chunks generalizing buf with
  | nil =>
    constructor
    · rintro ⟨e, he⟩
      cases he
    · rintro ⟨before, hne, hbefore, -⟩
      exact absurd (prefix_nil.mp hbefore) hne
  | cons chunk rest ih =>
    -- Either the check stops behind this chunk, or the question is one about the rest.
    cases hcheck : check (c.left (buf ++ chunk)) with
    | some e =>
      refine iff_of_true ⟨e, by rw [runChecked, hcheck]⟩ ⟨[chunk], cons_ne_nil _ _, ?_, ?_⟩
      · exact prefix_append [chunk] rest
      · rw [run, run, hcheck]
        rfl
    | none =>
      rw [runChecked, hcheck]
      rw [ih]
      constructor
      · rintro ⟨before, -, hbefore, hsome⟩
        refine ⟨chunk :: before, cons_ne_nil _ _, ?_, ?_⟩
        · exact cons_prefix_cons.mpr ⟨rfl, hbefore⟩
        · rwa [run]
      · rintro ⟨before, hne, hbefore, hsome⟩
        cases before with
        | nil => exact absurd rfl hne
        | cons first before =>
          obtain ⟨rfl, hrest⟩ := cons_prefix_cons.mp hbefore
          rw [run] at hsome
          refine ⟨before, ?_, hrest, hsome⟩
          rintro rfl
          rw [run, hcheck] at hsome
          cases hsome

variable {encode : β → List α} {out : List β}

section

variable (h : ∀ x ∈ out, ∀ rest, c.cut (encode x ++ rest) = some (x, rest))
include h

theorem drain_flatMap : c.drain (out.flatMap encode) = (out, []) := by
  induction out with
  | nil => exact drain_of_none c.cut_nil
  | cons x out ih =>
    have hcut := h x mem_cons_self (out.flatMap encode)
    have hrest := ih fun y hy => h y (mem_cons_of_mem _ hy)
    rw [flatMap_cons, drain_of_some hcut, frames, left, hrest]

/-- Where the check passes every part of an encoded frame, it passes what is left of every
beginning of a stream of encoded frames. -/
theorem check_left_of_prefix
    (hpart : ∀ x ∈ out, ∀ part, part <+: encode x → part ≠ encode x →
      c.cut part = none ∧ check part = none) (hnil : check [] = none) {start : List α}
    (hstart : start <+: out.flatMap encode) : check (c.left start) = none := by
  induction out generalizing start with
  | nil => rwa [prefix_nil.mp hstart, left_of_none c.cut_nil]
  | cons x out ih =>
    have hmem : x ∈ x :: out := mem_cons_self
    obtain hshort | ⟨start', rfl⟩ :=
      prefix_or_prefix_of_prefix hstart (prefix_append (encode x) (out.flatMap encode))
    · by_cases hall : start = encode x
      · have hcut := h x hmem []
        rw [append_nil] at hcut
        rwa [hall, left_of_some hcut, left_of_none c.cut_nil]
      · obtain ⟨hcut, hcheck⟩ := hpart x hmem start hshort hall
        rwa [left_of_none hcut]
    · rw [left_of_some (h x hmem start')]
      apply ih
      · exact fun y hy => h y (mem_cons_of_mem _ hy)
      · exact fun y hy => hpart y (mem_cons_of_mem _ hy)
      · exact (prefix_append_right_inj _).mp hstart

end

/-- A stable cutter gives back the frames of an encoded stream, in whatever chunks it arrives,
and leaves nothing over. -/
theorem Stable.runChecked_flatMap (hstable : c.Stable)
    (h : ∀ x ∈ out, ∀ rest, c.cut (encode x ++ rest) = some (x, rest))
    (hpart : ∀ x ∈ out, ∀ part, part <+: encode x → part ≠ encode x →
      c.cut part = none ∧ check part = none)
    (hnil : check [] = none) (hchunks : chunks.flatten = out.flatMap encode) :
    c.runChecked check [] chunks = (out, .ok []) := by
  cases hresult : (c.runChecked check [] chunks).2 with
  | error e =>
    exfalso
    obtain ⟨before, -, ⟨after, rfl⟩, hsome⟩ :=
      (runChecked_error_iff c check [] chunks).mp ⟨e, hresult⟩
    have hleft : (c.run [] before).2 = c.left before.flatten := by
      rw [hstable.run_eq before c.cut_nil, nil_append]
      rfl
    have hstart : before.flatten <+: out.flatMap encode :=
      ⟨after.flatten, by rw [← flatten_append, hchunks]⟩
    rw [hleft, check_left_of_prefix h hpart hnil hstart] at hsome
    cases hsome
  | ok rest =>
    have hrun := run_of_runChecked (Prod.ext rfl hresult)
    rw [hstable.run_eq chunks c.cut_nil, nil_append, hchunks, drain_flatMap h] at hrun
    obtain ⟨hframes, hrest⟩ := Prod.mk.inj hrun
    exact Prod.ext hframes.symm (hresult.trans (congrArg _ hrest.symm))

end Cutter

theorem exists_first_occurrence {term buf : List α} (hterm : term ≠ []) (h : term <:+: buf) :
    ∃ line rest, buf = line ++ (term ++ rest) ∧ ¬ term <:+: line := by
  obtain ⟨line, rest, hbuf⟩ := h
  induction hlength : line.length using Nat.strong_induction_on generalizing line rest with
  | _ n ih =>
    by_cases hline : term <:+: line
    · obtain ⟨before, after, hbefore⟩ := hline
      have hpos := length_pos_iff.mpr hterm
      have hlt : before.length < n := by
        have := congrArg length hbefore
        simp only [length_append] at this
        omega
      apply ih before.length hlt before (after ++ term ++ rest) _ rfl
      rw [← hbuf, ← hbefore]
      simp
    · exact ⟨line, rest, by rw [← hbuf, append_assoc], hline⟩

/-- No end of the list is also its beginning. -/
def BorderFree (term : List α) : Prop :=
  ∀ front behind, term = front ++ behind → behind <+: term → front = [] ∨ behind = []

/-- Where a terminator has no border, the beginnings of a stream that end with it are its
first line, and the beginnings of what follows behind that. -/
theorem front_of_suffix {term line rest front behind : List α} (hborder : BorderFree term)
    (hline : ¬ term <:+: line) (hsuffix : term <:+ front)
    (hfront : front ++ behind = line ++ (term ++ rest)) :
    ∃ later, front = line ++ (term ++ later) ∧ rest = later ++ behind ∧
      (later = [] ∨ term <:+ later) := by
  have hoverlap : ∀ {part tail behind : List α}, term = part ++ tail →
      tail <+: term ++ behind → part = [] ∨ tail = [] := by
    intro part tail behind hsplit htail
    apply hborder part tail hsplit
    apply prefix_of_prefix_length_le htail (prefix_append _ _)
    rw [hsplit, length_append]
    exact Nat.le_add_left _ _
  obtain ⟨before, rfl⟩ := hsuffix
  rw [append_assoc] at hfront
  obtain ⟨part, rfl, hpart⟩ | ⟨part, rfl, hpart⟩ := append_eq_append_iff.mp hfront
  · obtain ⟨more, rfl, -⟩ | ⟨tail, hsplit, htail⟩ := append_eq_append_iff.mp hpart
    · exact absurd ⟨before, more, by simp⟩ hline
    · obtain rfl | rfl := hoverlap hsplit ⟨behind, htail.symm⟩
      · rw [nil_append] at hsplit
        rw [← hsplit] at htail
        exact ⟨[], by simp, append_cancel_left htail, .inl rfl⟩
      · exact absurd ⟨before, [], by simp [hsplit]⟩ hline
  · obtain ⟨more, rfl, rfl⟩ | ⟨tail, hsplit, htail⟩ := append_eq_append_iff.mp hpart
    · exact ⟨more ++ term, by simp, by simp, .inr (suffix_append _ _)⟩
    · obtain rfl | rfl := hoverlap hsplit ⟨rest, htail.symm⟩
      · rw [nil_append] at hsplit
        rw [← hsplit] at htail
        exact ⟨[], by simp, (append_cancel_left htail).symm, .inl rfl⟩
      · rw [append_nil] at hsplit
        subst hsplit
        exact ⟨term, by simp, htail.symm, .inr (suffix_refl _)⟩

section Positions

variable {a b : α} {line rest buf : List α}

theorem infix_of_mem_zip_tail (h : (a, b) ∈ buf.zip buf.tail) : [a, b] <:+: buf := by
  induction buf with
  | nil => cases h
  | cons first buf ih =>
    cases buf with
    | nil => cases h
    | cons second buf =>
      rw [tail_cons, zip_cons_cons, mem_cons] at h
      cases h with
      | inl heq =>
        cases heq
        exact ⟨[], buf, rfl⟩
      | inr hmem => exact (ih hmem).trans (suffix_cons _ _).isInfix

variable [DecidableEq α]

theorem findIdx?_absent (h : a ∉ buf) : buf.findIdx? (· == a) = none := by
  rw [findIdx?_eq_none_iff]
  intro other hother
  exact beq_false_of_ne (ne_of_mem_of_not_mem hother h)

theorem findIdx?_first (h : a ∉ line) :
    (line ++ a :: rest).findIdx? (· == a) = some line.length := by
  rw [findIdx?_append, findIdx?_absent h, findIdx?_cons]
  simp

theorem findIdx?_first_pair (hne : a ≠ b) (h : ¬ [a, b] <:+: line) :
    ((line ++ a :: b :: rest).zip (line ++ a :: b :: rest).tail).findIdx? (· == (a, b)) =
      some line.length := by
  induction line with
  | nil => simp [findIdx?_cons]
  | cons first line ih =>
    have hrest := ih fun hoccurs => h (hoccurs.trans (suffix_cons _ _).isInfix)
    cases line with
    | nil =>
      -- The window before the pair ends with its first element, not with its second.
      rw [cons_append, nil_append, tail_cons, zip_cons_cons, findIdx?_cons]
      simp [findIdx?_cons, hne]
    | cons second line =>
      have hwindow : ((first, second) == (a, b)) = false := by
        apply beq_false_of_ne
        intro heq
        cases heq
        exact h ⟨[], line, rfl⟩
      rw [cons_append, cons_append, tail_cons, zip_cons_cons, findIdx?_cons, hwindow]
      rw [cons_append, tail_cons] at hrest
      rw [hrest]
      rfl

theorem findIdx?_absent_pair (h : ¬ [a, b] <:+: buf) :
    (buf.zip buf.tail).findIdx? (· == (a, b)) = none := by
  apply findIdx?_eq_none_iff.mpr
  intro window hwindow
  apply beq_false_of_ne
  rintro rfl
  exact h (infix_of_mem_zip_tail hwindow)

end Positions

end TraceMux.Base.Framing
