/-
# Following a file

The file source in follow mode reads its file to the end, sleeps, and compares its position with
the length of the file that the path names by then. If that one is shorter, the source goes back
to the start of the file it has open.

The file under the path need not be the one that is open, and the open one need not have been
emptied. Then the source reads bytes again that it has emitted already. It does not as long as
files are cut to nothing and a new file under the path does not stay behind the old one.
-/

import Mathlib.Data.List.Nodup
import TraceMux.Base.ByteFile
import TraceMux.Base.Transition

namespace TraceMux.Core.Source.FileTail

open Base Base.Transition List Function

/-- A byte and its place in the order in which bytes were written. -/
abbrev Written := UInt8 × ℕ

/-- Where the source stands. -/
inductive Phase
  | reading
  /-- At the end of its file, until the poll interval is over. -/
  | sleeping
  | seeking
  | ended
  deriving DecidableEq, Repr

structure State where
  files : ℕ → List Written
  path : Option ℕ
  /-- The number of bytes written so far. -/
  next : ℕ
  openFile : ℕ
  position : ℕ := 0
  phase : Phase := .reading
  emitted : List Written := []

def State.start (file : ℕ) (data : Bytes) : State where
  files := Function.update (fun _ => []) file data.zipIdx
  path := some file
  next := data.length
  openFile := file

inductive Action
  | write (file : ℕ) (data : Bytes)
  /-- The file under the path is cut. -/
  | truncate (length : ℕ)
  /-- The file under the path is renamed, and another one may take its place. -/
  | rename (target : Option ℕ)
  /-- The source reads up to so many bytes, if there are any. -/
  | read (n : ℕ)
  | readError
  /-- The source compares its position with the length under the path. Either call can fail. -/
  | poll (position metadata : Bool)
  | seek (ok : Bool)
  deriving DecidableEq, Repr

def readChunk : ℕ := 8 * 1024

def step (follow : Bool) (s : State) (a : Action) : Option State :=
  match a with
  | .write file data => some { s with
      files := Function.update s.files file (s.files file ++ data.zipIdx s.next)
      next := s.next + data.length }
  | .truncate length => s.path.map fun file =>
    { s with files := Function.update s.files file ((s.files file).take length) }
  | .rename target => some { s with path := target }
  | .read n =>
    let rest := (s.files s.openFile).drop s.position
    if s.phase ≠ .reading then none
    else if rest = [] then some { s with phase := if follow then .sleeping else .ended }
    else if 0 < n ∧ n ≤ readChunk ∧ n ≤ rest.length then
      some { s with position := s.position + n, emitted := s.emitted ++ rest.take n }
    else none
  | .readError => if s.phase = .reading then some { s with phase := .ended } else none
  | .poll position metadata =>
    let pos := if position then s.position else 0
    let shorter := metadata && s.path.any fun file => (s.files file).length < pos
    if s.phase = .sleeping then some { s with phase := if shorter then .seeking else .reading }
    else none
  | .seek ok =>
    if s.phase = .seeking then
      some { s with phase := .reading, position := if ok then 0 else s.position }
    else none

/-- The file is cut to nothing, or not below what the source has read. When the source looks at
another file under the path, that one is not shorter than what it has read, or there is nothing
left to read again. -/
def Harmless (s : State) : Action → Prop
  | .truncate length => s.path = some s.openFile → length = 0 ∨ s.position ≤ length
  | .poll _ _ => ∀ file ∈ s.path,
      file = s.openFile ∨ s.position ≤ (s.files file).length ∨ s.files s.openFile = []
  | _ => True

instance decidableHarmless (s : State) : ∀ a, Decidable (Harmless s a)
  | .truncate length =>
    inferInstanceAs (Decidable (s.path = some s.openFile → length = 0 ∨ s.position ≤ length))
  | .poll _ _ => inferInstanceAs (Decidable (∀ file ∈ s.path, _ ∨ _ ∨ _))
  | .write _ _ | .rename _ | .read _ | .readError | .seek _ => .isTrue trivial

def New (s : State) (bytes : List Written) : Prop := ∀ w ∈ bytes, w.2 ∉ s.emitted.map Prod.snd

structure Inv (s : State) : Prop where
  below : ∀ w ∈ s.files s.openFile ++ s.emitted, w.2 < s.next
  distinct : ((s.files s.openFile).map Prod.snd).Nodup
  emitted : (s.emitted.map Prod.snd).Nodup
  ahead : New s ((s.files s.openFile).drop s.position)
  /-- Where the file is shorter than what was read, it was emptied and written again. -/
  short : (s.files s.openFile).length < s.position → New s (s.files s.openFile)
  seeking : s.phase = .seeking → New s (s.files s.openFile)

theorem inv_start (file : ℕ) (data : Bytes) : Inv (.start file data) := by
  have hopen : (State.start file data).files file = data.zipIdx := by
    simp only [State.start, update_self]
  refine ⟨fun w hw => ?_, ?_, nodup_nil, fun _ _ => nofun, nofun, nofun⟩
  · change w ∈ (State.start file data).files file ++ [] at hw
    rw [hopen, append_nil] at hw
    have hlt := snd_lt_add_of_mem_zipIdx hw
    rwa [Nat.zero_add] at hlt
  · change (((State.start file data).files file).map Prod.snd).Nodup
    rw [hopen, zipIdx_map_snd]
    exact nodup_range'

variable {s : State}

theorem Inv.new_zipIdx (h : Inv s) (data : Bytes) : New s (data.zipIdx s.next) := by
  intro w hw hmem
  obtain ⟨v, hv, heq⟩ := mem_map.mp hmem
  have hlt := h.below v (mem_append_right _ hv)
  have hle := le_snd_of_mem_zipIdx hw
  omega

theorem Inv.write (h : Inv s) (file : ℕ) (data : Bytes) :
    Inv { s with
      files := update s.files file (s.files file ++ data.zipIdx s.next)
      next := s.next + data.length } := by
  by_cases hfile : s.openFile = file
  · subst hfile
    have hnew := h.new_zipIdx data
    refine ⟨fun w hw => ?_, ?_, h.emitted, ?_, ?_, ?_⟩ <;> simp only [update_self] at *
    · rcases mem_append.mp hw with hw | hw
      · rcases mem_append.mp hw with hw | hw
        · have := h.below w (mem_append_left _ hw)
          omega
        · have := snd_lt_add_of_mem_zipIdx hw
          omega
      · have := h.below w (mem_append_right _ hw)
        omega
    · rw [map_append]
      refine h.distinct.append ?_ fun id hold hadded => ?_
      · rw [zipIdx_map_snd]
        exact nodup_range'
      · obtain ⟨v, hv, rfl⟩ := mem_map.mp hold
        obtain ⟨w, hw, heq⟩ := mem_map.mp hadded
        have hlt := h.below v (mem_append_left _ hv)
        have hle := le_snd_of_mem_zipIdx hw
        omega
    · rw [drop_append]
      intro w hw
      rcases mem_append.mp hw with hw | hw
      · exact h.ahead w hw
      · exact hnew w (mem_of_mem_drop hw)
    · intro hshort w hw
      rw [length_append] at hshort
      rcases mem_append.mp hw with hw | hw
      · exact h.short (by omega) w hw
      · exact hnew w hw
    · intro hseeking w hw
      rcases mem_append.mp hw with hw | hw
      · exact h.seeking hseeking w hw
      · exact hnew w hw
  · refine ⟨fun w hw => ?_, ?_, h.emitted, ?_, ?_, ?_⟩ <;>
      simp only [update_of_ne hfile] at *
    · have := h.below w hw
      omega
    · exact h.distinct
    · exact h.ahead
    · exact h.short
    · exact h.seeking

theorem Inv.truncate (h : Inv s) {file length : ℕ} (hpath : s.path = some file)
    (hharmless : Harmless s (.truncate length)) :
    Inv { s with files := update s.files file ((s.files file).take length) } := by
  by_cases hfile : s.openFile = file
  · subst hfile
    have hsub {w : Written} (hw : w ∈ (s.files s.openFile).take length) :
        w ∈ s.files s.openFile := mem_of_mem_take hw
    refine ⟨fun w hw => ?_, ?_, h.emitted, ?_, ?_, ?_⟩ <;> simp only [update_self] at *
    · rcases mem_append.mp hw with hw | hw
      · exact h.below w (mem_append_left _ (hsub hw))
      · exact h.below w (mem_append_right _ hw)
    · exact h.distinct.sublist ((take_sublist length _).map Prod.snd)
    · intro w hw
      rw [drop_take] at hw
      exact h.ahead w (mem_of_mem_take hw)
    · intro hshort w hw
      rcases hharmless hpath with rfl | hle
      · cases hw
      · rw [length_take] at hshort
        exact h.short (by omega) w (hsub hw)
    · exact fun hseeking w hw => h.seeking hseeking w (hsub hw)
  · refine ⟨?_, ?_, h.emitted, ?_, ?_, ?_⟩ <;> simp only [update_of_ne hfile]
    · exact h.below
    · exact h.distinct
    · exact h.ahead
    · exact h.short
    · exact h.seeking

/-- A read emits bytes that are new, and goes on behind them. -/
theorem Inv.read (h : Inv s) {n : ℕ} (hphase : s.phase = .reading)
    (hle : n ≤ ((s.files s.openFile).drop s.position).length) (hpos : 0 < n) :
    Inv { s with
      position := s.position + n
      emitted := s.emitted ++ ((s.files s.openFile).drop s.position).take n } := by
  have hdistinct : (((s.files s.openFile).drop s.position).map Prod.snd).Nodup :=
    h.distinct.sublist ((drop_sublist _ _).map Prod.snd)
  have hchunk {w : Written} (hw : w ∈ ((s.files s.openFile).drop s.position).take n) :
      w ∈ (s.files s.openFile).drop s.position := mem_of_mem_take hw
  refine ⟨fun w hw => ?_, h.distinct, ?_, ?_, fun hshort => ?_, fun hseeking => ?_⟩
  · simp only [mem_append] at hw
    rcases hw with hw | hw | hw
    · exact h.below w (mem_append_left _ hw)
    · exact h.below w (mem_append_right _ hw)
    · exact h.below w (mem_append_left _ (mem_of_mem_drop (hchunk hw)))
  · rw [map_append]
    refine h.emitted.append (hdistinct.sublist ((take_sublist n _).map Prod.snd)) ?_
    intro id hold hnew
    obtain ⟨w, hw, rfl⟩ := mem_map.mp hnew
    exact h.ahead w (hchunk hw) hold
  · intro w hw hmem
    rw [← drop_drop] at hw
    rw [map_append] at hmem
    rcases mem_append.mp hmem with hold | hnew
    · exact h.ahead w (mem_of_mem_drop hw) hold
    · rw [← take_append_drop n ((s.files s.openFile).drop s.position), map_append] at hdistinct
      exact (nodup_append.mp hdistinct).2.2 w.2 hnew w.2 (mem_map_of_mem hw) rfl
  · rw [length_drop] at hle
    simp only at hshort
    omega
  · simp only [hphase, reduceCtorEq] at hseeking

theorem inv_step {follow : Bool} (s : State) (a : Action) (s' : State) (h : Inv s)
    (hharmless : Harmless s a) (hstep : step follow s a = some s') : Inv s' := by
  cases a with
  | write file data =>
    cases hstep
    exact h.write file data
  | truncate length =>
    obtain ⟨file, hpath, rfl⟩ := Option.map_eq_some_iff.mp hstep
    exact h.truncate hpath hharmless
  | rename target =>
    cases hstep
    exact { h with }
  | read n =>
    simp only [step, ne_eq, ite_not] at hstep
    split at hstep
    · next hphase =>
      split at hstep
      · cases hstep
        refine { h with seeking := fun hseeking => ?_ }
        cases follow <;> cases hseeking
      · obtain ⟨hn, heq⟩ := Option.ite_none_right_eq_some.mp hstep
        cases heq
        exact h.read hphase hn.2.2 hn.1
    · cases hstep
  | readError =>
    obtain ⟨-, heq⟩ := Option.ite_none_right_eq_some.mp hstep
    cases heq
    exact { h with seeking := nofun }
  | poll position metadata =>
    obtain ⟨-, heq⟩ := Option.ite_none_right_eq_some.mp hstep
    cases heq
    refine { h with seeking := fun hseeking => ?_ }
    -- The source goes back only when its own file is the one under the path, or empty.
    have hshorter : (metadata && s.path.any fun file =>
        (s.files file).length < if position then s.position else 0) = true := by
      by_contra hno
      simp only [hno] at hseeking
      cases hseeking
    rw [Bool.and_eq_true, Option.any_eq_true] at hshorter
    obtain ⟨-, file, hpath, hlt⟩ := hshorter
    have hlt : (s.files file).length < s.position := by
      have := of_decide_eq_true hlt
      split at this <;> omega
    rcases hharmless file hpath with rfl | hle | hempty
    · exact h.short hlt
    · omega
    · show New s (s.files s.openFile)
      rw [hempty]
      exact nofun
  | seek ok =>
    obtain ⟨hphase, heq⟩ := Option.ite_none_right_eq_some.mp hstep
    cases heq
    cases ok with
    | false => exact { h with seeking := nofun }
    | true => exact { h with ahead := h.seeking hphase, short := nofun, seeking := nofun }

/-- In a run whose steps are all harmless, every byte is emitted at most once. -/
theorem emitted_once (follow : Bool) (file : ℕ) (data : Bytes) (actions : List Action) (s : State)
    (hguard : Guarded (step follow) Harmless (.start file data) actions)
    (hrun : exec (step follow) (.start file data) actions = some s) :
    (s.emitted.map Prod.snd).Nodup :=
  (exec_invariant inv_step (inv_start file data) hguard hrun).emitted

/-- The file is emptied and written again, and then renamed away. -/
def emptiedRun : List Action :=
  [.read 2, .read 1, .truncate 0, .write 0 [7], .poll true true, .seek true, .read 1, .read 1,
    .rename none, .poll true true, .read 1]

theorem emitted_once_emptied :
    ∃ s, exec (step true) (.start 0 [5, 6]) emptiedRun = some s ∧
      s.emitted = [(5, 0), (6, 1), (7, 2)] ∧ (s.emitted.map Prod.snd).Nodup := by
  have hrun : exec (step true) (.start 0 [5, 6]) emptiedRun = some _ := rfl
  exact ⟨_, hrun, rfl, emitted_once true 0 [5, 6] emptiedRun _ (by decide) hrun⟩

/-- The file is renamed away and a new one takes its place: the source goes back to the start of
the old one and emits its bytes again. -/
theorem rotated_emits_twice :
    (exec (step true) (.start 0 [5, 6]) [.read 2, .read 1, .rename (some 1), .write 1 [7],
      .poll true true, .seek true, .read 2]).map State.emitted =
        some [(5, 0), (6, 1), (5, 0), (6, 1)] := by
  decide

/-! ## Files that grow -/

/-- The file the source has open is not cut, and the source finds no file under the path that is
shorter than what it has read. -/
def Grows (s : State) : Action → Prop
  | .truncate _ => s.path ≠ some s.openFile
  | .poll _ _ => ∀ file ∈ s.path, s.position ≤ (s.files file).length
  | _ => True

/-- What the source has emitted is what stands before its position. -/
structure Follows (s : State) : Prop where
  position_le : s.position ≤ (s.files s.openFile).length
  emitted_eq : s.emitted = (s.files s.openFile).take s.position
  not_seeking : s.phase ≠ .seeking

theorem Follows.grown (h : Follows s) {files : ℕ → List Written} {next : ℕ}
    (hfiles : s.files s.openFile <+: files s.openFile) :
    Follows { s with files := files, next := next } where
  position_le := h.position_le.trans hfiles.length_le
  emitted_eq := by
    obtain ⟨more, hmore⟩ := hfiles
    show _ = (files s.openFile).take s.position
    rw [← hmore, take_append_of_le_length h.position_le, ← h.emitted_eq]
  not_seeking := h.not_seeking

/-- The source stops reading only at the end of its file. -/
theorem Follows.read {follow : Bool} {n : ℕ} {s' : State} (h : Follows s)
    (hstep : step follow s (.read n) = some s') :
    Follows s' ∧ (s'.phase ≠ .reading → s'.emitted = s'.files s'.openFile) := by
  simp only [step, ne_eq, ite_not] at hstep
  split at hstep
  · next hphase =>
    split at hstep
    · next hrest =>
      cases hstep
      refine ⟨{ h with not_seeking := ?_ }, fun _ => ?_⟩
      · cases follow <;> rintro ⟨⟩
      · exact h.emitted_eq.trans (take_of_length_le (drop_eq_nil_iff.mp hrest))
    · obtain ⟨⟨-, -, hle⟩, heq⟩ := Option.ite_none_right_eq_some.mp hstep
      cases heq
      have hpos := h.position_le
      rw [length_drop] at hle
      refine ⟨⟨?_, ?_, h.not_seeking⟩, fun hstops => absurd hphase hstops⟩
      · simp only
        omega
      · rw [h.emitted_eq, ← take_add]
  · cases hstep

theorem follows_step {follow : Bool} (s : State) (a : Action) (s' : State) (h : Follows s)
    (hgrows : Grows s a) (hstep : step follow s a = some s') : Follows s' := by
  cases a with
  | write file data =>
    cases hstep
    apply h.grown
    rw [update_apply]
    split_ifs with hfile
    · rw [hfile]
      exact prefix_append _ _
    · exact prefix_rfl
  | truncate length =>
    obtain ⟨file, hpath, rfl⟩ := Option.map_eq_some_iff.mp hstep
    have hfile : s.openFile ≠ file := by
      rintro rfl
      exact hgrows hpath
    exact h.grown ⟨[], by rw [append_nil, update_of_ne hfile]⟩
  | rename target =>
    cases hstep
    exact { h with }
  | read n => exact (h.read hstep).1
  | readError =>
    obtain ⟨-, heq⟩ := Option.ite_none_right_eq_some.mp hstep
    cases heq
    exact { h with not_seeking := by rintro ⟨⟩ }
  | poll position metadata =>
    obtain ⟨-, heq⟩ := Option.ite_none_right_eq_some.mp hstep
    cases heq
    have hlonger : (s.path.any fun file =>
        (s.files file).length < if position then s.position else 0) = false := by
      rw [Option.any_eq_false]
      intro file hpath
      have := hgrows file hpath
      cases position <;> simp
      omega
    refine { h with not_seeking := ?_ }
    simp [hlonger]
  | seek ok => exact absurd (Option.ite_none_right_eq_some.mp hstep).1 h.not_seeking

/-- A file that only grows is followed: whatever is written to it and whatever the source does, it
has emitted the beginning of the file, every byte once and in order, and unless a read fails it
stops reading only when it has emitted all of it. -/
theorem emitted_front (follow : Bool) (file : ℕ) (data : Bytes) (actions : List Action)
    (s : State) (hrun : exec (step follow) (.start file data) actions = some s)
    (hguard : Guarded (step follow) Grows (.start file data) actions) :
    s.emitted <+: s.files s.openFile ∧ ∀ n s', step follow s (.read n) = some s' →
      s'.phase ≠ .reading → s'.emitted = s'.files s'.openFile := by
  have hstart : Follows (.start file data) := ⟨Nat.zero_le _, rfl, by rintro ⟨⟩⟩
  have h := exec_invariant follows_step hstart hguard hrun
  refine ⟨?_, fun n s' hstep => (h.read hstep).2⟩
  rw [h.emitted_eq]
  exact take_prefix _ _

theorem emitted_front_grown :
    ∃ s, exec (step true) (.start 0 [5, 6]) [.read 2, .read 1, .write 0 [7], .poll true true] =
        some s ∧ s.emitted = [(5, 0), (6, 1)] ∧ s.emitted <+: s.files s.openFile := by
  have hrun : exec (step true) (.start 0 [5, 6]) [.read 2, .read 1, .write 0 [7],
    .poll true true] = some _ := rfl
  exact ⟨_, hrun, rfl, (emitted_front true 0 [5, 6] _ _ hrun
    ⟨trivial, trivial, trivial, fun _ hfile => by cases hfile; decide, trivial⟩).1⟩

end TraceMux.Core.Source.FileTail
