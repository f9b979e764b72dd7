/-
# One runner for every source

A runner that is neither aborted nor over is live. The manager never loses a live
runner and never has two of one source as long as the starts of a source do not
overlap: a resume or restart is issued only when no other start of the same
source is in progress and no wait still holds its runner. Everything else may be
interleaved freely.

Without that condition the check that a source is not running and the storing of
its new handle are far apart, and a second start fits between them.
-/

import TraceMux.Server.SourceManager

namespace TraceMux.Server.Manager

open Base Base.Transition Core.Source Function Option

/-! ## Live tasks and their holders -/

/-- A runner of this source that is neither aborted nor over. -/
def LiveTask (m : Manager) (sid : Sid) (t : TaskId) : Prop :=
  ∃ task, m.tasks t = some task ∧ task.sid = sid ∧ task.aborted = false ∧ task.finished = false

/-- The table entry of the source holds the handle of the task. -/
def HeldByTable (m : Manager) (sid : Sid) (t : TaskId) : Prop :=
  ∃ e, m.sources sid = some e ∧ e.handle = some t

/-- A wait for the source took the handle of the task. -/
def HeldByWait (m : Manager) (sid : Sid) (t : TaskId) : Prop :=
  ∃ r w, m.waits r = some w ∧ w.sid = sid ∧ w.task = t

/-- A start of the source has spawned the task and not stored its handle yet. -/
def HeldByStart (m : Manager) (sid : Sid) (t : TaskId) : Prop :=
  ∃ r q, m.starts r = some q ∧ q.sid = sid ∧ q.phase = .spawned t

/-- No source has two live runners. -/
def SingleRunner (m : Manager) : Prop :=
  ∀ sid t t', m.LiveTask sid t → m.LiveTask sid t' → t = t'

/-- No start of the source is in progress, and no wait for it holds a live runner. -/
def Apart (m : Manager) (sid : Sid) : Prop :=
  (∀ r < m.nextRequest, ∀ q ∈ m.starts r, q.sid ≠ sid) ∧
    ∀ r < m.nextRequest, ∀ w ∈ m.waits r, w.sid = sid →
      ∀ task ∈ m.tasks w.task, task.aborted ∨ task.finished

instance decidableApart (m : Manager) (sid : Sid) : Decidable (m.Apart sid) :=
  inferInstanceAs (Decidable (_ ∧ _))

/-- Starts of one source do not overlap: a resume or restart that is not refused finds the
source apart. -/
def NoOverlap (m : Manager) : Action → Prop
  | .resume sid clock => (m.resume sid clock).1 = none → m.Apart sid
  | .restart sid overrides clock =>
    (m.restartWithOptions sid overrides clock).1 = none → m.Apart sid
  | _ => True

instance decidableNoOverlap (m : Manager) (a : Action) : Decidable (m.NoOverlap a) := by
  cases a <;> dsimp only [NoOverlap] <;> infer_instance

/-- What holds in every state when starts do not overlap. -/
structure Inv (m : Manager) : Prop where
  task_lt : ∀ t task, m.tasks t = some task → t < m.nextTask ∧ task.sid < m.nextSid
  entry_lt : ∀ sid e, m.sources sid = some e → sid < m.nextSid
  start_lt : ∀ r q, m.starts r = some q → r < m.nextRequest ∧ q.sid < m.nextSid
  wait_lt : ∀ r w, m.waits r = some w → r < m.nextRequest ∧ w.sid < m.nextSid
  single : m.SingleRunner
  held : ∀ sid t, m.LiveTask sid t →
    m.HeldByTable sid t ∨ m.HeldByWait sid t ∨ m.HeldByStart sid t
  startOwns : ∀ r q t, m.starts r = some q → m.LiveTask q.sid t → q.phase = .spawned t
  startUnique : ∀ r q r' q', m.starts r = some q → m.starts r' = some q' → q.sid = q'.sid → r = r'
  ephemeral : ∀ sid e r q, m.sources sid = some e → e.spec = none → m.starts r = some q →
    q.sid ≠ sid
  removing : ∀ r w, m.waits r = some w → w.removeEntry = true →
    (∀ e, m.sources w.sid = some e → e.spec = none ∧ e.handle = none) ∧
      ∀ r' q, m.starts r' = some q → q.sid ≠ w.sid
  joined : ∀ r w, m.waits r = some w → w.joined = true → m.isFinished w.task = true

theorem inv_new (config : ManagerConfig) : (Manager.new config).Inv := by
  constructor <;> simp [Manager.new, SingleRunner, LiveTask]

namespace Inv

variable {m : Manager}

variable {sid : Sid} {t : TaskId} {w : WaitRequest} {spec : ChannelSpec}

theorem not_liveTask_of_isFinished (h : m.isFinished t = true) : ¬ m.LiveTask sid t := by
  rintro ⟨task, htask, -, -, hfinished⟩
  rw [isFinished, htask] at h
  exact absurd (h.symm.trans hfinished) (by decide)

/-! ## Changing tasks -/

variable {f : RunnerTask → RunnerTask} {task : RunnerTask} {clock : ClockReading}

theorem tasks_updateTask {t' : TaskId} {task' : RunnerTask}
    (h : (m.updateTask t f).tasks t' = some task') :
    ∃ task, m.tasks t' = some task ∧ (task' = task ∨ t' = t ∧ task' = f task) := by
  obtain ⟨rfl, hmap⟩ | ⟨-, hpast⟩ := update_eq_some h
  · obtain ⟨task, hpast, rfl⟩ := map_eq_some_iff.mp hmap
    exact ⟨task, hpast, .inr ⟨rfl, rfl⟩⟩
  · exact ⟨task', hpast, .inl rfl⟩

/-- Changing a task keeps the invariant when it makes nothing live. -/
theorem updateTask (h : m.Inv) (t : TaskId) (hsid : ∀ task, (f task).sid = task.sid)
    (haborted : ∀ task, (f task).aborted = false → task.aborted = false)
    (hfinished : ∀ task, (f task).finished = false → task.finished = false) :
    (m.updateTask t f).Inv := by
  have hlive : ∀ sid t', (m.updateTask t f).LiveTask sid t' → m.LiveTask sid t' := by
    rintro sid t' ⟨task', htask, hs, ha, hf⟩
    obtain ⟨task, hpast, rfl | ⟨-, rfl⟩⟩ := tasks_updateTask htask
    · exact ⟨task', hpast, hs, ha, hf⟩
    · exact ⟨task, hpast, (hsid task).symm.trans hs, haborted task ha, hfinished task hf⟩
  refine ⟨?_, h.entry_lt, h.start_lt, h.wait_lt, ?_, ?_, ?_, h.startUnique, h.ephemeral,
    h.removing, ?_⟩
  · intro t' task' htask
    obtain ⟨task, hpast, rfl | ⟨-, rfl⟩⟩ := tasks_updateTask htask
    · exact h.task_lt t' task' hpast
    · rw [hsid]
      exact h.task_lt t' task hpast
  · exact fun sid t₁ t₂ h₁ h₂ => h.single sid t₁ t₂ (hlive _ _ h₁) (hlive _ _ h₂)
  · exact fun sid t' ht => h.held sid t' (hlive _ _ ht)
  · exact fun r q t' hq ht => h.startOwns r q t' hq (hlive _ _ ht)
  · intro r w hw hjoined
    have hover := h.joined r w hw hjoined
    unfold isFinished at hover ⊢
    by_cases heq : w.task = t
    · subst heq
      cases htask : m.tasks w.task with
      | none => simp [htask] at hover
      | some task =>
        rw [htask] at hover
        simp only [Manager.updateTask, update_self, htask, map_some]
        by_contra hnot
        have := hfinished task (by simpa using hnot)
        simp_all
    · simp only [Manager.updateTask, update_of_ne heq]
      exact hover

theorem abort (h : m.Inv) (t : TaskId) : (m.abort t).Inv :=
  h.updateTask t (fun _ => rfl) (fun _ habs => by cases habs) (fun _ hf => hf)

theorem not_liveTask_abort : ¬ (m.abort t).LiveTask sid t := by
  rintro ⟨task, htask, -, haborted, -⟩
  simp only [Manager.abort, Manager.updateTask, update_self, map_eq_some_iff] at htask
  obtain ⟨task, -, rfl⟩ := htask
  cases haborted

/-! ## Changing the table -/

variable {e : SourceEntry}

/-- Changing rows keeps the invariant when specs stay, handles stay or go, and no
live task loses its row. -/
theorem replaceSources (h : m.Inv) {g : Sid → Option SourceEntry}
    (hold : ∀ sid e', g sid = some e' →
      ∃ e, m.sources sid = some e ∧ e'.spec = e.spec ∧ (e'.handle = e.handle ∨ e'.handle = none))
    (hkeep : ∀ sid t, m.LiveTask sid t → m.HeldByTable sid t →
      ∃ e', g sid = some e' ∧ e'.handle = some t) :
    ({ m with sources := g } : Manager).Inv := by
  refine ⟨h.task_lt, ?_, h.start_lt, h.wait_lt, h.single, ?_, h.startOwns, h.startUnique, ?_, ?_,
    h.joined⟩
  · intro sid e' he'
    obtain ⟨e, he, -, -⟩ := hold sid e' he'
    exact h.entry_lt sid e he
  · intro sid t hlive
    rcases h.held sid t hlive with htable | hother
    · exact .inl (hkeep sid t hlive htable)
    · exact .inr hother
  · intro sid e' r q he' hspec
    obtain ⟨e, he, hsame, -⟩ := hold sid e' he'
    exact h.ephemeral sid e r q he (hsame ▸ hspec)
  · intro r w hw hremove
    obtain ⟨hentry, hstarts⟩ := h.removing r w hw hremove
    refine ⟨fun e' he' => ?_, hstarts⟩
    obtain ⟨e, he, hsame, hhandle⟩ := hold w.sid e' he'
    obtain ⟨hspec, hnone⟩ := hentry e he
    refine ⟨hsame.trans hspec, ?_⟩
    rcases hhandle with hhandle | hhandle
    · exact hhandle.trans hnone
    · exact hhandle

/-- The same for one row. -/
theorem setEntry (h : m.Inv) {entry : Option SourceEntry} (hold : ∀ e', entry = some e' →
      ∃ e, m.sources sid = some e ∧ e'.spec = e.spec ∧ (e'.handle = e.handle ∨ e'.handle = none))
    (hkeep : ∀ t, m.LiveTask sid t → m.HeldByTable sid t →
      ∃ e', entry = some e' ∧ e'.handle = some t) : (m.setEntry sid entry).Inv := by
  apply h.replaceSources
  · intro sid' e' he'
    obtain ⟨rfl, hnew⟩ | ⟨-, hpast⟩ := update_eq_some he'
    · exact hold e' hnew
    · exact ⟨e', hpast, rfl, .inl rfl⟩
  · intro sid' t hlive htable
    by_cases heq : sid' = sid
    · subst heq
      rw [update_self]
      exact hkeep t hlive htable
    · rw [update_of_ne heq]
      exact htable

theorem clearFinished_spec : (m.clearFinished e).spec = e.spec := by
  unfold clearFinished
  split
  · rfl
  · split <;> rfl

theorem clearFinished_handle :
    (m.clearFinished e).handle = e.handle ∨
      (m.clearFinished e).handle = none ∧ ∃ t, e.handle = some t ∧ m.isFinished t = true := by
  unfold clearFinished
  split
  · exact .inl rfl
  · next t ht =>
    split
    · next hfinished => exact .inr ⟨rfl, t, ht, hfinished⟩
    · exact .inl rfl

theorem clearFinished_keeps (hlive : m.LiveTask sid t) (hhandle : e.handle = some t) :
    (m.clearFinished e).handle = some t := by
  rcases clearFinished_handle (m := m) (e := e) with hsame | ⟨-, t', ht', hover⟩
  · exact hsame.trans hhandle
  · rw [hhandle, some.injEq] at ht'
    subst ht'
    exact absurd hlive (not_liveTask_of_isFinished hover)

variable (h : m.Inv)
include h

theorem setEntry_clearFinished (he : m.sources sid = some e) :
    (m.setEntry sid (some (m.clearFinished e))).Inv := by
  apply h.setEntry
  · rintro e' ⟨⟩
    refine ⟨e, he, clearFinished_spec, ?_⟩
    rcases clearFinished_handle (m := m) (e := e) with hsame | ⟨hnone, -⟩
    · exact .inl hsame
    · exact .inr hnone
  · rintro t hlive ⟨e', he', hhandle⟩
    rw [he, some.injEq] at he'
    subst he'
    exact ⟨_, rfl, clearFinished_keeps hlive hhandle⟩

/-! ## Starts -/

variable {r : RequestId} {q : StartRequest}

/-- Starts stay apart when one of them is new for its source, or has changed but for its
source. -/
theorem startUnique_of_cases {starts : RequestId → Option StartRequest}
    (hcases : ∀ r' q', starts r' = some q' →
      (r' = r ∧ q' = q) ∨ (m.starts r' = some q' ∧ q'.sid ≠ q.sid)) :
    ∀ r₁ q₁ r₂ q₂, starts r₁ = some q₁ → starts r₂ = some q₂ → q₁.sid = q₂.sid → r₁ = r₂ := by
  intro r₁ q₁ r₂ q₂ h₁ h₂ hs
  obtain ⟨rfl, rfl⟩ | ⟨h₁, hne₁⟩ := hcases r₁ q₁ h₁
  · obtain ⟨rfl, -⟩ | ⟨-, hne₂⟩ := hcases r₂ q₂ h₂
    · rfl
    · exact absurd hs.symm hne₂
  · obtain ⟨-, rfl⟩ | ⟨h₂, -⟩ := hcases r₂ q₂ h₂
    · exact absurd hs hne₁
    · exact h.startUnique r₁ q₁ r₂ q₂ h₁ h₂ hs

/-- A new start keeps the invariant when nothing of its source is live or starting,
and its row, if any, has a spec. -/
theorem pushStart {n : ℕ} (hn : m.nextSid ≤ n) (hsid : q.sid < n)
    (hlive : ∀ t, ¬ m.LiveTask q.sid t) (hstart : ∀ r q', m.starts r = some q' → q'.sid ≠ q.sid)
    (hentry : ∀ e, m.sources q.sid = some e → e.spec ≠ none)
    (hwait : ∀ r w, m.waits r = some w → w.removeEntry = true → w.sid ≠ q.sid) :
    ({ m with
      starts := update m.starts m.nextRequest (some q)
      nextRequest := m.nextRequest + 1
      nextSid := n } : Manager).Inv := by
  have hcases : ∀ r q', update m.starts m.nextRequest (some q) r = some q' →
      (r = m.nextRequest ∧ q' = q) ∨ (m.starts r = some q' ∧ q'.sid ≠ q.sid) := by
    intro r q' hq'
    obtain hnew | ⟨-, hq'⟩ := update_some_eq_some hq'
    · exact .inl hnew
    · exact .inr ⟨hq', hstart r q' hq'⟩
  refine ⟨?_, ?_, ?_, ?_, h.single, ?_, ?_, ?_, ?_, ?_, h.joined⟩
  · intro t task htask
    obtain ⟨ht, hs⟩ := h.task_lt t task htask
    exact ⟨ht, hs.trans_le hn⟩
  · intro sid e he
    exact (h.entry_lt sid e he).trans_le hn
  · intro r q' hq'
    obtain ⟨rfl, rfl⟩ | ⟨hq', -⟩ := hcases r q' hq'
    · exact ⟨Nat.lt_succ_self _, hsid⟩
    · obtain ⟨hr, hs⟩ := h.start_lt r q' hq'
      exact ⟨Nat.lt_succ_of_lt hr, hs.trans_le hn⟩
  · intro r w hw
    obtain ⟨hr, hs⟩ := h.wait_lt r w hw
    exact ⟨Nat.lt_succ_of_lt hr, hs.trans_le hn⟩
  · intro sid t ht
    rcases h.held sid t ht with htable | hwaiter | ⟨r, q', hq', hs, hphase⟩
    · exact .inl htable
    · exact .inr (.inl hwaiter)
    · have hne : r ≠ m.nextRequest := (h.start_lt r q' hq').1.ne
      exact .inr (.inr ⟨r, q', by simpa [hne] using hq', hs, hphase⟩)
  · intro r q' t hq' ht
    obtain ⟨rfl, rfl⟩ | ⟨hq', -⟩ := hcases r q' hq'
    · exact absurd ht (hlive t)
    · exact h.startOwns r q' t hq' ht
  · exact h.startUnique_of_cases hcases
  · intro sid e r q' he hspec hq'
    obtain ⟨-, rfl⟩ | ⟨hq', -⟩ := hcases r q' hq'
    · rintro rfl
      exact hentry e he hspec
    · exact h.ephemeral sid e r q' he hspec hq'
  · intro r w hw hremove
    obtain ⟨hrow, hstarts⟩ := h.removing r w hw hremove
    refine ⟨hrow, fun r' q' hq' => ?_⟩
    obtain ⟨-, rfl⟩ | ⟨hq', -⟩ := hcases r' q' hq'
    · exact (hwait r w hw hremove).symm
    · exact hstarts r' q' hq'

theorem dropStart
    (hkeep : ∀ q t, m.starts r = some q → q.phase = .spawned t → m.LiveTask q.sid t →
      m.HeldByTable q.sid t) : (m.setStart r none).Inv := by
  have hcases : ∀ r' q, update m.starts r none r' = some q → m.starts r' = some q :=
    fun _ _ hq => (update_none_eq_some hq).2
  refine ⟨h.task_lt, h.entry_lt, fun r' q hq => h.start_lt r' q (hcases r' q hq), h.wait_lt,
    h.single, ?_, fun r' q t hq => h.startOwns r' q t (hcases r' q hq), ?_, ?_, ?_, h.joined⟩
  · intro sid t ht
    rcases h.held sid t ht with htable | hwaiter | ⟨r', q, hq, rfl, hphase⟩
    · exact .inl htable
    · exact .inr (.inl hwaiter)
    · by_cases heq : r' = r
      · subst heq
        exact .inl (hkeep q t hq hphase ht)
      · exact .inr (.inr ⟨r', q, by simpa [Manager.setStart, heq] using hq, rfl, hphase⟩)
  · exact fun r₁ q₁ r₂ q₂ h₁ h₂ => h.startUnique r₁ q₁ r₂ q₂ (hcases _ _ h₁) (hcases _ _ h₂)
  · exact fun sid e r' q he hspec hq => h.ephemeral sid e r' q he hspec (hcases r' q hq)
  · intro r' w hw hremove
    obtain ⟨hrow, hstarts⟩ := h.removing r' w hw hremove
    exact ⟨hrow, fun r'' q hq => hstarts r'' q (hcases r'' q hq)⟩

theorem storeStart (hq : m.starts r = some q)
    (hhandle : ∀ t, m.LiveTask q.sid t → e.handle = some t) :
    ((m.setEntry q.sid (some e)).setStart r none).Inv := by
  have hcases : ∀ r' q', update m.starts r none r' = some q' →
      m.starts r' = some q' ∧ q'.sid ≠ q.sid := by
    intro r' q' hq'
    obtain ⟨hne, hq'⟩ := update_none_eq_some hq'
    exact ⟨hq', fun hs => hne (h.startUnique r' q' r q hq' hq hs)⟩
  refine ⟨h.task_lt, forall_update h.entry_lt (h.start_lt r q hq).2,
    fun r' q' hq' => h.start_lt r' q' (hcases r' q' hq').1, h.wait_lt, h.single, ?_,
    fun r' q' t hq' => h.startOwns r' q' t (hcases r' q' hq').1, ?_, ?_, ?_, h.joined⟩
  · intro sid t ht
    by_cases heq : sid = q.sid
    · subst heq
      exact .inl ⟨e, by simp [Manager.setEntry, Manager.setStart], hhandle t ht⟩
    · rcases h.held sid t ht with ⟨e', he', hh⟩ | hwaiter | ⟨r', q', hq', hs, hphase⟩
      · exact .inl ⟨e', by simpa [Manager.setEntry, Manager.setStart, heq] using he', hh⟩
      · exact .inr (.inl hwaiter)
      · have hne : r' ≠ r := by
          rintro rfl
          rw [hq, some.injEq] at hq'
          exact heq (hq' ▸ hs).symm
        exact .inr (.inr ⟨r', q', by simpa [Manager.setEntry, Manager.setStart, hne] using hq',
          hs, hphase⟩)
  · exact fun r₁ q₁ r₂ q₂ h₁ h₂ =>
      h.startUnique r₁ q₁ r₂ q₂ (hcases _ _ h₁).1 (hcases _ _ h₂).1
  · intro sid e' r' q' he' hnone hq'
    obtain ⟨hq', hne⟩ := hcases r' q' hq'
    obtain ⟨rfl, -⟩ | ⟨-, he'⟩ := update_some_eq_some he'
    · exact hne
    · exact h.ephemeral sid e' r' q' he' hnone hq'
  · intro r' w hw hremove
    obtain ⟨hold, hstarts⟩ := h.removing r' w hw hremove
    refine ⟨fun e' he' => ?_, fun r'' q' hq' => hstarts r'' q' (hcases r'' q' hq').1⟩
    obtain ⟨hs, -⟩ | ⟨-, he'⟩ := update_some_eq_some he'
    · exact absurd hs.symm (hstarts r q hq)
    · exact hold e' he'

/-- A new task of a start that has none yet keeps the invariant, and then belongs
to the start. -/
theorem spawnTask (hq : m.starts r = some q) (hphase : q.phase = .preparing)
    (hsid : task.sid = q.sid) :
    ((m.pushTask task).setStart r (some { q with phase := .spawned m.nextTask })).Inv := by
  have hlive : ∀ sid t,
      ((m.pushTask task).setStart r (some { q with phase := .spawned m.nextTask })).LiveTask
        sid t → (t = m.nextTask ∧ sid = q.sid) ∨ (m.LiveTask sid t ∧ sid ≠ q.sid) := by
    rintro sid t ⟨task', htask', hs, ha, hf⟩
    obtain ⟨rfl, rfl⟩ | ⟨-, htask'⟩ := update_some_eq_some htask'
    · exact .inl ⟨rfl, hs.symm.trans hsid⟩
    · have hpast : m.LiveTask sid t := ⟨task', htask', hs, ha, hf⟩
      refine .inr ⟨hpast, ?_⟩
      rintro rfl
      have hspawned := h.startOwns r q t hq hpast
      rw [hphase] at hspawned
      cases hspawned
  have hcases : ∀ r' q', update m.starts r (some { q with phase := .spawned m.nextTask })
      r' = some q' →
        (r' = r ∧ q' = { q with phase := .spawned m.nextTask }) ∨
          (m.starts r' = some q' ∧ q'.sid ≠ q.sid) := by
    intro r' q' hq'
    obtain hnew | ⟨hne, hq'⟩ := update_some_eq_some hq'
    · exact .inl hnew
    · exact .inr ⟨hq', fun hs => hne (h.startUnique r' q' r q hq' hq hs)⟩
  refine ⟨?_, h.entry_lt, forall_update h.start_lt (h.start_lt r q hq), h.wait_lt, ?_, ?_, ?_,
    ?_, ?_, ?_, ?_⟩
  · refine forall_update (fun t task' htask' => ?_)
      ⟨Nat.lt_succ_self _, hsid ▸ (h.start_lt r q hq).2⟩
    exact (h.task_lt t task' htask').imp_left Nat.lt_succ_of_lt
  · intro sid t t' ht ht'
    obtain ⟨rfl, hs⟩ | ⟨ht, hne⟩ := hlive sid t ht
    · obtain ⟨rfl, -⟩ | ⟨-, hne⟩ := hlive sid t' ht'
      · rfl
      · exact absurd hs hne
    · obtain ⟨-, hs⟩ | ⟨ht', -⟩ := hlive sid t' ht'
      · exact absurd hs hne
      · exact h.single sid t t' ht ht'
  · intro sid t ht
    obtain ⟨rfl, rfl⟩ | ⟨ht, hne⟩ := hlive sid t ht
    · exact .inr (.inr ⟨r, { q with phase := .spawned m.nextTask }, by simp [Manager.setStart],
        rfl, rfl⟩)
    · rcases h.held sid t ht with htable | hwaiter | ⟨r', q', hq', rfl, hp⟩
      · exact .inl htable
      · exact .inr (.inl hwaiter)
      · have hner : r' ≠ r := by
          rintro rfl
          rw [hq, some.injEq] at hq'
          exact hne (congrArg StartRequest.sid hq').symm
        exact .inr (.inr ⟨r', q', by simpa [Manager.setStart, Manager.pushTask, hner] using hq',
          rfl, hp⟩)
  · intro r' q' t hq' ht
    obtain ⟨rfl, rfl⟩ | ⟨hq', hne⟩ := hcases r' q' hq'
    · obtain ⟨rfl, -⟩ | ⟨-, hnq⟩ := hlive _ t ht
      · rfl
      · exact absurd rfl hnq
    · obtain ⟨-, hs⟩ | ⟨ht, -⟩ := hlive _ t ht
      · exact absurd hs hne
      · exact h.startOwns r' q' t hq' ht
  · exact h.startUnique_of_cases hcases
  · intro sid e r' q' he hnone hq'
    obtain ⟨rfl, rfl⟩ | ⟨hq', -⟩ := hcases r' q' hq'
    · exact h.ephemeral sid e r' q he hnone hq
    · exact h.ephemeral sid e r' q' he hnone hq'
  · intro r' w hw hremove
    obtain ⟨hold, hstarts⟩ := h.removing r' w hw hremove
    exact ⟨hold, forall_update hstarts (hstarts r q hq)⟩
  · intro r' w hw hjoined
    have hover := h.joined r' w hw hjoined
    have hne : w.task ≠ m.nextTask := by
      intro heq
      unfold isFinished at hover
      cases htask : m.tasks w.task with
      | none => simp [htask] at hover
      | some task' => exact (h.task_lt w.task task' htask).1.ne heq
    unfold isFinished at hover ⊢
    simpa [Manager.setStart, Manager.pushTask, hne] using hover

/-! ## Waits -/

/-- A new wait that takes the handle of a row keeps the invariant. -/
theorem pushWait (he : m.sources sid = some e) (ht : e.handle = some t) :
    ({ (m.setEntry sid (some { e with handle := none })).setWait m.nextRequest
        (some ⟨sid, t, e.spec.isNone, false⟩) with
      nextRequest := m.nextRequest + 1 } : Manager).Inv := by
  refine ⟨h.task_lt, forall_update h.entry_lt (h.entry_lt sid e he), ?_, ?_, h.single, ?_,
    h.startOwns, h.startUnique, ?_, ?_, forall_update h.joined nofun⟩
  · intro r q hq
    exact (h.start_lt r q hq).imp_left Nat.lt_succ_of_lt
  · refine forall_update (fun r w hw => ?_) ⟨Nat.lt_succ_self _, h.entry_lt sid e he⟩
    exact (h.wait_lt r w hw).imp_left Nat.lt_succ_of_lt
  · intro sid' t' hlive
    rcases h.held sid' t' hlive with ⟨e', he', hh⟩ | ⟨r, w, hw, hs, htask⟩ | hstart
    · by_cases heq : sid' = sid
      · subst heq
        rw [he, some.injEq] at he'
        subst he'
        rw [ht, some.injEq] at hh
        exact .inr (.inl ⟨m.nextRequest, ⟨sid', t, e.spec.isNone, false⟩,
          by simp [Manager.setWait], rfl, hh⟩)
      · exact .inl ⟨e', by simpa [Manager.setWait, Manager.setEntry, heq] using he', hh⟩
    · have hne : r ≠ m.nextRequest := (h.wait_lt r w hw).1.ne
      exact .inr (.inl ⟨r, w, by simpa [Manager.setWait, Manager.setEntry, hne] using hw, hs,
        htask⟩)
    · exact .inr (.inr hstart)
  · intro sid' e' r q he' hnone hq
    obtain ⟨rfl, rfl⟩ | ⟨-, he'⟩ := update_some_eq_some he'
    · exact h.ephemeral _ e r q he hnone hq
    · exact h.ephemeral sid' e' r q he' hnone hq
  · intro r w hw hremove
    obtain ⟨rfl, rfl⟩ | ⟨-, hw⟩ := update_some_eq_some hw
    · have hnone : e.spec = none := isNone_iff_eq_none.mp hremove
      refine ⟨fun e' he' => ?_, fun r' q hq => h.ephemeral sid e r' q he hnone hq⟩
      obtain ⟨-, rfl⟩ | ⟨hne, -⟩ := update_some_eq_some he'
      · exact ⟨hnone, rfl⟩
      · exact absurd rfl hne
    · obtain ⟨hold, hstarts⟩ := h.removing r w hw hremove
      refine ⟨fun e' he' => ?_, hstarts⟩
      obtain ⟨rfl, rfl⟩ | ⟨-, he'⟩ := update_some_eq_some he'
      · exact ⟨(hold e he).1, rfl⟩
      · exact hold e' he'

theorem setJoined (hw : m.waits r = some w) (hover : m.isFinished w.task = true) :
    (m.setWait r (some { w with joined := true })).Inv := by
  refine ⟨h.task_lt, h.entry_lt, h.start_lt, forall_update h.wait_lt (h.wait_lt r w hw), h.single,
    ?_, h.startOwns, h.startUnique, h.ephemeral, forall_update h.removing (h.removing r w hw),
    forall_update h.joined fun _ => hover⟩
  intro sid t hlive
  rcases h.held sid t hlive with htable | ⟨r', w', hw', hs, htask⟩ | hstart
  · exact .inl htable
  · by_cases heq : r' = r
    · subst heq
      rw [hw, some.injEq] at hw'
      subst hw'
      exact .inr (.inl ⟨r', { w with joined := true }, by simp [Manager.setWait], hs, htask⟩)
    · exact .inr (.inl ⟨r', w', by simpa [Manager.setWait, heq] using hw', hs, htask⟩)
  · exact .inr (.inr hstart)

theorem dropWait (hover : ∀ w, m.waits r = some w → m.isFinished w.task = true) :
    (m.setWait r none).Inv := by
  have hwaits : ∀ r' w, update m.waits r none r' = some w → m.waits r' = some w :=
    fun _ _ hw => (update_none_eq_some hw).2
  refine ⟨h.task_lt, h.entry_lt, h.start_lt, fun r' w hw => h.wait_lt r' w (hwaits r' w hw),
    h.single, ?_, h.startOwns, h.startUnique, h.ephemeral,
    fun r' w hw => h.removing r' w (hwaits r' w hw), fun r' w hw => h.joined r' w (hwaits r' w hw)⟩
  intro sid t hlive
  rcases h.held sid t hlive with htable | ⟨r', w, hw, hs, htask⟩ | hstart
  · exact .inl htable
  · have hne : r' ≠ r := by
      rintro rfl
      exact not_liveTask_of_isFinished (hover w hw) (htask ▸ hlive)
    exact .inr (.inl ⟨r', w, by simpa [Manager.setWait, hne] using hw, hs, htask⟩)
  · exact .inr (.inr hstart)

/-- The invariant does not read these fields. -/
theorem withSettings (registry : Sid → Bool) (config : ManagerConfig) :
    ({ m with registry := registry, config := config } : Manager).Inv :=
  ⟨h.task_lt, h.entry_lt, h.start_lt, h.wait_lt, h.single, h.held, h.startOwns, h.startUnique,
    h.ephemeral, h.removing, h.joined⟩

/-! ## Every step -/

/-- Beginning an overlap-free start keeps the invariant. -/
theorem startSpecWithSid (he : m.sources sid = some e) (hspec : e.spec = some spec)
    (htable : ∀ t, m.LiveTask sid t → ¬ m.HeldByTable sid t)
    (hstart : ∀ r < m.nextRequest, ∀ q ∈ m.starts r, q.sid ≠ sid)
    (hwait : ∀ r < m.nextRequest, ∀ w ∈ m.waits r, w.sid = sid →
      ∀ task ∈ m.tasks w.task, task.aborted ∨ task.finished) (dir : Option Path)
    (options : SourceStartOptions) (clock : ClockReading) :
    (m.startSpecWithSid sid spec dir options clock).Inv := by
  refine h.pushStart le_rfl (h.entry_lt sid e he) ?_ ?_ ?_ ?_
  · intro t hlive
    rcases h.held sid t hlive with hheld | ⟨r, w, hw, hs, rfl⟩ | ⟨r, q, hq, hs, -⟩
    · exact htable t hlive hheld
    · obtain ⟨task, htask, -, ha, hf⟩ := hlive
      have := hwait r (h.wait_lt r w hw).1 w hw hs task htask
      rw [ha, hf] at this
      simp at this
    · exact hstart r (h.start_lt r q hq).1 q hq hs
  · exact fun r q hq => hstart r (h.start_lt r q hq).1 q hq
  · intro e' he' hnone
    rw [he, some.injEq] at he'
    rw [← he', hspec] at hnone
    cases hnone
  · rintro r w hw hremove rfl
    have := ((h.removing r w hw hremove).1 e he).1
    rw [hspec] at this
    cases this

theorem resumed (hapart : m.Apart sid) (he : m.sources sid = some e)
    (hhandle : (m.clearFinished e).handle = none) (hspec : (m.clearFinished e).spec = some spec) :
    ((m.setEntry sid (some (m.clearFinished e))).startSpecWithSid sid spec
      (m.clearFinished e).sessionDir (m.clearFinished e).startOptions clock).Inv := by
  refine (h.setEntry_clearFinished he).startSpecWithSid (e := m.clearFinished e) ?_ hspec ?_
    hapart.1 hapart.2 _ _ _
  · simp [Manager.setEntry]
  · rintro t - ⟨e', he', hh⟩
    simp only [Manager.setEntry, update_self, some.injEq] at he'
    rw [← he', hhandle] at hh
    cases hh

/-- Taking the handle of a row and aborting its task keeps the invariant. -/
theorem release (he : m.sources sid = some e) {row : Option SourceEntry}
    (hrow : ∀ e', row = some e' → e'.spec = e.spec ∧ e'.handle = none) :
    (m.release sid e row).Inv := by
  have hknown : ∀ e', row = some e' → ∃ old, m.sources sid = some old ∧ e'.spec = old.spec ∧
      (e'.handle = old.handle ∨ e'.handle = none) := by
    intro e' he'
    obtain ⟨hspec, hnone⟩ := hrow e' he'
    exact ⟨e, he, hspec, .inr hnone⟩
  have hheld : ∀ t, m.HeldByTable sid t → e.handle = some t := by
    rintro t ⟨e', he', hh⟩
    rw [he, some.injEq] at he'
    rwa [he']
  unfold Manager.release
  split
  · next ht =>
    apply h.setEntry hknown
    intro t _ htable
    rw [hheld t htable] at ht
    cases ht
  · next t ht =>
    have hcomm : (m.setEntry sid row).abort t = (m.abort t).setEntry sid row := rfl
    apply (h.abort t).setEntry hknown
    intro t' hlive htable
    have hsame := hheld t' htable
    rw [ht, some.injEq] at hsame
    exact absurd (hsame ▸ hlive) not_liveTask_abort

theorem restarted {overrides : SourceStartOptions} (hapart : m.Apart sid)
    (he : m.sources sid = some e) (hspec : e.spec = some spec) :
    ((m.release sid e (some { e with handle := none, sink := false })).startSpecWithSid sid spec
      e.sessionDir (mergeStartOptions e.startOptions overrides) clock).Inv := by
  have hrow : (m.release sid e (some { e with handle := none, sink := false })).sources sid =
      some { e with handle := none, sink := false } := by
    unfold Manager.release
    split <;> exact update_self ..
  have hreleased : (m.release sid e (some { e with handle := none, sink := false })).Inv :=
    h.release he (by rintro e' ⟨⟩; simp)
  refine hreleased.startSpecWithSid hrow hspec ?_ ?_ ?_ _ _ _
  · rintro t - ⟨e', he', hh⟩
    rw [hrow, some.injEq] at he'
    rw [← he'] at hh
    cases hh
  · unfold Manager.release
    split <;> exact hapart.1
  · unfold Manager.release
    split
    · exact hapart.2
    · intro r hr w hw hs task htask
      obtain ⟨task', hpast, rfl | ⟨-, rfl⟩⟩ := tasks_updateTask htask
      · exact hapart.2 r hr w hw hs task hpast
      · exact .inl rfl

/-- A start under a fresh id keeps the invariant. -/
theorem pushFreshStart (hsid : q.sid = m.nextSid) :
    ({ m with
      starts := update m.starts m.nextRequest (some q)
      nextRequest := m.nextRequest + 1
      nextSid := m.nextSid + 1 } : Manager).Inv := by
  refine h.pushStart (Nat.le_succ _) (hsid ▸ Nat.lt_succ_self _) ?_ ?_ ?_ ?_
  · rintro t ⟨task, htask, hs, -, -⟩
    exact (h.task_lt t task htask).2.ne (hs.trans hsid)
  · intro r q' hq'
    exact fun hs => (h.start_lt r q' hq').2.ne (hs.trans hsid)
  · intro e he
    exact absurd hsid (h.entry_lt _ e he).ne
  · intro r w hw _
    exact fun hs => (h.wait_lt r w hw).2.ne (hs.trans hsid)

theorem reapFinished : m.reapFinished.Inv := by
  apply h.replaceSources
  · intro sid e' he'
    cases he : m.sources sid with
    | none =>
      rw [he] at he'
      cases he'
    | some e =>
      simp only [he] at he'
      split at he'
      · rw [some.injEq] at he'
        subst he'
        refine ⟨e, rfl, clearFinished_spec, ?_⟩
        exact clearFinished_handle.imp_right And.left
      · cases he'
  · rintro sid t hlive ⟨e, he, hhandle⟩
    have hkeep := clearFinished_keeps hlive hhandle
    exact ⟨m.clearFinished e, by simp [he, hkeep], hkeep⟩

/-- A remote source: its task is spawned, and its row stored in the same step. -/
theorem spawnedRemote (hq : m.starts r = some q) (hphase : q.phase = .preparing) :
    (({ m.pushTask { sid := q.sid, sessionDir := q.sessionDir, registered := true } with
        registry := update m.registry q.sid true }.setEntry q.sid
      (some (StartRequest.entry q m.nextTask))).setStart r none).Inv := by
  have hsid : (⟨q.sid, q.sessionDir, true, false, false⟩ : RunnerTask).sid = q.sid := rfl
  have hspawned := (h.spawnTask hq hphase hsid).withSettings (update m.registry q.sid true) m.config
  have hstart : (update m.starts r (some { q with phase := .spawned m.nextTask })) r =
      some { q with phase := .spawned m.nextTask } := update_self ..
  have hstored := hspawned.storeStart hstart (e := StartRequest.entry q m.nextTask) (by
    intro t hlive
    have howns := hspawned.startOwns r _ t hstart hlive
    simpa [StartRequest.entry] using howns)
  simpa [Manager.setStart, Manager.setEntry, Manager.pushTask] using hstored

theorem stored (hq : m.starts r = some q) (hphase : q.phase = .spawned t) :
    ((m.setEntry q.sid (some (StartRequest.entry q t))).setStart r none).Inv := by
  apply h.storeStart hq
  intro t' hlive
  have howns := h.startOwns r q t' hq hlive
  rw [hphase, StartPhase.spawned.injEq] at howns
  rw [← howns]
  rfl

theorem failed (hq : m.starts r = some q)
    (hdead : ∀ t, q.phase = .spawned t → ¬ m.LiveTask q.sid t) : (m.setStart r none).Inv := by
  apply h.dropStart
  intro q' t hq' hphase
  rw [hq, some.injEq] at hq'
  rw [← hq'] at hphase ⊢
  exact fun hlive => absurd hlive (hdead t hphase)

theorem joinedRow (hw : m.waits r = some w) (hover : m.isFinished w.task = true)
    (he : m.sources w.sid = some e) :
    ((m.setEntry w.sid (some { e with sink := false })).setWait r
      (some { w with joined := true })).Inv := by
  have hset : (m.setEntry w.sid (some { e with sink := false })).Inv := by
    apply h.setEntry
    · rintro e' ⟨⟩
      exact ⟨e, he, rfl, .inl rfl⟩
    · rintro t - ⟨e', he', hh⟩
      rw [he, some.injEq] at he'
      subst he'
      exact ⟨_, rfl, hh⟩
  exact hset.setJoined hw hover

theorem waitDone (hw : m.waits r = some w) (hover : m.isFinished w.task = true) :
    (m.setWait r none).Inv := by
  apply h.dropWait
  intro w' hw'
  rw [hw, some.injEq] at hw'
  rwa [← hw']

theorem waitRemoved (hw : m.waits r = some w) (hover : m.isFinished w.task = true)
    (hremove : w.removeEntry = true) : ((m.setEntry w.sid none).setWait r none).Inv := by
  have hset : (m.setEntry w.sid none).Inv := by
    apply h.setEntry
    · rintro e' ⟨⟩
    · rintro t - ⟨e, he, hh⟩
      have hnone := ((h.removing r w hw hremove).1 e he).2
      rw [hh] at hnone
      cases hnone
  exact hset.waitDone hw hover

theorem step {a : Action} {m' : Manager} (hguard : m.NoOverlap a) (hstep : m.step a = some m') :
    m'.Inv := by
  cases stepped_of_step hstep with
  | startSpec spec options clock => exact h.pushFreshStart rfl
  | startSource => exact h.pushFreshStart rfl
  | refused ha => exact h
  | cleared ha he => exact h.setEntry_clearFinished he
  | resumed he hhandle hspec =>
    exact h.resumed (hguard (by simp [Manager.resume, he, hhandle, hspec])) he hhandle hspec
  | restarted he hspec =>
    exact h.restarted (hguard (by simp [Manager.restartWithOptions, he, hspec])) he hspec
  | stopped he => exact h.release he (by rintro e' ⟨⟩; simp)
  | @forgotten sid he =>
    have hset : (m.setEntry sid none).Inv := by
      apply h.setEntry
      · rintro e' ⟨⟩
      · rintro t - ⟨e, he', -⟩
        rw [he] at he'
        cases he'
    exact hset.withSettings _ _
  | removed he => exact (h.release he (by rintro e' ⟨⟩)).withSettings _ _
  | waited he ht => exact h.pushWait he ht
  | reaped => exact h.reapFinished
  | patternSet pattern => exact h.withSettings _ _
  | spawned hq hphase hspec => exact h.spawnTask hq hphase rfl
  | spawnedRemote hq hphase hspec => exact h.spawnedRemote hq hphase
  | prepareFailed hq hphase =>
    apply h.failed hq
    intro t hspawned
    rw [hphase] at hspawned
    cases hspawned
  | stored hq hphase hregistered => exact h.stored hq hphase
  | startFailed hq hphase hover =>
    apply h.failed hq
    rintro t' hspawned ⟨task, htask, -, -, hf⟩
    rw [hphase, StartPhase.spawned.injEq] at hspawned
    subst hspawned
    simp [htask, hf] at hover
  | joined hw hover he => exact h.setJoined hw hover
  | joinedRow hw hover he => exact h.joinedRow hw hover he
  | waitDone hw hjoined => exact h.waitDone hw (h.joined _ _ hw hjoined)
  | waitRemoved hw hjoined hremove =>
    exact h.waitRemoved hw (h.joined _ _ hw hjoined) hremove
  | @registered t task ht hfinished hnew =>
    have hregistered : (m.updateTask t fun task => { task with registered := true }).Inv :=
      h.updateTask t (fun _ => rfl) (fun _ ha => ha) (fun _ hf => hf)
    exact hregistered.withSettings _ _
  | finished ht => exact h.updateTask _ (fun _ => rfl) (fun _ ha => ha) (fun _ hf => by cases hf)

end Inv

/-! ## Results -/

/-- In every interleaving in which the starts of a source do not overlap, no source
ever has two live runners, and every live runner is held by the table entry of
its source, by the wait that took it, or by the start that spawned it. -/
theorem single_runner_of_noOverlap (config : ManagerConfig) (actions : List Action) (m : Manager)
    (hguard : Guarded step NoOverlap (Manager.new config) actions)
    (hrun : exec step (Manager.new config) actions = some m) :
    m.SingleRunner ∧ ∀ sid t, m.LiveTask sid t →
      m.HeldByTable sid t ∨ m.HeldByWait sid t ∨ m.HeldByStart sid t := by
  have hinv : m.Inv :=
    exec_invariant (fun _ _ _ h hg hs => h.step hg hs) (inv_new config) hguard hrun
  exact ⟨hinv.single, hinv.held⟩

/-- The first resume comes while the source is being started, and is refused. -/
def stopResumeRun : List Action :=
  [.startSpec (.mock "a") {} .epoch, .resume 0 .epoch, .spawn 0, .register 0, .store 0, .stop 0,
    .resume 0 .epoch, .spawn 1, .register 1, .store 1]

theorem single_runner_stopResumeRun :
    Guarded step NoOverlap (Manager.new {}) stopResumeRun ∧
      ∃ m, exec step (Manager.new {}) stopResumeRun = some m ∧ m.SingleRunner ∧
        ∀ sid t, m.LiveTask sid t →
          m.HeldByTable sid t ∨ m.HeldByWait sid t ∨ m.HeldByStart sid t := by
  have hguard : Guarded step NoOverlap (Manager.new {}) stopResumeRun := by decide
  obtain ⟨m, hm⟩ : ∃ m, exec step (Manager.new {}) stopResumeRun = some m := ⟨_, rfl⟩
  exact ⟨hguard, m, hm, single_runner_of_noOverlap {} stopResumeRun m hguard hm⟩

/-- Every start has a moment in which its live runner is neither in the table nor
with a wait; and two resumes that overlap leave two live runners of one source. -/
theorem overlapping_resumes :
    (∃ m, exec step (Manager.new {}) [.startSpec (.mock "a") {} .epoch, .spawn 0] = some m ∧
      m.LiveTask 0 0 ∧ ¬ m.HeldByTable 0 0 ∧ ¬ m.HeldByWait 0 0) ∧
    ∃ m, exec step (Manager.new {})
        [.startSpec (.mock "a") {} .epoch, .spawn 0, .register 0, .store 0, .stop 0,
          .resume 0 .epoch, .resume 0 .epoch, .spawn 1, .spawn 2] = some m ∧
      ¬ m.SingleRunner := by
  refine ⟨⟨_, rfl, ⟨_, rfl, rfl, rfl, rfl⟩, ?_, ?_⟩, _, rfl, ?_⟩
  · rintro ⟨e, he, -⟩
    cases he
  · rintro ⟨r, w, hw, -⟩
    cases hw
  · intro hsingle
    exact absurd (hsingle 0 1 2 ⟨_, rfl, rfl, rfl, rfl⟩ ⟨_, rfl, rfl, rfl, rfl⟩) (by decide)

end TraceMux.Server.Manager
