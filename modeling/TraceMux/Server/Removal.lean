/-
# Removing a source

A source that is removed leaves the table and the registry, and the runner in its row is
aborted. What the row does not show, the removal does not see: a start of the source that is
suspended, whose runner registers and whose row is stored later, and a runner whose handle is
not in the row, because a wait has taken it or another start has replaced it.
-/

import TraceMux.Server.RunnerTasks

namespace TraceMux.Server.Manager

open Base Base.Transition Core.Source Function Option

def NotFor (sid : Sid) (m : Manager) : Action → Prop
  | .startSpec .. | .startSource => m.nextSid ≠ sid
  | .resume other _ | .restart other _ _ => other ≠ sid
  | _ => True

instance (sid : Sid) (m : Manager) (a : Action) : Decidable (NotFor sid m a) := by
  induction a using Action.casesOn <;> dsimp only [NotFor] <;> infer_instance

/-- The source is neither in the table nor in the registry, and has no runner other than those
that an abort is about to end. -/
def Gone (m : Manager) (sid : Sid) : Prop :=
  m.sources sid = none ∧ m.registry sid = false ∧ ∀ t, ¬ m.LiveTask sid t

/-- A start that may still spawn a runner, or whose runner may still register or has
registered. -/
def canGoOn (m : Manager) (q : StartRequest) : Bool :=
  match q.phase with
  | .preparing => q.spec.all isImplemented
  | .spawned t => (m.tasks t).any fun task => task.registered || !task.finished

/-- Nothing of the source is in progress that a removal does not see: no start can go on, and
every runner that is neither aborted nor over is the one in the row. -/
def QuietFor (m : Manager) (sid : Sid) : Prop :=
  (∀ r < m.nextRequest, ∀ q ∈ m.starts r, q.sid = sid → m.canGoOn q = false) ∧
    ∀ t < m.nextTask, ∀ task ∈ m.tasks t, task.sid = sid →
      task.aborted = true ∨ task.finished = true ∨
        (m.sources sid).bind SourceEntry.handle = some t

instance (m : Manager) (sid : Sid) : Decidable (m.QuietFor sid) := by
  unfold QuietFor
  infer_instance

/-- Every start knows its runner, and every runner that has not registered has its start. -/
structure StartsOk (m : Manager) : Prop where
  task_lt : ∀ t task, m.tasks t = some task → t < m.nextTask
  start_lt : ∀ r q, m.starts r = some q → r < m.nextRequest
  start_task : ∀ r q t, m.starts r = some q → q.phase = .spawned t →
    ∃ task, m.tasks t = some task ∧ task.sid = q.sid
  pending : ∀ t task, m.tasks t = some task → task.registered = false →
    task.finished = false → m.HeldByStart task.sid t

namespace StartsOk

variable {m : Manager}

section

variable (h : m.StartsOk)
include h

/-- The table, the registry and the waits do not matter. -/
theorem congr {m' : Manager} (htasks : m'.tasks = m.tasks) (hstarts : m'.starts = m.starts)
    (htask : m'.nextTask = m.nextTask) (hrequest : m.nextRequest ≤ m'.nextRequest) :
    m'.StartsOk := by
  refine ⟨?_, fun r q hq => ?_, ?_, ?_⟩
  · rw [htasks, htask]
    exact h.task_lt
  · rw [hstarts] at hq
    exact (h.start_lt r q hq).trans_le hrequest
  · rw [htasks, hstarts]
    exact h.start_task
  · unfold HeldByStart
    rw [htasks, hstarts]
    exact h.pending

/-- A task can change when it stays what it is and only moves on. -/
theorem updateTask (t : TaskId) {f : RunnerTask → RunnerTask}
    (hsid : ∀ task, (f task).sid = task.sid)
    (hregistered : ∀ task, (f task).registered = false → task.registered = false)
    (hfinished : ∀ task, (f task).finished = false → task.finished = false) :
    (m.updateTask t f).StartsOk := by
  refine ⟨fun t' task' htask => ?_, h.start_lt, fun r q t' hq hphase => ?_,
    fun t' task' htask hr hf => ?_⟩
  · obtain ⟨task, hpast, -⟩ := Inv.tasks_updateTask htask
    exact h.task_lt t' task hpast
  · obtain ⟨task, htask, hs⟩ := h.start_task r q t' hq hphase
    by_cases heq : t' = t
    · subst heq
      refine ⟨f task, ?_, (hsid task).trans hs⟩
      simp [Manager.updateTask, htask]
    · exact ⟨task, by simp [Manager.updateTask, heq, htask], hs⟩
  · obtain ⟨task, hpast, rfl | ⟨-, rfl⟩⟩ := Inv.tasks_updateTask htask
    · exact h.pending t' task' hpast hr hf
    · rw [hsid]
      exact h.pending t' task hpast (hregistered task hr) (hfinished task hf)

theorem release (sid : Sid) (e : SourceEntry) (row : Option SourceEntry) :
    (m.release sid e row).StartsOk := by
  have hrow : (m.setEntry sid row).StartsOk := h.congr rfl rfl rfl le_rfl
  unfold Manager.release
  split
  · exact hrow
  · exact hrow.updateTask _ (fun _ => rfl) (fun _ hr => hr) (fun _ hf => hf)

variable {q : StartRequest} {r : RequestId}

/-- A new start has no runner yet. -/
theorem pushStart (hphase : q.phase = .preparing) (n : ℕ) :
    ({ m with
      starts := update m.starts m.nextRequest (some q)
      nextRequest := m.nextRequest + 1
      nextSid := n } : Manager).StartsOk := by
  refine ⟨h.task_lt, forall_update (fun r q' hq' => ?_) (Nat.lt_succ_self _),
    fun r q' t hq' ht => ?_, fun t task ht hr hf => ?_⟩
  · exact Nat.lt_succ_of_lt (h.start_lt r q' hq')
  · rcases update_some_eq_some hq' with ⟨-, rfl⟩ | ⟨-, hold⟩
    · rw [hphase] at ht
      cases ht
    · exact h.start_task r q' t hold ht
  · obtain ⟨r, q', hq', hrest⟩ := h.pending t task ht hr hf
    refine ⟨r, q', ?_, hrest⟩
    exact (update_of_ne (h.start_lt r q' hq').ne _ _).trans hq'

/-- A start can end that has no runner or whose runner has registered or is over. -/
theorem endStart (hq : m.starts r = some q)
    (hover : ∀ t task, q.phase = .spawned t → m.tasks t = some task →
      task.registered = true ∨ task.finished = true) : (m.setStart r none).StartsOk := by
  refine ⟨h.task_lt, fun r' q' hq' => h.start_lt r' q' (update_none_eq_some hq').2,
    fun r' q' t hq' => h.start_task r' q' t (update_none_eq_some hq').2,
    fun t task ht hr hf => ?_⟩
  obtain ⟨r', q', hq', hsid, hphase⟩ := h.pending t task ht hr hf
  refine ⟨r', q', ?_, hsid, hphase⟩
  refine (update_of_ne (fun heq => ?_) _ _).trans hq'
  -- The ending start is not the one of a runner that may still register.
  rw [heq, hq, some.injEq] at hq'
  subst hq'
  rcases hover t task hphase ht with hdone | hdone
  · rw [hr] at hdone
    cases hdone
  · rw [hf] at hdone
    cases hdone

theorem spawned (hq : m.starts r = some q) (hphase : q.phase = .preparing) :
    ((m.pushTask { sid := q.sid, sessionDir := q.sessionDir }).setStart r
      (some { q with phase := .spawned m.nextTask })).StartsOk := by
  refine ⟨forall_update (fun t task ht => ?_) (Nat.lt_succ_self _),
    forall_update h.start_lt (h.start_lt r q hq), fun r' q' t hq' ht => ?_,
    fun t task ht hr hf => ?_⟩
  · exact Nat.lt_succ_of_lt (h.task_lt t task ht)
  · rcases update_some_eq_some hq' with ⟨-, rfl⟩ | ⟨-, hold⟩
    · cases ht
      exact ⟨_, update_self .., rfl⟩
    · obtain ⟨task, htask, hsid⟩ := h.start_task r' q' t hold ht
      exact ⟨task, (update_of_ne (h.task_lt t task htask).ne _ _).trans htask, hsid⟩
  · rcases update_some_eq_some ht with ⟨rfl, rfl⟩ | ⟨-, hold⟩
    · exact ⟨r, _, update_self .., rfl, rfl⟩
    · obtain ⟨r', q', hq', hsid, hspawned⟩ := h.pending t task hold hr hf
      refine ⟨r', q', (update_of_ne (fun heq => ?_) _ _).trans hq', hsid, hspawned⟩
      rw [heq, hq, some.injEq] at hq'
      rw [← hq', hphase] at hspawned
      cases hspawned

theorem spawnedRemote (hq : m.starts r = some q) (hphase : q.phase = .preparing) :
    (({ m.pushTask { sid := q.sid, sessionDir := q.sessionDir, registered := true } with
        registry := update m.registry q.sid true }.setEntry q.sid
      (some (StartRequest.entry q m.nextTask))).setStart r none).StartsOk := by
  have hpushed : (m.pushTask
      { sid := q.sid, sessionDir := q.sessionDir, registered := true }).StartsOk := by
    refine ⟨forall_update (fun t task ht => ?_) (Nat.lt_succ_self _), h.start_lt,
      fun r' q' t hq' ht => ?_, forall_update h.pending nofun⟩
    · exact Nat.lt_succ_of_lt (h.task_lt t task ht)
    · obtain ⟨task, htask, hsid⟩ := h.start_task r' q' t hq' ht
      exact ⟨task, (update_of_ne (h.task_lt t task htask).ne _ _).trans htask, hsid⟩
  have hended := hpushed.endStart hq fun t _ ht _ => by
    rw [hphase] at ht
    cases ht
  exact hended.congr rfl rfl rfl le_rfl

end

theorem any_eq_true {t : TaskId} {p : RunnerTask → Bool} (hany : (m.tasks t).any p = true)
    {task : RunnerTask} (ht : m.tasks t = some task) : p task = true := by
  rwa [ht] at hany

/-- Every step keeps starts and runners together. -/
theorem step {m' : Manager} {a : Action} (h : m.StartsOk) (hstep : m.step a = some m') :
    m'.StartsOk := by
  cases stepped_of_step hstep with
  | startSpec spec options clock => exact h.pushStart rfl _
  | startSource => exact h.pushStart rfl _
  | refused ha => exact h
  | cleared ha he | forgotten he | reaped | patternSet pattern | joined hw hover he
  | joinedRow hw hover he | waitDone hw hjoined | waitRemoved hw hjoined hremove =>
    exact h.congr rfl rfl rfl le_rfl
  | @resumed sid clock e spec he hhandle hspec =>
    have hrow : (m.setEntry sid (some (m.clearFinished e))).StartsOk :=
      h.congr rfl rfl rfl le_rfl
    exact hrow.pushStart rfl _
  | restarted he hspec => exact (h.release _ _ _).pushStart rfl _
  | stopped he => exact h.release _ _ _
  | removed he => exact (h.release _ _ _).congr rfl rfl rfl le_rfl
  | waited he ht => exact h.congr rfl rfl rfl (Nat.le_succ _)
  | spawned hq hphase hspec => exact h.spawned hq hphase
  | spawnedRemote hq hphase hspec => exact h.spawnedRemote hq hphase
  | prepareFailed hq hphase =>
    exact h.endStart hq fun t _ ht _ => by
      rw [hphase] at ht
      cases ht
  | @stored r q t hq hphase hregistered =>
    refine (h.endStart hq fun t' task ht htask => .inl ?_).congr rfl rfl rfl le_rfl
    rw [hphase, StartPhase.spawned.injEq] at ht
    subst ht
    exact any_eq_true hregistered htask
  | @startFailed r q t hq hphase hover =>
    refine h.endStart hq fun t' task ht htask => .inr ?_
    rw [hphase, StartPhase.spawned.injEq] at ht
    subst ht
    exact ((Bool.and_eq_true _ _).mp (any_eq_true hover htask)).1
  | @registered t task ht hfinished hnew =>
    exact StartsOk.congr (h.updateTask t (f := fun task => { task with registered := true })
      (fun _ => rfl) (fun _ hr => nomatch hr) (fun _ hf => hf)) rfl rfl rfl le_rfl
  | @finished t task ht =>
    exact h.updateTask t (fun _ => rfl) (fun _ hr => hr) (fun _ hf => nomatch hf)

end StartsOk

/-- The source is gone and nothing is under way that brings it back. -/
structure Removed (sid : Sid) (m : Manager) : Prop where
  gone : m.Gone sid
  stuck : ∀ r q, m.starts r = some q → q.sid = sid → m.canGoOn q = false
  /-- Its runners have registered before or never will. -/
  settled : ∀ t task, m.tasks t = some task → task.sid = sid →
    task.finished = true ∨ task.registered = true

namespace Removed

variable {m : Manager} {sid : Sid}

section

variable (h : Removed sid m)
include h

/-- The source stays gone when the runners stay as they are and no row, entry or start of it is
added. -/
theorem congr {m' : Manager} (htasks : m'.tasks = m.tasks)
    (hstarts : ∀ r q, m'.starts r = some q → q.sid = sid → m.starts r = some q)
    (hsources : m'.sources sid = none) (hregistry : m'.registry sid = false) : Removed sid m' := by
  refine ⟨⟨hsources, hregistry, ?_⟩, fun r q hq hsid => ?_, ?_⟩
  · unfold LiveTask
    rw [htasks]
    exact h.gone.2.2
  · unfold canGoOn
    rw [htasks]
    exact h.stuck r q (hstarts r q hq hsid) hsid
  · rw [htasks]
    exact h.settled

variable {other : Sid} {q : StartRequest}

theorem setEntry (hne : other ≠ sid) (row : Option SourceEntry) :
    Removed sid (m.setEntry other row) :=
  h.congr rfl (fun _ _ hq _ => hq) ((update_of_ne hne.symm _ _).trans h.gone.1) h.gone.2.1

theorem dropEntry (other : Sid) : Removed sid (m.setEntry other none) := by
  by_cases hne : other = sid
  · subst hne
    exact h.congr rfl (fun _ _ hq _ => hq) (update_self ..) h.gone.2.1
  · exact h.setEntry hne none

theorem unregister (other : Sid) :
    Removed sid { m with registry := update m.registry other false } := by
  refine h.congr rfl (fun _ _ hq _ => hq) h.gone.1 ?_
  by_cases hne : sid = other
  · rw [hne]
    exact update_self ..
  · exact (update_of_ne hne _ _).trans h.gone.2.1

theorem register (hne : other ≠ sid) :
    Removed sid { m with registry := update m.registry other true } :=
  h.congr rfl (fun _ _ hq _ => hq) h.gone.1
    ((update_of_ne hne.symm _ _).trans h.gone.2.1)

theorem ne_of_row {e : SourceEntry} (he : m.sources other = some e) : other ≠ sid := by
  rintro rfl
  rw [h.gone.1] at he
  cases he

/-- A runner can change when it does not come back to life, and a start of the source does not
get on by it. -/
theorem updateTask (t : TaskId) {f : RunnerTask → RunnerTask}
    (hsid : ∀ task, (f task).sid = task.sid)
    (hstays : ∀ task, m.tasks t = some task → task.sid = sid →
      ((f task).aborted = false → task.aborted = false) ∧
      ((f task).finished = false → task.finished = false) ∧
      (f task).registered = task.registered)
    (hstart : ∀ r q, m.starts r = some q → q.sid = sid → q.phase = .spawned t →
      ∃ task, m.tasks t = some task ∧ task.sid = q.sid) : Removed sid (m.updateTask t f) := by
  refine ⟨⟨h.gone.1, h.gone.2.1, ?_⟩, fun r q hq hs => ?_, fun t' task' ht' hs => ?_⟩
  · rintro t' ⟨task', ht', hs, ha, hf⟩
    obtain ⟨task, ht, rfl | ⟨rfl, rfl⟩⟩ := Inv.tasks_updateTask ht'
    · exact h.gone.2.2 t' ⟨task', ht, hs, ha, hf⟩
    · have hs' := (hsid task).symm.trans hs
      obtain ⟨haborted, hfinished, -⟩ := hstays task ht hs'
      exact h.gone.2.2 t' ⟨task, ht, hs', haborted ha, hfinished hf⟩
  · have hstuck := h.stuck r q hq hs
    unfold canGoOn at hstuck ⊢
    cases hphase : q.phase with
    | preparing =>
      rw [hphase] at hstuck
      exact hstuck
    | spawned t' =>
      rw [hphase] at hstuck
      simp only at hstuck ⊢
      by_cases heq : t' = t
      · subst heq
        obtain ⟨task, ht, htsid⟩ := hstart r q hq hs hphase
        obtain ⟨-, hfinished, hregistered⟩ := hstays task ht (htsid.trans hs)
        rw [ht, any_some, Bool.or_eq_false_iff, Bool.not_eq_false'] at hstuck
        have hover : (f task).finished = true := by
          by_contra hnot
          rw [hfinished (Bool.eq_false_iff.mpr hnot)] at hstuck
          cases hstuck.2
        simp [Manager.updateTask, ht, hregistered, hstuck.1, hover]
      · simp only [Manager.updateTask, update_of_ne heq]
        exact hstuck
  · obtain ⟨task, ht, rfl | ⟨rfl, rfl⟩⟩ := Inv.tasks_updateTask ht'
    · exact h.settled t' task' ht hs
    · have hs' := (hsid task).symm.trans hs
      obtain ⟨-, hfinished, hregistered⟩ := hstays task ht hs'
      rcases h.settled t' task ht hs' with hover | hreg
      · left
        by_contra hnot
        rw [hfinished (Bool.eq_false_iff.mpr hnot)] at hover
        cases hover
      · exact .inr (hregistered.trans hreg)

theorem release (hok : m.StartsOk) (hne : other ≠ sid) (e : SourceEntry)
    (row : Option SourceEntry) : Removed sid (m.release other e row) := by
  have hrow := h.setEntry hne row
  unfold Manager.release
  split
  · exact hrow
  · next t ht =>
    exact hrow.updateTask t (fun _ => rfl)
      (fun _ _ _ => ⟨fun ha => (nomatch ha), fun hf => hf, rfl⟩)
      (fun r q hq _ hphase => hok.start_task r q t hq hphase)

/-- A start of another source can be made. -/
theorem pushStart (hne : q.sid ≠ sid) (n : ℕ) :
    Removed sid ({ m with
      starts := update m.starts m.nextRequest (some q)
      nextRequest := m.nextRequest + 1
      nextSid := n } : Manager) := by
  exact h.congr rfl (forall_update (fun _ _ hold _ => hold) fun hsid => absurd hsid hne)
    h.gone.1 h.gone.2.1

theorem endStart (r : RequestId) : Removed sid (m.setStart r none) :=
  h.congr rfl (fun _ _ hq _ => (update_none_eq_some hq).2) h.gone.1 h.gone.2.1

theorem pushTask (hok : m.StartsOk) (task : RunnerTask) (hne : task.sid ≠ sid) :
    Removed sid (m.pushTask task) := by
  refine ⟨⟨h.gone.1, h.gone.2.1, ?_⟩, fun r q hq hs => ?_,
    forall_update h.settled fun hs => absurd hs hne⟩
  · rintro t ⟨task', ht, hs, hrest⟩
    rcases update_some_eq_some ht with ⟨-, rfl⟩ | ⟨-, hold⟩
    · exact hne hs
    · exact h.gone.2.2 t ⟨task', hold, hs, hrest⟩
  · have hstuck := h.stuck r q hq hs
    unfold canGoOn at hstuck ⊢
    cases hphase : q.phase with
    | preparing =>
      rw [hphase] at hstuck
      exact hstuck
    | spawned t =>
      rw [hphase] at hstuck
      obtain ⟨task', ht, -⟩ := hok.start_task r q t hq hphase
      have hsame : (m.pushTask task).tasks t = m.tasks t :=
        update_of_ne (hok.task_lt t task' ht).ne _ _
      simp only [hsame]
      exact hstuck

end

variable {q : StartRequest}

theorem canGoOn_of_registered {t : TaskId} (hphase : q.phase = .spawned t)
    (hregistered : (m.tasks t).any RunnerTask.registered = true) : m.canGoOn q = true := by
  cases ht : m.tasks t with
  | none =>
    rw [ht] at hregistered
    cases hregistered
  | some task =>
    rw [ht, any_some] at hregistered
    simp [canGoOn, hphase, ht, hregistered]

theorem ne_of_canGoOn (h : Removed sid m) {r : RequestId} (hq : m.starts r = some q)
    (hgo : m.canGoOn q = true) : q.sid ≠ sid := by
  intro hsid
  rw [h.stuck r q hq hsid] at hgo
  cases hgo

/-- No step brings the source back, as long as nobody asks for it. -/
theorem step {m' : Manager} {a : Action} (h : Removed sid m) (hok : m.StartsOk)
    (hnot : NotFor sid m a) (hstep : m.step a = some m') : Removed sid m' := by
  cases stepped_of_step hstep with
  | startSpec spec options clock | startSource =>
    have hne : m.nextSid ≠ sid := hnot
    exact h.pushStart hne _
  | refused ha => exact h
  | cleared ha he => exact h.setEntry (h.ne_of_row he) _
  | resumed he hhandle hspec =>
    exact (h.setEntry (h.ne_of_row he) _).pushStart (h.ne_of_row he) _
  | restarted he hspec =>
    exact (h.release hok (h.ne_of_row he) _ _).pushStart (h.ne_of_row he) _
  | stopped he => exact h.release hok (h.ne_of_row he) _ _
  | @forgotten other he => exact (h.dropEntry other).unregister other
  | @removed other e he =>
    have hrow := h.release hok (h.ne_of_row he) e none
    exact hrow.congr rfl (fun _ _ hq _ => hq) hrow.gone.1 (h.unregister other).gone.2.1
  | @waited other e t he ht =>
    have hrow := h.setEntry (h.ne_of_row he) (some { e with handle := none })
    exact hrow.congr rfl (fun _ _ hq _ => hq) hrow.gone.1 hrow.gone.2.1
  | reaped =>
    refine h.congr rfl (fun _ _ hq _ => hq) ?_ h.gone.2.1
    simp [reapFinished, h.gone.1]
  | patternSet pattern | joined hw hover he | waitDone hw hjoined =>
    exact h.congr rfl (fun _ _ hq _ => hq) h.gone.1 h.gone.2.1
  | @spawned r q hq hphase hspec =>
    have hne := h.ne_of_canGoOn hq (by rw [canGoOn, hphase]; exact hspec)
    have hpushed := h.pushTask hok { sid := q.sid, sessionDir := q.sessionDir } hne
    exact hpushed.congr rfl (forall_update (fun _ _ hold _ => hold) fun hsid => absurd hsid hne)
      hpushed.gone.1 hpushed.gone.2.1
  | @spawnedRemote r q hq hphase hspec =>
    have hne := h.ne_of_canGoOn hq (by rw [canGoOn, hphase]; exact hspec)
    exact (((h.pushTask hok _ hne).register hne).setEntry hne _).endStart r
  | prepareFailed hq hphase => exact h.endStart _
  | @stored r q t hq hphase hregistered =>
    have hne := h.ne_of_canGoOn hq (canGoOn_of_registered hphase hregistered)
    exact (h.setEntry hne _).endStart r
  | startFailed hq hphase hover => exact h.endStart _
  | @joinedRow r w e hw hover he =>
    have hrow := h.setEntry (h.ne_of_row he) (some { e with sink := false })
    exact hrow.congr rfl (fun _ _ hq _ => hq) hrow.gone.1 hrow.gone.2.1
  | @waitRemoved r w hw hjoined hremove =>
    have hrow := h.dropEntry w.sid
    exact hrow.congr rfl (fun _ _ hq _ => hq) hrow.gone.1 hrow.gone.2.1
  | @registered t task ht hfinished hnew =>
    -- A runner of the source would have registered before or be over.
    have hne : task.sid ≠ sid := by
      intro hsid
      rcases h.settled t task ht hsid with hover | hreg
      · rw [hfinished] at hover
        cases hover
      · rw [hnew] at hreg
        cases hreg
    have htask : Removed sid (m.updateTask t fun task => { task with registered := true }) := by
      refine h.updateTask t (fun _ => rfl) (fun task' ht' hsid => ?_)
        (fun r q hq _ hphase => hok.start_task r q t hq hphase)
      rw [ht, some.injEq] at ht'
      subst ht'
      exact absurd hsid hne
    exact htask.register hne
  | @finished t task ht =>
    exact h.updateTask t (fun _ => rfl)
      (fun _ _ _ => ⟨fun ha => ha, fun hf => (nomatch hf), rfl⟩)
      (fun r q hq _ hphase => hok.start_task r q t hq hphase)

end Removed

section Remove

variable {m : Manager} {sid : Sid}

/-- A removal leaves the starts alone and of the runners aborts the one in the row. -/
theorem remove_frame (m : Manager) (sid : Sid) :
    (m.remove sid).2.starts = m.starts ∧ (m.remove sid).2.sources sid = none ∧
      (m.remove sid).2.registry sid = false ∧
      ∀ t, (m.remove sid).2.tasks t =
        if (m.sources sid).bind SourceEntry.handle = some t then
          (m.tasks t).map fun task => { task with aborted := true }
        else m.tasks t := by
  cases hhandle : (m.sources sid).bind SourceEntry.handle with
  | none =>
    simp only [Manager.remove, hhandle]
    exact ⟨rfl, update_self .., update_self .., fun t => rfl⟩
  | some t' =>
    simp only [Manager.remove, hhandle]
    refine ⟨rfl, update_self .., update_self .., fun t => ?_⟩
    by_cases heq : t = t'
    · subst heq
      simp [abort, updateTask, setEntry]
    · simp [abort, updateTask, setEntry, heq, Ne.symm heq]

/-- Where nothing is in progress that the removal does not see, the source is gone for good. -/
theorem removed_of_quietFor (hok : m.StartsOk) (hquiet : m.QuietFor sid) :
    Removed sid (m.remove sid).2 := by
  obtain ⟨hstuck, hheld⟩ := hquiet
  obtain ⟨hstarts, hsources, hregistry, htasks⟩ := remove_frame m sid
  -- A runner after the removal is one from before, aborted or not.
  have hback : ∀ t task', (m.remove sid).2.tasks t = some task' →
      ∃ task, m.tasks t = some task ∧ task'.sid = task.sid ∧ task'.finished = task.finished ∧
        task'.registered = task.registered ∧ (task'.aborted = false → task.aborted = false ∧
          (m.sources sid).bind SourceEntry.handle ≠ some t) := by
    intro t task' ht'
    rw [htasks] at ht'
    split at ht'
    · obtain ⟨task, ht, rfl⟩ := map_eq_some_iff.mp ht'
      exact ⟨task, ht, rfl, rfl, rfl, fun ha => nomatch ha⟩
    · next hother => exact ⟨task', ht', rfl, rfl, rfl, fun ha => ⟨ha, hother⟩⟩
  have hstuck' : ∀ r q, m.starts r = some q → q.sid = sid → m.canGoOn q = false :=
    fun r q hq hsid => hstuck r (hok.start_lt r q hq) q hq hsid
  refine ⟨⟨hsources, hregistry, ?_⟩, fun r q hq hsid => ?_, fun t task' ht' hsid => ?_⟩
  · rintro t ⟨task', ht', hsid, ha, hf⟩
    obtain ⟨task, ht, hs, hfin, -, habort⟩ := hback t task' ht'
    obtain ⟨ha', hother⟩ := habort ha
    rcases hheld t (hok.task_lt t task ht) task ht (hs.symm.trans hsid) with h | h | h
    · rw [ha'] at h
      cases h
    · rw [← hfin, hf] at h
      cases h
    · exact hother h
  · rw [hstarts] at hq
    have hno := hstuck' r q hq hsid
    unfold canGoOn at hno ⊢
    cases hphase : q.phase with
    | preparing =>
      rw [hphase] at hno
      exact hno
    | spawned t =>
      rw [hphase] at hno
      cases ht : (m.remove sid).2.tasks t with
      | none => simp only [ht]; rfl
      | some task' =>
        obtain ⟨task, hold, -, hfin, hreg, -⟩ := hback t task' ht
        simp only [hold, any_some] at hno
        simp only [ht, any_some, hfin, hreg]
        exact hno
  · obtain ⟨task, ht, hs, hfin, hreg, -⟩ := hback t task' ht'
    by_contra hnot
    rw [not_or, hfin, hreg, Bool.not_eq_true, Bool.not_eq_true] at hnot
    -- A runner that may still register has its start, and that could go on.
    obtain ⟨r, q, hq, hqsid, hphase⟩ := hok.pending t task ht hnot.2 hnot.1
    have hno := hstuck' r q hq (hqsid.trans (hs.symm.trans hsid))
    simp [canGoOn, hphase, ht, hnot.1] at hno

/-- A start that can go on takes a step after which its source is not gone. -/
theorem exists_step_not_gone {r : RequestId} {q : StartRequest} (hok : m.StartsOk)
    (hq : m.starts r = some q) (hgo : m.canGoOn q = true) :
    ∃ a m', NotFor q.sid m a ∧ m.step a = some m' ∧ ¬ m'.Gone q.sid := by
  unfold canGoOn at hgo
  cases hphase : q.phase with
  | preparing =>
    rw [hphase] at hgo
    obtain ⟨m', hspawn, hlive⟩ : ∃ m', m.spawn r q = some m' ∧ m'.LiveTask q.sid m.nextTask := by
      unfold Manager.spawn
      split
      · exact ⟨_, rfl, _, update_self .., rfl, rfl, rfl⟩
      · next spec _ hspec =>
        simp only [hspec, all_some] at hgo
        rw [if_pos hgo]
        exact ⟨_, rfl, _, update_self .., rfl, rfl, rfl⟩
      · exact ⟨_, rfl, _, update_self .., rfl, rfl, rfl⟩
    refine ⟨.spawn r, m', trivial, ?_, fun hgone => hgone.2.2 _ hlive⟩
    simp [Manager.step, hq, hphase, hspawn]
  | spawned t =>
    obtain ⟨task, ht, hsid⟩ := hok.start_task r q t hq hphase
    simp only [hphase, ht, any_some] at hgo
    cases hregistered : task.registered with
    | true =>
      -- The row is stored.
      have hstore : m.step (.store r) =
          some ((m.setEntry q.sid (some (StartRequest.entry q t))).setStart r none) := by
        simp [Manager.step, Manager.store, hq, hphase, ht, hregistered]
      refine ⟨.store r, _, trivial, hstore, fun hgone => ?_⟩
      have hrow : update m.sources q.sid (some (StartRequest.entry q t)) q.sid =
          none := hgone.1
      rw [update_self] at hrow
      cases hrow
    | false =>
      -- The runner registers the session.
      rw [hregistered, Bool.false_or, Bool.not_eq_true'] at hgo
      have hregister : m.step (.register t) =
          some { m.updateTask t fun task => { task with registered := true } with
            registry := update m.registry task.sid true } := by
        simp [Manager.step, ht, hgo, hregistered]
      refine ⟨.register t, _, trivial, hregister, fun hgone => ?_⟩
      have hknown : update m.registry task.sid true q.sid = false := hgone.2.1
      rw [hsid, update_self] at hknown
      cases hknown

/-- Where something is in progress that the removal does not see, it can bring the source
back, or leaves a runner alive. -/
theorem exists_not_gone (hok : m.StartsOk) (hbusy : ¬ m.QuietFor sid) :
    ∃ rest m', Guarded Manager.step (NotFor sid) (m.remove sid).2 rest ∧
      exec Manager.step (m.remove sid).2 rest = some m' ∧ ¬ m'.Gone sid := by
  obtain ⟨hstarts, hsources, hregistry, htasks⟩ := remove_frame m sid
  rw [QuietFor, Classical.not_and_iff_not_or_not] at hbusy
  rcases hbusy with hstart | htask
  · simp only [not_forall, Bool.not_eq_false] at hstart
    obtain ⟨r, -, q, hq, rfl, hgo⟩ := hstart
    have hok' : (m.remove q.sid).2.StartsOk := hok.step (a := .remove q.sid) rfl
    have hgo' : (m.remove q.sid).2.canGoOn q = true := by
      unfold canGoOn at hgo ⊢
      cases hphase : q.phase with
      | preparing =>
        rw [hphase] at hgo
        exact hgo
      | spawned t =>
        simp only [hphase] at hgo
        simp only [htasks]
        split
        · rw [any_map]
          exact hgo
        · exact hgo
    obtain ⟨a, m', hnot, hstep, hthere⟩ := exists_step_not_gone hok'
      ((congrFun hstarts r).trans hq) hgo'
    refine ⟨[a], m', ⟨hnot, ?_⟩, ?_, hthere⟩
    · rw [hstep]
      trivial
    · rw [exec, hstep]
      rfl
  · simp only [not_forall, not_or] at htask
    obtain ⟨t, -, task, ht, hsid, ha, hf, hother⟩ := htask
    refine ⟨[], _, trivial, rfl, fun hgone => hgone.2.2 t ⟨task, ?_, hsid, ?_, ?_⟩⟩
    · rw [htasks, if_neg hother]
      exact ht
    · exact Bool.eq_false_iff.mpr ha
    · exact Bool.eq_false_iff.mpr hf

end Remove

/-- After a source is removed and as long as nobody asks for it, it is never again in the table
or the registry and has no runner left but those an abort is about to end, in every run from
there on, exactly when at the removal no start of it can go on and every live runner of it is
the one in its row. -/
theorem gone_iff_quietFor {config : ManagerConfig} {run : List Action} {m : Manager}
    (hrun : exec Manager.step (Manager.new config) run = some m) (sid : Sid) :
    (∀ rest m', Guarded Manager.step (NotFor sid) (m.remove sid).2 rest →
      exec Manager.step (m.remove sid).2 rest = some m' → m'.Gone sid) ↔ m.QuietFor sid := by
  have hnew : (Manager.new config).StartsOk := by
    constructor <;> simp [Manager.new]
  have hok : m.StartsOk := exec_keeps (fun h hs => h.step hs) hnew hrun
  constructor
  · intro hgone
    by_contra hbusy
    obtain ⟨rest, m', hguard, hexec, hthere⟩ := exists_not_gone hok hbusy
    exact hthere (hgone rest m' hguard hexec)
  · intro hquiet rest m' hguard hexec
    have hinit : Removed sid (m.remove sid).2 ∧ (m.remove sid).2.StartsOk :=
      ⟨removed_of_quietFor hok hquiet, hok.step (a := .remove sid) rfl⟩
    have hstep : ∀ s a s', Removed sid s ∧ s.StartsOk → NotFor sid s a → s.step a = some s' →
        Removed sid s' ∧ s'.StartsOk :=
      fun s a s' h hnot hs => ⟨h.1.step h.2 hnot hs, h.2.step hs⟩
    exact (exec_invariant hstep hinit hguard hexec).1.gone

def startedRun : List Action := [.startSpec (.mock "a") {} .epoch, .spawn 0, .register 0, .store 0]

/-- Removed then, it is gone for good. -/
theorem gone_startedRun :
    ∃ m, exec Manager.step (Manager.new {}) startedRun = some m ∧ (m.sources 0).isSome ∧
      ∀ rest m', Guarded Manager.step (NotFor 0) (m.remove 0).2 rest →
        exec Manager.step (m.remove 0).2 rest = some m' → m'.Gone 0 := by
  obtain ⟨m, hm, hrow, hquiet⟩ : ∃ m, exec Manager.step (Manager.new {}) startedRun = some m ∧
      (m.sources 0).isSome ∧ m.QuietFor 0 := ⟨_, rfl, rfl, by decide⟩
  exact ⟨m, hm, hrow, (gone_iff_quietFor hm 0).mpr hquiet⟩

/-- A source that is removed while a resume of it waits for its runner comes back with a row, a
registered session and a live runner. One that is removed while a wait holds its runner leaves
the runner alive. -/
theorem removed_source_returns :
    (∃ m, exec Manager.step (Manager.new {})
        (startedRun ++ [.stop 0, .resume 0 .epoch, .spawn 1, .remove 0, .register 1, .store 1]) =
          some m ∧
      (m.sources 0).isSome ∧ m.registry 0 = true ∧ m.LiveTask 0 1) ∧
    ∃ m, exec Manager.step (Manager.new {}) (startedRun ++ [.wait 0, .remove 0]) = some m ∧
      m.LiveTask 0 0 :=
  ⟨⟨_, rfl, rfl, rfl, _, rfl, rfl, rfl, rfl⟩, ⟨_, rfl, _, rfl, rfl, rfl, rfl⟩⟩

end TraceMux.Server.Manager
