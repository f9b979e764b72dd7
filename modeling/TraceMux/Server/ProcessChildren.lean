/-
# The children of process sources

A start of a process source spawns the child before anything else. The handle of the child
then goes with the source: into the start, and from there into the runner task. It is used
to kill the child in one place only, when the runner closes a source that has ended. Where
the source is dropped instead, because the runner is aborted, ends with an error or is never
spawned, the child goes on.

The state is that of the manager with the children beside it. The actions of the manager are
its own, except that the end of a task says in which of these ways it ends.
-/

import TraceMux.Server.Removal

namespace TraceMux.Server.ProcessChildren

open Base Base.Transition Core.Source Server.Manager Function Option

/-- Child processes in the order in which they are spawned. -/
abbrev ChildId := ℕ

/-- A child, and whether it has exited by itself or was killed. -/
structure Child where
  sid : Sid
  exited : Bool := false
  killed : Bool := false
  deriving DecidableEq, Repr

def Child.running (child : Child) : Bool := !child.exited && !child.killed

/-- How a runner ends: it closes the source that has ended, it returns an error, or an abort
takes effect. -/
inductive Ending
  | closed
  | failed
  | aborted
  deriving DecidableEq, Repr

/-- The manager, the children, and who holds the handle of which. For every source it is
kept whether it was stopped or removed and not asked for since. -/
structure State where
  manager : Manager
  children : ChildId → Option Child
  nextChild : ℕ
  startChild : RequestId → Option ChildId
  taskChild : TaskId → Option ChildId
  stopped : Sid → Bool

inductive Action
  | manager (a : Manager.Action)
  | spawnChild (request : RequestId)
  | finish (task : TaskId) (ending : Ending)
  | exit (child : ChildId)

namespace State

/-- A manager that has not been asked for anything. -/
def new (config : ManagerConfig) : State where
  manager := .new config
  children _ := none
  nextChild := 0
  startChild _ := none
  taskChild _ := none
  stopped _ := false

/-- Whether a child has not come to an end. -/
def alive (s : State) (c : ChildId) : Bool := (s.children c).any Child.running

def updateChild (s : State) (c : ChildId) (f : Child → Child) : State :=
  { s with children := Function.update s.children c ((s.children c).map f) }

def isProcess (q : StartRequest) : Bool :=
  match q.spec with
  | some (.process _) => true
  | _ => false

/-- The manager ends no task by itself here, and a process source is run with its child. -/
def allowed (s : State) : Manager.Action → Bool
  | .finish _ => false
  | .spawn r => (s.manager.starts r).all fun q => !isProcess q || (s.startChild r).isSome
  | _ => true

/-- Where the handles are after an action: the runner takes over the child of its start, and
a start that fails drops it. -/
def handOver (s : State) : Manager.Action → State
  | .spawn r =>
    { s with
      taskChild := Function.update s.taskChild s.manager.nextTask (s.startChild r)
      startChild := Function.update s.startChild r none }
  | .prepareFailed r => { s with startChild := Function.update s.startChild r none }
  | _ => s

def stoppedAfter (s : State) (a : Manager.Action) (sid : Sid) : Bool :=
  match a with
  | .stop other | .remove other => decide (other = sid) || s.stopped sid
  | _ => s.stopped sid && decide (NotFor sid s.manager a)

def step (s : State) : Action → Option State
  | .manager a =>
    if s.allowed a then
      (s.manager.step a).map fun m =>
        { s.handOver a with manager := m, stopped := s.stoppedAfter a }
    else none
  | .spawnChild r =>
    match s.manager.starts r with
    | none => none
    | some q =>
      if q.phase = .preparing ∧ isProcess q ∧ s.startChild r = none then
        some { s with
          children := Function.update s.children s.nextChild (some { sid := q.sid })
          nextChild := s.nextChild + 1
          startChild := Function.update s.startChild r (some s.nextChild) }
      else none
  | .finish t ending =>
    match s.manager.tasks t with
    | none => none
    | some task =>
      if task.finished ∨ (ending = .aborted ∧ task.aborted = false) then none
      else
        let ended : State := { s with
          manager := s.manager.updateTask t fun task => { task with finished := true }
          taskChild := Function.update s.taskChild t none }
        match ending, s.taskChild t with
        -- `close` kills the child; a handle that is dropped leaves it alone.
        | .closed, some c => some (ended.updateChild c fun child => { child with killed := true })
        | _, _ => some ended
  | .exit c => if s.alive c then some (s.updateChild c fun child => { child with exited := true })
      else none

def Running (s : State) (sid : Sid) (c : ChildId) : Prop :=
  ∃ child, s.children c = some child ∧ child.sid = sid ∧ child.running = true

/-- Every abort of a runner of this source has taken effect. -/
def Settled (s : State) (sid : Sid) : Prop :=
  ∀ t task, s.manager.tasks t = some task → task.sid = sid → task.aborted = true →
    task.finished = true

/-- Once the aborts have taken effect, a source has at most one running child, and none if it
was stopped or removed. -/
def OneChild (s : State) : Prop :=
  ∀ sid, s.Settled sid →
    (∀ c c', s.Running sid c → s.Running sid c' → c = c') ∧
      (s.stopped sid = true → ∀ c, ¬ s.Running sid c)

end State

/-- The handle of a child is dropped only when the child has come to an end, and the requests
for a source do not overlap. -/
def DropsNone (s : State) : Action → Prop
  | .manager (.resume sid _) | .manager (.restart sid _ _) | .manager (.stop sid)
  | .manager (.remove sid) => s.manager.Apart sid
  | .manager (.prepareFailed r) => (s.startChild r).all (fun c => !s.alive c) = true
  | .finish t ending => ending = .closed ∨ (s.taskChild t).all (fun c => !s.alive c) = true
  | _ => True

instance (s : State) (a : Action) : Decidable (DropsNone s a) := by
  unfold DropsNone
  split <;> infer_instance

section Frames

variable {m m' : Manager} {a : Manager.Action} {t : TaskId} {r : RequestId} {sid : Sid}

theorem release_tasks (m : Manager) (sid : Sid) (e : SourceEntry) (row : Option SourceEntry)
    {task : RunnerTask} (ht : m.tasks t = some task) :
    ∃ task', (m.release sid e row).tasks t = some task' ∧ task'.sid = task.sid ∧
      task'.finished = task.finished := by
  unfold Manager.release
  split
  · exact ⟨task, ht, rfl, rfl⟩
  · next held _ =>
    by_cases hheld : t = held
    · subst hheld
      refine ⟨{ task with aborted := true }, ?_, rfl, rfl⟩
      simp only [Manager.abort, Manager.updateTask, Manager.setEntry, update_self, ht, map_some]
    · refine ⟨task, ?_, rfl, rfl⟩
      simp only [Manager.abort, Manager.updateTask, Manager.setEntry, update_of_ne hheld]
      exact ht

theorem release_starts (m : Manager) (sid : Sid) (e : SourceEntry) (row : Option SourceEntry) :
    (m.release sid e row).starts = m.starts ∧
      (m.release sid e row).nextRequest = m.nextRequest := by
  unfold Manager.release
  split <;> exact ⟨rfl, rfl⟩

/-- A runner stays, and goes on unless its end is the step. -/
theorem task_kept (hinv : m.Inv) (h : m.Stepped a m') (hfinish : ∀ t, a ≠ .finish t)
    {task : RunnerTask} (ht : m.tasks t = some task) :
    ∃ task', m'.tasks t = some task' ∧ task'.sid = task.sid ∧
      task'.finished = task.finished := by
  have hne : t ≠ m.nextTask := (hinv.task_lt t task ht).1.ne
  have hpushed : ∀ new : RunnerTask, ∃ task', (m.pushTask new).tasks t = some task' ∧
      task'.sid = task.sid ∧ task'.finished = task.finished := by
    intro new
    refine ⟨task, ?_, rfl, rfl⟩
    simp only [Manager.pushTask, update_of_ne hne]
    exact ht
  cases h with
  | restarted he hspec | stopped he | removed he => exact release_tasks m _ _ _ ht
  | spawned hq hphase hspec => exact hpushed _
  | spawnedRemote hq hphase hspec => exact hpushed _
  | @registered t' task' ht' hfinished hnew =>
    by_cases hsame : t = t'
    · subst hsame
      refine ⟨{ task with registered := true }, ?_, rfl, rfl⟩
      simp only [Manager.updateTask, update_self, ht, map_some]
    · refine ⟨task, ?_, rfl, rfl⟩
      simp only [Manager.updateTask, update_of_ne hsame]
      exact ht
  | finished ht => exact absurd rfl (hfinish _)
  -- The other steps leave the tasks alone.
  | _ => exact ⟨task, ht, rfl, rfl⟩

/-- A start in preparation stays as it is, unless the step is its own. -/
theorem start_kept (hinv : m.Inv) (h : m.Stepped a m') {q : StartRequest}
    (hq : m.starts r = some q) (hphase : q.phase = .preparing) (hspawn : a ≠ .spawn r)
    (hfailed : a ≠ .prepareFailed r) : m'.starts r = some q := by
  have hne : r ≠ m.nextRequest := (hinv.start_lt r q hq).1.ne
  have hset : ∀ (r' : RequestId) (request : Option StartRequest), r ≠ r' →
      update m.starts r' request r = some q :=
    fun r' request hr => (update_of_ne hr _ _).trans hq
  have hspawned : ∀ {r' : RequestId} {q' : StartRequest} {t : TaskId},
      m.starts r' = some q' → q'.phase = .spawned t → r ≠ r' := by
    rintro r' q' t hq' hphase' rfl
    rw [hq, some.injEq] at hq'
    rw [← hq', hphase] at hphase'
    cases hphase'
  cases h with
  | startSpec spec options clock | startSource | resumed he hhandle hspec => exact hset _ _ hne
  | @restarted sid overrides clock e spec he hspec =>
    obtain ⟨hstarts, hnext⟩ :=
      release_starts m sid e (some { e with handle := none, sink := false })
    simp only [Manager.startSpecWithSid, Manager.setStart, hstarts, hnext]
    exact hset _ _ hne
  | @stopped sid e he =>
    rw [(release_starts m sid e _).1]
    exact hq
  | @removed sid e he =>
    simp only [(release_starts m sid e none).1]
    exact hq
  | @spawned r' q' hq' hphase' hspec | @spawnedRemote r' q' hq' hphase' hspec =>
    exact hset _ _ fun hr => hspawn (by rw [hr])
  | @prepareFailed r' q' hq' hphase' => exact hset _ _ fun hr => hfailed (by rw [hr])
  | stored hq' hphase' hregistered | startFailed hq' hphase' hover =>
    exact hset _ _ (hspawned hq' hphase')
  | _ => exact hq

/-- A source that is not asked for gets no start. -/
theorem start_before (h : m.Stepped a m') (hnot : NotFor sid m a) {q' : StartRequest}
    (hq' : m'.starts r = some q') (hsid : q'.sid = sid) :
    ∃ q, m.starts r = some q ∧ q.sid = sid := by
  have hpushed : ∀ {q : StartRequest} {starts : RequestId → Option StartRequest}
      {r' : RequestId}, starts = m.starts → update starts r' (some q) r = some q' →
      q.sid ≠ sid → ∃ q, m.starts r = some q ∧ q.sid = sid := by
    intro q starts r' hstarts hupdate hne
    obtain ⟨-, rfl⟩ | ⟨-, hold⟩ := update_some_eq_some hupdate
    · exact absurd hsid hne
    · rw [hstarts] at hold
      exact ⟨q', hold, hsid⟩
  have hdropped : ∀ {r' : RequestId}, update m.starts r' none r = some q' →
      ∃ q, m.starts r = some q ∧ q.sid = sid :=
    fun hupdate => ⟨q', (update_none_eq_some hupdate).2, hsid⟩
  cases h with
  | startSpec spec options clock | startSource | resumed he hhandle hspec =>
    exact hpushed rfl hq' hnot
  | @restarted other overrides clock e spec he hspec =>
    exact hpushed (release_starts m other e (some { e with handle := none, sink := false })).1
      hq' hnot
  | @stopped other e he =>
    rw [(release_starts m other e _).1] at hq'
    exact ⟨q', hq', hsid⟩
  | @removed other e he =>
    simp only [(release_starts m other e none).1] at hq'
    exact ⟨q', hq', hsid⟩
  | @spawned r' q hq hphase hspec =>
    obtain ⟨rfl, rfl⟩ | ⟨-, hold⟩ := update_some_eq_some hq'
    · exact ⟨q, hq, hsid⟩
    · exact ⟨q', hold, hsid⟩
  | spawnedRemote hq hphase hspec | prepareFailed hq hphase | stored hq hphase hregistered
  | startFailed hq hphase hover => exact hdropped hq'
  | _ => exact ⟨q', hq', hsid⟩

theorem live_before (h : m.Stepped a m') (hlive : m'.LiveTask sid t) :
    m.LiveTask sid t ∨ ∃ r q, m.starts r = some q ∧ q.sid = sid := by
  obtain ⟨task', ht', hsid, haborted, hfinished⟩ := hlive
  have hupdated : ∀ {t' : TaskId} {f : RunnerTask → RunnerTask} {n : Manager},
      n.tasks = m.tasks → (n.updateTask t' f).tasks t = some task' →
      (∀ task, (f task).sid = task.sid) →
      (∀ task, (f task).aborted = false → task.aborted = false) →
      (∀ task, (f task).finished = false → task.finished = false) → m.LiveTask sid t := by
    intro t' f n htasks hupdate hfsid hfaborted hffinished
    obtain ⟨rfl, hmap⟩ | ⟨-, hold⟩ := update_eq_some hupdate
    · rw [htasks] at hmap
      obtain ⟨task, ht, rfl⟩ := map_eq_some_iff.mp hmap
      exact ⟨task, ht, (hfsid task).symm.trans hsid, hfaborted task haborted,
        hffinished task hfinished⟩
    · rw [htasks] at hold
      exact ⟨task', hold, hsid, haborted, hfinished⟩
  have hreleased : ∀ {other : Sid} {e : SourceEntry} {row : Option SourceEntry},
      (m.release other e row).tasks t = some task' → m.LiveTask sid t := by
    intro other e row hrelease
    unfold Manager.release at hrelease
    split at hrelease
    · exact ⟨task', hrelease, hsid, haborted, hfinished⟩
    · exact hupdated (n := m.setEntry other row) rfl hrelease (fun _ => rfl)
        (fun _ habs => nomatch habs) (fun _ hf => hf)
  have hpushed : ∀ {r : RequestId} {q : StartRequest} {task : RunnerTask},
      m.starts r = some q → task.sid = q.sid → (m.pushTask task).tasks t = some task' →
      m.LiveTask sid t ∨ ∃ r q, m.starts r = some q ∧ q.sid = sid := by
    intro r q task hq htask hpush
    obtain ⟨-, rfl⟩ | ⟨-, hold⟩ := update_some_eq_some hpush
    · exact .inr ⟨r, q, hq, htask.symm.trans hsid⟩
    · exact .inl ⟨task', hold, hsid, haborted, hfinished⟩
  cases h with
  | restarted he hspec | stopped he | removed he => exact .inl (hreleased ht')
  | spawned hq hphase hspec => exact hpushed hq rfl ht'
  | spawnedRemote hq hphase hspec => exact hpushed hq rfl ht'
  | registered ht hf hnew =>
    exact .inl (hupdated (n := m) rfl ht' (fun _ => rfl) (fun _ ha => ha) (fun _ hf => hf))
  | finished ht =>
    exact .inl (hupdated (n := m) rfl ht' (fun _ => rfl) (fun _ ha => ha)
      (fun _ hf => nomatch hf))
  | _ => exact .inl ⟨task', ht', hsid, haborted, hfinished⟩

theorem heldByTable_of_apart (hinv : m.Inv) (hapart : m.Apart sid) (hlive : m.LiveTask sid t) :
    m.HeldByTable sid t := by
  rcases hinv.held sid t hlive with htable | ⟨r, w, hw, hsid, rfl⟩ | ⟨r, q, hq, hsid, -⟩
  · exact htable
  · obtain ⟨task, ht, -, haborted, hfinished⟩ := hlive
    have hover := hapart.2 r (hinv.wait_lt r w hw).1 w hw hsid task ht
    rw [haborted, hfinished] at hover
    simp at hover
  · exact absurd hsid (hapart.1 r (hinv.start_lt r q hq).1 q hq)

theorem heldByTable_before (hinv : m.Inv) (h : m.Stepped a m') (hapart : m.Apart sid)
    (hlive : m'.LiveTask sid t) : m.HeldByTable sid t := by
  rcases live_before h hlive with hbefore | ⟨r, q, hq, hsid⟩
  · exact heldByTable_of_apart hinv hapart hbefore
  · exact absurd hsid (hapart.1 r (hinv.start_lt r q hq).1 q hq)

theorem not_live_stop (hinv : m.Inv) (hapart : m.Apart sid) (t : TaskId) :
    ¬ (m.stop sid).2.LiveTask sid t := by
  intro hlive
  obtain ⟨e, he, hhandle⟩ := heldByTable_before hinv (stepped_stop m sid) hapart hlive
  simp only [Manager.stop, he, hhandle] at hlive
  exact Inv.not_liveTask_abort hlive

theorem not_live_remove (hinv : m.Inv) (hapart : m.Apart sid) (t : TaskId) :
    ¬ (m.remove sid).2.LiveTask sid t := by
  intro hlive
  obtain ⟨e, he, hhandle⟩ := heldByTable_before hinv (stepped_remove m sid) hapart hlive
  simp only [Manager.remove, he, hhandle, bind_some] at hlive
  have habort : ((m.setEntry sid none).abort t).LiveTask sid t := hlive
  exact Inv.not_liveTask_abort habort

end Frames

namespace State

/-- A start in preparation holds the handle of the child. -/
def WithStart (s : State) (sid : Sid) (c : ChildId) : Prop :=
  ∃ r q, s.manager.starts r = some q ∧ q.sid = sid ∧ q.phase = .preparing ∧
    s.startChild r = some c

/-- A runner that is not over holds the handle of the child. -/
def WithTask (s : State) (sid : Sid) (c : ChildId) : Prop :=
  ∃ t task, s.manager.tasks t = some task ∧ task.sid = sid ∧ task.finished = false ∧
    s.taskChild t = some c

/-- What holds as long as no handle of a running child is dropped. -/
structure Kept (s : State) : Prop where
  inv : s.manager.Inv
  held : ∀ sid c, s.Running sid c → s.WithStart sid c ∨ s.WithTask sid c
  quiet : ∀ sid, s.stopped sid = true →
    (∀ r q, s.manager.starts r = some q → q.sid ≠ sid) ∧ ∀ t, ¬ s.manager.LiveTask sid t

theorem kept_new (config : ManagerConfig) : (State.new config).Kept where
  inv := inv_new config
  held := by
    rintro sid c ⟨child, hchild, -⟩
    cases hchild
  quiet := by
    intro sid hstopped
    cases hstopped

variable {s : State}

/-- Once the aborts have taken effect, who holds a running child is live. -/
theorem Kept.holder (h : s.Kept) {sid : Sid} (hsettled : s.Settled sid) {c : ChildId}
    (hrunning : s.Running sid c) :
    s.WithStart sid c ∨ ∃ t, s.manager.LiveTask sid t ∧ s.taskChild t = some c := by
  rcases h.held sid c hrunning with hstart | ⟨t, task, ht, hsid, hfinished, hchild⟩
  · exact .inl hstart
  · have haborted : task.aborted = false := by
      cases ha : task.aborted with
      | false => rfl
      | true =>
        rw [hsettled t task ht hsid ha] at hfinished
        cases hfinished
    exact .inr ⟨t, ⟨task, ht, hsid, haborted, hfinished⟩, hchild⟩

theorem Kept.oneChild (h : s.Kept) : s.OneChild := by
  -- A start in preparation has no live runner beside it.
  have hapart : ∀ {sid c t}, s.WithStart sid c → ¬ s.manager.LiveTask sid t := by
    rintro sid c t ⟨r, q, hq, rfl, hphase, -⟩ hlive
    have howns := h.inv.startOwns r q t hq hlive
    rw [hphase] at howns
    cases howns
  intro sid hsettled
  constructor
  · intro c c' hrunning hrunning'
    rcases h.holder hsettled hrunning with hstart | ⟨t, hlive, hchild⟩
    · rcases h.holder hsettled hrunning' with hstart' | ⟨t', hlive', -⟩
      · obtain ⟨r, q, hq, hsid, -, hchild⟩ := hstart
        obtain ⟨r', q', hq', hsid', -, hchild'⟩ := hstart'
        have hsame := h.inv.startUnique r q r' q' hq hq' (hsid.trans hsid'.symm)
        rw [hsame, hchild'] at hchild
        exact (some.inj hchild).symm
      · exact absurd hlive' (hapart hstart)
    · rcases h.holder hsettled hrunning' with hstart' | ⟨t', hlive', hchild'⟩
      · exact absurd hlive (hapart hstart')
      · have hsame := h.inv.single sid t t' hlive hlive'
        rw [hsame, hchild'] at hchild
        exact (some.inj hchild).symm
  · intro hstopped c hrunning
    obtain ⟨hstarts, hlive⟩ := h.quiet sid hstopped
    rcases h.holder hsettled hrunning with ⟨r, q, hq, hsid, -⟩ | ⟨t, hrunner, -⟩
    · exact hstarts r q hq hsid
    · exact hlive t hrunner

section Manager

variable {a : Manager.Action} {m : Manager}

theorem noOverlap_of_dropsNone (hguard : DropsNone s (.manager a)) : s.manager.NoOverlap a := by
  cases a with
  | resume sid clock => exact fun _ => hguard
  | restart sid overrides clock => exact fun _ => hguard
  | _ => trivial

variable {sid : Sid}

/-- A source that is stopped or removed has no start and no live runner until it is asked
for again. -/
theorem Kept.quiet_step (h : s.Kept) (hguard : DropsNone s (.manager a))
    (hstep : s.manager.step a = some m) (hstopped : s.stoppedAfter a sid = true) :
    (∀ r q, m.starts r = some q → q.sid ≠ sid) ∧ ∀ t, ¬ m.LiveTask sid t := by
  have hstepped := stepped_of_step hstep
  have hstays : s.stopped sid = true → NotFor sid s.manager a →
      (∀ r q, m.starts r = some q → q.sid ≠ sid) ∧ ∀ t, ¬ m.LiveTask sid t := by
    intro hbefore hnot
    obtain ⟨hstarts, hlive⟩ := h.quiet sid hbefore
    constructor
    · intro r q' hq' hsid
      obtain ⟨q, hq, hsame⟩ := start_before hstepped hnot hq' hsid
      exact hstarts r q hq hsame
    · intro t hrunner
      rcases live_before hstepped hrunner with hbefore | ⟨r, q, hq, hsid⟩
      · exact hlive t hbefore
      · exact hstarts r q hq hsid
  have hends : s.manager.Apart sid → NotFor sid s.manager a →
      (∀ t, ¬ m.LiveTask sid t) →
      (∀ r q, m.starts r = some q → q.sid ≠ sid) ∧ ∀ t, ¬ m.LiveTask sid t := by
    intro hapart hnot hlive
    refine ⟨fun r q' hq' hsid => ?_, hlive⟩
    obtain ⟨q, hq, hsame⟩ := start_before hstepped hnot hq' hsid
    exact hapart.1 r (h.inv.start_lt r q hq).1 q hq hsame
  cases a with
  | stop other =>
    rw [stoppedAfter, Bool.or_eq_true, decide_eq_true_iff] at hstopped
    rcases hstopped with rfl | hbefore
    · cases hstep
      exact hends hguard trivial (not_live_stop h.inv hguard)
    · exact hstays hbefore trivial
  | remove other =>
    rw [stoppedAfter, Bool.or_eq_true, decide_eq_true_iff] at hstopped
    rcases hstopped with rfl | hbefore
    · cases hstep
      exact hends hguard trivial (not_live_remove h.inv hguard)
    · exact hstays hbefore trivial
  | _ =>
    have hboth := (Bool.and_eq_true _ _).mp hstopped
    exact hstays hboth.1 (of_decide_eq_true hboth.2)

theorem handOver_startChild {r : RequestId} (hspawn : a ≠ .spawn r)
    (hfailed : a ≠ .prepareFailed r) : (s.handOver a).startChild r = s.startChild r := by
  cases a with
  | spawn r' =>
    have hne : r ≠ r' := fun hr => hspawn (by rw [hr])
    exact update_of_ne hne _ _
  | prepareFailed r' =>
    have hne : r ≠ r' := fun hr => hfailed (by rw [hr])
    exact update_of_ne hne _ _
  | _ => rfl

theorem handOver_taskChild {t : TaskId} (hne : t ≠ s.manager.nextTask) :
    (s.handOver a).taskChild t = s.taskChild t := by
  cases a with
  | spawn r => exact update_of_ne hne _ _
  | _ => rfl

theorem alive_of_running {c : ChildId} (h : s.Running sid c) : s.alive c = true := by
  obtain ⟨child, hchild, -, hrunning⟩ := h
  rw [alive, hchild]
  exact hrunning

theorem Kept.held_step (h : s.Kept) (hguard : DropsNone s (.manager a))
    (hallowed : s.allowed a = true) (hstep : s.manager.step a = some m) {c : ChildId}
    (hrunning : s.Running sid c) (stopped : Sid → Bool) :
    let s' : State := { s.handOver a with manager := m, stopped := stopped }
    s'.WithStart sid c ∨ s'.WithTask sid c := by
  intro s'
  have hstepped := stepped_of_step hstep
  have hfinish : ∀ t, a ≠ .finish t := by
    rintro t rfl
    cases hallowed
  rcases h.held sid c hrunning with ⟨r, q, hq, hsid, hphase, hchild⟩ |
    ⟨t, task, ht, hsid, hfinished, hchild⟩
  · by_cases hspawn : a = .spawn r
    · subst hspawn
      simp only [Manager.step, hq] at hstep
      have hspawn := (ite_none_right_eq_some.mp hstep).2
      revert hspawn
      fun_cases s.manager.spawn r q with
      | case3 => rintro ⟨⟩
      | _ =>
        rintro ⟨⟩
        exact .inr ⟨s.manager.nextTask, _, update_self .., hsid, rfl,
          (update_self ..).trans hchild⟩
    by_cases hfailed : a = .prepareFailed r
    · subst hfailed
      have hover : (s.startChild r).all (fun c => !s.alive c) = true := hguard
      rw [hchild, all_some, alive_of_running hrunning] at hover
      cases hover
    · exact .inl ⟨r, q, start_kept h.inv hstepped hq hphase hspawn hfailed, hsid, hphase,
        (handOver_startChild hspawn hfailed).trans hchild⟩
  · obtain ⟨task', ht', hsame, hgoes⟩ := task_kept h.inv hstepped hfinish ht
    exact .inr ⟨t, task', ht', hsame.trans hsid, hgoes.trans hfinished,
      (handOver_taskChild (h.inv.task_lt t task ht).1.ne).trans hchild⟩

end Manager

/-- A child that changes without coming back to life stays in hand. -/
theorem Kept.updateChild (h : s.Kept) (c : ChildId) {f : Child → Child}
    (hsid : ∀ child, (f child).sid = child.sid)
    (hrunning : ∀ child, (f child).running = true → child.running = true) :
    (s.updateChild c f).Kept where
  inv := h.inv
  held := by
    rintro sid c' ⟨child', hchild', hs, hr⟩
    have hbefore : s.Running sid c' := by
      obtain ⟨rfl, hmap⟩ | ⟨-, hold⟩ := update_eq_some hchild'
      · obtain ⟨child, hchild, rfl⟩ := map_eq_some_iff.mp hmap
        exact ⟨child, hchild, (hsid child).symm.trans hs, hrunning child hr⟩
      · exact ⟨child', hold, hs, hr⟩
    exact h.held sid c' hbefore
  quiet := h.quiet

theorem Kept.spawnChild (h : s.Kept) {r : RequestId} {q : StartRequest}
    (hq : s.manager.starts r = some q) (hphase : q.phase = .preparing)
    (hnone : s.startChild r = none) :
    ({ s with
      children := update s.children s.nextChild (some { sid := q.sid })
      nextChild := s.nextChild + 1
      startChild := update s.startChild r (some s.nextChild) } : State).Kept where
  inv := h.inv
  held := by
    rintro sid c ⟨child, hchild, hsid, hrunning⟩
    obtain ⟨rfl, rfl⟩ | ⟨-, hold⟩ := update_some_eq_some hchild
    · exact .inl ⟨r, q, hq, hsid, hphase, update_self ..⟩
    · rcases h.held sid c ⟨child, hold, hsid, hrunning⟩ with ⟨r', q', hq', hs, hp, hc⟩ | htask
      · have hne : r' ≠ r := by
          rintro rfl
          rw [hnone] at hc
          cases hc
        exact .inl ⟨r', q', hq', hs, hp, (update_of_ne hne _ _).trans hc⟩
      · exact .inr htask
  quiet := h.quiet

/-- The end of a runner whose child is not running. -/
theorem Kept.endTask (h : s.Kept) {t : TaskId}
    (hover : ∀ c, s.taskChild t = some c → s.alive c = false) :
    ({ s with
      manager := s.manager.updateTask t fun task => { task with finished := true }
      taskChild := update s.taskChild t none } : State).Kept where
  inv := h.inv.updateTask t (fun _ => rfl) (fun _ ha => ha) (fun _ hf => nomatch hf)
  held := by
    intro sid c hrunning
    have hbefore : s.Running sid c := hrunning
    rcases h.held sid c hbefore with hstart | ⟨t', task, ht', hsid, hfinished, hchild⟩
    · exact .inl hstart
    · have hne : t' ≠ t := by
        rintro rfl
        have hdead := hover c hchild
        rw [alive_of_running hbefore] at hdead
        cases hdead
      refine .inr ⟨t', task, ?_, hsid, hfinished, (update_of_ne hne _ _).trans hchild⟩
      exact (update_of_ne hne _ _).trans ht'
  quiet := by
    intro sid hstopped
    obtain ⟨hstarts, hlive⟩ := h.quiet sid hstopped
    refine ⟨hstarts, fun t' hrunner => ?_⟩
    obtain ⟨task', ht', hsid, haborted, hfinished⟩ := hrunner
    obtain ⟨rfl, hmap⟩ | ⟨-, hold⟩ := update_eq_some ht'
    · obtain ⟨task, -, rfl⟩ := map_eq_some_iff.mp hmap
      cases hfinished
    · exact hlive t' ⟨task', hold, hsid, haborted, hfinished⟩

theorem not_alive_kill (s : State) (c : ChildId) :
    (s.updateChild c fun child => { child with killed := true }).alive c = false := by
  rw [alive, updateChild]
  simp only [update_self]
  cases s.children c with
  | none => rfl
  | some child => simp [Child.running]

theorem Kept.step (h : s.Kept) {a : Action} {s' : State} (hguard : DropsNone s a)
    (hstep : s.step a = some s') : s'.Kept := by
  revert hstep
  fun_cases s.step a with
  | case1 a hallowed =>
    intro hstep
    obtain ⟨m, hm, rfl⟩ := map_eq_some_iff.mp hstep
    refine ⟨h.inv.step (noOverlap_of_dropsNone hguard) hm, ?_,
      fun _ hstopped => h.quiet_step hguard hm hstopped⟩
    rintro sid c ⟨child, hchild, hsid, hrunning⟩
    have hbefore : s.children c = some child := by
      cases a <;> exact hchild
    exact h.held_step hguard hallowed hm ⟨child, hbefore, hsid, hrunning⟩ _
  | case4 r q hq hready =>
    rintro ⟨⟩
    exact h.spawnChild hq hready.1 hready.2.2
  | case8 t task ht ended c hchild =>
    rintro ⟨⟩
    have hkilled := h.updateChild c (f := fun child => { child with killed := true })
      (fun _ => rfl) (by simp [Child.running])
    refine hkilled.endTask (t := t) fun c' hc' => ?_
    have hsame : c = c' := some.inj (hchild.symm.trans hc')
    rw [← hsame]
    exact not_alive_kill s c
  | case9 t ending task ht hready ended hnot =>
    intro hstep
    rw [← some.inj hstep]
    apply h.endTask
    intro c hchild
    rcases hguard with rfl | hover
    · exact absurd hchild (hnot c rfl)
    · rw [hchild, all_some, Bool.not_eq_true'] at hover
      exact hover
  | case10 c =>
    rintro ⟨⟩
    exact h.updateChild c (fun _ => rfl) (by simp [Child.running])
  | _ => rintro ⟨⟩

end State

/-- In every interleaving in which the handle of a child is dropped only when the child has
come to an end, and in which the requests for a source do not overlap, a source has at most
one running child once the aborts have taken effect, and none when it was stopped or
removed. -/
theorem oneChild_of_dropsNone (config : ManagerConfig) (actions : List Action) (s : State)
    (hguard : Guarded State.step DropsNone (State.new config) actions)
    (hrun : exec State.step (State.new config) actions = some s) : s.OneChild := by
  have hkept : ∀ s a s', State.Kept s → DropsNone s a → s.step a = some s' → State.Kept s' :=
    fun _ _ _ h hg hs => h.step hg hs
  have hlast : s.Kept := exec_invariant hkept (State.kept_new config) hguard hrun
  exact hlast.oneChild

/-- A source whose child exits, is resumed, and is stopped when its second child has
exited. -/
def exitedRun : List Action :=
  [.manager (.startSpec (.process ["date"]) {} .epoch), .spawnChild 0, .manager (.spawn 0),
    .manager (.register 0), .manager (.store 0), .exit 0, .finish 0 .closed,
    .manager (.resume 0 .epoch), .spawnChild 1, .manager (.spawn 1), .manager (.register 1),
    .manager (.store 1), .exit 1, .manager (.stop 0), .finish 1 .aborted]

theorem oneChild_exitedRun :
    Guarded State.step DropsNone (State.new {}) exitedRun ∧
      ∃ s, exec State.step (State.new {}) exitedRun = some s ∧ s.OneChild := by
  have hguard : Guarded State.step DropsNone (State.new {}) exitedRun := by decide
  obtain ⟨s, hs⟩ : ∃ s, exec State.step (State.new {}) exitedRun = some s := ⟨_, rfl⟩
  exact ⟨hguard, s, hs, oneChild_of_dropsNone {} exitedRun s hguard hs⟩

def sleepRun : List Action :=
  [.manager (.startSpec (.process ["sleep", "1000"]) {} .epoch), .spawnChild 0,
    .manager (.spawn 0), .manager (.register 0), .manager (.store 0)]

/-- A stop leaves the child running, and a restart leaves two. -/
theorem stop_leaves_child :
    (∃ s, exec State.step (State.new {})
        (sleepRun ++ [.manager (.stop 0), .finish 0 .aborted]) = some s ∧
      s.Settled 0 ∧ s.stopped 0 = true ∧ s.Running 0 0) ∧
    ∃ s, exec State.step (State.new {})
        (sleepRun ++ [.manager (.restart 0 {} .epoch), .finish 0 .aborted, .spawnChild 1,
          .manager (.spawn 1)]) = some s ∧
      s.Settled 0 ∧ s.Running 0 0 ∧ s.Running 0 1 := by
  refine ⟨⟨_, rfl, ?_, rfl, ⟨_, rfl, rfl, rfl⟩⟩, _, rfl, ?_, ⟨_, rfl, rfl, rfl⟩, ⟨_, rfl, rfl, rfl⟩⟩
  · intro t task ht _ _
    match t, ht with
    | 0, ht =>
      cases ht
      rfl
    | t + 1, ht => cases ht
  · intro t task ht _ haborted
    match t, ht with
    | 0, ht =>
      cases ht
      rfl
    | 1, ht =>
      cases ht
      cases haborted
    | t + 2, ht => cases ht

end TraceMux.Server.ProcessChildren
