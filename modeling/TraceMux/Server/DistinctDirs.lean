/-
# Sources with directories of their own

A source gets its directory when it is first started and keeps it through every
resume and restart, so two sources write to one directory exactly when they were
first started under the same name.

The manager does not compare the directory of a new source with those in use, so
nothing but the names keeps sources apart. If the clock stands at a known place in
every name and no two sources are started in the same nanosecond, all names differ;
a pattern without a clock names two sources of one interface alike.
-/

import TraceMux.Server.SourceManager

namespace TraceMux.Server.Manager

open Base Base.Transition Core.Source Core.SessionName

/-- The first start of a source: what its directory is named after. -/
structure Start where
  spec : ChannelSpec
  pattern : Text
  clock : ClockReading

def Start.name (start : Start) : Text := sessionDirName start.spec start.pattern start.clock

/-- The start of a source by an action; none for a source without a spec. -/
def born (config : ManagerConfig) : Action → Option (Option Start)
  | .startSpec spec options clock => some (some ⟨spec, config.patternFor options, clock⟩)
  | .startSource => some none
  | _ => none

def configAfter (config : ManagerConfig) : Action → ManagerConfig
  | .setSessionNamePattern pattern => { config with sessionNamePattern := pattern }
  | _ => config

/-- The first starts of a run, in the order of the ids the sources were given. -/
def births (config : ManagerConfig) : List Action → List (Option Start)
  | [] => []
  | a :: rest => (born config a).toList ++ births (configAfter config a) rest

/-- The table or a start in progress knows this source with this spec and directory. -/
def Row (m : Manager) (sid : Sid) (spec : Option ChannelSpec) (dir : Option Path) : Prop :=
  (∃ e, m.sources sid = some e ∧ e.spec = spec ∧ e.sessionDir = dir) ∨
    ∃ r q, m.starts r = some q ∧ q.sid = sid ∧ q.spec = spec ∧ q.sessionDir = dir

section Rows

variable {m : Manager} {sid : Sid} {spec : Option ChannelSpec} {dir : Option Path}

variable {sid' : Sid}

theorem row_setEntry {entry : Option SourceEntry} (h : (m.setEntry sid' entry).Row sid spec dir) :
    (∃ e, entry = some e ∧ sid = sid' ∧ e.spec = spec ∧ e.sessionDir = dir) ∨
      m.Row sid spec dir := by
  rcases h with ⟨e, he, hspec, hdir⟩ | hstart
  · obtain ⟨rfl, hnew⟩ | ⟨-, hold⟩ := update_eq_some he
    · exact .inl ⟨e, hnew, rfl, hspec, hdir⟩
    · exact .inr (.inl ⟨e, hold, hspec, hdir⟩)
  · exact .inr (.inr hstart)

variable {e : SourceEntry} {q : StartRequest} {t : TaskId} {a : Action} {m' : Manager}

/-- Changing a row in place adds none when spec and directory stay. -/
theorem row_setEntry_of_same (e' : SourceEntry) (he : m.sources sid' = some e)
    (hspec : e'.spec = e.spec) (hdir : e'.sessionDir = e.sessionDir)
    (h : (m.setEntry sid' (some e')).Row sid spec dir) : m.Row sid spec dir := by
  rcases row_setEntry h with ⟨e'', hnew, rfl, rfl, rfl⟩ | hold
  · cases hnew
    exact .inl ⟨e, he, hspec.symm, hdir.symm⟩
  · exact hold

theorem row_setEntry_none (h : (m.setEntry sid' none).Row sid spec dir) : m.Row sid spec dir := by
  rcases row_setEntry h with ⟨e, hnew, -⟩ | hold
  · cases hnew
  · exact hold

variable {r : RequestId}

theorem row_setStart {request : Option StartRequest} (h : (m.setStart r request).Row sid spec dir) :
    (∃ q, request = some q ∧ q.sid = sid ∧ q.spec = spec ∧ q.sessionDir = dir) ∨
      m.Row sid spec dir := by
  rcases h with htable | ⟨r', q, hq, hsid, hspec, hdir⟩
  · exact .inr (.inl htable)
  · obtain ⟨-, hnew⟩ | ⟨-, hold⟩ := update_eq_some hq
    · exact .inl ⟨q, hnew, hsid, hspec, hdir⟩
    · exact .inr (.inr ⟨r', q, hold, hsid, hspec, hdir⟩)

theorem row_setStart_none (h : (m.setStart r none).Row sid spec dir) : m.Row sid spec dir := by
  rcases row_setStart h with ⟨q, hnew, -⟩ | hold
  · cases hnew
  · exact hold

theorem clearFinished_same (e : SourceEntry) :
    (m.clearFinished e).spec = e.spec ∧ (m.clearFinished e).sessionDir = e.sessionDir := by
  unfold clearFinished
  split
  · exact ⟨rfl, rfl⟩
  · split <;> exact ⟨rfl, rfl⟩

/-- The directory of a new start of a known source. -/
def Again (m : Manager) (sid : Sid) (spec : Option ChannelSpec) (dir : Option Path) : Prop :=
  ∃ spec' dir' options clock, m.Row sid (some spec') dir' ∧ spec = some spec' ∧
    dir = sessionDirFor m.config spec' dir' options clock

variable {spec' : ChannelSpec} {options : SourceStartOptions} {clock : ClockReading}
  {row : Option SourceEntry} {n : Manager}

theorem row_startSpecWithSid {dir' : Option Path}
    (h : (m.startSpecWithSid sid' spec' dir' options clock).Row sid spec dir) :
    (sid = sid' ∧ spec = some spec' ∧ dir = sessionDirFor m.config spec' dir' options clock) ∨
      m.Row sid spec dir := by
  have hset : (m.setStart m.nextRequest (some ⟨sid', some spec',
      sessionDirFor m.config spec' dir' options clock, options, .preparing⟩)).Row sid spec dir := h
  rcases row_setStart hset with ⟨q, hnew, rfl, rfl, rfl⟩ | hold
  · cases hnew
    exact .inl ⟨rfl, rfl, rfl⟩
  · exact .inr hold

theorem row_release (h : (m.release sid' e row).Row sid spec dir) :
    (m.setEntry sid' row).Row sid spec dir := by
  unfold release at h
  split at h <;> exact h

theorem row_again (hconfig : n.config = m.config) (he : m.sources sid' = some e)
    (hspec : e.spec = some spec') (hback : n.Row sid spec dir → m.Row sid spec dir)
    (h : (n.startSpecWithSid sid' spec' e.sessionDir options clock).Row sid spec dir) :
    m.Row sid spec dir ∨ m.Again sid spec dir := by
  rcases row_startSpecWithSid h with ⟨rfl, hs, hd⟩ | hold
  · rw [hconfig] at hd
    exact .inr ⟨spec', e.sessionDir, options, clock, .inl ⟨e, he, hspec, rfl⟩, hs, hd⟩
  · exact .inl (hback hold)

theorem row_reapFinished (h : m.reapFinished.Row sid spec dir) : m.Row sid spec dir := by
  rcases h with ⟨e', he', hspec, hdir⟩ | hstart
  · cases he : m.sources sid with
    | none =>
      simp [Manager.reapFinished, he] at he'
    | some e =>
      simp only [Manager.reapFinished, he] at he'
      split at he'
      · rw [Option.some.injEq] at he'
        subst he'
        obtain ⟨hspec', hdir'⟩ := clearFinished_same (m := m) e
        exact .inl ⟨e, he, hspec'.symm.trans hspec, hdir'.symm.trans hdir⟩
      · cases he'
  · exact .inr hstart

theorem row_of_start (hq : m.starts r = some q) :
    m.Row q.sid q.spec q.sessionDir := .inr ⟨r, q, hq, rfl, rfl, rfl⟩

theorem row_store (hq : m.starts r = some q) (hback : n.Row sid spec dir → m.Row sid spec dir)
    (h : ((n.setEntry q.sid (some (StartRequest.entry q t))).setStart r none).Row sid spec dir) :
    m.Row sid spec dir := by
  rcases row_setEntry (row_setStart_none h) with ⟨e, hnew, rfl, rfl, rfl⟩ | hold
  · cases hnew
    exact row_of_start hq
  · exact hback hold

/-- What one step can do to the rows: keep them, add a new start of a known source,
or add a source under a fresh id. -/
theorem step_rows (hstep : m.step a = some m') (h : m'.Row sid spec dir) :
    m.Row sid spec dir ∨ m.Again sid spec dir ∨
      (∃ spec' options clock, a = .startSpec spec' options clock ∧ sid = m.nextSid ∧
        spec = some spec' ∧ dir = sessionDirFor m.config spec' none options clock) ∨
      (a = .startSource ∧ sid = m.nextSid ∧ spec = none ∧ dir = none) := by
  have hcleared : ∀ {sid' e}, m.sources sid' = some e →
      (m.setEntry sid' (some (m.clearFinished e))).Row sid spec dir → m.Row sid spec dir := by
    intro sid' e he
    exact row_setEntry_of_same _ he (clearFinished_same e).1 (clearFinished_same e).2
  cases stepped_of_step hstep with
  | startSpec spec' options clock =>
    rcases row_startSpecWithSid h with ⟨rfl, rfl, rfl⟩ | hold
    · exact .inr (.inr (.inl ⟨spec', options, clock, rfl, rfl, rfl, rfl⟩))
    · exact .inl hold
  | startSource =>
    have hset : (m.setStart m.nextRequest (some ⟨m.nextSid, none, none, {}, .preparing⟩)).Row
      sid spec dir := h
    rcases row_setStart hset with ⟨q, hnew, rfl, rfl, rfl⟩ | hold
    · cases hnew
      exact .inr (.inr (.inr ⟨rfl, rfl, rfl, rfl⟩))
    · exact .inl hold
  | refused ha | patternSet pattern | joined hw hover he | waitDone hw hjoined
  | registered ht hfinished hnew | finished ht => exact .inl h
  | cleared ha he => exact .inl (hcleared he h)
  | @resumed sid' clock e spec' he hhandle hspec =>
    obtain ⟨hspec', hdir⟩ := clearFinished_same (m := m) e
    rw [hdir] at h
    refine (row_again ?_ he (hspec'.symm.trans hspec) (hcleared he) h).imp_right .inl
    rfl
  | @restarted sid' overrides clock e spec' he hspec =>
    refine (row_again ?_ he hspec (fun hold => ?_) h).imp_right .inl
    · unfold release
      split <;> rfl
    · exact row_setEntry_of_same { e with handle := none, sink := false } he rfl rfl
        (row_release hold)
  | @stopped sid' e he =>
    exact .inl (row_setEntry_of_same { e with sink := false, handle := none } he rfl rfl
      (row_release h))
  | forgotten he => exact .inl (row_setEntry_none h)
  | @removed sid' e he =>
    have hreleased : (m.release sid' e none).Row sid spec dir := h
    exact .inl (row_setEntry_none (row_release hreleased))
  | @waited sid' e t he ht =>
    exact .inl (row_setEntry_of_same { e with handle := none } he rfl rfl h)
  | reaped => exact .inl (row_reapFinished h)
  | @spawned r q hq hphase hspec =>
    rcases row_setStart h with ⟨q', hnew, rfl, rfl, rfl⟩ | hold
    · cases hnew
      exact .inl (.inr ⟨r, q, hq, rfl, rfl, rfl⟩)
    · exact .inl hold
  | spawnedRemote hq hphase hspec => exact .inl (row_store hq id h)
  | prepareFailed hq hphase => exact .inl (row_setStart_none h)
  | stored hq hphase hregistered => exact .inl (row_store hq id h)
  | startFailed hq hphase hover => exact .inl (row_setStart_none h)
  | @joinedRow r w e hw hover he =>
    exact .inl (row_setEntry_of_same { e with sink := false } he rfl rfl h)
  | waitRemoved hw hjoined hremove => exact .inl (row_setEntry_none h)

/-- A task of the next state was there before, or runs for a row. -/
def TaskFrom (m : Manager) (t : TaskId) (task' : RunnerTask) : Prop :=
  (∃ task, m.tasks t = some task ∧ task'.sid = task.sid ∧ task'.sessionDir = task.sessionDir) ∨
    ∃ spec, m.Row task'.sid spec task'.sessionDir

variable {task' : RunnerTask}

theorem taskFrom_updateTask {t' : TaskId} {f : RunnerTask → RunnerTask}
    (hsame : ∀ task, (f task).sid = task.sid ∧ (f task).sessionDir = task.sessionDir)
    (h : (m.updateTask t' f).tasks t = some task') : m.TaskFrom t task' := by
  obtain ⟨rfl, hnew⟩ | ⟨-, hold⟩ := update_eq_some h
  · obtain ⟨task, htask, rfl⟩ := Option.map_eq_some_iff.mp hnew
    exact .inl ⟨task, htask, (hsame task).1, (hsame task).2⟩
  · exact .inl ⟨task', hold, rfl, rfl⟩

theorem taskFrom_release (h : (m.release sid' e row).tasks t = some task') :
    m.TaskFrom t task' := by
  unfold release at h
  split at h
  · exact .inl ⟨task', h, rfl, rfl⟩
  · exact taskFrom_updateTask (f := fun task => { task with aborted := true })
      (fun _ => ⟨rfl, rfl⟩) h

theorem taskFrom_pushTask {task : RunnerTask} (hq : m.starts r = some q) (hsid : task.sid = q.sid)
    (hdir : task.sessionDir = q.sessionDir) (h : (m.pushTask task).tasks t = some task') :
    m.TaskFrom t task' := by
  obtain ⟨-, hnew⟩ | ⟨-, hold⟩ := update_eq_some h
  · cases hnew
    refine .inr ⟨q.spec, ?_⟩
    rw [hsid, hdir]
    exact row_of_start hq
  · exact .inl ⟨task', hold, rfl, rfl⟩

theorem step_tasks (hstep : m.step a = some m') (h : m'.tasks t = some task') :
    m.TaskFrom t task' := by
  cases stepped_of_step hstep with
  | restarted he hspec | stopped he | removed he => exact taskFrom_release h
  | spawned hq hphase hspec => exact taskFrom_pushTask hq rfl rfl h
  | spawnedRemote hq hphase hspec => exact taskFrom_pushTask hq rfl rfl h
  | registered ht hfinished hnew =>
    exact taskFrom_updateTask (f := fun task => { task with registered := true })
      (fun _ => ⟨rfl, rfl⟩) h
  | finished ht =>
    exact taskFrom_updateTask (f := fun task => { task with finished := true })
      (fun _ => ⟨rfl, rfl⟩) h
  -- The other steps leave the tasks alone.
  | _ => exact .inl ⟨task', h, rfl, rfl⟩

theorem step_frame (hstep : m.step a = some m') :
    m'.nextSid = m.nextSid + (born m.config a).toList.length ∧
      m'.config = configAfter m.config a := by
  have hrelease : ∀ sid e row, (m.release sid e row).nextSid = m.nextSid ∧
      (m.release sid e row).config = m.config := by
    intro sid e row
    unfold release
    split <;> exact ⟨rfl, rfl⟩
  by_cases hpattern : ∃ pattern, a = .setSessionNamePattern pattern
  · obtain ⟨pattern, rfl⟩ := hpattern
    obtain rfl := Option.some.inj hstep
    exact ⟨rfl, rfl⟩
  have hother : a.isStart = false → born m.config a = none ∧ configAfter m.config a = m.config := by
    intro ha
    cases a with
    | startSpec | startSource => cases ha
    | setSessionNamePattern pattern => exact absurd ⟨pattern, rfl⟩ hpattern
    | _ => exact ⟨rfl, rfl⟩
  cases stepped_of_step hstep with
  | refused ha | cleared ha he =>
    obtain ⟨hborn, hconfig⟩ := hother ha
    rw [hborn, hconfig]
    exact ⟨rfl, rfl⟩
  | restarted he hspec | stopped he | removed he => exact hrelease _ _ _
  | _ => exact ⟨rfl, rfl⟩

end Rows

/-- The directory of a source that was started so. -/
def dirUnder (root : Option Path) (start : Option Start) : Option Path :=
  start.bind fun start => root.map fun root => root ++ [start.name]

/-- Every source the manager knows of has the spec and the directory of its first start. -/
structure Born (given : List (Option Start)) (m : Manager) : Prop where
  nextSid_eq : m.nextSid = given.length
  row : ∀ sid spec dir, m.Row sid spec dir → ∃ start, given[sid]? = some start ∧
    spec = start.map Start.spec ∧ dir = dirUnder m.config.sessionRoot start
  task : ∀ t task, m.tasks t = some task → ∃ start, given[task.sid]? = some start ∧
    task.sessionDir = dirUnder m.config.sessionRoot start

section Born

variable {given : List (Option Start)} {m m' : Manager} {a : Action} {actions : List Action}
  {config : ManagerConfig} {sid sid' : Sid} {dir dir' : Path}

theorem born_new (config : ManagerConfig) : Born [] (Manager.new config) := by
  refine ⟨rfl, ?_, ?_⟩
  · rintro sid spec dir (⟨e, he, -⟩ | ⟨r, q, hq, -⟩)
    · cases he
    · cases hq
  · intro t task htask
    cases htask

theorem Born.step (h : Born given m) (hstep : m.step a = some m') :
    Born (given ++ (born m.config a).toList) m' := by
  obtain ⟨hsid, hconfig⟩ := step_frame hstep
  have hroot : m'.config.sessionRoot = m.config.sessionRoot := by
    rw [hconfig]
    cases a <;> rfl
  have hlater : ∀ {sid start}, given[sid]? = some start →
      (given ++ (born m.config a).toList)[sid]? = some start := fun hstart => by
    rwa [List.getElem?_append_left (List.getElem?_eq_some_iff.mp hstart).1]
  have hfirst : ∀ start, born m.config a = some start →
      (given ++ (born m.config a).toList)[m.nextSid]? = some start := fun start hstart => by
    rw [hstart, h.nextSid_eq, List.getElem?_append_right le_rfl, Nat.sub_self]
    rfl
  have hrow : ∀ sid spec dir, m.Row sid spec dir →
      ∃ start, (given ++ (born m.config a).toList)[sid]? = some start ∧
        spec = start.map Start.spec ∧ dir = dirUnder m'.config.sessionRoot start := by
    intro sid spec dir hr
    obtain ⟨start, hstart, hspec, hdir⟩ := h.row sid spec dir hr
    exact ⟨start, hlater hstart, hspec, hroot ▸ hdir⟩
  refine ⟨by rw [hsid, List.length_append, h.nextSid_eq], ?_, ?_⟩
  · intro sid spec dir hr
    rcases step_rows hstep hr with hold | ⟨spec', dir', options, clock, hold, rfl, rfl⟩ |
      ⟨spec', options, clock, rfl, rfl, rfl, rfl⟩ | ⟨rfl, rfl, rfl, rfl⟩
    · exact hrow sid spec dir hold
    · -- A source that is started again keeps its directory.
      obtain ⟨start, hstart, hspec, rfl⟩ := hrow sid _ _ hold
      obtain ⟨start, rfl, -⟩ := Option.map_eq_some_iff.mp hspec.symm
      refine ⟨some start, hstart, hspec, ?_⟩
      rw [hroot]
      cases hdir : m.config.sessionRoot <;> simp [sessionDirFor, dirUnder, hdir]
    · refine ⟨some ⟨spec', m.config.patternFor options, clock⟩, hfirst _ rfl, rfl, ?_⟩
      rw [hroot]
      rfl
    · exact ⟨none, hfirst _ rfl, rfl, rfl⟩
  · intro t task' htask'
    rcases step_tasks hstep htask' with ⟨task, htask, hs, hd⟩ | ⟨spec, hr⟩
    · obtain ⟨start, hstart, hdir⟩ := h.task t task htask
      rw [hs, hd, hroot]
      exact ⟨start, hlater hstart, hdir⟩
    · obtain ⟨start, hstart, -, hdir⟩ := hrow _ _ _ hr
      exact ⟨start, hstart, hdir⟩

theorem Born.run (h : Born given m) (hrun : exec Manager.step m actions = some m') :
    Born (given ++ births m.config actions) m' := by
  induction actions generalizing given m with
  | nil =>
    obtain rfl := Option.some.inj hrun
    rwa [births, List.append_nil]
  | cons a rest ih =>
    obtain ⟨mid, hmid, hrest⟩ := exec_cons hrun
    rw [births, ← (step_frame hmid).2, ← List.append_assoc]
    exact ih (h.step hmid) hrest

theorem born_of_run (hrun : exec step (Manager.new config) actions = some m) :
    Born (births config actions) m := (born_new config).run hrun

/-- Every runner of a source has the directory that the table knows for it. -/
theorem Born.taskDir_eq (h : Born given m) {t : TaskId} {task : RunnerTask}
    {spec : Option ChannelSpec} {dir : Option Path} (htask : m.tasks t = some task)
    (hrow : m.Row task.sid spec dir) : task.sessionDir = dir := by
  obtain ⟨start, hstart, hdir⟩ := h.task t task htask
  obtain ⟨start', hstart', -, rfl⟩ := h.row _ _ _ hrow
  rw [hdir, Option.some.inj (hstart.symm.trans hstart')]

end Born

end TraceMux.Server.Manager
