/-
# The source manager

The manager keeps a table of sources, spawns one runner task for every start and
hands the table out under a lock. Its requests are asynchronous: a request that
waits for a connection, for the registration of a runner or for its end is
suspended, and any number of others run in between.

The model is a transition system. A request is cut at its await points; what
stands between two of them is one step, and every request in progress is part of
the state with the values it carries across. The runners are tasks of which only
the lifecycle is kept: they may register their session, end, and be aborted. A
task that is aborted goes on until its next await point, so an abort only marks
it.

Dropping the handle of a task detaches the task; nothing in the state then refers
to it any more.
-/

import TraceMux.Base.Transition
import TraceMux.Server.SessionDir

namespace TraceMux.Server

open Base Core.Source

/-- Session ids. Fresh ones are drawn from a counter. -/
abbrev Sid := ℕ

/-- Runner tasks in the order in which they are spawned. -/
abbrev TaskId := ℕ

/-- Requests in the order in which they are issued. -/
abbrev RequestId := ℕ

/-- One row of the source table. The write-back sink is either attached or not. -/
structure SourceEntry where
  spec : Option ChannelSpec
  sessionDir : Option Path
  startOptions : SourceStartOptions
  handle : Option TaskId
  sink : Bool
  deriving DecidableEq, Repr

/-- A spawned runner, with the directory it writes to. -/
structure RunnerTask where
  sid : Sid
  sessionDir : Option Path
  registered : Bool := false
  aborted : Bool := false
  finished : Bool := false
  deriving DecidableEq, Repr

/-- Where a start stands: the source is being opened or sampled, or its runner is
spawned and the start waits for the registration. -/
inductive StartPhase
  | preparing
  | spawned (task : TaskId)
  deriving DecidableEq, Repr

/-- A start, resume or restart in progress. -/
structure StartRequest where
  sid : Sid
  spec : Option ChannelSpec
  sessionDir : Option Path
  startOptions : SourceStartOptions
  phase : StartPhase := .preparing
  deriving DecidableEq, Repr

/-- A wait in progress, with the handle it took from the table. -/
structure WaitRequest where
  sid : Sid
  task : TaskId
  removeEntry : Bool
  joined : Bool := false
  deriving DecidableEq, Repr

/-- The manager, the session registry, the runners and the requests in progress. -/
structure Manager where
  config : ManagerConfig
  sources : Sid → Option SourceEntry
  registry : Sid → Bool
  tasks : TaskId → Option RunnerTask
  starts : RequestId → Option StartRequest
  waits : RequestId → Option WaitRequest
  nextSid : ℕ
  nextTask : ℕ
  nextRequest : ℕ

namespace Manager

/-- A manager that has not been asked for anything. -/
def new (config : ManagerConfig) : Manager where
  config := config
  sources _ := none
  registry _ := false
  tasks _ := none
  starts _ := none
  waits _ := none
  nextSid := 0
  nextTask := 0
  nextRequest := 0

/-- Store or drop a row of the table. -/
def setEntry (m : Manager) (sid : Sid) (entry : Option SourceEntry) : Manager :=
  { m with sources := Function.update m.sources sid entry }

def updateTask (m : Manager) (t : TaskId) (f : RunnerTask → RunnerTask) : Manager :=
  { m with tasks := Function.update m.tasks t ((m.tasks t).map f) }

/-- Ask a task to stop at its next await point. -/
def abort (m : Manager) (t : TaskId) : Manager :=
  m.updateTask t fun task => { task with aborted := true }

/-- Change or end a start in progress. -/
def setStart (m : Manager) (r : RequestId) (request : Option StartRequest) : Manager :=
  { m with starts := Function.update m.starts r request }

/-- Change or end a wait in progress. -/
def setWait (m : Manager) (r : RequestId) (request : Option WaitRequest) : Manager :=
  { m with waits := Function.update m.waits r request }

/-- Whether a handle says that its task is over. -/
def isFinished (m : Manager) (t : TaskId) : Bool :=
  match m.tasks t with
  | none => false
  | some task => task.finished

/-- The row without the handle of a task that is over. -/
def clearFinished (m : Manager) (entry : SourceEntry) : SourceEntry :=
  match entry.handle with
  | none => entry
  | some t => if m.isFinished t then { entry with handle := none, sink := false } else entry

/-- Whether the server can run a source of this kind; the others are stubs. -/
def isImplemented : ChannelSpec → Bool
  | .telnet .. | .ssh .. | .visa .. | .journald .. | .winEventLog .. | .etw ..
  | .jLinkRtt .. | .canBus .. => false
  | _ => true

/-- Whether a source of this kind can be written to. -/
def hasSink : ChannelSpec → Bool
  | .serial .. | .tcp .. | .udp .. | .process .. | .remote .. => true
  | _ => false

/-- Begin `start_spec_with_sid`: the directory is chosen, the source is not open yet. -/
def startSpecWithSid (m : Manager) (sid : Sid) (spec : ChannelSpec) (sessionDir : Option Path)
    (options : SourceStartOptions) (clock : ClockReading) : Manager :=
  let request : StartRequest :=
    ⟨sid, some spec, sessionDirFor m.config spec sessionDir options clock, options, .preparing⟩
  { m.setStart m.nextRequest (some request) with nextRequest := m.nextRequest + 1 }

def startSpecWithOptions (m : Manager) (spec : ChannelSpec) (options : SourceStartOptions)
    (clock : ClockReading) : Manager :=
  ({ m with nextSid := m.nextSid + 1 } : Manager).startSpecWithSid m.nextSid spec none options clock

/-- Start a source that is given as a value. It is not described by a spec and has
no directory. -/
def startSource (m : Manager) : Manager :=
  let request : StartRequest := ⟨m.nextSid, none, none, {}, .preparing⟩
  { m.setStart m.nextRequest (some request) with
    nextSid := m.nextSid + 1, nextRequest := m.nextRequest + 1 }

/-- Resume a source that is not running. The result is the error text, if any, and
the manager with the resume in progress or refused. -/
def resume (m : Manager) (sid : Sid) (clock : ClockReading) : Option String × Manager :=
  match m.sources sid with
  | none => (some "source sid is unknown", m)
  | some entry =>
    let entry := m.clearFinished entry
    let m := m.setEntry sid (some entry)
    if entry.handle.isSome then (some "source sid is already active", m)
    else
      match entry.spec with
      | none => (some "source sid is not resumable", m)
      | some spec =>
        (none, m.startSpecWithSid sid spec entry.sessionDir entry.startOptions clock)

/-- Abort what runs under this id and start it again. -/
def restartWithOptions (m : Manager) (sid : Sid) (overrides : SourceStartOptions)
    (clock : ClockReading) : Option String × Manager :=
  match m.sources sid with
  | none => (some "source sid is unknown", m)
  | some entry =>
    match entry.spec with
    | none => (some "source sid is not restartable", m)
    | some spec =>
      let m :=
        match entry.handle with
        | none => m
        | some t => m.abort t
      let m := m.setEntry sid (some { entry with handle := none, sink := false })
      (none, m.startSpecWithSid sid spec entry.sessionDir
        (mergeStartOptions entry.startOptions overrides) clock)

/-- The row stored for a start that is done. -/
def StartRequest.entry (q : StartRequest) (t : TaskId) : SourceEntry :=
  ⟨q.spec, q.sessionDir, q.startOptions, some t, q.spec.any hasSink⟩

def pushTask (m : Manager) (task : RunnerTask) : Manager :=
  { m with
    tasks := Function.update m.tasks m.nextTask (some task), nextTask := m.nextTask + 1 }

/-- Spawn the runner of a start. The start of a remote source registers the session
itself and stores the row at once; the others wait for their runner. -/
def spawn (m : Manager) (r : RequestId) (q : StartRequest) : Option Manager :=
  match q.spec with
  | some (.remote _) =>
    let m' := m.pushTask { sid := q.sid, sessionDir := q.sessionDir, registered := true }
    some ({ m' with registry := Function.update m'.registry q.sid true }.setEntry q.sid
      (some (StartRequest.entry q m.nextTask)) |>.setStart r none)
  | some spec =>
    if isImplemented spec then
      some ((m.pushTask { sid := q.sid, sessionDir := q.sessionDir }).setStart r
        (some { q with phase := .spawned m.nextTask }))
    else none
  | none =>
    some ((m.pushTask { sid := q.sid, sessionDir := q.sessionDir }).setStart r
      (some { q with phase := .spawned m.nextTask }))

def stop (m : Manager) (sid : Sid) : Bool × Manager :=
  match m.sources sid with
  | none => (false, m)
  | some entry =>
    let m := m.setEntry sid (some { entry with sink := false, handle := none })
    match entry.handle with
    | none => (false, m)
    | some t => (true, m.abort t)

def remove (m : Manager) (sid : Sid) : Bool × Manager :=
  let entry := m.sources sid
  let handle := entry.bind SourceEntry.handle
  let aborted :=
    match handle with
    | none => m.setEntry sid none
    | some t => (m.setEntry sid none).abort t
  (handle.isSome || m.registry sid || entry.isSome,
    { aborted with registry := Function.update m.registry sid false })

/-- Take the handle of a source in order to wait for its task. -/
def wait (m : Manager) (sid : Sid) : Option Manager :=
  match m.sources sid with
  | none => none
  | some entry =>
    match entry.handle with
    | none => none
    | some t =>
      let request : WaitRequest := ⟨sid, t, entry.spec.isNone, false⟩
      some { (m.setEntry sid (some { entry with handle := none })).setWait m.nextRequest
        (some request) with nextRequest := m.nextRequest + 1 }

/-- Drop finished handles, and the rows that are then without use. -/
def reapFinished (m : Manager) : Manager :=
  { m with
    sources := fun sid =>
      match m.sources sid with
      | none => none
      | some entry =>
        let entry := m.clearFinished entry
        if entry.spec.isSome || entry.handle.isSome then some entry else none }

/-- The lock section of a write: drop a finished handle, then look for the sink. -/
def writeLookup (m : Manager) (sid : Sid) : Option Bool × Manager :=
  match m.sources sid with
  | none => (none, m)
  | some entry =>
    let entry := m.clearFinished entry
    (some entry.sink, m.setEntry sid (some entry))

/-- What can happen next: a request is issued, a request in progress goes on from
an await point, or a runner does something. -/
inductive Action
  | startSpec (spec : ChannelSpec) (options : SourceStartOptions) (clock : ClockReading)
  | startSource
  | resume (sid : Sid) (clock : ClockReading)
  | restart (sid : Sid) (overrides : SourceStartOptions) (clock : ClockReading)
  | stop (sid : Sid)
  | remove (sid : Sid)
  | wait (sid : Sid)
  | write (sid : Sid)
  | reapFinished
  | setSessionNamePattern (pattern : Text)
  | spawn (request : RequestId)
  | prepareFailed (request : RequestId)
  | store (request : RequestId)
  | startFailed (request : RequestId)
  | join (request : RequestId)
  | finishWait (request : RequestId)
  | register (task : TaskId)
  | finish (task : TaskId)

/-- A start whose runner has registered stores its row. -/
def store (m : Manager) (r : RequestId) : Option Manager :=
  match m.starts r with
  | none => none
  | some q =>
    match q.phase with
    | .preparing => none
    | .spawned t =>
      if (m.tasks t).any RunnerTask.registered then
        some ((m.setEntry q.sid (some (StartRequest.entry q t))).setStart r none)
      else none

/-- A start whose runner ended without registering returns its error. -/
def startFailed (m : Manager) (r : RequestId) : Option Manager :=
  match m.starts r with
  | none => none
  | some q =>
    match q.phase with
    | .preparing => none
    | .spawned t =>
      if (m.tasks t).any fun task => task.finished && !task.registered then
        some (m.setStart r none)
      else none

def join (m : Manager) (r : RequestId) : Option Manager :=
  match m.waits r with
  | none => none
  | some w =>
    if !w.joined && m.isFinished w.task then
      let m :=
        match m.sources w.sid with
        | none => m
        | some entry => m.setEntry w.sid (some { entry with sink := false })
      some (m.setWait r (some { w with joined := true }))
    else none

/-- A wait that has joined drops the row of a source without a spec, and returns. -/
def finishWait (m : Manager) (r : RequestId) : Option Manager :=
  match m.waits r with
  | none => none
  | some w =>
    if w.joined then
      let m := if w.removeEntry then m.setEntry w.sid none else m
      some (m.setWait r none)
    else none

def step (m : Manager) : Action → Option Manager
  | .startSpec spec options clock => some (m.startSpecWithOptions spec options clock)
  | .startSource => some m.startSource
  | .resume sid clock => some (m.resume sid clock).2
  | .restart sid overrides clock => some (m.restartWithOptions sid overrides clock).2
  | .stop sid => some (m.stop sid).2
  | .remove sid => some (m.remove sid).2
  | .wait sid => some ((m.wait sid).getD m)
  | .write sid => some (m.writeLookup sid).2
  | .reapFinished => some m.reapFinished
  | .setSessionNamePattern pattern =>
    some { m with config := { m.config with sessionNamePattern := pattern } }
  | .spawn r =>
    match m.starts r with
    | none => none
    | some q => if q.phase = .preparing then m.spawn r q else none
  | .prepareFailed r =>
    match m.starts r with
    | none => none
    | some q => if q.phase = .preparing then some (m.setStart r none) else none
  | .store r => m.store r
  | .startFailed r => m.startFailed r
  | .join r => m.join r
  | .finishWait r => m.finishWait r
  | .register t =>
    match m.tasks t with
    | none => none
    | some task =>
      if task.finished || task.registered then none
      else
        some { m.updateTask t fun task => { task with registered := true } with
          registry := Function.update m.registry task.sid true }
  | .finish t =>
    match m.tasks t with
    | none => none
    | some _ => some (m.updateTask t fun task => { task with finished := true })

/-! ## What a step does

Every proof about runs of the manager looks at one step. `Stepped` says what a step can do
and under which condition, and `stepped_of_step` is the one place where the branches of the
requests are followed.
-/

/-- Put `row` in the place of a row, and abort the task that row held. -/
def release (m : Manager) (sid : Sid) (e : SourceEntry) (row : Option SourceEntry) : Manager :=
  match e.handle with
  | none => m.setEntry sid row
  | some t => (m.setEntry sid row).abort t

def Action.isStart : Action → Bool
  | .startSpec .. | .startSource => true
  | _ => false

inductive Stepped (m : Manager) : Action → Manager → Prop
  | startSpec (spec : ChannelSpec) (options : SourceStartOptions) (clock : ClockReading) :
      Stepped m (.startSpec spec options clock) (m.startSpecWithOptions spec options clock)
  | startSource : Stepped m .startSource m.startSource
  /-- There is no source, or none in the state for the request. -/
  | refused {a : Action} (ha : a.isStart = false) : Stepped m a m
  /-- A resume that is refused and a write drop a handle whose task is over. -/
  | cleared {a : Action} {sid : Sid} {e : SourceEntry} (ha : a.isStart = false)
      (he : m.sources sid = some e) :
      Stepped m a (m.setEntry sid (some (m.clearFinished e)))
  | resumed {sid : Sid} {clock : ClockReading} {e : SourceEntry} {spec : ChannelSpec}
      (he : m.sources sid = some e) (hhandle : (m.clearFinished e).handle = none)
      (hspec : (m.clearFinished e).spec = some spec) :
      Stepped m (.resume sid clock)
        ((m.setEntry sid (some (m.clearFinished e))).startSpecWithSid sid spec
          (m.clearFinished e).sessionDir (m.clearFinished e).startOptions clock)
  | restarted {sid : Sid} {overrides : SourceStartOptions} {clock : ClockReading}
      {e : SourceEntry} {spec : ChannelSpec} (he : m.sources sid = some e)
      (hspec : e.spec = some spec) :
      Stepped m (.restart sid overrides clock)
        ((m.release sid e (some { e with handle := none, sink := false })).startSpecWithSid sid
          spec e.sessionDir (mergeStartOptions e.startOptions overrides) clock)
  | stopped {sid : Sid} {e : SourceEntry} (he : m.sources sid = some e) :
      Stepped m (.stop sid) (m.release sid e (some { e with sink := false, handle := none }))
  | forgotten {sid : Sid} (he : m.sources sid = none) :
      Stepped m (.remove sid)
        { m.setEntry sid none with registry := Function.update m.registry sid false }
  | removed {sid : Sid} {e : SourceEntry} (he : m.sources sid = some e) :
      Stepped m (.remove sid)
        { m.release sid e none with registry := Function.update m.registry sid false }
  | waited {sid : Sid} {e : SourceEntry} {t : TaskId} (he : m.sources sid = some e)
      (ht : e.handle = some t) :
      Stepped m (.wait sid)
        { (m.setEntry sid (some { e with handle := none })).setWait m.nextRequest
            (some ⟨sid, t, e.spec.isNone, false⟩) with nextRequest := m.nextRequest + 1 }
  | reaped : Stepped m .reapFinished m.reapFinished
  | patternSet (pattern : Text) :
      Stepped m (.setSessionNamePattern pattern)
        { m with config := { m.config with sessionNamePattern := pattern } }
  | spawned {r : RequestId} {q : StartRequest} (hq : m.starts r = some q)
      (hphase : q.phase = .preparing) (hspec : q.spec.all isImplemented = true) :
      Stepped m (.spawn r)
        ((m.pushTask { sid := q.sid, sessionDir := q.sessionDir }).setStart r
          (some { q with phase := .spawned m.nextTask }))
  /-- The start of a remote source does not wait for its runner. -/
  | spawnedRemote {r : RequestId} {q : StartRequest} (hq : m.starts r = some q)
      (hphase : q.phase = .preparing) (hspec : q.spec.all isImplemented = true) :
      Stepped m (.spawn r)
        (({ m.pushTask { sid := q.sid, sessionDir := q.sessionDir, registered := true } with
            registry := Function.update m.registry q.sid true }.setEntry q.sid
          (some (StartRequest.entry q m.nextTask))).setStart r none)
  | prepareFailed {r : RequestId} {q : StartRequest} (hq : m.starts r = some q)
      (hphase : q.phase = .preparing) : Stepped m (.prepareFailed r) (m.setStart r none)
  | stored {r : RequestId} {q : StartRequest} {t : TaskId} (hq : m.starts r = some q)
      (hphase : q.phase = .spawned t)
      (hregistered : (m.tasks t).any RunnerTask.registered = true) :
      Stepped m (.store r)
        ((m.setEntry q.sid (some (StartRequest.entry q t))).setStart r none)
  | startFailed {r : RequestId} {q : StartRequest} {t : TaskId} (hq : m.starts r = some q)
      (hphase : q.phase = .spawned t)
      (hover : ((m.tasks t).any fun task => task.finished && !task.registered) = true) :
      Stepped m (.startFailed r) (m.setStart r none)
  | joined {r : RequestId} {w : WaitRequest} (hw : m.waits r = some w)
      (hover : m.isFinished w.task = true) (he : m.sources w.sid = none) :
      Stepped m (.join r) (m.setWait r (some { w with joined := true }))
  | joinedRow {r : RequestId} {w : WaitRequest} {e : SourceEntry} (hw : m.waits r = some w)
      (hover : m.isFinished w.task = true) (he : m.sources w.sid = some e) :
      Stepped m (.join r)
        ((m.setEntry w.sid (some { e with sink := false })).setWait r
          (some { w with joined := true }))
  | waitDone {r : RequestId} {w : WaitRequest} (hw : m.waits r = some w)
      (hjoined : w.joined = true) : Stepped m (.finishWait r) (m.setWait r none)
  | waitRemoved {r : RequestId} {w : WaitRequest} (hw : m.waits r = some w)
      (hjoined : w.joined = true) (hremove : w.removeEntry = true) :
      Stepped m (.finishWait r) ((m.setEntry w.sid none).setWait r none)
  | registered {t : TaskId} {task : RunnerTask} (ht : m.tasks t = some task)
      (hfinished : task.finished = false) (hnew : task.registered = false) :
      Stepped m (.register t)
        { m.updateTask t fun task => { task with registered := true } with
          registry := Function.update m.registry task.sid true }
  | finished {t : TaskId} {task : RunnerTask} (ht : m.tasks t = some task) :
      Stepped m (.finish t) (m.updateTask t fun task => { task with finished := true })

section Steps

variable {m m' : Manager} {r : RequestId}

theorem stepped_resume (m : Manager) (sid : Sid) (clock : ClockReading) :
    m.Stepped (.resume sid clock) (m.resume sid clock).2 := by
  fun_cases Manager.resume m sid clock with
  | case1 => exact .refused rfl
  | case2 e he | case3 e he => exact .cleared rfl he
  | case4 e he _ _ hactive spec hspec =>
    exact .resumed he (Option.not_isSome_iff_eq_none.mp hactive) hspec

theorem stepped_restart (m : Manager) (sid : Sid) (overrides : SourceStartOptions)
    (clock : ClockReading) :
    m.Stepped (.restart sid overrides clock) (m.restartWithOptions sid overrides clock).2 := by
  unfold Manager.restartWithOptions
  split
  · exact .refused rfl
  · next e he =>
    split
    · exact .refused rfl
    · next spec hspec =>
      have hrestarted : m.Stepped (.restart sid overrides clock) _ := .restarted he hspec
      unfold release at hrestarted
      cases ht : e.handle with
      | none | some t =>
        simp only [ht] at hrestarted ⊢
        exact hrestarted

theorem stepped_stop (m : Manager) (sid : Sid) : m.Stepped (.stop sid) (m.stop sid).2 := by
  unfold Manager.stop
  split
  · exact .refused rfl
  · next e he =>
    have hstopped := Stepped.stopped he
    unfold release at hstopped
    cases ht : e.handle with
    | none | some t =>
      simp only [ht] at hstopped ⊢
      exact hstopped

theorem stepped_remove (m : Manager) (sid : Sid) :
    m.Stepped (.remove sid) (m.remove sid).2 := by
  unfold Manager.remove
  cases he : m.sources sid with
  | none => exact .forgotten he
  | some e =>
    have hremoved := Stepped.removed he
    unfold release at hremoved
    cases ht : e.handle with
    | none =>
      exact hremoved
    | some t =>
      exact hremoved

theorem stepped_wait (m : Manager) (sid : Sid) :
    m.Stepped (.wait sid) ((m.wait sid).getD m) := by
  fun_cases Manager.wait m sid with
  | case3 e he t ht => exact .waited he ht
  | _ => exact .refused rfl

theorem stepped_write (m : Manager) (sid : Sid) :
    m.Stepped (.write sid) (m.writeLookup sid).2 := by
  unfold Manager.writeLookup
  split
  · exact .refused rfl
  · next e he => exact .cleared rfl he

theorem stepped_spawn {q : StartRequest} (hq : m.starts r = some q) (hphase : q.phase = .preparing)
    (h : m.spawn r q = some m') : m.Stepped (.spawn r) m' := by
  revert h
  fun_cases Manager.spawn m r q with
  | case1 url hspec =>
    rintro ⟨⟩
    exact .spawnedRemote hq hphase (by rw [hspec]; rfl)
  | case2 spec _ hspec himplemented =>
    rintro ⟨⟩
    exact .spawned hq hphase (by rw [hspec]; exact himplemented)
  | case3 => rintro ⟨⟩
  | case4 hspec =>
    rintro ⟨⟩
    exact .spawned hq hphase (by rw [hspec]; rfl)

theorem stepped_store (h : m.store r = some m') : m.Stepped (.store r) m' := by
  revert h
  fun_cases Manager.store m r with
  | case3 q hq t hphase hregistered =>
    rintro ⟨⟩
    exact .stored hq hphase hregistered
  | _ => rintro ⟨⟩

theorem stepped_startFailed (h : m.startFailed r = some m') : m.Stepped (.startFailed r) m' := by
  revert h
  fun_cases Manager.startFailed m r with
  | case3 q hq t hphase hover =>
    rintro ⟨⟩
    exact .startFailed hq hphase hover
  | _ => rintro ⟨⟩

theorem stepped_join (h : m.join r = some m') : m.Stepped (.join r) m' := by
  unfold Manager.join at h
  split at h
  · cases h
  · next w hw =>
    split at h
    · next hready =>
      rw [Bool.and_eq_true] at hready
      cases h
      split
      · next he => exact .joined hw hready.2 he
      · next e he => exact .joinedRow hw hready.2 he
    · cases h

theorem stepped_finishWait (h : m.finishWait r = some m') : m.Stepped (.finishWait r) m' := by
  unfold Manager.finishWait at h
  split at h
  · cases h
  · next w hw =>
    split at h
    · next hjoined =>
      cases h
      split
      · next hremove => exact .waitRemoved hw hjoined hremove
      · exact .waitDone hw hjoined
    · cases h

theorem stepped_of_step {a : Action} (h : m.step a = some m') : m.Stepped a m' := by
  revert h
  fun_cases m.step a with
  | case1 spec options clock => rintro ⟨⟩; exact .startSpec spec options clock
  | case2 => rintro ⟨⟩; exact .startSource
  | case3 sid clock => rintro ⟨⟩; exact stepped_resume m sid clock
  | case4 sid overrides clock => rintro ⟨⟩; exact stepped_restart m sid overrides clock
  | case5 sid => rintro ⟨⟩; exact stepped_stop m sid
  | case6 sid => rintro ⟨⟩; exact stepped_remove m sid
  | case7 sid => rintro ⟨⟩; exact stepped_wait m sid
  | case8 sid => rintro ⟨⟩; exact stepped_write m sid
  | case9 => rintro ⟨⟩; exact .reaped
  | case10 pattern => rintro ⟨⟩; exact .patternSet pattern
  | case12 r q hq hphase => exact stepped_spawn hq hphase
  | case15 r q hq hphase => rintro ⟨⟩; exact .prepareFailed hq hphase
  | case17 r => exact stepped_store
  | case18 r => exact stepped_startFailed
  | case19 r => exact stepped_join
  | case20 r => exact stepped_finishWait
  | case23 t task ht hready =>
    rintro ⟨⟩
    rw [Bool.or_eq_true, not_or, Bool.not_eq_true, Bool.not_eq_true] at hready
    exact .registered ht hready.1 hready.2
  | case25 t task ht => rintro ⟨⟩; exact .finished ht
  | _ => rintro ⟨⟩

end Steps

end Manager

end TraceMux.Server
