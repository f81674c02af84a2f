import Ums.Lib.Machine
import Ums.Scheduler.Basic

/-!
# Handing a scheduler from thread to thread

The threads of one scheduler: its workers, and the thread that runs its constructor.
They pass control to each other under `m_workers_mtx`, with one `m_running` flag for
each worker. A state says for every thread which statement it executes next, and
each statement that touches something shared is one step.

A thread blocked on a condition variable may go on at any time, which covers both
notifications and spurious wakeups. What the scheduling code does is left open, but
that it ends by making some worker `m_worker`, which it can do only once a task
exists, that is after the constructors have returned.
-/

namespace Ums.Handoff

variable {w : Nat}

/-- Which function called `Worker::wait`. -/
inductive Place where
  /-- `sync_init`. -/
  | syncInit
  /-- `context_switch`. -/
  | contextSwitch
  deriving DecidableEq

/-- Where a worker's thread is. -/
inductive Pc where
  /-- Not created yet. -/
  | unborn
  /-- In its task, or in `main_loop` around it. -/
  | user
  /-- `sync`, about to park the worker. -/
  | park
  /-- `sync_init`, about to test `initializing`. -/
  | syncInit
  /-- `sync_init`, about to lock `m_workers_mtx`. -/
  | initLock
  /-- `sync_init`, about to call `notify` on itself. -/
  | initNotify
  /-- `Worker::wait`, about to clear `m_running`. -/
  | clear (p : Place)
  /-- `Worker::wait`, about to evaluate the predicate of `m_cv.wait`. -/
  | test (p : Place)
  /-- Blocked in `m_cv.wait`. -/
  | blocked (p : Place)
  /-- `sync_init`, about to test `m_workers_started`. -/
  | decide
  /-- `sync_init`, about to unlock `m_workers_mtx` and to return. -/
  | initReturn (result : Bool)
  /-- In `schedule`. -/
  | schedule
  /-- In `schedule`, having told that it sleeps. -/
  | asleep
  /-- `sync`, about to compare `m_worker` with the worker. -/
  | compare
  /-- `context_switch`, about to lock `m_workers_mtx`. -/
  | switchLock
  /-- `context_switch`, about to call `m_worker->notify`. -/
  | switchNotify
  /-- `context_switch`, about to unlock `m_workers_mtx` and to return. -/
  | switchReturn
  deriving DecidableEq

/-- Where the thread in the constructor is. -/
inductive CtorPc where
  /-- `Scheduler`, about to create the worker `k`. -/
  | create (k : Nat)
  /-- `Worker`, about to lock `m_workers_mtx`. -/
  | lock (k : Nat)
  /-- `Worker`, about to evaluate the predicate of `m_cv.wait`. -/
  | test (k : Nat)
  /-- `Worker`, blocked in `m_cv.wait`. -/
  | blocked (k : Nat)
  /-- `Scheduler`, about to lock `m_workers_mtx`. -/
  | startLock
  /-- `Scheduler`, about to start the front idle worker. -/
  | start
  /-- `Scheduler`, about to unlock `m_workers_mtx`. -/
  | startUnlock
  /-- `Scheduler`, waiting until the scheduler sleeps. -/
  | await
  /-- All constructors have returned. -/
  | done
  deriving DecidableEq

/-- The worker holds `m_workers_mtx` there. -/
def Pc.holds : Pc → Bool
  | .initNotify | .clear _ | .test _ | .decide | .initReturn _ | .switchNotify | .switchReturn =>
    true
  | _ => false

/-- The constructor holds `m_workers_mtx` there. -/
def CtorPc.holds : CtorPc → Bool
  | .test _ | .start | .startUnlock => true
  | _ => false

/-- The worker executes code of the scheduler or of its task there. -/
def Pc.executes : Pc → Bool
  | .unborn | .blocked _ => false
  | _ => true

/-- The constructor has started the first worker. -/
def CtorPc.started : CtorPc → Bool
  | .startUnlock | .await | .done => true
  | _ => false

/-- A thread. -/
inductive Thread (w : Nat) where
  /-- The thread of a worker. -/
  | worker (v : Fin w)
  /-- The thread in the constructor. -/
  | ctor
  deriving DecidableEq

/-- The threads of one scheduler and what they share. -/
structure State (w : Nat) where
  /-- The control point of each worker. -/
  pc : Fin w → Pc
  /-- The control point of the constructor. -/
  ctor : CtorPc
  /-- Who holds `m_workers_mtx`. -/
  mtx : Option (Thread w)
  /-- `m_running` of each worker. -/
  running : Fin w → Bool
  /-- `m_worker`. -/
  worker : Option (Fin w)
  /-- `m_idle_queue`, as long as the scheduler is initializing. -/
  idleQueue : List (Fin w)
  /-- `initializing`. -/
  initializing : Bool
  /-- `m_running` of the scheduler. -/
  schedRunning : Bool
  /-- `m_workers_started`. -/
  workersStarted : Bool
  /-- The workers that `sync_init` told to schedule, having waited. -/
  told : List (Fin w)

namespace State

/-- Continue a worker. -/
@[simps -fullyApplied] def goto (s : State w) (v : Fin w) (p : Pc) : State w :=
  { s with pc := Function.update s.pc v p }

/-- Set or clear `m_running` of a worker. -/
@[simps -fullyApplied] def setRunning (s : State w) (v : Fin w) (b : Bool) : State w :=
  { s with running := Function.update s.running v b }

/-- Take or release `m_workers_mtx`. -/
@[simps -fullyApplied] def setMtx (s : State w) (o : Option (Thread w)) : State w :=
  { s with mtx := o }

end State

/-- The next statement of a worker, outside of the scheduling code. -/
def workerStep (s : State w) (v : Fin w) : Pc → Option (State w)
  | .unborn | .schedule => none
  | .user => some (s.goto v .park)
  | .park =>
    some ({ s with
      idleQueue := if s.initializing then s.idleQueue ++ [v] else s.idleQueue }.goto v .syncInit)
  | .syncInit => some (s.goto v (if s.initializing then .initLock else .schedule))
  | .initLock =>
    if s.mtx = none then some ((s.setMtx (some (.worker v))).goto v .initNotify) else none
  | .initNotify => some ((s.setRunning v true).goto v (.clear .syncInit))
  | .clear p => some ((s.setRunning v false).goto v (.test p))
  | .test p =>
    if s.running v then
      some (s.goto v (match p with | .syncInit => .decide | .contextSwitch => .switchReturn))
    else some ((s.setMtx none).goto v (.blocked p))
  | .blocked p =>
    if s.mtx = none then some ((s.setMtx (some (.worker v))).goto v (.test p)) else none
  | .decide =>
    if s.workersStarted then some (s.goto v (.initReturn false))
    else some ({ s with workersStarted := true, told := v :: s.told }.goto v (.initReturn true))
  | .initReturn r => some ((s.setMtx none).goto v (if r then .schedule else .user))
  | .asleep => some ({ s with schedRunning := false }.goto v .schedule)
  | .compare => some (s.goto v (if s.worker = some v then .user else .switchLock))
  | .switchLock =>
    if s.mtx = none then some ((s.setMtx (some (.worker v))).goto v .switchNotify) else none
  | .switchNotify => s.worker.map fun n => (s.setRunning n true).goto v (.clear .contextSwitch)
  | .switchReturn => some ((s.setMtx none).goto v .user)

/-- The next statement of the constructor. -/
def ctorStep (s : State w) : CtorPc → Option (State w)
  | .create k =>
    if h : k < w then some { s.goto ⟨k, h⟩ .park with ctor := .lock k }
    else some { s with ctor := .startLock }
  | .lock k | .blocked k =>
    if s.mtx = none then some { s.setMtx (some .ctor) with ctor := .test k } else none
  | .test k =>
    if h : k < w then
      if s.running ⟨k, h⟩ then some { s.setMtx none with ctor := .blocked k }
      else some { s.setMtx none with ctor := .create (k + 1) }
    else none
  | .startLock => if s.mtx = none then some { s.setMtx (some .ctor) with ctor := .start } else none
  | .start =>
    s.idleQueue.head?.map fun v =>
      { s.setRunning v true with worker := some v, ctor := .startUnlock }
  | .startUnlock => some { s.setMtx none with ctor := .await }
  | .await => if s.schedRunning then none else some { s with ctor := .done }
  | .done => none

/-- A label: the thread that moves and what the scheduling code decides. -/
inductive Event (w : Nat) where
  /-- The next statement of a worker. -/
  | worker (v : Fin w)
  /-- The scheduling code makes `n` the worker to execute. -/
  | prepare (v n : Fin w)
  /-- The scheduling code goes to sleep. -/
  | sleep (v : Fin w)
  /-- The next statement of the constructor. -/
  | ctor
  deriving DecidableEq

/-- One step of the threads. -/
def next (s : State w) : Event w → Option (State w)
  | .worker v => workerStep s v (s.pc v)
  | .prepare v n =>
    if s.pc v = .schedule ∧ s.ctor = .done then some ({ s with worker := some n }.goto v .compare)
    else none
  | .sleep v =>
    if s.pc v = .schedule then some ({ s with initializing := false }.goto v .asleep) else none
  | .ctor => ctorStep s s.ctor

/-- The threads when the constructor begins. -/
def State.begin (w : Nat) : State w where
  pc _ := .unborn
  ctor := .create 0
  mtx := none
  running _ := true
  worker := none
  idleQueue := []
  initializing := true
  schedRunning := true
  workersStarted := false
  told := []

/-- The threads of a scheduler with `w` workers as a machine. -/
def machine (w : Nat) : Lib.Machine (State w) (Event w) where
  init s := s = .begin w
  next := next

end Ums.Handoff
