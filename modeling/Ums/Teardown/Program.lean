import Mathlib.Data.Fintype.Basic
import Ums.Handoff.Active
import Ums.Lib.Owner

/-!
# Taking a scheduler down

The threads of one scheduler from the moment at which its destructor begins: the worker that
sleeps in `Scheduler::sleep`, the others, which wait in `Worker::wait`, and the main thread,
which runs `~Scheduler` and then `~Worker` for one worker after the other. It begins where the
threads of `Ums.Handoff` can be when the scheduler is idle: `wait_exit` has returned, so there are
no tasks, and nobody waits for anything but a task.

A thread that is blocked on a condition variable goes on when it has been notified. It may also
go on for no reason; that is an event of its own.
-/

namespace Ums.Teardown

variable {w : Nat}

open Handoff (Place)

/-- Where a worker's thread is. -/
inductive Pc where
  /-- `sleep`, about to evaluate the predicate of `wait`. -/
  | sleepTest
  /-- `sleep`, about to release `m_mtx` and to block. -/
  | sleepWait
  /-- `sleep`, blocked in `m_cv.wait`. -/
  | sleepBlocked
  /-- `sleep`, about to call `signal_running`, to set its state and to return. -/
  | wake
  /-- `schedule`, about to test `should_exit`. -/
  | shouldExit
  /-- About to set the state of `m_worker` in `exit`. -/
  | exit
  /-- `sync`, about to compare `m_worker` with the worker. -/
  | compare
  /-- `Worker::wait`, about to clear `m_running`. -/
  | clear
  /-- `Worker::wait`, about to evaluate the predicate of `m_cv.wait`. -/
  | test (p : Place)
  /-- Blocked in `m_cv.wait`. -/
  | blocked (p : Place)
  /-- `sync_init`, about to test `exit_signaled`. -/
  | syncExit
  /-- `sync_init`, about to unlock `m_workers_mtx` and to return. -/
  | initReturn (result : Bool)
  /-- `context_switch`, about to unlock `m_workers_mtx` and to return. -/
  | switchReturn
  /-- `main_loop`, about to test `exit`. -/
  | mainLoop
  /-- Back in `schedule`, in `context_switch`, or in a task. -/
  | astray
  /-- The thread has ended. -/
  | ended
  deriving DecidableEq

/-- Where the main thread is; the workers that are yet to be destroyed, in the order of the
vector. -/
inductive MainPc (w : Nat) where
  /-- `~Scheduler`, about to call `signal_exit`. -/
  | signalExit (rest : List (Fin w))
  /-- `Scheduler::notify`, about to lock `m_mtx`. -/
  | notifyLock (rest : List (Fin w))
  /-- `Scheduler::notify`, about to unlock it. -/
  | notifyUnlock (rest : List (Fin w))
  /-- `Scheduler::notify`, about to call `m_cv.notify_one`. -/
  | notifyOne (rest : List (Fin w))
  /-- `~Worker`, about to lock `m_workers_mtx`, or through with all workers. -/
  | lock (rest : List (Fin w))
  /-- `~Worker`, about to set the state. -/
  | setState (v : Fin w) (rest : List (Fin w))
  /-- `~Worker`, about to call `notify`. -/
  | notify (v : Fin w) (rest : List (Fin w))
  /-- `~Worker`, about to unlock `m_workers_mtx`. -/
  | unlock (v : Fin w) (rest : List (Fin w))
  /-- `~Worker`, about to join the thread. -/
  | join (v : Fin w) (rest : List (Fin w))
  deriving DecidableEq

/-- A thread. -/
inductive Thread (w : Nat) where
  /-- The thread of a worker. -/
  | worker (v : Fin w)
  /-- The main thread. -/
  | main
  deriving DecidableEq

/-- The worker holds `m_mtx` there. -/
def Pc.holdsMtx : Pc → Bool
  | .sleepTest | .sleepWait | .wake => true
  | _ => false

/-- The worker holds `m_workers_mtx` there. -/
def Pc.holdsWorkers : Pc → Bool
  | .clear | .test _ | .syncExit | .initReturn _ | .switchReturn => true
  | _ => false

/-- The main thread holds `m_mtx` there. -/
def MainPc.holdsMtx : MainPc w → Bool
  | .notifyUnlock _ => true
  | _ => false

/-- The main thread holds `m_workers_mtx` there. -/
def MainPc.holdsWorkers : MainPc w → Bool
  | .setState .. | .notify .. | .unlock .. => true
  | _ => false

/-- The threads of one scheduler and what they share. -/
structure State (w : Nat) where
  /-- The control point of each worker. -/
  pc : Fin w → Pc
  /-- The control point of the main thread. -/
  main : MainPc w
  /-- Who holds `m_mtx`. -/
  mtx : Option (Thread w)
  /-- Who holds `m_workers_mtx`. -/
  workersMtx : Option (Thread w)
  /-- `m_running` of each worker. -/
  running : Fin w → Bool
  /-- `m_state` of each worker is `exiting`. -/
  exiting : Fin w → Bool
  /-- The worker has been notified while it was blocked in `Worker::wait`. -/
  notified : Fin w → Bool
  /-- The worker in `sleep` has been notified while it was blocked. -/
  woken : Bool
  /-- `m_exit`. -/
  exit : Bool
  /-- `m_workers_started`. -/
  workersStarted : Bool
  /-- `m_worker`. -/
  worker : Option (Fin w)

namespace State

/-- Continue a worker. -/
@[simps -fullyApplied] def goto (s : State w) (v : Fin w) (p : Pc) : State w :=
  { s with pc := Function.update s.pc v p }

/-- Set the state of a worker to `exiting`. -/
@[simps -fullyApplied] def setExiting (s : State w) (v : Fin w) : State w :=
  { s with exiting := Function.update s.exiting v true }

/-- Set or clear `m_running` of a worker. -/
@[simps -fullyApplied] def setRunning (s : State w) (v : Fin w) (b : Bool) : State w :=
  { s with running := Function.update s.running v b }

/-- Note that a worker has been notified, or that it goes on. -/
@[simps -fullyApplied] def setNotified (s : State w) (v : Fin w) (b : Bool) : State w :=
  { s with notified := Function.update s.notified v b }

end State

/-- The worker is blocked in `Worker::wait`. -/
def Pc.isBlocked : Pc → Bool
  | .blocked _ => true
  | _ => false

/-- A blocked worker locks its mutex again. -/
def resume (s : State w) (v : Fin w) : Pc → Option (State w)
  | .sleepBlocked =>
    if s.mtx = none then
      some ({ s with mtx := some (.worker v), woken := false }.goto v .sleepTest)
    else none
  | .blocked p =>
    if s.workersMtx = none then
      some (({ s with workersMtx := some (.worker v) }.setNotified v false).goto v (.test p))
    else none
  | _ => none

/-- The next statement of a worker. -/
def workerStep (s : State w) (v : Fin w) : Pc → Option (State w)
  | .sleepTest => some (s.goto v (if s.exit then .wake else .sleepWait))
  | .sleepWait => some ({ s with mtx := none }.goto v .sleepBlocked)
  | .sleepBlocked => if s.woken then resume s v .sleepBlocked else none
  | .wake => some ({ s with mtx := none }.goto v .shouldExit)
  | .shouldExit => some (s.goto v (if s.exit then .exit else .astray))
  | .exit => s.worker.map fun u => (s.setExiting u).goto v .compare
  | .compare => some (s.goto v (if s.worker = some v then .mainLoop else .astray))
  | .clear => some ((s.setRunning v false).goto v (.test .contextSwitch))
  | .test p =>
    if s.running v then
      some (s.goto v (match p with | .syncInit => .syncExit | .contextSwitch => .switchReturn))
    else some ({ s with workersMtx := none }.goto v (.blocked p))
  | .blocked p => if s.notified v then resume s v (.blocked p) else none
  | .syncExit =>
    if s.exit then some (s.goto v (.initReturn false))
    else some ({ s with workersStarted := true }.goto v (.initReturn !s.workersStarted))
  | .initReturn r =>
    some ({ s with workersMtx := none }.goto v (if r then .astray else .mainLoop))
  | .switchReturn => some ({ s with workersMtx := none }.goto v .mainLoop)
  | .mainLoop => some (s.goto v (if s.exiting v then .ended else .astray))
  | .astray | .ended => none

/-- The next statement of the main thread. -/
def mainStep (s : State w) : MainPc w → Option (State w)
  | .signalExit rest => some { s with exit := true, main := .notifyLock rest }
  | .notifyLock rest =>
    if s.mtx = none then some { s with mtx := some .main, main := .notifyUnlock rest } else none
  | .notifyUnlock rest => some { s with mtx := none, main := .notifyOne rest }
  | .notifyOne rest =>
    some { s with woken := decide (∃ v, s.pc v = .sleepBlocked), main := .lock rest }
  | .lock [] => none
  | .lock (v :: rest) =>
    if s.workersMtx = none then
      some { s with workersMtx := some .main, main := .setState v rest }
    else none
  | .setState v rest => some { s.setExiting v with main := .notify v rest }
  | .notify v rest =>
    some { (s.setRunning v true).setNotified v (s.pc v).isBlocked with main := .unlock v rest }
  | .unlock v rest => some { s with workersMtx := none, main := .join v rest }
  | .join v rest => if s.pc v = .ended then some { s with main := .lock rest } else none

/-- A label: the thread that moves. -/
inductive Event (w : Nat) where
  /-- The next statement of a worker. -/
  | worker (v : Fin w)
  /-- A blocked worker goes on for no reason. -/
  | spurious (v : Fin w)
  /-- The next statement of the main thread. -/
  | main
  deriving DecidableEq

/-- One step of the threads. -/
def next (s : State w) : Event w → Option (State w)
  | .worker v => workerStep s v (s.pc v)
  | .spurious v => resume s v (s.pc v)
  | .main => mainStep s s.main

/-- Where the destructor finds a worker that waits. -/
def found : Handoff.Pc → Pc
  | .clear _ => .clear
  | .test p => .test p
  | .blocked p => .blocked p
  | _ => .astray

/-- The thread of the worker, if it has one. -/
def foundThread : Handoff.Thread w → Option (Thread w)
  | .worker v => some (.worker v)
  | .ctor => none

/-- What the destructor finds when the worker `a` sleeps. -/
def State.begin (h : Handoff.State w) (a : Fin w) (order : List (Fin w)) : State w where
  pc := Function.update (fun v => found (h.pc v)) a .sleepBlocked
  main := .signalExit order
  mtx := none
  workersMtx := h.mtx.bind foundThread
  running := h.running
  exiting _ := false
  notified _ := false
  woken := false
  exit := false
  workersStarted := h.workersStarted
  worker := h.worker

/-- The threads of a scheduler with `w` workers. It begins where `Ums.Handoff` can be when the
scheduling code of the worker `a` is asleep; the vector of the workers is destroyed in some
order. -/
def machine (w : Nat) : Lib.Machine (State w) (Event w) where
  init s := ∃ h a order, (Handoff.machine w).Reachable h ∧ h.ctor = .done ∧ h.pc a = .schedule ∧
    order.Nodup ∧ (∀ v, v ∈ order) ∧ s = .begin h a order
  next := next

end Ums.Teardown
