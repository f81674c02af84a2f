import Ums.Handoff.Active
import Ums.Lib.Owner

/-!
# Notifications between the threads of a scheduler

`Ums.Handoff` lets a blocked thread go on at any time. Here it goes on when it has been notified,
and a spurious wakeup is an event of its own. A thread waits on a condition variable as long as
it is blocked and has not been notified; `notify_one` notifies one of those that wait.

The constructor waits on the condition variable of a worker, which the worker waits on later, and
then on that of the scheduler, under `m_mtx`. A worker that sleeps is blocked on the latter too.
It goes on only once there is a task, so before the constructors have returned it may wake up, but
finds its predicate false.
-/

namespace Ums.Wakeup

open Handoff (Pc CtorPc Thread)

variable {w : Nat}

/-- Where the constructor is while it waits for the scheduler to sleep. -/
inductive Await where
  /-- About to lock `m_mtx`. -/
  | lock
  /-- About to evaluate the predicate of `m_cv.wait`. -/
  | test
  /-- Blocked in `m_cv.wait`. -/
  | blocked
  deriving DecidableEq

/-- The threads of one scheduler, and who has been notified. -/
structure State (w : Nat) where
  /-- The threads. -/
  threads : Handoff.State w
  /-- The worker has been notified while it was blocked in `Worker::wait`. -/
  notified : Fin w → Bool
  /-- The constructor has been notified while it was blocked. -/
  ctorNotified : Bool
  /-- Where the constructor is at the end. -/
  await : Await
  /-- Who holds `m_mtx`. -/
  mtx : Option (Thread w)
  /-- The worker that sleeps, if it has woken up and is about to evaluate its predicate. -/
  stirring : Option (Fin w)

/-- The thread of the worker is blocked in `Worker::wait`. -/
def isBlocked : Pc → Bool
  | .blocked _ => true
  | _ => false

namespace State

/-- The worker waits on its condition variable. -/
def waits (s : State w) (n : Fin w) : Bool := isBlocked (s.threads.pc n) && !s.notified n

/-- The constructor waits on the condition variable of the worker. -/
def ctorWaits (s : State w) (n : Fin w) : Bool :=
  decide (s.threads.ctor = .blocked n.val) && !s.ctorNotified

/-- The constructor waits on the condition variable of the scheduler. -/
def ctorAwaits (s : State w) : Bool :=
  decide (s.threads.ctor = .await) && decide (s.await = .blocked) && !s.ctorNotified

/-- `m_cv.notify_one` of the worker `n`; if both wait there, `ctorFirst` says who is notified. -/
def notifyOne (s : State w) (n : Fin w) (ctorFirst : Bool) : State w :=
  if s.ctorWaits n && (ctorFirst || !s.waits n) then { s with ctorNotified := true }
  else if s.waits n then { s with notified := Function.update s.notified n true }
  else s

end State

/-- A blocked worker locks `m_workers_mtx` again. -/
def resume (s : State w) (v : Fin w) : Option (State w) :=
  (Handoff.next s.threads (.worker v)).map fun t =>
    { s with threads := t, notified := Function.update s.notified v false }

/-- The next statement of a worker. -/
def workerStep (s : State w) (v : Fin w) (ctorFirst : Bool) : Pc → Option (State w)
  | .blocked _ => if s.notified v then resume s v else none
  | .initNotify =>
    (Handoff.next s.threads (.worker v)).map fun t =>
      { s.notifyOne v ctorFirst with threads := t }
  | .switchNotify =>
    s.threads.worker.bind fun n => (Handoff.next s.threads (.worker v)).map fun t =>
      { s.notifyOne n ctorFirst with threads := t }
  | .asleep =>
    (Handoff.next s.threads (.worker v)).map fun t => { s with threads := t, mtx := none }
  | .schedule =>
    if s.stirring = some v then some { s with mtx := none, stirring := none } else none
  | _ => (Handoff.next s.threads (.worker v)).map fun t => { s with threads := t }

/-- The constructor, which is blocked, goes on. -/
def ctorResume (s : State w) : CtorPc → Option (State w)
  | .blocked _ =>
    (Handoff.next s.threads .ctor).map fun t => { s with threads := t, ctorNotified := false }
  | .await =>
    if s.await = .blocked ∧ s.mtx = none then
      some { s with mtx := some .ctor, await := .test, ctorNotified := false }
    else none
  | _ => none

/-- The next statement of the constructor. -/
def ctorStep (s : State w) : CtorPc → Option (State w)
  | .blocked k => if s.ctorNotified then ctorResume s (.blocked k) else none
  | .start =>
    (Handoff.next s.threads .ctor).bind fun t =>
      t.worker.map fun n => { s.notifyOne n false with threads := t }
  | .await =>
    match s.await with
    | .lock => if s.mtx = none then some { s with mtx := some .ctor, await := .test } else none
    | .test =>
      if s.threads.schedRunning then some { s with mtx := none, await := .blocked }
      else (Handoff.next s.threads .ctor).map fun t => { s with threads := t, mtx := none }
    | .blocked => if s.ctorNotified then ctorResume s .await else none
  | _ => (Handoff.next s.threads .ctor).map fun t => { s with threads := t }

/-- A label: the thread that moves and what the code leaves open. -/
inductive Event (w : Nat) where
  /-- The next statement of a worker; if it notifies where two threads wait, which of them. -/
  | worker (v : Fin w) (ctorFirst : Bool)
  /-- A worker that is blocked in `Worker::wait` goes on for no reason. -/
  | spurious (v : Fin w)
  /-- The scheduling code makes `n` the worker to execute. -/
  | prepare (v n : Fin w)
  /-- The scheduling code goes to sleep. -/
  | sleep (v : Fin w)
  /-- A worker that sleeps goes on for no reason. -/
  | stir (v : Fin w)
  /-- The next statement of the constructor. -/
  | ctor
  /-- The constructor is blocked and goes on for no reason. -/
  | ctorSpurious
  deriving DecidableEq

/-- One step of the threads. -/
def next (s : State w) : Event w → Option (State w)
  | .worker v ctorFirst => workerStep s v ctorFirst (s.threads.pc v)
  | .spurious v => if isBlocked (s.threads.pc v) then resume s v else none
  | .prepare v n =>
    (Handoff.next s.threads (.prepare v n)).map fun t => { s with threads := t }
  | .sleep v =>
    if s.mtx = none ∧ (s.threads.initializing ∨ s.threads.ctor = .done) then
      (Handoff.next s.threads (.sleep v)).map fun t =>
        { s with
          threads := t
          mtx := some (.worker v)
          ctorNotified := s.ctorNotified || (s.threads.initializing && s.ctorAwaits) }
    else none
  | .stir v =>
    if s.threads.pc v = .schedule ∧ s.threads.initializing = false ∧ s.threads.ctor ≠ .done ∧
        s.mtx = none then
      some { s with mtx := some (.worker v), stirring := some v }
    else none
  | .ctor => ctorStep s s.threads.ctor
  | .ctorSpurious => ctorResume s s.threads.ctor

/-- The threads when the constructor begins. -/
def State.begin (w : Nat) : State w where
  threads := .begin w
  notified _ := false
  ctorNotified := false
  await := .lock
  mtx := none
  stirring := none

/-- The threads of a scheduler with `w` workers. -/
def machine (w : Nat) : Lib.Machine (State w) (Event w) where
  init s := s = .begin w
  next := next

end Ums.Wakeup
