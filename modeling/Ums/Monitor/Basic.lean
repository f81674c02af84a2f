import Ums.Lib.Machine
import Ums.Scheduler.Basic

/-!
# Mutexes and condition variables under any number of workers

What `class Mutex` and `class Condition_variable` do when workers run a program on
them. A program gives every control point of a worker one command; the blocking
commands are executed in the phases `wait_internal`, `sleep_until` and `notify_all`
have in the source, each of them one access of something another worker can touch.

A `Mutex` is the worker that holds it. A worker that is parked goes on when one of
`m_cond` and its sleep time lets it, which is what `schedule_waiting_workers` tests;
which scheduler a worker belongs to, and who wakes that scheduler up, is the
business of `Ums.Runtime`.
-/

namespace Ums.Monitor

/-- A command: on mutexes `μ`, condition variables `γ` and data `δ`, going on at a control point. -/
inductive Cmd (μ γ δ κ : Type) where
  /-- The caller decides where to go on. -/
  | choose (ok : κ → Bool)
  /-- Look at the clock and at the data, and change the data. -/
  | act (f : Time → δ → δ × κ)
  /-- `Mutex::lock`. -/
  | lock (m : μ) (k : κ)
  /-- `Mutex::try_lock`. -/
  | tryLock (m : μ) (yes no : κ)
  /-- `Mutex::unlock`. -/
  | unlock (m : μ) (k : κ)
  /-- `Condition_variable::wait_internal`. -/
  | wait (v : γ) (m : μ) (d : Time) (k : κ)
  /-- `Worker::sleep_until`. -/
  | sleep (d : Time) (k : κ)
  /-- `Condition_variable::notify_one`. -/
  | notifyOne (v : γ) (k : κ)
  /-- `Condition_variable::notify_all`. -/
  | notifyAll (v : γ) (k : κ)

/-- Where a worker is inside a command. -/
inductive Phase (T : Type) where
  /-- At its beginning. -/
  | start
  /-- Past `add_waiter`, about to call `set_wait_info`. -/
  | linked
  /-- About to unlock the mutex in `Scoped_unlock`. -/
  | armed
  /-- About to test `check_wait_info`. -/
  | released
  /-- In its scheduler's waiting list. -/
  | parked
  /-- About to lock the mutex in `~Scoped_unlock`. -/
  | resumed
  /-- About to call `remove_waiter`. -/
  | relocked
  /-- In `sleep_until`, about to test `check_wait_info`. -/
  | dozing
  /-- In its scheduler's waiting list, from `sleep_until`. -/
  | asleep
  /-- In the loop of `notify_all`, with the waiters it has yet to notify. -/
  | scanning (rest : List T)
  deriving DecidableEq

/-- The workers and what they share. -/
structure State (T μ γ δ κ : Type) where
  /-- The control point of each worker. -/
  ctl : T → κ
  /-- Where it is inside the command there. -/
  phase : T → Phase T
  /-- `m_wait_info` of each worker. -/
  info : T → WaitInfo
  /-- Who holds each mutex. -/
  owner : μ → Option T
  /-- `m_waiters` of each condition variable. -/
  waiters : γ → List T
  /-- Who holds `m_waiters_lock` of each condition variable in `notify_all`. -/
  scanner : γ → Option T
  /-- The data. -/
  data : δ
  /-- The clock. -/
  now : Time

/-- `Worker::check_wait_info` at the clock value `now`. -/
def checkWaitInfo (w : WaitInfo) (now : Time) : Bool := w.cond || decide (now ≥ w.sleepTimePoint)

namespace State

variable {T μ γ δ κ : Type} [DecidableEq T] [DecidableEq μ] [DecidableEq γ]

/-- Continue a worker at a control point. -/
@[simps -fullyApplied] def goto (s : State T μ γ δ κ) (t : T) (k : κ) : State T μ γ δ κ :=
  { s with ctl := Function.update s.ctl t k, phase := Function.update s.phase t .start }

/-- Continue a worker inside its command. -/
@[simps -fullyApplied] def setPhase (s : State T μ γ δ κ) (t : T) (p : Phase T) : State T μ γ δ κ :=
  { s with phase := Function.update s.phase t p }

/-- Give a mutex to a worker, or to nobody. -/
@[simps -fullyApplied] def setOwner (s : State T μ γ δ κ) (m : μ) (o : Option T) :
    State T μ γ δ κ :=
  { s with owner := Function.update s.owner m o }

/-- Replace a list of waiters. -/
@[simps -fullyApplied] def setWaiters (s : State T μ γ δ κ) (v : γ) (l : List T) :
    State T μ γ δ κ :=
  { s with waiters := Function.update s.waiters v l }

/-- Take or release `m_waiters_lock`. -/
@[simps -fullyApplied] def setScanner (s : State T μ γ δ κ) (v : γ) (o : Option T) :
    State T μ γ δ κ :=
  { s with scanner := Function.update s.scanner v o }

/-- `set_wait_info`. -/
@[simps -fullyApplied] def setWaitInfo (s : State T μ γ δ κ) (t : T) (cond : Bool) (d : Time) :
    State T μ γ δ κ :=
  { s with info := Function.update s.info t ⟨cond, d⟩ }

/-- `set_cond`, of `notify_waiter`. -/
@[simps -fullyApplied] def notifyWaiter (s : State T μ γ δ κ) (t : T) : State T μ γ δ κ :=
  { s with info := Function.update s.info t { s.info t with cond := true } }

/-- Everyone at the beginning of a command, with nothing locked. -/
def start (ctl : T → κ) (data : δ) (now : Time) : State T μ γ δ κ where
  ctl := ctl
  phase _ := .start
  info _ := {}
  owner _ := none
  waiters _ := []
  scanner _ := none
  data := data
  now := now

end State

section

variable {T μ γ δ κ : Type} [DecidableEq T] [DecidableEq μ] [DecidableEq γ]

/-- The phases of `wait_internal`. -/
def waitStep (s : State T μ γ δ κ) (t : T) (v : γ) (m : μ) (d : Time) (k : κ) :
    Phase T → Option (State T μ γ δ κ)
  | .start =>
    if s.scanner v = none then some ((s.setWaiters v (s.waiters v ++ [t])).setPhase t .linked)
    else none
  | .linked => some ((s.setWaitInfo t false d).setPhase t .armed)
  | .armed => some ((s.setOwner m none).setPhase t .released)
  | .released =>
    some (s.setPhase t (if checkWaitInfo (s.info t) s.now then .resumed else .parked))
  | .parked => if checkWaitInfo (s.info t) s.now then some (s.setPhase t .resumed) else none
  | .resumed =>
    if s.owner m = none then some ((s.setOwner m (some t)).setPhase t .relocked) else none
  | .relocked =>
    if s.scanner v = none then some ((s.setWaiters v ((s.waiters v).erase t)).goto t k) else none
  | _ => none

/-- The phases of `sleep_until`. -/
def sleepStep (s : State T μ γ δ κ) (t : T) (d : Time) (k : κ) :
    Phase T → Option (State T μ γ δ κ)
  | .start => some ((s.setWaitInfo t false d).setPhase t .dozing)
  | .dozing =>
    if checkWaitInfo (s.info t) s.now then some (s.goto t k) else some (s.setPhase t .asleep)
  | .asleep => if checkWaitInfo (s.info t) s.now then some (s.goto t k) else none
  | _ => none

/-- The phases of `notify_all`. -/
def notifyAllStep (s : State T μ γ δ κ) (t : T) (v : γ) (k : κ) :
    Phase T → Option (State T μ γ δ κ)
  | .start =>
    if s.scanner v = none then
      some ((s.setScanner v (some t)).setPhase t (.scanning (s.waiters v)))
    else none
  | .scanning (u :: rest) => some ((s.notifyWaiter u).setPhase t (.scanning rest))
  | .scanning [] => some ((s.setScanner v none).goto t k)
  | _ => none

/-- The next statement of a worker, by its command. -/
def cmdStep (s : State T μ γ δ κ) (t : T) : Cmd μ γ δ κ → Option (State T μ γ δ κ)
  | .choose _ => none
  | .act f => some ({ s with data := (f s.now s.data).1 }.goto t (f s.now s.data).2)
  | .lock m k => if s.owner m = none then some ((s.setOwner m (some t)).goto t k) else none
  | .tryLock m yes no =>
    if s.owner m = none then some ((s.setOwner m (some t)).goto t yes) else some (s.goto t no)
  | .unlock m k => some ((s.setOwner m none).goto t k)
  | .wait v m d k => waitStep s t v m d k (s.phase t)
  | .sleep d k => sleepStep s t d k (s.phase t)
  | .notifyOne v k =>
    if s.scanner v = none then
      match s.waiters v with
      | [] => some (s.goto t k)
      | u :: _ => some ((s.notifyWaiter u).goto t k)
    else none
  | .notifyAll v k => notifyAllStep s t v k (s.phase t)

/-- A label: the worker that moves and what the program leaves open. -/
inductive Event (T κ : Type) where
  /-- The next statement of a worker. -/
  | step (t : T)
  /-- A worker's caller decides to go on at `k`. -/
  | choose (t : T) (k : κ)
  /-- Time passes. -/
  | tick (d : Nat)
  deriving DecidableEq

/-- One step of the workers running a program. -/
def next (code : κ → Cmd μ γ δ κ) (s : State T μ γ δ κ) : Event T κ → Option (State T μ γ δ κ)
  | .step t => cmdStep s t (code (s.ctl t))
  | .choose t k =>
    match code (s.ctl t) with
    | .choose ok => if ok k then some (s.goto t k) else none
    | _ => none
  | .tick d => some { s with now := s.now + d }

/-- A program as a machine. Its workers start at `ctl`; the clock may show any value. -/
def machine (code : κ → Cmd μ γ δ κ) (ctl : T → κ) (data : δ) :
    Lib.Machine (State T μ γ δ κ) (Event T κ) where
  init s := ∃ now, s = .start ctl data now
  next := next code

end

end Ums.Monitor
