import Ums.Monitor.Discipline

/-!
# Idle schedulers and exit, one lock at a time

What `wait_exit` and `all_idle`, `sleep` with `signal_idle`, and `Scheduler::notify` do with
`Schedulers::m_mtx`, the `m_mtx` of the schedulers and the `m_waiters_lock` of the
condition variables, `notify` called for itself or from `notify_one` and `notify_all`.
In `Ums.Runtime` a short critical section is one step; here every lock and every
unlock is one.

What these functions decide by `m_check_idle`, `m_idle_schedulers`, `m_running` and
`m_waiters` is decided by them. What they decide by anything else (the queues, the
clock, whether a blocked thread is woken up) is left open. A thread calls any of
them at any time.
-/

namespace Ums.Idle

open Monitor

variable {c : Config} {Γ : Type}

/-- The locks. -/
inductive Lock (c : Config) (Γ : Type) where
  /-- `m_waiters_lock` of a condition variable. -/
  | waiters (v : Γ)
  /-- `m_mtx` of a scheduler. -/
  | sched (j : SchedId c)
  /-- `m_mtx` of `Schedulers`. -/
  | schedulers
  deriving DecidableEq

/-- What the locks guard. -/
structure Data (c : Config) (Γ : Type) where
  /-- `m_idle_schedulers`. -/
  idleSchedulers : BitVec 32 := 0#32
  /-- `m_check_idle`. -/
  checkIdle : Bool := false
  /-- `m_running` of each scheduler. -/
  running : SchedId c → Bool := fun _ => true
  /-- The scheduler of each worker in `m_waiters`. -/
  waiters : Γ → List (SchedId c) := fun _ => []

/-- The statements of `Scheduler::notify`. -/
inductive NotifyPoint where
  /-- About to lock `m_mtx`. -/
  | enter
  /-- `m_running = true`. -/
  | set
  /-- About to unlock `m_mtx`. -/
  | leave
  /-- `m_cv.notify_one`. -/
  | cv
  deriving DecidableEq

/-- The statements of `Condition_variable::notify_one` and of `notify_all`. -/
inductive ScanPoint (c : Config) where
  /-- About to lock `m_waiters_lock`. -/
  | enter
  /-- Reading `m_waiters`. -/
  | read
  /-- With the schedulers of the waiters it has yet to notify. -/
  | next (rest : List (SchedId c))
  /-- In `notify_waiter`, in the `notify` of a scheduler. -/
  | call (rest : List (SchedId c)) (j : SchedId c) (p : NotifyPoint)
  /-- About to unlock `m_waiters_lock`. -/
  | leave
  deriving DecidableEq

/-- The statements of `add_waiter` and of `remove_waiter`. -/
inductive ListPoint where
  /-- About to lock `m_waiters_lock`. -/
  | enter
  /-- `push_back` or `remove`. -/
  | change
  /-- About to unlock `m_waiters_lock`. -/
  | leave
  deriving DecidableEq

/-- The statements of `Scheduler::sleep`, with those of the functions it calls. -/
inductive SleepPoint where
  /-- `has_pending_io_workers` and `should_idle_spin`. -/
  | spin
  /-- About to lock `m_mtx`. -/
  | enter
  /-- Whether to return, to sleep until a time, or to sleep without one. -/
  | test
  /-- `wait_until`: `m_running = false`. -/
  | timed
  /-- `m_cv.wait_until`, testing `m_running`. -/
  | timedTest
  /-- About to let go of `m_mtx`. -/
  | timedBlock
  /-- Blocked. -/
  | timedBlocked
  /-- About to lock `m_mtx` again, its time over or not. -/
  | timedWake (timeout : Bool)
  /-- `m_running = true`. -/
  | timedEnd
  /-- `signal_idle`: the increment of the counter. -/
  | add
  /-- `signal_idle`, about to lock `m_mtx` of `Schedulers`. -/
  | signalEnter
  /-- `m_check_idle = true`. -/
  | signalSet
  /-- About to unlock `m_mtx` of `Schedulers`. -/
  | signalLeave
  /-- `m_cv.notify_one` of `Schedulers`. -/
  | signalCv
  /-- `wait`, evaluating its predicate. -/
  | idleTest
  /-- About to let go of `m_mtx`. -/
  | idleBlock
  /-- Blocked. -/
  | idleBlocked
  /-- About to lock `m_mtx` again. -/
  | idleWake
  /-- `signal_running`. -/
  | sub
  /-- About to unlock `m_mtx` on return. -/
  | leave
  deriving DecidableEq

/-- The statements of `Schedulers::wait_exit`, with those of `all_idle`. -/
inductive ExitPoint where
  /-- About to lock `m_mtx`. -/
  | enter
  /-- The predicate: testing and clearing `m_check_idle`. -/
  | predicate
  /-- `Scoped_unlock`, about to unlock `m_mtx`. -/
  | release
  /-- `all_idle`, comparing the idle counter. -/
  | count
  /-- `has_tasks` of the scheduler at `k`. -/
  | tasks (k : Nat)
  /-- About to lock `m_mtx` of the scheduler at `k`. -/
  | lock (k : Nat)
  /-- `idle` and `has_tasks` of the scheduler at `k`, under all locks. -/
  | state (k : Nat)
  /-- About to unlock `m_mtx` of the scheduler at `k`; the result is `r`. -/
  | unlock (k : Nat) (r : Bool)
  /-- `~Scoped_unlock`, about to lock `m_mtx` again. -/
  | relock (r : Bool)
  /-- The predicate returns. -/
  | test (r : Bool)
  /-- `m_cv.wait`, about to let go of `m_mtx`. -/
  | block
  /-- Blocked. -/
  | blocked
  /-- About to lock `m_mtx` again. -/
  | wake
  /-- About to unlock `m_mtx` on return. -/
  | leave
  deriving DecidableEq

/-- Where a thread is. -/
inductive Ctl (c : Config) (Γ : Type) where
  /-- In its own code. -/
  | idle
  /-- In `Scheduler::notify`. -/
  | notify (j : SchedId c) (p : NotifyPoint)
  /-- In `Condition_variable::notify_one`. -/
  | notifyOne (v : Γ) (p : ScanPoint c)
  /-- In `Condition_variable::notify_all`. -/
  | notifyAll (v : Γ) (p : ScanPoint c)
  /-- In `add_waiter`, for a worker of a scheduler. -/
  | addWaiter (v : Γ) (j : SchedId c) (p : ListPoint)
  /-- In `remove_waiter`. -/
  | removeWaiter (v : Γ) (j : SchedId c) (p : ListPoint)
  /-- In `sleep` of a scheduler. -/
  | sleep (i : SchedId c) (p : SleepPoint)
  /-- In `wait_exit`. -/
  | waitExit (p : ExitPoint)
  deriving DecidableEq

/-- What a thread may call. -/
def Ctl.calls : Ctl c Γ → Bool
  | .notify _ .enter | .notifyOne _ .enter | .notifyAll _ .enter | .addWaiter _ _ .enter
  | .removeWaiter _ _ .enter | .sleep _ .spin | .waitExit .enter => true
  | _ => false

/-- A command of this program. -/
abbrev Command (c : Config) (Γ : Type) := Cmd (Lock c Γ) Empty (Data c Γ) (Ctl c Γ)

section

variable [DecidableEq Γ]

/-- To go on at one of these. -/
def oneOf (l : List (Ctl c Γ)) : Command c Γ := .choose fun k => decide (k ∈ l)

/-- `Scheduler::notify`. -/
def notifyCode (j : SchedId c) (inside : NotifyPoint → Ctl c Γ) (ret : Ctl c Γ) :
    NotifyPoint → Command c Γ
  | .enter => .lock (.sched j) (inside .set)
  | .set => .act fun _ x => ({ x with running := Function.update x.running j true }, inside .leave)
  | .leave => .unlock (.sched j) (inside .cv)
  | .cv => .act fun _ x => (x, ret)

/-- The loop of a notification over the waiters it picks. -/
def scanCode (v : Γ) (inside : ScanPoint c → Ctl c Γ)
    (pick : List (SchedId c) → List (SchedId c)) : ScanPoint c → Command c Γ
  | .enter => .lock (.waiters v) (inside .read)
  | .read => .act fun _ x => (x, inside (.next (pick (x.waiters v))))
  | .next [] => .act fun _ x => (x, inside .leave)
  | .next (j :: rest) => .act fun _ x => (x, inside (.call rest j .enter))
  | .call rest j p => notifyCode j (fun p => inside (.call rest j p)) (inside (.next rest)) p
  | .leave => .unlock (.waiters v) .idle

/-- `Condition_variable::notify_one`, which notifies the front. -/
def notifyOneCode (v : Γ) : ScanPoint c → Command c Γ := scanCode v (.notifyOne v) (List.take 1)

/-- `Condition_variable::notify_all`. -/
def notifyAllCode (v : Γ) : ScanPoint c → Command c Γ := scanCode v (.notifyAll v) id

/-- A change of `m_waiters`. -/
def listCode (v : Γ) (inside : ListPoint → Ctl c Γ)
    (f : List (SchedId c) → List (SchedId c)) : ListPoint → Command c Γ
  | .enter => .lock (.waiters v) (inside .change)
  | .change =>
    .act fun _ x =>
      ({ x with waiters := Function.update x.waiters v (f (x.waiters v)) }, inside .leave)
  | .leave => .unlock (.waiters v) .idle

/-- `add_waiter`. -/
def addWaiterCode (v : Γ) (j : SchedId c) : ListPoint → Command c Γ :=
  listCode v (.addWaiter v j) fun l => l ++ [j]

/-- `remove_waiter`. -/
def removeWaiterCode (v : Γ) (j : SchedId c) : ListPoint → Command c Γ :=
  listCode v (.removeWaiter v j) fun l => l.erase j

/-- `sleep`. -/
def sleepCode (i : SchedId c) : SleepPoint → Command c Γ
  | .spin => oneOf [.idle, .sleep i .enter]
  | .enter => .lock (.sched i) (.sleep i .test)
  | .test => oneOf [.sleep i .leave, .sleep i .timed, .sleep i .add]
  | .timed =>
    .act fun _ x => ({ x with running := Function.update x.running i false }, .sleep i .timedTest)
  | .timedTest =>
    .act fun _ x => (x, if x.running i then .sleep i .timedEnd else .sleep i .timedBlock)
  | .timedBlock => .unlock (.sched i) (.sleep i .timedBlocked)
  | .timedBlocked => oneOf [.sleep i (.timedWake false), .sleep i (.timedWake true)]
  | .timedWake timeout =>
    .lock (.sched i) (if timeout then .sleep i .timedEnd else .sleep i .timedTest)
  | .timedEnd =>
    .act fun _ x => ({ x with running := Function.update x.running i true }, .sleep i .leave)
  | .add =>
    .act fun _ x =>
      ({ x with idleSchedulers := x.idleSchedulers + 1#32 },
        if (x.idleSchedulers + 1#32).toNat < c.schedulers then .sleep i .idleTest
        else .sleep i .signalEnter)
  | .signalEnter => .lock .schedulers (.sleep i .signalSet)
  | .signalSet => .act fun _ x => ({ x with checkIdle := true }, .sleep i .signalLeave)
  | .signalLeave => .unlock .schedulers (.sleep i .signalCv)
  | .signalCv => .act fun _ x => (x, .sleep i .idleTest)
  | .idleTest => oneOf [.sleep i .sub, .sleep i .idleBlock]
  | .idleBlock => .unlock (.sched i) (.sleep i .idleBlocked)
  | .idleBlocked => oneOf [.sleep i .idleWake]
  | .idleWake => .lock (.sched i) (.sleep i .idleTest)
  | .sub =>
    .act fun _ x => ({ x with idleSchedulers := x.idleSchedulers - 1#32 }, .sleep i .leave)
  | .leave => .unlock (.sched i) .idle

/-- `wait_exit`. -/
def waitExitCode : ExitPoint → Command c Γ
  | .enter => .lock .schedulers (.waitExit .predicate)
  | .predicate =>
    .act fun _ x =>
      if x.checkIdle then ({ x with checkIdle := false }, .waitExit .release)
      else (x, .waitExit .block)
  | .release => .unlock .schedulers (.waitExit .count)
  | .count =>
    .act fun _ x =>
      (x, if x.idleSchedulers.toNat < c.schedulers then .waitExit (.relock false)
        else .waitExit (.tasks 0))
  | .tasks k =>
    if k < c.schedulers then oneOf [.waitExit (.relock false), .waitExit (.tasks (k + 1))]
    else .act fun _ x => (x, .waitExit (.lock 0))
  | .lock k =>
    if h : k < c.schedulers then .lock (.sched ⟨k, h⟩) (.waitExit (.lock (k + 1)))
    else .act fun _ x => (x, .waitExit (.state 0))
  | .state k =>
    if k < c.schedulers then oneOf [.waitExit (.unlock 0 false), .waitExit (.state (k + 1))]
    else .act fun _ x => (x, .waitExit (.unlock 0 true))
  | .unlock k r =>
    if h : k < c.schedulers then .unlock (.sched ⟨k, h⟩) (.waitExit (.unlock (k + 1) r))
    else .act fun _ x => (x, .waitExit (.relock r))
  | .relock r => .lock .schedulers (.waitExit (.test r))
  | .test r => .act fun _ x => (x, if r then .waitExit .leave else .waitExit .block)
  | .block => .unlock .schedulers (.waitExit .blocked)
  | .blocked => oneOf [.waitExit .wake]
  | .wake => .lock .schedulers (.waitExit .predicate)
  | .leave => .unlock .schedulers .idle

/-- The program. -/
def code : Ctl c Γ → Command c Γ
  | .idle => .choose Ctl.calls
  | .notify j p => notifyCode j (.notify j) .idle p
  | .notifyOne v p => notifyOneCode v p
  | .notifyAll v p => notifyAllCode v p
  | .addWaiter v j p => addWaiterCode v j p
  | .removeWaiter v j p => removeWaiterCode v j p
  | .sleep i p => sleepCode i p
  | .waitExit p => waitExitCode p

/-- Threads `T` that call these functions, none of them inside. -/
abbrev machine (T : Type) [DecidableEq T] (c : Config) (Γ : Type) [DecidableEq Γ] :
    Lib.Machine (State T (Lock c Γ) Empty (Data c Γ) (Ctl c Γ)) (Event T (Ctl c Γ)) :=
  Monitor.machine code (fun _ => .idle) {}

end

/-! ## Which locks are held where -/

/-- The lock held inside `notify`. -/
def NotifyPoint.holds [DecidableEq Γ] (j : SchedId c) (l : Lock c Γ) : NotifyPoint → Bool
  | .set | .leave => decide (l = .sched j)
  | .enter | .cv => false

/-- The locks held inside a notification. -/
def ScanPoint.holds [DecidableEq Γ] (v : Γ) (l : Lock c Γ) : ScanPoint c → Bool
  | .enter => false
  | .call _ j p => decide (l = .waiters v) || p.holds j l
  | .read | .next _ | .leave => decide (l = .waiters v)

/-- The lock held inside `add_waiter` and `remove_waiter`. -/
def ListPoint.holds [DecidableEq Γ] (v : Γ) (l : Lock c Γ) : ListPoint → Bool
  | .enter => false
  | .change | .leave => decide (l = .waiters v)

/-- The locks held inside `sleep`. -/
def SleepPoint.holds [DecidableEq Γ] (i : SchedId c) (l : Lock c Γ) : SleepPoint → Bool
  | .spin | .enter | .timedBlocked | .timedWake _ | .idleBlocked | .idleWake => false
  | .signalSet | .signalLeave => decide (l = .sched i) || decide (l = .schedulers)
  | _ => decide (l = .sched i)

/-- The locks held inside `wait_exit`. -/
def ExitPoint.holds [DecidableEq Γ] (l : Lock c Γ) : ExitPoint → Bool
  | .predicate | .release | .test _ | .block | .leave => decide (l = .schedulers)
  | .lock k =>
    match l with
    | .sched j => decide (j.val < k)
    | _ => false
  | .state _ =>
    match l with
    | .sched _ => true
    | _ => false
  | .unlock k _ =>
    match l with
    | .sched j => decide (k ≤ j.val)
    | _ => false
  | _ => false

/-- Which locks are held where. -/
def holds [DecidableEq Γ] : Ctl c Γ → Lock c Γ → Bool
  | .idle, _ => false
  | .notify j p, l => p.holds j l
  | .notifyOne v p, l | .notifyAll v p, l => p.holds v l
  | .addWaiter v _ p, l | .removeWaiter v _ p, l => p.holds v l
  | .sleep i p, l => p.holds i l
  | .waitExit p, l => p.holds l

end Ums.Idle
