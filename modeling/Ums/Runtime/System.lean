import Ums.Lib.Machine
import Ums.Scheduler.Basic

/-!
# The running system

All schedulers of a configuration, the worker that is active on each of them, and
the main thread inside `init_ums`, as one machine. A state says for every thread
which statement it executes next; a label picks the thread and settles what the
code leaves open (what a task does, whether an I/O request is complete).

One step is one access of something another thread can touch: a read of a task
counter, of a load or of a flag, one critical section of a task queue, one lock
or unlock of a scheduler's `m_mtx`, one notification. A critical section with a
single access is one step, enabled while the mutex is free: this is how
`Scheduler::notify` sets `m_running` and how `signal_idle` sets `m_check_idle`.
The threads that keep `m_mtx` over several steps, a scheduler inside `sleep` and
the main thread inside `all_idle`, hold it by their control point.

Four tests read more than one such thing in one step: `check_wait_info` a condition
and the time, `waiters_info` the conditions of all waiting workers, `sleep` the tasks
and the exit flag, and `all_idle` the state and the tasks of a scheduler. What they
find holds at one moment between their first and their last read, so they lose no
outcome: conditions and the exit flag are not taken back while they are tested, time
only goes on, and the state changes under a mutex that `all_idle` holds.
-/

namespace Ums.Runtime

open Lib

variable {c : Config}

/-! ## Control points -/

/-- What a thread has published when it notifies a scheduler. -/
inductive Publication (c : Config) where
  /-- A task, pushed on the scheduler's queue. -/
  | task (t : TaskId)
  /-- The condition of one of the scheduler's workers. -/
  | cond (v : WorkerId c)
  deriving DecidableEq

/-- What one comparison of two loads has read so far. -/
inductive Seen where
  /-- Nothing. -/
  | nothing
  /-- The state load of the one that is compared. -/
  | state (l : Int)
  /-- Its load. -/
  | load (l : Int)
  /-- Its load, and the state load of the least loaded one. -/
  | bestState (l b : Int)
  deriving DecidableEq

/-- Where a thread is inside `enque_task` or `Scheduler::notify`. -/
inductive Call (c : Config) where
  /-- `min_load_scheduler`: the schedulers before `k` are compared, `best` is the least loaded. -/
  | minLoad (k : Nat) (best : SchedId c) (seen : Seen)
  /-- `best_scheduler.enqueue_task`, about to push the task. -/
  | enque (j : SchedId c)
  /-- `notify`, about to lock `m_mtx` and set `m_running`. -/
  | notify (j : SchedId c) (p : Publication c)
  /-- `notify`, about to call `m_cv.notify_one`. -/
  | notifyOne (j : SchedId c) (p : Publication c)
  deriving DecidableEq

/-- Where the active thread of a scheduler is. -/
inductive Pc (c : Config) where
  /-- In the task of the running worker, or in `main_loop` around it. -/
  | user
  /-- In a call made by the task of the running worker. -/
  | call (k : Call c)
  /-- `schedule_io_workers`, its iterator at `it`. -/
  | scheduleIo (it : Nat)
  /-- `schedule_waiting_workers`, its iterator at `it`. -/
  | scheduleWaiting (it : Nat)
  /-- `schedule_idle_workers`. -/
  | scheduleIdle
  /-- `schedule_idle_worker` without a task, about to call `next_task`. -/
  | nextTask
  /-- `schedule_idle_worker` with a task in hand, which was stolen or not. -/
  | assign (t : TaskId) (stolen : Bool)
  /-- `schedule_yielded_workers`. -/
  | scheduleYielded
  /-- `steal_work`. -/
  | stealWork
  /-- `has_stealable_work` of the scheduler at position `k`. -/
  | steal (k : Nat)
  /-- `has_stealable_work`, about to read the state load. -/
  | stealLoad (k : SchedId c)
  /-- `steal_work`, about to call `other->next_task()`. -/
  | stealTake (k : SchedId c)
  /-- `schedule` after `schedule_workers`. -/
  | dispatch
  /-- `sleep`, before `m_mtx` is locked. -/
  | sleep
  /-- `should_idle_spin`, about to compare the time with the idle timer. -/
  | sleepSpin
  /-- `sleep`, about to lock `m_mtx`. -/
  | sleepLock
  /-- `sleep`, testing `has_tasks() && has_idle_workers()`. -/
  | sleepCheck
  /-- `sleep`, testing whether to leave for exit. -/
  | sleepExit
  /-- `sleep`, collecting `waiters_info` if there are waiting workers. -/
  | sleepWaiting
  /-- `sleep`, about to block until `d` unless `d` has come. -/
  | sleepBlock (d : Time)
  /-- Blocked in `wait_until` (`idle_wait`). -/
  | idleWait (d : Time)
  /-- `signal_idle`, about to increment the counter. -/
  | signalIdle
  /-- `signal_idle`, about to set `m_check_idle`. -/
  | signalLock
  /-- `signal_idle`, about to notify the main thread. -/
  | signalCv
  /-- `wait`, about to evaluate its predicate. -/
  | idleCheck
  /-- `wait`, its predicate was false. -/
  | idleBlock
  /-- Blocked in `wait` (`idle_sleep`). -/
  | idleSleep
  /-- `signal_running`. -/
  | signalRunning
  /-- `should_exit`. -/
  | shouldExit
  /-- Past `exit`. -/
  | exited
  deriving DecidableEq

/-- Where the main thread is. -/
inductive MainPc (c : Config) where
  /-- In `async(std::move(main))`. -/
  | call (k : Call c)
  /-- `wait_exit`, about to evaluate the predicate under `m_mtx`. -/
  | predicate
  /-- `all_idle`, about to compare the idle counter. -/
  | allIdleCount
  /-- `all_idle`, about to read the task counter of the scheduler at `k`. -/
  | allIdleTasks (k : Nat)
  /-- `all_idle`, about to lock `m_mtx` of the scheduler at `k`. -/
  | allIdleLock (k : Nat)
  /-- `all_idle`, about to test the scheduler at `k` under all locks. -/
  | allIdleState (k : Nat)
  /-- `all_idle`, about to unlock `m_mtx` of the scheduler at `k`; the result is `r`. -/
  | allIdleUnlock (k : Nat) (r : Bool)
  /-- `~Scoped_unlock`, about to lock `m_mtx` again and to return `r` from the predicate. -/
  | relock (r : Bool)
  /-- Blocked in `m_cv`; `signalled` once it was notified. -/
  | blocked (signalled : Bool)
  /-- Past `wait_exit`, about to signal exit to the scheduler at `k`. -/
  | exitSignal (k : Nat)
  /-- `~Scheduler`, about to set `m_running` in `notify`. -/
  | exitNotify (k : SchedId c)
  /-- `~Scheduler`, about to call `m_cv.notify_one` in `notify`. -/
  | exitNotifyOne (k : SchedId c)
  /-- `~Scheduler`, joining the threads of the scheduler. -/
  | exitJoin (k : SchedId c)
  /-- Past `init_ums`. -/
  | done
  deriving DecidableEq

/-- The call a scheduler's thread is in. -/
def Pc.inCall : Pc c → Option (Call c)
  | .call k => some k
  | _ => none

/-- The call the main thread is in. -/
def MainPc.inCall : MainPc c → Option (Call c)
  | .call k => some k
  | _ => none

/-- A scheduler thread that is inside the critical section of its `m_mtx`. -/
def Pc.holdsMtx : Pc c → Bool
  | .sleepCheck | .sleepExit | .sleepWaiting | .sleepBlock _ | .signalIdle | .signalLock
  | .signalCv | .idleCheck | .idleBlock | .signalRunning => true
  | _ => false

/-- The scheduler mutexes the main thread holds. -/
def MainPc.holdsMtx : MainPc c → SchedId c → Bool
  | .allIdleLock k, j => decide (j.val < k)
  | .allIdleState _, _ => true
  | .allIdleUnlock k _, j => decide (k ≤ j.val)
  | _, _ => false

/-- The system. -/
structure System (c : Config) where
  /-- The schedulers. -/
  sched : SchedId c → Scheduler c.workers
  /-- The control point of each scheduler's active thread. -/
  pc : SchedId c → Pc c
  /-- The control point of the main thread. -/
  main : MainPc c
  /-- `m_idle_schedulers`. -/
  idleSchedulers : Nat
  /-- `m_check_idle`. -/
  checkIdle : Bool
  /-- The clock. -/
  now : Nat
  /-- The number of tasks put in a queue so far, which is the next task's number. -/
  nextTask : TaskId
  /-- Every call of `invoke_noexcept` so far. -/
  invoked : List TaskId
  /-- Every completed `TaskBase::notify` so far, after which the worker drops its task. -/
  notified : List TaskId

namespace System

/-- Nobody is inside a critical section of the scheduler's `m_mtx`. -/
def mtxFree (s : System c) (j : SchedId c) : Bool := !(s.pc j).holdsMtx && !s.main.holdsMtx j

/-- Replace a scheduler and the control point of its thread. -/
@[simps] def setBoth (s : System c) (i : SchedId c) (x : Scheduler c.workers) (p : Pc c) :
    System c :=
  { s with sched := Function.update s.sched i x, pc := Function.update s.pc i p }

/-- Replace a scheduler. -/
@[simps] def setSched (s : System c) (i : SchedId c) (x : Scheduler c.workers) : System c :=
  { s with sched := Function.update s.sched i x }

/-- Replace the control point of a scheduler's thread. -/
@[simps] def setPc (s : System c) (i : SchedId c) (p : Pc c) : System c :=
  { s with pc := Function.update s.pc i p }

end System

/-! ## The active thread of a scheduler -/

/-- What the task of a running worker may do next. -/
inductive UserOp (c : Config) where
  /-- `worker::yield`. -/
  | yield
  /-- `read_file` or `write_file`, whose request is pending. -/
  | io
  /-- `set_wait_info(false, t)`, at the start of a wait or of a sleep. -/
  | setWaitInfo (t : Time)
  /-- `wait_cond_or_sleep`. -/
  | waitCondOrSleep
  deriving DecidableEq

/-- The operations a task performs on its own scheduler. -/
def userStep (now : Time) (x : Scheduler c.workers) (v : WorkerId c) :
    UserOp c → Option (Scheduler c.workers × Pc c)
  | .yield => some (x.parkWorker .yield v, .scheduleIo 0)
  | .io => some (x.parkWorker .io v, .scheduleIo 0)
  | .setWaitInfo t =>
    if Time.min ≤ t ∧ t ≤ Time.max then
      some (x.setWorker v ((x.workers v).setWaitInfo false t), .user)
    else none
  | .waitCondOrSleep =>
    if (x.workers v).checkWaitInfo now then some (x, .user)
    else some (x.parkWorker .wait v, .scheduleIo 0)

/--
The next statement of the scheduling code, when it changes nothing but its own
scheduler. `completed` is the answer of the I/O request polled, if one is.
-/
def codeStep (s : System c) (i : SchedId c) (completed : Bool) (x : Scheduler c.workers) :
    Pc c → Option (Scheduler c.workers × Pc c)
  | .scheduleIo it =>
    match x.pendingIoQueue[it]? with
    | none => some (x, .scheduleWaiting 0)
    | some v =>
      let r := x.scheduleIoWorker it v completed
      some (r.1, .scheduleIo r.2)
  | .scheduleWaiting it =>
    match x.waitingQueue[it]? with
    | none => some (x, .scheduleIdle)
    | some v =>
      let r := x.scheduleWaitingWorker it v s.now
      some (r.1, .scheduleWaiting r.2)
  | .scheduleIdle =>
    if !x.hasRunnableWorkers && x.hasIdleWorkers && x.hasTasks then some (x, .nextTask)
    else some (x, .scheduleYielded)
  | .nextTask =>
    match x.tasks.deque.1 with
    | none => some (x, .scheduleYielded)
    | some t => some (x.dropTask, .assign t false)
  | .assign t stolen =>
    (x.assignTask t).map fun y => (y, if stolen then .dispatch else .scheduleYielded)
  | .scheduleYielded => some (x.scheduleYieldedWorkers, .stealWork)
  | .stealWork =>
    if x.hasRunnableWorkers || !x.hasIdleWorkers then some (x, .dispatch) else some (x, .steal 0)
  | .steal k =>
    if h : k < c.schedulers then
      if k = i.val then some (x, .steal (k + 1))
      else
        match (s.sched ⟨k, h⟩).tasks.size with
        | 0 => some (x, .steal (k + 1))
        | 1 => some (x, .stealLoad ⟨k, h⟩)
        | _ => some (x, .stealTake ⟨k, h⟩)
    else some (x, .dispatch)
  | .stealLoad k =>
    if (s.sched k).stateLoad > 0 then some (x, .stealTake k) else some (x, .steal (k.val + 1))
  | .dispatch =>
    if x.hasRunnableWorkers then x.prepareExec.map fun y => (y, .user) else some (x, .sleep)
  | .sleep =>
    if x.hasPendingIoWorkers then some (x, .shouldExit)
    else some (x.startIdleTimer s.now, .sleepSpin)
  | .sleepSpin => some (x, if x.shouldIdleSpin s.now then .shouldExit else .sleepLock)
  | .sleepLock => if s.mtxFree i then some (x, .sleepCheck) else none
  | .sleepCheck =>
    if x.hasTasks && x.hasIdleWorkers then some (x, .shouldExit) else some (x, .sleepExit)
  | .sleepExit =>
    if x.exit && !x.hasWaitingWorkers && !x.hasTasks then some (x, .shouldExit)
    else some (x, .sleepWaiting)
  | .sleepWaiting =>
    if x.hasWaitingWorkers then
      if x.waitersCond then some (x, .shouldExit)
      else some (x, .sleepBlock (wrap64 (x.earliestWait - idleSleepThreshold)))
    else some ({ x with state := .idleSleep }, .signalIdle)
  | .sleepBlock d =>
    if (s.now : Time) ≥ d then some (x, .shouldExit)
    else some ({ x with state := .idleWait, running := false, cv := .blocked }, .idleWait d)
  | .idleWait d =>
    if s.mtxFree i then
      if x.running || decide ((s.now : Time) ≥ d) then
        some ({ x with running := true, state := .running, cv := .awake }, .shouldExit)
      else some ({ x with cv := .blocked }, .idleWait d)
    else none
  | .idleCheck =>
    if x.hasTasks || x.exit then some (x, .signalRunning) else some (x, .idleBlock)
  | .idleBlock => some ({ x with cv := .blocked }, .idleSleep)
  | .idleSleep => if s.mtxFree i then some ({ x with cv := .awake }, .idleCheck) else none
  | .shouldExit =>
    if x.exit then some (x.exitNow, .exited) else some (x, .scheduleIo 0)
  | _ => none

/-! ## The other threads a step can touch -/

/-- The next point of `main_loop` on the running worker `v`. -/
def loopStep (s : System c) (i : SchedId c) (v : WorkerId c) : Option (System c) :=
  let x := s.sched i
  let wk := x.workers v
  match wk.loop, wk.task with
  | _, none => none
  | .sync, some t =>
    some { s.setSched i (x.setWorker v { wk with loop := .invoke }) with
      invoked := t :: s.invoked }
  | .invoke, some _ => some (s.setSched i (x.setWorker v { wk with loop := .notify }))
  | .notify, some t =>
    some { s.setBoth i ((x.setWorker v { wk with task := none, loop := .sync }).parkWorker .main v)
      (.scheduleIo 0) with notified := t :: s.notified }

/-- `other->next_task()` in `steal_work`. -/
def stealStep (s : System c) (i k : SchedId c) : System c :=
  match (s.sched k).tasks.deque.1 with
  | none => s.setPc i (.steal (k.val + 1))
  | some t => (s.setSched k (s.sched k).dropTask).setPc i (.assign t true)

/-- The notification `signal_idle` sends to the main thread. -/
def MainPc.notified : MainPc c → MainPc c
  | .blocked _ => .blocked true
  | m => m

/-- The statements of `signal_idle` and `signal_running`, with what `sleep` does around them. -/
def signalStep (s : System c) (i : SchedId c) : Pc c → Option (System c)
  | .signalIdle =>
    let t := { s with idleSchedulers := s.idleSchedulers + 1 }
    if s.idleSchedulers + 1 < c.schedulers then
      some (t.setBoth i { s.sched i with running := false } .idleCheck)
    else some (t.setPc i .signalLock)
  | .signalLock => some ({ s with checkIdle := true }.setPc i .signalCv)
  | .signalCv =>
    some ({ s with main := s.main.notified }.setBoth i { s.sched i with running := false }
      .idleCheck)
  | .signalRunning =>
    some ({ s with idleSchedulers := s.idleSchedulers - 1 }.setBoth i
      { s.sched i with state := .running } .shouldExit)
  | _ => none

/-- A thread that can be inside a call. -/
inductive Thread (c : Config) where
  /-- The active thread of a scheduler. -/
  | active (i : SchedId c)
  /-- The main thread. -/
  | main
  deriving DecidableEq

/-- The call a thread is in. -/
def System.callOf (s : System c) : Thread c → Option (Call c)
  | .active i => (s.pc i).inCall
  | .main => s.main.inCall

/-- Continue a thread in its call, or after it. -/
def System.setCall (s : System c) : Thread c → Option (Call c) → System c
  | .active i, r => s.setPc i (r.elim .user .call)
  | .main, r => { s with main := r.elim .predicate .call }

/-- The next statement of a call, with what is left of the call. -/
def callStep (s : System c) : Call c → Option (System c × Option (Call c))
  | .minLoad k best seen =>
    if h : k < c.schedulers then
      some (s, some (match seen with
        | .nothing => .minLoad k best (.state (s.sched ⟨k, h⟩).stateLoad)
        | .state l => .minLoad k best (.load (wrap32 (l + (s.sched ⟨k, h⟩).tasksLoad)))
        | .load l => .minLoad k best (.bestState l (s.sched best).stateLoad)
        | .bestState l b =>
          .minLoad (k + 1) (if l < wrap32 (b + (s.sched best).tasksLoad) then ⟨k, h⟩ else best)
            .nothing))
    else some (s, some (.enque best))
  | .enque j =>
    some ({ s.setSched j ((s.sched j).enque s.nextTask) with nextTask := s.nextTask + 1 },
      some (.notify j (.task s.nextTask)))
  | .notify j p =>
    if s.mtxFree j then some (s.setSched j (s.sched j).notifySection, some (.notifyOne j p))
    else none
  | .notifyOne j _ => some (s.setSched j (s.sched j).notifyCv, none)

/-- The next statement of the main thread outside of `async`. -/
def mainStep (s : System c) : MainPc c → Option (System c)
  | .call _ => none
  | .predicate =>
    if s.checkIdle then some { s with checkIdle := false, main := .allIdleCount }
    else some { s with main := .blocked false }
  | .allIdleCount =>
    if s.idleSchedulers < c.schedulers then some { s with main := .relock false }
    else some { s with main := .allIdleTasks 0 }
  | .allIdleTasks k =>
    if h : k < c.schedulers then
      if (s.sched ⟨k, h⟩).hasTasks then some { s with main := .relock false }
      else some { s with main := .allIdleTasks (k + 1) }
    else some { s with main := .allIdleLock 0 }
  | .allIdleLock k =>
    if h : k < c.schedulers then
      if (s.pc ⟨k, h⟩).holdsMtx then none else some { s with main := .allIdleLock (k + 1) }
    else some { s with main := .allIdleState 0 }
  | .allIdleState k =>
    if h : k < c.schedulers then
      if (s.sched ⟨k, h⟩).idle && !(s.sched ⟨k, h⟩).hasTasks then
        some { s with main := .allIdleState (k + 1) }
      else some { s with main := .allIdleUnlock 0 false }
    else some { s with main := .allIdleUnlock 0 true }
  | .allIdleUnlock k r =>
    if k < c.schedulers then some { s with main := .allIdleUnlock (k + 1) r }
    else some { s with main := .relock r }
  | .relock r => some { s with main := if r then .exitSignal 0 else .blocked false }
  | .blocked _ => some { s with main := .predicate }
  | .exitSignal k =>
    if h : k < c.schedulers then
      some { s.setSched ⟨k, h⟩ (s.sched ⟨k, h⟩).signalExit with main := .exitNotify ⟨k, h⟩ }
    else some { s with main := .done }
  | .exitNotify k =>
    if s.mtxFree k then
      some { s.setSched k (s.sched k).notifySection with main := .exitNotifyOne k }
    else none
  | .exitNotifyOne k => some { s.setSched k (s.sched k).notifyCv with main := .exitJoin k }
  | .exitJoin k =>
    match s.pc k with
    | .exited => some { s with main := .exitSignal (k.val + 1) }
    | _ => none
  | .done => none

/-! ## The machine -/

/-- A label: the thread that moves and what the code leaves open. -/
inductive Event (c : Config) where
  /-- The running worker's task performs an operation of its own scheduler. -/
  | user (i : SchedId c) (op : UserOp c)
  /-- The running worker's task calls `async`. -/
  | async (i : SchedId c)
  /-- The running worker's task notifies a waiting worker: `set_cond`, then `notify`. -/
  | notifyWaiter (i j : SchedId c) (v : WorkerId c)
  /-- The running worker reaches the next point of `main_loop`. -/
  | loop (i : SchedId c)
  /-- The next statement of a thread's call. -/
  | call (a : Thread c)
  /-- The next statement of the scheduling code. -/
  | code (i : SchedId c) (completed : Bool)
  /-- `other->next_task()` in `steal_work`. -/
  | steal (i : SchedId c)
  /-- A statement of `signal_idle` or `signal_running`. -/
  | signal (i : SchedId c)
  /-- The next statement of the main thread, outside of `async`. -/
  | main
  /-- Time passes. -/
  | tick (d : Nat)
  deriving DecidableEq

/-- The worker whose task a scheduler is running, inside `invoke` or `notify`. -/
def System.taskWorker (s : System c) (i : SchedId c) : Option (WorkerId c) :=
  match s.pc i, (s.sched i).worker with
  | .user, some v => if ((s.sched i).workers v).loop = .sync then none else some v
  | _, _ => none

/-- One step of the system. -/
def next (s : System c) : Event c → Option (System c)
  | .user i op =>
    match s.taskWorker i with
    | some v => (userStep s.now (s.sched i) v op).map fun r => s.setBoth i r.1 r.2
    | none => none
  | .async i =>
    match s.taskWorker i with
    | some _ => some (s.setPc i (.call (.minLoad 1 ⟨0, c.schedulers_pos⟩ .nothing)))
    | none => none
  | .notifyWaiter i j v =>
    match s.taskWorker i with
    | some _ => some ((s.setSched j ((s.sched j).setCond v)).setPc i (.call (.notify j (.cond v))))
    | none => none
  | .loop i =>
    match s.pc i, (s.sched i).worker with
    | .user, some v => loopStep s i v
    | _, _ => none
  | .call a =>
    match s.callOf a with
    | some k => (callStep s k).map fun r => r.1.setCall a r.2
    | none => none
  | .code i completed =>
    (codeStep s i completed (s.sched i) (s.pc i)).map fun r => s.setBoth i r.1 r.2
  | .steal i =>
    match s.pc i with
    | .stealTake k => some (stealStep s i k)
    | _ => none
  | .signal i => signalStep s i (s.pc i)
  | .main => mainStep s s.main
  | .tick d => some { s with now := s.now + d }

/--
The system when the constructor of `Schedulers` has returned: each scheduler went
to sleep once and signalled that, so `m_check_idle` is set, and `init_ums` is
about to call `async`.
-/
def System.constructed (c : Config) (now : Nat) : System c where
  sched _ := Scheduler.constructed c.workers
  pc _ := .idleSleep
  main := .call (.minLoad 1 ⟨0, c.schedulers_pos⟩ .nothing)
  idleSchedulers := c.schedulers
  checkIdle := true
  now := now
  nextTask := 0
  invoked := []
  notified := []

/-- The runtime as a machine; the clock may show any value when it starts. -/
def machine (c : Config) : Machine (System c) (Event c) where
  init s := ∃ now, s = System.constructed c now
  next := next

/-! ## The smallest configuration, for concrete runs -/

/-- One scheduler with one worker. -/
abbrev oneWorker : Config := Options.config 1 1

/-- The only scheduler. -/
abbrev only : SchedId oneWorker := ⟨0, oneWorker.schedulers_pos⟩

/-- The only worker. -/
abbrev onlyWorker : WorkerId oneWorker := ⟨0, oneWorker.workers_pos⟩

/-- The main thread enqueues its task; the scheduler wakes up, takes the task and runs it. -/
def startRun : List (Event oneWorker) :=
  List.replicate 4 (Event.call .main) ++ List.replicate 2 (Event.code only false) ++
    [Event.signal only] ++ List.replicate 9 (Event.code only false)

end Ums.Runtime
