import Mathlib.Logic.Function.Basic
import Mathlib.Data.List.Basic
import Ums.Config

/-!
# One scheduler: its workers, its lists and its task queue

The data of `class Scheduler`, `class Worker` and `class Tasks`, and the member
functions that only touch this data, one definition each. Who may run them, and
when, is the business of `Ums.Runtime`.

An intrusive list is the sequence of the workers linked into it. The atomics are
plain fields: each access of one is a step of its own in the runtime.
-/

namespace Ums

/-- Tasks are numbered in the order in which they are put in a queue. -/
abbrev TaskId := Nat

/-- `Worker::State`. -/
inductive WorkerState where
  | initializing
  | idle
  | waiting
  | pendingIo
  | yielded
  | runnable
  | running
  | exiting
  deriving DecidableEq, Repr

/-- `Scheduler::State`. -/
inductive SchedulerState where
  | initializing
  | running
  | idleWait
  | idleSleep
  | exiting
  deriving DecidableEq, Repr

/-- `Sync_context`: why a worker gives up its scheduler. -/
inductive SyncContext where
  | main
  | yield
  | wait
  | io
  deriving DecidableEq, Repr

/-- Where a worker's thread is in `main_loop` while it holds a task or waits for one. -/
inductive LoopPoint where
  /-- Inside `sync<main>`. -/
  | sync
  /-- Inside `m_task->invoke_noexcept()`. -/
  | invoke
  /-- Inside `m_task->notify()`. -/
  | notify
  deriving DecidableEq, Repr

/-- `Worker::Wait_info`. -/
structure WaitInfo where
  /-- `m_cond`. -/
  cond : Bool := false
  /-- `m_sleep_time_point`. -/
  sleepTimePoint : Time := Time.max

/-- A `Worker`. -/
structure Worker where
  /-- `m_state`. -/
  state : WorkerState := .initializing
  /-- `m_wait_info`. -/
  waitInfo : WaitInfo := {}
  /-- `m_task`. -/
  task : Option TaskId := none
  /-- Where its thread is in `main_loop`. -/
  loop : LoopPoint := .sync

/-- `Worker::check_cond`. -/
def Worker.checkCond (v : Worker) : Bool := v.waitInfo.cond

/-- `Worker::check_sleep` at the clock value `now`. -/
def Worker.checkSleep (v : Worker) (now : Time) : Bool := decide (now ≥ v.waitInfo.sleepTimePoint)

/-- `Worker::check_wait_info` at the clock value `now`. -/
def Worker.checkWaitInfo (v : Worker) (now : Time) : Bool := v.checkCond || v.checkSleep now

/-- `Worker::set_wait_info`. -/
def Worker.setWaitInfo (v : Worker) (cond : Bool) (sleepTimePoint : Time) : Worker :=
  { v with waitInfo := ⟨cond, sleepTimePoint⟩ }

/-- `Worker::set_cond`. -/
def Worker.setCond (v : Worker) : Worker :=
  { v with waitInfo := { v.waitInfo with cond := true } }

/-! ## The task queue -/

/--
`Tasks`: the queue under `m_lock` and the counter read without it. Both are
updated inside one critical section, so the counter is the length.
-/
structure Tasks where
  /-- `m_tasks`. -/
  queue : List TaskId := []
  /-- `m_size`. -/
  size : Nat := 0
  /-- The counter follows the queue. -/
  sized : size = queue.length := by rfl

/-- `Tasks::enque`. -/
def Tasks.enque (q : Tasks) (t : TaskId) : Tasks where
  queue := q.queue ++ [t]
  size := q.size + 1
  sized := by rw [q.sized, List.length_append, List.length_singleton]

/-- `Tasks::deque`: the task taken, if any, and the queue left behind. -/
def Tasks.deque (q : Tasks) : Option TaskId × Tasks :=
  match h : q.queue with
  | [] => (none, q)
  | t :: rest => (some t, ⟨rest, q.size - 1, by rw [q.sized, h]; rfl⟩)

/-- `Tasks::empty`. -/
def Tasks.empty (q : Tasks) : Bool := q.size == 0

@[simp] theorem Tasks.queue_enque (q : Tasks) (t : TaskId) :
    (q.enque t).queue = q.queue ++ [t] := rfl

theorem Tasks.empty_iff (q : Tasks) : q.empty = true ↔ q.queue = [] := by
  rw [Tasks.empty, beq_iff_eq, q.sized, List.length_eq_zero_iff]

theorem Tasks.empty_eq_false_iff (q : Tasks) : q.empty = false ↔ q.queue ≠ [] := by
  rw [← Bool.not_eq_true, q.empty_iff]

/-- `deque` takes the front task, or finds the queue empty and leaves it so. -/
theorem Tasks.deque_cases (q : Tasks) :
    (q.queue = [] ∧ q.deque = (none, q)) ∨
      ∃ t rest, q.queue = t :: rest ∧ q.deque.1 = some t ∧ q.deque.2.queue = rest := by
  unfold Tasks.deque
  split
  · rename_i h; exact Or.inl ⟨h, rfl⟩
  · rename_i t rest h; exact Or.inr ⟨t, rest, h, rfl, rfl⟩

/-! ## The scheduler -/

/-- What the thread blocked on a condition variable can tell about it. -/
inductive Sleeper where
  /-- Nobody waits. -/
  | awake
  /-- The thread is blocked and has not been signalled since. -/
  | blocked
  /-- The thread was signalled but has not locked the mutex again. -/
  | signalled
  deriving DecidableEq, Repr

/-- `notify_one` on a condition variable with at most one waiter. -/
def Sleeper.notifyOne : Sleeper → Sleeper
  | .blocked => .signalled
  | s => s

/-- A `Scheduler` with `w` workers. -/
structure Scheduler (w : Nat) where
  /-- `m_worker`. -/
  worker : Option (Fin w) := none
  /-- `m_runnable_queue`. -/
  runnableQueue : List (Fin w) := []
  /-- `m_idle_queue`. -/
  idleQueue : List (Fin w) := []
  /-- `m_waiting_queue`. -/
  waitingQueue : List (Fin w) := []
  /-- `m_pending_io_queue`. -/
  pendingIoQueue : List (Fin w) := []
  /-- `m_yielded_worker`. -/
  yieldedWorker : Option (Fin w) := none
  /-- `m_cv`, as seen from the one thread that waits on it. -/
  cv : Sleeper := .awake
  /-- `m_tasks`. -/
  tasks : Tasks := {}
  /-- `m_state`. -/
  state : SchedulerState := .initializing
  /-- `m_running`. -/
  running : Bool := true
  /-- `m_workers_started`. -/
  workersStarted : Bool := false
  /-- `m_state_load`. It is at most ten for each worker (`Placed.stateLoad_le`), of which there
  are at most 256, so its 32 bits are not a matter. -/
  stateLoad : Int := 0
  /-- `m_exit`. -/
  exit : Bool := false
  /-- `m_idle_start_time`. -/
  idleStartTime : Time := Time.max
  /-- `m_workers`. -/
  workers : Fin w → Worker := fun _ => {}

namespace Scheduler

variable {w : Nat}

/-- `has_idle_workers`. -/
def hasIdleWorkers (s : Scheduler w) : Bool := !s.idleQueue.isEmpty

/-- `has_runnable_workers`. -/
def hasRunnableWorkers (s : Scheduler w) : Bool := !s.runnableQueue.isEmpty

/-- `has_waiting_workers`. -/
def hasWaitingWorkers (s : Scheduler w) : Bool := !s.waitingQueue.isEmpty

/-- `has_pending_io_workers`. -/
def hasPendingIoWorkers (s : Scheduler w) : Bool := !s.pendingIoQueue.isEmpty

/-- `has_yielded_workers`. -/
def hasYieldedWorkers (s : Scheduler w) : Bool := s.yieldedWorker.isSome

/-- `has_tasks`. -/
def hasTasks (s : Scheduler w) : Bool := !s.tasks.empty

/-- `has_work`. -/
def hasWork (s : Scheduler w) : Bool :=
  s.hasRunnableWorkers || s.hasWaitingWorkers || s.hasPendingIoWorkers || s.hasTasks ||
    s.hasYieldedWorkers

@[simp] theorem hasIdleWorkers_iff {s : Scheduler w} :
    s.hasIdleWorkers = true ↔ s.idleQueue ≠ [] := by
  simp [hasIdleWorkers]

@[simp] theorem hasIdleWorkers_eq_false {s : Scheduler w} :
    s.hasIdleWorkers = false ↔ s.idleQueue = [] := by
  simp [hasIdleWorkers]

@[simp] theorem hasRunnableWorkers_iff {s : Scheduler w} :
    s.hasRunnableWorkers = true ↔ s.runnableQueue ≠ [] := by
  simp [hasRunnableWorkers]

@[simp] theorem hasRunnableWorkers_eq_false {s : Scheduler w} :
    s.hasRunnableWorkers = false ↔ s.runnableQueue = [] := by
  simp [hasRunnableWorkers]

@[simp] theorem hasWaitingWorkers_iff {s : Scheduler w} :
    s.hasWaitingWorkers = true ↔ s.waitingQueue ≠ [] := by
  simp [hasWaitingWorkers]

@[simp] theorem hasWaitingWorkers_eq_false {s : Scheduler w} :
    s.hasWaitingWorkers = false ↔ s.waitingQueue = [] := by
  simp [hasWaitingWorkers]

@[simp] theorem hasPendingIoWorkers_iff {s : Scheduler w} :
    s.hasPendingIoWorkers = true ↔ s.pendingIoQueue ≠ [] := by
  simp [hasPendingIoWorkers]

@[simp] theorem hasPendingIoWorkers_eq_false {s : Scheduler w} :
    s.hasPendingIoWorkers = false ↔ s.pendingIoQueue = [] := by
  simp [hasPendingIoWorkers]

@[simp] theorem hasTasks_iff {s : Scheduler w} : s.hasTasks = true ↔ s.tasks.queue ≠ [] := by
  rw [hasTasks, Bool.not_eq_true', Tasks.empty_eq_false_iff]

@[simp] theorem hasTasks_eq_false {s : Scheduler w} : s.hasTasks = false ↔ s.tasks.queue = [] := by
  rw [hasTasks, Bool.not_eq_false', Tasks.empty_iff]

/-- `initializing`. -/
def initializing (s : Scheduler w) : Bool := s.state == .initializing

/-- `idle`. -/
def idle (s : Scheduler w) : Bool := s.state == .idleSleep

/-! ### Load -/

end Scheduler

/-- `Load::task`, the load of one queued task. -/
def Load.task : Int := 10

/-- `Load::operator[]`, the load of a worker in the given state. -/
def Load.ofState : WorkerState → Int
  | .initializing => 0
  | .idle => 0
  | .waiting => 1
  | .pendingIo => 2
  | .yielded => 10
  | .runnable => 10
  | .running => 10
  | .exiting => 0

namespace Scheduler

variable {w : Nat}

/-- `manage_load`. -/
def manageLoad (s : Scheduler w) (prev new : WorkerState) : Scheduler w :=
  { s with stateLoad := s.stateLoad + (Load.ofState new - Load.ofState prev) }

/-- `tasks_load`: the product is cast to a signed 32-bit integer. -/
def tasksLoad (s : Scheduler w) : Int := wrap32 (s.tasks.size * Load.task)

/-- `load`, a sum of signed 32-bit integers. -/
def load (s : Scheduler w) : Int := wrap32 (s.stateLoad + s.tasksLoad)

/-- Replace one worker. -/
def setWorker (s : Scheduler w) (v : Fin w) (x : Worker) : Scheduler w :=
  { s with workers := Function.update s.workers v x }

/-- `set_worker_state`. -/
def setWorkerState (s : Scheduler w) (v : Fin w) (st : WorkerState) : Scheduler w :=
  (s.manageLoad (s.workers v).state st).setWorker v { s.workers v with state := st }

/-! ### Parking a worker -/

/-- `park_runnable`. -/
def parkRunnable (s : Scheduler w) (v : Fin w) : Scheduler w :=
  { s with runnableQueue := s.runnableQueue ++ [v] }.setWorkerState v .runnable

/-- `park_idle<back>`. -/
def parkIdle (s : Scheduler w) (back : Bool) (v : Fin w) : Scheduler w :=
  { s with idleQueue := if back then s.idleQueue ++ [v] else v :: s.idleQueue }.setWorkerState v
    .idle

/-- `park_waiting`. -/
def parkWaiting (s : Scheduler w) (v : Fin w) : Scheduler w :=
  { s with waitingQueue := s.waitingQueue ++ [v] }.setWorkerState v .waiting

/-- `park_pending_io`. -/
def parkPendingIo (s : Scheduler w) (v : Fin w) : Scheduler w :=
  { s with pendingIoQueue := s.pendingIoQueue ++ [v] }.setWorkerState v .pendingIo

/-- `park_yielded`. -/
def parkYielded (s : Scheduler w) (v : Fin w) : Scheduler w :=
  { s with yieldedWorker := some v }.setWorkerState v .yielded

/-- `park_worker<ctx>`. -/
def parkWorker (s : Scheduler w) : SyncContext → Fin w → Scheduler w
  | .main, v => s.parkIdle s.initializing v
  | .yield, v => s.parkYielded v
  | .wait, v => s.parkWaiting v
  | .io, v => s.parkPendingIo v

/-! ### Scheduling -/

/-- `prepare_next_worker`, where the front of an empty list is no state at all. -/
def prepareNextWorker (s : Scheduler w) : Option (Scheduler w) :=
  match s.runnableQueue with
  | [] => none
  | v :: rest =>
    some ({ s with worker := some v, runnableQueue := rest }.setWorkerState v .running)

/-- `invalidate_idle_timer`. -/
def invalidateIdleTimer (s : Scheduler w) : Scheduler w := { s with idleStartTime := Time.max }

/-- `prepare_exec`. -/
def prepareExec (s : Scheduler w) : Option (Scheduler w) := s.invalidateIdleTimer.prepareNextWorker

/-- The part of `schedule_idle_worker` that hands a task over to the front idle worker. -/
def assignTask (s : Scheduler w) (t : TaskId) : Option (Scheduler w) :=
  match s.idleQueue with
  | [] => none
  | v :: rest =>
    some <| ({ s with idleQueue := rest }.setWorker v
      { s.workers v with task := some t }).parkRunnable v

/-- One round of the loop of `schedule_io_workers`: the worker at `it` leaves or is passed. -/
def scheduleIoWorker (s : Scheduler w) (it : Nat) (v : Fin w) (completed : Bool) :
    Scheduler w × Nat :=
  if completed then
    ({ s with pendingIoQueue := s.pendingIoQueue.eraseIdx it }.parkRunnable v, it)
  else (s, it + 1)

/-- One round of the loop of `schedule_waiting_workers`. -/
def scheduleWaitingWorker (s : Scheduler w) (it : Nat) (v : Fin w) (now : Time) :
    Scheduler w × Nat :=
  if (s.workers v).checkWaitInfo now then
    ({ s with waitingQueue := s.waitingQueue.eraseIdx it }.parkRunnable v, it)
  else (s, it + 1)

/-- `schedule_yielded_workers`. -/
def scheduleYieldedWorkers (s : Scheduler w) : Scheduler w :=
  match s.yieldedWorker with
  | some v => { s.parkRunnable v with yieldedWorker := none }
  | none => s

/-! ### Sleeping and waking -/

/-- The `m_cond` of `waiters_info`. -/
def waitersCond (s : Scheduler w) : Bool := s.waitingQueue.any fun v => (s.workers v).checkCond

/-- The `m_earliest_wait` of `waiters_info`. -/
def earliestWait (s : Scheduler w) : Time :=
  s.waitingQueue.foldl (fun e v => min e (s.workers v).waitInfo.sleepTimePoint) Time.max

/-- `should_idle_spin` as far as it starts the idle timer, `now` its first reading of the clock. -/
def startIdleTimer (s : Scheduler w) (now : Time) : Scheduler w :=
  if s.initializing then s
  else { s with idleStartTime := if s.idleStartTime = Time.max then now else s.idleStartTime }

/-- The answer of `should_idle_spin`, `now` its second reading of the clock. -/
def shouldIdleSpin (s : Scheduler w) (now : Time) : Bool :=
  !s.initializing && decide (now ≤ wrap64 (s.idleStartTime + idleSpinThreshold))

/-- The critical section of `notify`. -/
def notifySection (s : Scheduler w) : Scheduler w := { s with running := true }

/-- The `m_cv.notify_one()` of `notify`. -/
def notifyCv (s : Scheduler w) : Scheduler w := { s with cv := s.cv.notifyOne }

/-- `enqueue_task` up to its `notify`. -/
def enque (s : Scheduler w) (t : TaskId) : Scheduler w := { s with tasks := s.tasks.enque t }

/-- `next_task`, and the queue it leaves behind. -/
def dropTask (s : Scheduler w) : Scheduler w := { s with tasks := s.tasks.deque.2 }

/-- `set_cond` on one of the workers. -/
def setCond (s : Scheduler w) (v : Fin w) : Scheduler w := s.setWorker v (s.workers v).setCond

/-- `signal_exit`. -/
def signalExit (s : Scheduler w) : Scheduler w := { s with exit := true }

/-- `Scheduler::exit`: the current worker and the scheduler are marked as exiting. -/
def exitNow (s : Scheduler w) : Scheduler w :=
  match s.worker with
  | some v => { s.setWorkerState v .exiting with state := .exiting }
  | none => { s with state := .exiting }

/-- **`prepare_exec`**: the front runnable worker is the one that runs. -/
theorem prepareExec_eq_some {s s' : Scheduler w} :
    s.prepareExec = some s' ↔ ∃ v rest, s.runnableQueue = v :: rest ∧
      s' = { s.invalidateIdleTimer with worker := some v, runnableQueue := rest }.setWorkerState v
        .running := by
  unfold prepareExec prepareNextWorker
  cases hr : s.runnableQueue with
  | nil => simp [invalidateIdleTimer, hr]
  | cons v rest => simp [invalidateIdleTimer, hr, eq_comm]

/-- **A task goes to the front idle worker**, which is runnable then. -/
theorem assignTask_eq_some {s s' : Scheduler w} {t : TaskId} :
    s.assignTask t = some s' ↔ ∃ v rest, s.idleQueue = v :: rest ∧
      s' = ({ s with idleQueue := rest }.setWorker v
        { s.workers v with task := some t }).parkRunnable v := by
  unfold assignTask
  cases hi : s.idleQueue with
  | nil => simp
  | cons v rest => simp [eq_comm]

/-- **`should_idle_spin`** may start the idle timer and does nothing else. -/
theorem startIdleTimer_eq (s : Scheduler w) (now : Time) :
    ∃ start, s.startIdleTimer now = { s with idleStartTime := start } := by
  unfold startIdleTimer
  split
  · exact ⟨s.idleStartTime, rfl⟩
  · exact ⟨_, rfl⟩

/-! ### Construction -/

/--
A scheduler whose constructor has finished: every worker was parked at the back
of the idle list in the order of its creation, the first of them was started,
found nothing to do and is blocked in `idle_sleep`.
-/
def constructed (w : Nat) : Scheduler w :=
  let parked := (List.finRange w).foldl (fun s v => s.parkWorker .main v) ({} : Scheduler w)
  { parked with
    worker := parked.idleQueue.head?
    workersStarted := true
    state := .idleSleep
    running := false
    cv := .blocked }

end Scheduler

end Ums
