import Ums.Runtime.Local
import Ums.Scheduler.Pass

/-!
# `schedule_workers` does what it is to do

The scheduling code asks its questions one statement at a time, while the other threads go
on: they set conditions, put tasks in the queues and take them out. They never touch the lists
of the scheduler, so what a pass leaves behind depends on the answers only. `Passing` says at
each statement of the pass what has become of the lists it began with.
-/

namespace Ums.Runtime

open Lib Scheduler

variable {c : Config} {s s' : System c} {i : SchedId c} {x₀ x y : Scheduler c.workers} {p q : Pc c}
  {l a b : List (Test c)} {f : Findings c}

/-- The thread is inside `schedule_workers`. -/
def Pc.scheduling : Pc c → Bool
  | .scheduleIo _ | .scheduleWaiting _ | .scheduleIdle | .nextTask | .assign _ _
  | .scheduleYielded | .stealWork | .steal _ | .stealLoad _ | .stealTake _ => true
  | _ => false

/-! ## What is asked -/

/-- The question in a statement of the scheduling code, with its answer. -/
def codeTests (s : System c) (i : SchedId c) (completed : Bool) : Pc c → List (Test c)
  | .scheduleIo it =>
    match (s.sched i).pendingIoQueue[it]? with
    | some v => [.io v completed]
    | none => []
  | .scheduleWaiting it =>
    match (s.sched i).waitingQueue[it]? with
    | some v => [.wait v (((s.sched i).workers v).checkWaitInfo s.now)]
    | none => []
  | .scheduleIdle =>
    if (s.sched i).runnableQueue = [] ∧ (s.sched i).idleQueue ≠ [] then
      [.tasks (s.sched i).hasTasks]
    else []
  | .nextTask => [.next (s.sched i).tasks.queue.head?]
  | .steal k =>
    if h : k < c.schedulers then
      if k = i.val then []
      else
        match (s.sched ⟨k, h⟩).tasks.size with
        | 0 => [.stealable ⟨k, h⟩ false]
        -- a single task can be stolen from a scheduler that has a load
        | 1 => []
        | _ => [.stealable ⟨k, h⟩ true]
    else []
  | .stealLoad k => [.stealable k (decide ((s.sched k).stateLoad > 0))]
  | _ => []

/-- The question that the thread of `i` asks in a step, with its answer. -/
def asks (i : SchedId c) (s : System c) : Event c → List (Test c)
  | .code j completed => if j = i then codeTests s i completed (s.pc i) else []
  | .steal j =>
    if j = i then
      match s.pc i with
      | .stealTake k => [.take k (s.sched k).tasks.queue.head?]
      | _ => []
    else []
  | _ => []

/-! ## The lists during a pass -/

/-- The two loops over the lists; what they have yet to look at is at the end. -/
structure Polled (x₀ x : Scheduler c.workers) (f : Findings c)
    (ioRest waitRest : List (WorkerId c)) : Prop where
  /-- The requests looked at. -/
  io : f.ios.map Prod.fst ++ ioRest = x₀.pendingIoQueue
  /-- Those left. -/
  pendingIo : x.pendingIoQueue = kept f.ios ++ ioRest
  /-- The waits looked at. -/
  wait : f.waits.map Prod.fst ++ waitRest = x₀.waitingQueue
  /-- Those left. -/
  waiting : x.waitingQueue = kept f.waits ++ waitRest

/-- What the loops leave as it is, and whom they have moved. -/
structure Moved (x₀ x : Scheduler c.workers) (f : Findings c) : Prop where
  /-- No task is new. -/
  own : f.own = none
  /-- None is stolen. -/
  stolen : f.stolen = none
  /-- Who is ready is to run. -/
  runnable : x.runnableQueue = f.resumed x₀
  /-- The idle workers. -/
  idle : x.idleQueue = x₀.idleQueue
  /-- The yielded worker. -/
  yielded : x.yieldedWorker = x₀.yieldedWorker
  /-- The tasks of the workers. -/
  tasks : ∀ v, (x.workers v).task = (x₀.workers v).task

/-- The scheduler has admitted a task of its own or not. -/
structure Chosen (x₀ x : Scheduler c.workers) (f : Findings c) (a : List (Test c)) : Prop where
  /-- Both loops are over. -/
  polled : Polled x₀ x f [] []
  /-- None is stolen. -/
  stolen : f.stolen = none
  /-- It has asked for one only when there was nobody to run. -/
  admits : Admits (f.resumed x₀) x₀.idleQueue a f.own
  /-- The idle worker that has got it is idle no more. -/
  idle : x.idleQueue = if f.own.isSome then x₀.idleQueue.tail else x₀.idleQueue
  /-- It carries the task. -/
  tasks : ∀ v, (x.workers v).task = carried x₀ f.own v

/-- The yielded worker is to run, too. -/
structure Resumed (x₀ x : Scheduler c.workers) (f : Findings c) (a : List (Test c)) : Prop where
  /-- The new task. -/
  chosen : Chosen x₀ x f a
  /-- The workers to run. -/
  runnable : x.runnableQueue =
    f.resumed x₀ ++ newest x₀.idleQueue f.own ++ x₀.yieldedWorker.toList
  /-- Nobody is left behind. -/
  yielded : x.yieldedWorker = none

/-- The scheduler looks for a task to steal. -/
structure Searching (i : SchedId c) (x₀ x : Scheduler c.workers) (l : List (Test c)) (k : Nat)
    (f : Findings c) (a b : List (Test c)) : Prop where
  /-- There is nobody to run. -/
  resumed : Resumed x₀ x f a
  /-- Nobody at all. -/
  runnable : x.runnableQueue = []
  /-- There is an idle worker. -/
  idle : x.idleQueue ≠ []
  /-- The others before `k` were asked in vain. -/
  misses : Misses (othersBefore i k) b
  /-- That is all. -/
  log : l = f.polls ++ a ++ b

/-- What has become of the lists at each statement of a pass that began with those of `x₀`. -/
def Passing (i : SchedId c) (x₀ x : Scheduler c.workers) (l : List (Test c)) : Pc c → Prop
  | .scheduleIo it => ∃ f rest, Polled x₀ x f rest x₀.waitingQueue ∧ Moved x₀ x f ∧
      f.waits = [] ∧ l = f.polls ∧ it = (kept f.ios).length
  | .scheduleWaiting it => ∃ f rest, Polled x₀ x f [] rest ∧ Moved x₀ x f ∧
      l = f.polls ∧ it = (kept f.waits).length
  | .scheduleIdle => ∃ f, Polled x₀ x f [] [] ∧ Moved x₀ x f ∧ l = f.polls
  | .nextTask => ∃ f, Polled x₀ x f [] [] ∧ Moved x₀ x f ∧ x.runnableQueue = [] ∧
      x.idleQueue ≠ [] ∧ l = f.polls ++ [.tasks true]
  | .assign t false => ∃ f, Polled x₀ x f [] [] ∧ Moved x₀ x f ∧ x.runnableQueue = [] ∧
      x.idleQueue ≠ [] ∧ l = f.polls ++ [.tasks true, .next (some t)]
  | .scheduleYielded => ∃ f a, Chosen x₀ x f a ∧
      x.runnableQueue = f.resumed x₀ ++ newest x₀.idleQueue f.own ∧
      x.yieldedWorker = x₀.yieldedWorker ∧ l = f.polls ++ a
  | .stealWork => ∃ f a, Resumed x₀ x f a ∧ l = f.polls ++ a
  | .steal k => k ≤ c.schedulers ∧ ∃ f a b, Searching i x₀ x l k f a b
  | .stealLoad k => k ≠ i ∧ ∃ f a b, Searching i x₀ x l k.val f a b
  | .stealTake k => k ≠ i ∧ ∃ l' f a b, Searching i x₀ x l' k.val f a b ∧
      l = l' ++ [.stealable k true]
  | .assign t true => ∃ k l' f a b, k ≠ i ∧ Searching i x₀ x l' k.val f a b ∧
      l = l' ++ [.stealable k true, .take k (some t)]
  | .dispatch => ∃ f, Scheduled i x₀ x l f
  | _ => False

/-- A pass begins. -/
theorem passing_start : Passing i x x [] (.scheduleIo 0) :=
  ⟨{}, x.pendingIoQueue, ⟨rfl, rfl, rfl, rfl⟩,
    ⟨rfl, rfl, by simp [Findings.resumed], rfl, rfl, fun _ => rfl⟩, rfl, rfl, rfl⟩

/-! ## The other threads -/

/-- The two schedulers have the same lists, and their workers the same tasks. -/
structure Listing (x y : Scheduler c.workers) : Prop where
  /-- The requests. -/
  pendingIo : y.pendingIoQueue = x.pendingIoQueue
  /-- The waits. -/
  waiting : y.waitingQueue = x.waitingQueue
  /-- The workers to run. -/
  runnable : y.runnableQueue = x.runnableQueue
  /-- The idle workers. -/
  idle : y.idleQueue = x.idleQueue
  /-- The yielded worker. -/
  yielded : y.yieldedWorker = x.yieldedWorker
  /-- The tasks of the workers. -/
  tasks : ∀ v, (y.workers v).task = (x.workers v).task

theorem Listing.of_alike (h : Alike x y) : Listing x y where
  pendingIo := h.pendingIoQueue
  waiting := h.waitingQueue
  runnable := h.runnableQueue
  idle := h.idleQueue
  yielded := by
    have hb : y.yieldedWorker.toList = x.yieldedWorker.toList := congrFun (h.bin none) .yielded
    cases hy : y.yieldedWorker <;> cases hx : x.yieldedWorker <;> simp_all
  tasks v := (h.workers v).2.1

theorem Polled.listing {l₁ l₂ : List (WorkerId c)} (hl : Listing x y) (h : Polled x₀ x f l₁ l₂) :
    Polled x₀ y f l₁ l₂ :=
  ⟨h.io, hl.pendingIo.trans h.pendingIo, h.wait, hl.waiting.trans h.waiting⟩

theorem Moved.listing (hl : Listing x y) (h : Moved x₀ x f) : Moved x₀ y f where
  own := h.own
  stolen := h.stolen
  runnable := hl.runnable.trans h.runnable
  idle := hl.idle.trans h.idle
  yielded := hl.yielded.trans h.yielded
  tasks v := (hl.tasks v).trans (h.tasks v)

theorem Chosen.listing (hl : Listing x y) (h : Chosen x₀ x f a) : Chosen x₀ y f a where
  polled := h.polled.listing hl
  stolen := h.stolen
  admits := h.admits
  idle := hl.idle.trans h.idle
  tasks v := (hl.tasks v).trans (h.tasks v)

theorem Resumed.listing (hl : Listing x y) (h : Resumed x₀ x f a) : Resumed x₀ y f a where
  chosen := h.chosen.listing hl
  runnable := hl.runnable.trans h.runnable
  yielded := hl.yielded.trans h.yielded

theorem Searching.listing {k : Nat} (hl : Listing x y) (h : Searching i x₀ x l k f a b) :
    Searching i x₀ y l k f a b where
  resumed := h.resumed.listing hl
  runnable := hl.runnable.trans h.runnable
  idle := by rw [hl.idle]; exact h.idle
  misses := h.misses
  log := h.log

theorem scheduled_listing (hl : Listing x y) (h : Scheduled i x₀ x l f) : Scheduled i x₀ y l f where
  log := h.log
  io := h.io
  pendingIo := hl.pendingIo.trans h.pendingIo
  wait := h.wait
  waiting := hl.waiting.trans h.waiting
  runnable := hl.runnable.trans h.runnable
  idle := hl.idle.trans h.idle
  tasks v := (hl.tasks v).trans (h.tasks v)
  yielded := hl.yielded.trans h.yielded
  one := h.one

/-- **What has become of the lists depends on the lists only.** -/
theorem Passing.listing (hl : Listing x y) (h : Passing i x₀ x l p) : Passing i x₀ y l p := by
  cases p with
  | scheduleIo it =>
      obtain ⟨f, rest, hp, hm, hr⟩ := h
      exact ⟨f, rest, hp.listing hl, hm.listing hl, hr⟩
  | scheduleWaiting it =>
      obtain ⟨f, rest, hp, hm, hr⟩ := h
      exact ⟨f, rest, hp.listing hl, hm.listing hl, hr⟩
  | scheduleIdle =>
      obtain ⟨f, hp, hm, hr⟩ := h
      exact ⟨f, hp.listing hl, hm.listing hl, hr⟩
  | nextTask =>
      obtain ⟨f, hp, hm, hr, hi, hlog⟩ := h
      exact ⟨f, hp.listing hl, hm.listing hl, hl.runnable.trans hr, by rwa [hl.idle], hlog⟩
  | assign t stolen =>
      cases stolen with
      | false =>
          obtain ⟨f, hp, hm, hr, hi, hlog⟩ := h
          exact ⟨f, hp.listing hl, hm.listing hl, hl.runnable.trans hr, by rwa [hl.idle], hlog⟩
      | true =>
          obtain ⟨k, l', f, a, b, hk, hs, hlog⟩ := h
          exact ⟨k, l', f, a, b, hk, hs.listing hl, hlog⟩
  | scheduleYielded =>
      obtain ⟨f, a, hc, hr, hy, hlog⟩ := h
      exact ⟨f, a, hc.listing hl, hl.runnable.trans hr, hl.yielded.trans hy, hlog⟩
  | stealWork =>
      obtain ⟨f, a, hr, hlog⟩ := h
      exact ⟨f, a, hr.listing hl, hlog⟩
  | steal k =>
      obtain ⟨hk, f, a, b, hs⟩ := h
      exact ⟨hk, f, a, b, hs.listing hl⟩
  | stealLoad k =>
      obtain ⟨hk, f, a, b, hs⟩ := h
      exact ⟨hk, f, a, b, hs.listing hl⟩
  | stealTake k =>
      obtain ⟨hk, l', f, a, b, hs, hlog⟩ := h
      exact ⟨hk, l', f, a, b, hs.listing hl, hlog⟩
  | dispatch =>
      obtain ⟨f, hs⟩ := h
      exact ⟨f, scheduled_listing hl hs⟩
  | _ => exact h

/-- What is done to a scheduler, seen from a scheduler. -/
theorem alike_setSched {j : SchedId c} (h : Alike (s.sched j) y) :
    Alike (s.sched i) ((s.setSched j y).sched i) := by
  by_cases hj : i = j
  · subst hj
    simpa using h
  · simpa [hj] using Alike.refl (s.sched i)

/-- Whatever another thread does there, the lists stay as they are. -/
theorem Touched.alike (h : Touched x y) : Alike x y := by
  cases h with
  | kept => exact Alike.refl _
  | enque => exact alike_enque _
  | dropTask => exact alike_dropTask
  | setCond => exact alike_setCond _
  | notifySection => exact alike_notifySection
  | notifyCv => exact alike_notifyCv
  | signalExit => exact alike_signalExit

/-- **The other threads leave the lists of a scheduler and the tasks of its workers alone.** -/
theorem Step.alike {e : Event c} (hs : Step s e s') (ha : e.actor ≠ some i) :
    Alike (s.sched i) (s'.sched i) :=
  (hs.touched ha).alike

theorem lists_userStep {now : Time} {v : WorkerId c} {op : UserOp c}
    (h : userStep now x v op = some (y, q)) :
    y.runnableQueue = x.runnableQueue ∧ (op ≠ .io → y.pendingIoQueue = x.pendingIoQueue) := by
  cases op <;> simp only [userStep] at h
  · cases h
    exact ⟨rfl, fun _ => rfl⟩
  · cases h
    exact ⟨rfl, fun hio => absurd rfl hio⟩
  · split at h <;> cases h
    exact ⟨rfl, fun _ => rfl⟩
  · split at h <;> cases h <;> exact ⟨rfl, fun _ => rfl⟩

/-- **A step other than of the scheduling code** leaves the runnable list alone, and the list of
those who wait for I/O as well unless somebody issues a request. -/
theorem Step.lists {e : Event c} (hs : Step s e s') (hcode : ∀ b, e ≠ .code i b) :
    (s'.sched i).runnableQueue = (s.sched i).runnableQueue ∧
      (e ≠ .user i .io → (s'.sched i).pendingIoQueue = (s.sched i).pendingIoQueue) := by
  have hsame : Alike (s.sched i) (s'.sched i) →
      (s'.sched i).runnableQueue = (s.sched i).runnableQueue ∧
        (e ≠ .user i .io → (s'.sched i).pendingIoQueue = (s.sched i).pendingIoQueue) :=
    fun h => ⟨h.runnableQueue, fun _ => h.pendingIoQueue⟩
  by_cases ha : e.actor = some i
  · cases hs with
    | @user j op v y p hw hu =>
        cases ha
        rw [System.setBoth_sched, Function.update_self]
        obtain ⟨hrun, hio⟩ := lists_userStep hu
        exact ⟨hrun, fun he => hio fun hop => he (by rw [hop])⟩
    | async | signalAll | signalLock | stealNone => exact ⟨rfl, fun _ => rfl⟩
    | notifyWaiter =>
        cases ha
        exact hsame (alike_setSched (alike_setCond _))
    | invoke | invoked | finish | signalFew | signalCv | signalRunning =>
        cases ha
        simp [parkWorker, parkIdle, setWorkerState, setWorker, manageLoad]
    | compare | choose =>
        rw [System.setCall_sched]
        exact ⟨rfl, fun _ => rfl⟩
    | enque =>
        rw [System.setCall_sched] at hsame ⊢
        exact hsame (alike_setSched (alike_enque _))
    | notifySection =>
        rw [System.setCall_sched] at hsame ⊢
        exact hsame (alike_setSched alike_notifySection)
    | notifyCv =>
        rw [System.setCall_sched] at hsame ⊢
        exact hsame (alike_setSched alike_notifyCv)
    | code =>
        cases ha
        exact absurd rfl (hcode _)
    | stealSome => exact hsame (alike_setSched alike_dropTask)
    | main | tick => cases ha
  · exact hsame (hs.alike ha)

/-! ## The two loops -/

@[simp] theorem task_parkRunnable (v u : WorkerId c) :
    ((x.parkRunnable v).workers u).task = (x.workers u).task := by
  by_cases hu : u = v
  · subst hu
    simp [Scheduler.parkRunnable, setWorkerState, setWorker, manageLoad]
  · simp [Scheduler.parkRunnable, setWorkerState, setWorker, manageLoad, hu]

/-- One round of `schedule_io_workers`. -/
theorem Polled.ioRound {v : WorkerId c} {rest : List (WorkerId c)} (completed : Bool)
    (hp : Polled x₀ x f (v :: rest) x₀.waitingQueue) (hm : Moved x₀ x f) (hw : f.waits = []) :
    Passing i x₀ (x.scheduleIoWorker (kept f.ios).length v completed).1
      (f.polls ++ [.io v completed])
      (.scheduleIo (x.scheduleIoWorker (kept f.ios).length v completed).2) := by
  refine ⟨{ f with ios := f.ios ++ [(v, completed)] }, rest, ?_, ?_, hw, ?_, ?_⟩
  · refine ⟨by simpa using hp.io, ?_, hp.wait, ?_⟩
    · cases completed with
      | false => simpa [scheduleIoWorker] using hp.pendingIo
      | true =>
          show x.pendingIoQueue.eraseIdx (kept f.ios).length = _
          rw [hp.pendingIo, List.eraseIdx_append_of_length_le (Nat.le_refl _)]
          simp
    · cases completed with
      | false => exact hp.waiting
      | true => exact hp.waiting
  · cases completed with
    | false =>
        exact ⟨hm.own, hm.stolen,
          by simpa [Findings.resumed, scheduleIoWorker] using hm.runnable, hm.idle, hm.yielded,
          hm.tasks⟩
    | true =>
        refine ⟨hm.own, hm.stolen, ?_, hm.idle, hm.yielded, fun u => ?_⟩
        · show x.runnableQueue ++ [v] = _
          rw [hm.runnable]
          simp [Findings.resumed, hw]
        · exact (task_parkRunnable v u).trans (hm.tasks u)
  · simp [Findings.polls, hw]
  · cases completed with
    | false => simp [scheduleIoWorker]
    | true => simp [scheduleIoWorker]

/-- One round of `schedule_waiting_workers`. -/
theorem Polled.waitingRound {v : WorkerId c} {rest : List (WorkerId c)} (now : Time)
    (hp : Polled x₀ x f [] (v :: rest)) (hm : Moved x₀ x f) :
    Passing i x₀ (x.scheduleWaitingWorker (kept f.waits).length v now).1
      (f.polls ++ [.wait v ((x.workers v).checkWaitInfo now)])
      (.scheduleWaiting (x.scheduleWaitingWorker (kept f.waits).length v now).2) := by
  refine ⟨{ f with waits := f.waits ++ [(v, (x.workers v).checkWaitInfo now)] }, rest, ?_, ?_, ?_⟩
  all_goals
    unfold scheduleWaitingWorker
    cases ho : (x.workers v).checkWaitInfo now
  · exact ⟨hp.io, hp.pendingIo, by simpa using hp.wait, by simpa using hp.waiting⟩
  · refine ⟨hp.io, hp.pendingIo, by simpa using hp.wait, ?_⟩
    show x.waitingQueue.eraseIdx (kept f.waits).length = _
    rw [hp.waiting, List.eraseIdx_append_of_length_le (Nat.le_refl _)]
    simp
  · exact ⟨hm.own, hm.stolen, by simpa [Findings.resumed] using hm.runnable, hm.idle, hm.yielded,
      hm.tasks⟩
  · refine ⟨hm.own, hm.stolen, ?_, hm.idle, hm.yielded, fun u => ?_⟩
    · show x.runnableQueue ++ [v] = _
      rw [hm.runnable]
      simp [Findings.resumed]
    · exact (task_parkRunnable v u).trans (hm.tasks u)
  · simp [Findings.polls]
  · simp [Findings.polls]

/-! ## New tasks -/

/-- The front idle worker gets the task, and nothing else changes. -/
theorem assignTask_spec {t : TaskId} (h : x.assignTask t = some y) :
    y.pendingIoQueue = x.pendingIoQueue ∧ y.waitingQueue = x.waitingQueue ∧
      y.yieldedWorker = x.yieldedWorker ∧ y.idleQueue = x.idleQueue.tail ∧
      y.runnableQueue = x.runnableQueue ++ newest x.idleQueue (some t) ∧
      ∀ u, (y.workers u).task = carried x (some t) u := by
  obtain ⟨v, rest, hi, rfl⟩ := assignTask_eq_some.mp h
  refine ⟨rfl, rfl, rfl, ?_, ?_, fun u => ?_⟩
  · rw [hi]
    rfl
  · rw [hi]
    rfl
  · rw [task_parkRunnable, carried, hi]
    by_cases hu : u = v
    · subst hu
      simp [setWorker]
    · simp [setWorker, hu, Ne.symm hu]

theorem carried_none (v : WorkerId c) : carried x none v = (x.workers v).task := by
  simp [carried]

/-- Who carries what depends on the idle list and on the tasks. -/
theorem carried_congr {t : Option TaskId} (hi : x.idleQueue = x₀.idleQueue)
    (ht : ∀ v, (x.workers v).task = (x₀.workers v).task) (v : WorkerId c) :
    carried x t v = carried x₀ t v := by
  rw [carried, carried, hi, ht v]

/-- Nothing was admitted. -/
theorem Moved.chosen (hm : Moved x₀ x f) (hp : Polled x₀ x f [] [])
    (ha : Admits (f.resumed x₀) x₀.idleQueue a none) : Chosen x₀ x f a where
  polled := hp
  stolen := hm.stolen
  admits := by rw [hm.own]; exact ha
  idle := by rw [hm.own]; exact hm.idle
  tasks v := by rw [hm.own, carried_none]; exact hm.tasks v

theorem Moved.skipped (hm : Moved x₀ x f) (hp : Polled x₀ x f [] [])
    (ha : Admits (f.resumed x₀) x₀.idleQueue a none) :
    Passing i x₀ x (f.polls ++ a) .scheduleYielded := by
  refine ⟨f, a, hm.chosen hp ha, ?_, hm.yielded, rfl⟩
  rw [hm.own, hm.runnable]
  simp [newest]

/-- The scheduler admits a task of its own. -/
theorem Moved.admitted {t : TaskId} (hm : Moved x₀ x f) (hp : Polled x₀ x f [] [])
    (hr : x.runnableQueue = []) (hi : x.idleQueue ≠ []) (h : x.assignTask t = some y) :
    Passing i x₀ y (f.polls ++ [.tasks true, .next (some t)]) .scheduleYielded := by
  obtain ⟨hio, hw, hy, hid, hrun, ht⟩ := assignTask_spec h
  refine ⟨{ f with own := some t }, _, ?_, ?_, hy.trans hm.yielded, rfl⟩
  · exact
      { polled := ⟨hp.io, hio.trans hp.pendingIo, hp.wait, hw.trans hp.waiting⟩
        stolen := hm.stolen
        admits := .next (hm.runnable.symm.trans hr) (by rwa [← hm.idle]) _
        idle := by rw [hid, hm.idle]; rfl
        tasks := fun v => (ht v).trans (carried_congr hm.idle hm.tasks v) }
  · rw [hrun, hm.runnable, hm.idle]
    rfl

/-- The yielded worker comes after the new one. -/
theorem Chosen.resumed (hc : Chosen x₀ x f a)
    (hr : x.runnableQueue = f.resumed x₀ ++ newest x₀.idleQueue f.own)
    (hy : x.yieldedWorker = x₀.yieldedWorker) : Resumed x₀ x.scheduleYieldedWorkers f a := by
  have hp := hc.polled
  unfold scheduleYieldedWorkers
  cases hv : x.yieldedWorker with
  | none =>
      exact ⟨hc, by rw [hr, ← hy, hv]; simp, hv⟩
  | some v =>
      refine ⟨?_, ?_, rfl⟩
      · exact ⟨⟨hp.io, hp.pendingIo, hp.wait, hp.waiting⟩, hc.stolen, hc.admits, hc.idle,
          fun u => (task_parkRunnable v u).trans (hc.tasks u)⟩
      · show x.runnableQueue ++ [v] = _
        rw [hr, ← hy, hv]
        rfl

/-- A pass that has stolen nothing. -/
theorem Resumed.scheduled (hr : Resumed x₀ x f a)
    (hs : Steals i (f.resumed x₀ ++ newest x₀.idleQueue f.own ++ x₀.yieldedWorker.toList)
      x₀.idleQueue b none) : Scheduled i x₀ x (f.polls ++ a ++ b) f := by
  have hst := hr.chosen.stolen
  have hp := hr.chosen.polled
  have had : f.admitted = f.own := by rw [Findings.admitted, hst, Option.or_none]
  exact
    { log := ⟨a, b, rfl, hr.chosen.admits, by rw [hst]; exact hs⟩
      io := by simpa using hp.io
      pendingIo := by simpa using hp.pendingIo
      wait := by simpa using hp.wait
      waiting := by simpa using hp.waiting
      runnable := by rw [hr.runnable, hst]; simp [newest]
      idle := by rw [had]; exact hr.chosen.idle
      tasks := fun v => by rw [had]; exact hr.chosen.tasks v
      yielded := hr.yielded
      one := Or.inr hst }

/-- With nobody to run, nothing was admitted. -/
theorem Resumed.own (hr : Resumed x₀ x f a) (h : x.runnableQueue = []) : f.own = none := by
  have hrun := hr.runnable
  have had := hr.chosen.admits
  rw [h] at hrun
  cases ho : f.own with
  | none => rfl
  | some t =>
      rw [ho] at hrun had
      cases had with
      | next _ hi =>
          -- there was an idle worker, which would be there to run
          cases hi' : x₀.idleQueue with
          | nil => exact absurd hi' hi
          | cons v rest => simp [newest, hi'] at hrun

theorem Resumed.idle (hr : Resumed x₀ x f a) (h : x.runnableQueue = []) :
    x.idleQueue = x₀.idleQueue := by
  have hid := hr.chosen.idle
  rw [hr.own h] at hid
  exact hid

/-- The scheduler does not look for a task to steal. -/
theorem Resumed.stays (hr : Resumed x₀ x f a) (h : x.runnableQueue ≠ [] ∨ x.idleQueue = []) :
    Passing i x₀ x (f.polls ++ a) .dispatch := by
  refine ⟨f, ?_⟩
  rw [← List.append_nil (f.polls ++ a)]
  refine hr.scheduled (.skip ?_)
  rw [← hr.runnable]
  by_cases hrun : x.runnableQueue = []
  · exact Or.inr ((hr.idle hrun).symm.trans (h.resolve_left fun hn => hn hrun))
  · exact Or.inl hrun

/-- All others were asked in vain. -/
theorem Searching.ends (hs : Searching i x₀ x l c.schedulers f a b) :
    Passing i x₀ x l .dispatch := by
  refine ⟨f, ?_⟩
  rw [hs.log]
  refine hs.resumed.scheduled (.none ?_ ?_ hs.misses)
  · rw [← hs.resumed.runnable]
    exact hs.runnable
  · rw [← hs.resumed.idle hs.runnable]
    exact hs.idle

/-- The front idle worker gets the task of another scheduler. -/
theorem Searching.takes {k : SchedId c} {t : TaskId} (hs : Searching i x₀ x l k.val f a b)
    (hk : k ≠ i) (h : x.assignTask t = some y) :
    Passing i x₀ y (l ++ [.stealable k true, .take k (some t)]) .dispatch := by
  obtain ⟨hio, hw, hy, hid, hrun, ht⟩ := assignTask_spec h
  obtain ⟨rest, hrest⟩ : ∃ rest, others i = othersBefore i k.val ++ k :: rest :=
    others_eq k.isLt fun he => hk (Fin.ext he)
  have hr := hs.resumed
  have hp := hr.chosen.polled
  have hown := hr.own hs.runnable
  have hidle := hr.idle hs.runnable
  have had : ({ f with stolen := some t } : Findings c).admitted = some t := by
    simp [Findings.admitted, hown]
  have htasks : ∀ v, (x.workers v).task = (x₀.workers v).task := fun v => by
    rw [hr.chosen.tasks v, hown, carried_none]
  have hempty : f.resumed x₀ ++ newest x₀.idleQueue f.own ++ x₀.yieldedWorker.toList = [] := by
    rw [← hr.runnable]
    exact hs.runnable
  have hi : x₀.idleQueue ≠ [] := by
    rw [← hidle]
    exact hs.idle
  have hsteals : Steals i (f.resumed x₀ ++ newest x₀.idleQueue f.own ++ x₀.yieldedWorker.toList)
      x₀.idleQueue (b ++ [.stealable k true, .take k (some t)]) (some t) :=
    .takes hempty hi hrest hs.misses
  refine ⟨{ f with stolen := some t }, ?_⟩
  exact
    { log := ⟨a, _, by rw [hs.log, List.append_assoc]; rfl, hr.chosen.admits, hsteals⟩
      io := by simpa using hp.io
      pendingIo := by rw [hio]; simpa using hp.pendingIo
      wait := by simpa using hp.wait
      waiting := by rw [hw]; simpa using hp.waiting
      runnable := by rw [hrun, hs.runnable, hidle]; exact congrArg (· ++ _) hempty.symm
      idle := by rw [had, hid, hidle]; rfl
      tasks := fun v => by rw [had, ht v]; exact carried_congr hidle htasks v
      yielded := hy.trans hr.yielded
      one := Or.inl hown }

/-- The scheduler at `k` is the scheduler itself. -/
theorem Searching.self {k : Nat} (hs : Searching i x₀ x l k f a b) (hk : k = i.val) :
    Searching i x₀ x l (k + 1) f a b where
  resumed := hs.resumed
  runnable := hs.runnable
  idle := hs.idle
  misses := by rw [othersBefore_self hk]; exact hs.misses
  log := hs.log

/-- The scheduler at `k` was asked in vain. -/
theorem Searching.miss {k : Nat} {r : List (Test c)} (hs : Searching i x₀ x l k f a b)
    (hm : Misses (othersBefore i (k + 1)) (b ++ r)) :
    Searching i x₀ x (l ++ r) (k + 1) f a (b ++ r) where
  resumed := hs.resumed
  runnable := hs.runnable
  idle := hs.idle
  misses := hm
  log := by rw [hs.log, List.append_assoc]

/-- It has no work to steal. -/
theorem Searching.skip {k : Nat} (hs : Searching i x₀ x l k f a b) (h : k < c.schedulers)
    (hk : k ≠ i.val) :
    Searching i x₀ x (l ++ [.stealable ⟨k, h⟩ false]) (k + 1) f a
      (b ++ [.stealable ⟨k, h⟩ false]) := by
  refine hs.miss ?_
  rw [othersBefore_succ h hk]
  exact .skip hs.misses

/-- Its task was gone. -/
theorem Searching.lost {k : SchedId c} (hs : Searching i x₀ x l k.val f a b) (hk : k ≠ i) :
    Searching i x₀ x (l ++ [.stealable k true, .take k none]) (k.val + 1) f a
      (b ++ [.stealable k true, .take k none]) := by
  refine hs.miss ?_
  rw [othersBefore_succ k.isLt fun he => hk (Fin.ext he)]
  exact .lost hs.misses

/-! ## One statement -/

/-- `has_stealable_work` of the scheduler at `k`, up to the read of its load. -/
theorem passing_steal {k : Nat} {completed : Bool}
    (h : codeStep s i completed x (.steal k) = some (y, q)) (hp : Passing i x₀ x l (.steal k)) :
    Passing i x₀ y (l ++ codeTests s i completed (.steal k)) q := by
  obtain ⟨hle, f, a, b, hs⟩ := hp
  by_cases hk : k < c.schedulers
  · by_cases hki : k = i.val
    · simp only [codeStep, dif_pos hk, if_pos hki] at h
      cases h
      simp only [codeTests, dif_pos hk, if_pos hki, List.append_nil]
      exact ⟨hk, f, a, b, hs.self hki⟩
    · have hne : (⟨k, hk⟩ : SchedId c) ≠ i := fun he => hki (congrArg Fin.val he)
      simp only [codeStep, dif_pos hk, if_neg hki] at h
      simp only [codeTests, dif_pos hk, if_neg hki]
      generalize (s.sched ⟨k, hk⟩).tasks.size = size at h ⊢
      rcases size with _ | _ | n
      · cases h
        exact ⟨hk, f, a, _, hs.skip hk hki⟩
      · cases h
        exact ⟨hne, f, a, b, by simpa using hs⟩
      -- two tasks or more
      · cases h
        exact ⟨hne, l, f, a, b, hs, rfl⟩
  · simp only [codeStep, dif_neg hk] at h
    cases h
    obtain rfl : k = c.schedulers := by omega
    simp only [codeTests, dif_neg hk, List.append_nil]
    exact hs.ends

/-- **A statement of the pass keeps account of the lists.** -/
theorem passing_code {completed : Bool} (h : codeStep s i completed (s.sched i) p = some (y, q))
    (hsch : p.scheduling = true) (hp : Passing i x₀ (s.sched i) l p) :
    Passing i x₀ y (l ++ codeTests s i completed p) q := by
  cases p with
  | scheduleIo it =>
      obtain ⟨f, rest, hpo, hm, hw, rfl, rfl⟩ := hp
      have hv : (s.sched i).pendingIoQueue[(kept f.ios).length]? = rest.head? := by
        rw [hpo.pendingIo, List.getElem?_append_right (Nat.le_refl _), Nat.sub_self,
          List.head?_eq_getElem?]
      simp only [codeStep, codeTests, hv] at h ⊢
      cases rest with
      | nil =>
          cases h
          exact ⟨f, _, hpo, hm, by simp, by simp [hw]⟩
      | cons v rest =>
          cases h
          exact hpo.ioRound completed hm hw
  | scheduleWaiting it =>
      obtain ⟨f, rest, hpo, hm, rfl, rfl⟩ := hp
      have hv : (s.sched i).waitingQueue[(kept f.waits).length]? = rest.head? := by
        rw [hpo.waiting, List.getElem?_append_right (Nat.le_refl _), Nat.sub_self,
          List.head?_eq_getElem?]
      simp only [codeStep, codeTests, hv] at h ⊢
      cases rest with
      | nil =>
          cases h
          exact ⟨f, hpo, hm, by simp⟩
      | cons v rest =>
          cases h
          exact hpo.waitingRound _ hm
  | scheduleIdle =>
      obtain ⟨f, hpo, hm, rfl⟩ := hp
      simp only [codeStep] at h
      by_cases hc : (s.sched i).runnableQueue = [] ∧ (s.sched i).idleQueue ≠ []
      · have hr : (s.sched i).hasRunnableWorkers = false := hasRunnableWorkers_eq_false.mpr hc.1
        have hi : (s.sched i).hasIdleWorkers = true := hasIdleWorkers_iff.mpr hc.2
        simp only [hr, hi, Bool.not_false, Bool.true_and] at h
        simp only [codeTests, if_pos hc]
        split at h <;> rename_i ht <;> cases h
        · rw [ht]
          exact ⟨f, hpo, hm, hc.1, hc.2, rfl⟩
        · rw [Bool.eq_false_of_not_eq_true ht]
          have hidle : x₀.idleQueue ≠ [] := by
            rw [← hm.idle]
            exact hc.2
          exact hm.skipped hpo (.noTask (hm.runnable.symm.trans hc.1) hidle)
      · have hskip : (s.sched i).runnableQueue ≠ [] ∨ (s.sched i).idleQueue = [] := by
          by_cases hr : (s.sched i).runnableQueue = []
          · exact Or.inr (by_contra fun hi => hc ⟨hr, hi⟩)
          · exact Or.inl hr
        rw [if_neg (by simp; tauto)] at h
        cases h
        simp only [codeTests, if_neg hc]
        refine hm.skipped hpo (.skip ?_)
        rw [← hm.runnable, ← hm.idle]
        exact hskip
  | nextTask =>
      obtain ⟨f, hpo, hm, hr, hi, rfl⟩ := hp
      simp only [codeStep, codeTests, List.append_assoc] at h ⊢
      rcases (s.sched i).tasks.deque_cases with ⟨hq, hd⟩ | ⟨t, rest, hq, ht, _⟩
      · rw [hd] at h
        cases h
        rw [hq]
        exact hm.skipped hpo (.next (hm.runnable.symm.trans hr) (by rw [← hm.idle]; exact hi) none)
      · rw [ht] at h
        cases h
        rw [hq]
        exact ⟨f, hpo.listing (.of_alike alike_dropTask), hm.listing (.of_alike alike_dropTask), hr,
          hi, rfl⟩
  | assign t stolen =>
      obtain ⟨z, hz, he⟩ := Option.map_eq_some_iff.mp h
      cases he
      simp only [codeTests, List.append_nil]
      cases stolen with
      | false =>
          obtain ⟨f, hpo, hm, hr, hi, rfl⟩ := hp
          exact hm.admitted hpo hr hi hz
      | true =>
          obtain ⟨k, l', f, a, b, hk, hs, rfl⟩ := hp
          exact hs.takes hk hz
  | scheduleYielded =>
      obtain ⟨f, a, hc, hr, hy, rfl⟩ := hp
      cases h
      exact ⟨f, a, hc.resumed hr hy, by simp [codeTests]⟩
  | stealWork =>
      obtain ⟨f, a, hr, rfl⟩ := hp
      simp only [codeStep, codeTests, List.append_nil] at h ⊢
      split at h <;> rename_i hc <;> cases h <;> simp at hc
      · exact hr.stays hc
      · exact ⟨Nat.zero_le _, f, a, [], hr, hc.1, hc.2, .nil, by simp⟩
  | steal k => exact passing_steal h hp
  | stealLoad k =>
      obtain ⟨hk, f, a, b, hs⟩ := hp
      simp only [codeStep, codeTests] at h ⊢
      split at h <;> rename_i hl <;> cases h
      · rw [decide_eq_true hl]
        exact ⟨hk, l, f, a, b, hs, rfl⟩
      · rw [decide_eq_false hl]
        exact ⟨k.isLt, f, a, _, hs.skip k.isLt fun he => hk (Fin.ext he)⟩
  | stealTake k => cases h
  | _ => cases hsch

/-! ## The system during a pass -/

/-- What the thread does during a pass are statements of the scheduling code and `next_task` of
another scheduler. -/
theorem Step.scheduling_cases {e : Event c} (hs : Step s e s') (hsch : (s.pc i).scheduling = true)
    (ha : e.actor = some i) : (∃ b, e = .code i b) ∨ e = .steal i := by
  have huser : s.pc i ≠ .user := fun hp => by rw [hp] at hsch; cases hsch
  have hsig : ∀ {r : Pc c}, s.pc i = r → r.scheduling = true := fun hr => hr ▸ hsch
  have hcall : ∀ {a : Thread c} {k : Call c}, s.callOf a = some k →
      Event.actor (.call a) ≠ some i := by
    intro a k hk he
    cases a with
    | main => cases he
    | active j =>
        cases he
        rw [callOf_active hk] at hsch
        cases hsch
  cases hs with
  | user hw | async hw | notifyWaiter hw =>
      cases ha
      exact absurd (taskWorker_eq_some hw).1 huser
  | invoke hp | invoked hp | finish hp =>
      cases ha
      exact absurd hp huser
  | compare hc | choose hc | enque hc | notifySection hc | notifyCv hc => exact absurd ha (hcall hc)
  | code =>
      cases ha
      exact Or.inl ⟨_, rfl⟩
  | stealNone | stealSome =>
      cases ha
      exact Or.inr rfl
  | signalFew hp | signalAll hp | signalLock hp | signalCv hp | signalRunning hp =>
      cases ha
      cases hsig hp
  | main | tick => cases ha

/-- The others ask nothing. -/
theorem asks_other {e : Event c} (ha : e.actor ≠ some i) : asks i s e = [] := by
  cases e with
  | code j b =>
      rw [asks, if_neg fun hj => ha (congrArg some hj)]
  | steal j =>
      rw [asks, if_neg fun hj => ha (congrArg some hj)]
  | _ => rfl

/-- `other->next_task()`. -/
theorem passing_take (h : next s (.steal i) = some s')
    (hp : Passing i x₀ (s.sched i) l (s.pc i)) :
    Passing i x₀ (s'.sched i) (l ++ asks i s (.steal i)) (s'.pc i) := by
  have hs := step_of_next h
  cases hs with
  | @stealNone _ k hk hq =>
      rw [hk] at hp
      obtain ⟨hne, l', f, a, b, hsr, rfl⟩ := hp
      rw [System.setPc_pc, Function.update_self, asks, if_pos rfl, hk]
      simp only [hq, List.head?_nil, List.append_assoc, List.singleton_append]
      exact ⟨k.isLt, f, a, _, hsr.lost hne⟩
  | @stealSome _ k t rest hk hq =>
      rw [hk] at hp
      obtain ⟨hne, l', f, a, b, hsr, rfl⟩ := hp
      rw [System.setPc_pc, Function.update_self, asks, if_pos rfl, hk]
      simp only [hq, List.head?_cons, List.append_assoc, List.singleton_append]
      refine ⟨k, l', f, a, b, hne, ?_, rfl⟩
      show Searching i x₀ ((s.setSched k (s.sched k).dropTask).sched i) l' k.val f a b
      rw [System.setSched_sched, Function.update_of_ne hne.symm]
      exact hsr

/-- **Each step of the system keeps account of the lists.** -/
theorem passing_step {e : Event c} (h : next s e = some s') (hsch : (s.pc i).scheduling = true)
    (hp : Passing i x₀ (s.sched i) l (s.pc i)) :
    Passing i x₀ (s'.sched i) (l ++ asks i s e) (s'.pc i) := by
  have hs := step_of_next h
  by_cases ha : e.actor = some i
  · rcases hs.scheduling_cases hsch ha with ⟨b, rfl⟩ | rfl
    · obtain ⟨⟨y, q⟩, hcode, rfl⟩ := Option.map_eq_some_iff.mp h
      rw [System.setBoth_sched, System.setBoth_pc, Function.update_self, Function.update_self,
        asks, if_pos rfl]
      exact passing_code hcode hsch hp
    · exact passing_take h hp
  · rw [asks_other ha, List.append_nil, hs.pc_other ha]
    exact hp.listing (.of_alike (hs.alike ha))

theorem passing_run {es : List (Event c)} (hr : (machine c).run s es = some s')
    (hin : (machine c).Meets (fun q _ => (q.pc i).scheduling = true) s es)
    (hp : Passing i x₀ (s.sched i) l (s.pc i)) :
    Passing i x₀ (s'.sched i) (l ++ (machine c).log (asks i) s es) (s'.pc i) := by
  induction es generalizing s l with
  | nil =>
      rw [Machine.run_nil, Option.some.injEq] at hr
      subst hr
      rw [Machine.log, List.append_nil]
      exact hp
  | cons e es ih =>
      obtain ⟨m, hm, hr⟩ := Machine.run_cons_some hr
      have hih := ih hr (hin.2 m hm) (passing_step hm hin.1 hp)
      rw [Machine.log, hm]
      rw [List.append_assoc] at hih
      exact hih

/-! ## A pass ends -/

/-- An upper bound on the statements left before the pass is over. -/
def Pc.left (x : Scheduler c.workers) : Pc c → Nat
  | .scheduleIo it => x.pendingIoQueue.length - it + x.waitingQueue.length + 3 * c.schedulers + 10
  | .scheduleWaiting it => x.waitingQueue.length - it + 3 * c.schedulers + 9
  | .scheduleIdle => 3 * c.schedulers + 8
  | .nextTask => 3 * c.schedulers + 7
  | .assign _ false => 3 * c.schedulers + 6
  | .scheduleYielded => 3 * c.schedulers + 5
  | .stealWork => 3 * c.schedulers + 4
  | .steal k => 3 * (c.schedulers - k) + 3
  | .stealLoad k => 3 * (c.schedulers - k.val) + 2
  | .stealTake k => 3 * (c.schedulers - k.val) + 1
  | .assign _ true => 1
  | _ => 0

theorem Listing.left (hl : Listing x y) : p.left y = p.left x := by
  cases p with
  | scheduleIo it => rw [Pc.left, Pc.left, hl.pendingIo, hl.waiting]
  | scheduleWaiting it => rw [Pc.left, Pc.left, hl.waiting]
  | assign t stolen => cases stolen <;> rfl
  | _ => rfl

/-- Each statement of the pass brings its end nearer. -/
theorem Code.left (h : Code s i x p y q) (hsch : p.scheduling = true) : q.left y < p.left x := by
  cases h with
  | ioRound completed hv =>
      obtain ⟨hlt, -⟩ := List.getElem?_eq_some_iff.mp hv
      cases completed with
      | false =>
          simp only [scheduleIoWorker, Bool.false_eq_true, if_false, Pc.left]
          omega
      | true =>
          simp only [scheduleIoWorker, if_true, Pc.left, Scheduler.parkRunnable, setWorkerState,
            setWorker, manageLoad, List.length_eraseIdx_of_lt hlt]
          omega
  | waitingRound hv =>
      obtain ⟨hlt, -⟩ := List.getElem?_eq_some_iff.mp hv
      unfold scheduleWaitingWorker
      split
      · simp only [Pc.left, Scheduler.parkRunnable, setWorkerState, setWorker, manageLoad,
          List.length_eraseIdx_of_lt hlt]
        omega
      · simp only [Pc.left]
        omega
  | @assign t stolen _ _ ha hq =>
      subst hq
      cases stolen with
      | false => simp [Pc.left]
      | true => simp [Pc.left]
  | loadSome | loadNone => simp only [Pc.left]; omega
  | exec | toSleep | ioPending | startTimer | spin | lockNext | lock | ownTask | noTask | leave
  | stay | condSet | condClear | noWaiting | due | block | wake | waitAgain | idleLeave | idleStay
  | idleBlock | idleWake | exit | again => cases hsch
  | _ => simp only [Pc.left]; omega

/-- A step of the scheduler's own thread. -/
def turns (i : SchedId c) (_ : System c) (e : Event c) : Bool := decide (e.actor = some i)

theorem left_step {e : Event c} (h : next s e = some s') (hsch : (s.pc i).scheduling = true) :
    (if turns i s e then 1 else 0) + (s'.pc i).left (s'.sched i) ≤ (s.pc i).left (s.sched i) := by
  have hs := step_of_next h
  by_cases ha : e.actor = some i
  · rw [turns, if_pos (decide_eq_true ha)]
    rcases hs.scheduling_cases hsch ha with ⟨b, rfl⟩ | rfl
    · cases hs with
      | code hcode =>
          rw [System.setBoth_sched, System.setBoth_pc, Function.update_self, Function.update_self]
          have := hcode.left hsch
          omega
    · cases hs with
      | @stealNone _ k hk =>
          rw [System.setPc_pc, Function.update_self, hk]
          have := k.isLt
          simp only [Pc.left]
          omega
      | @stealSome _ k _ _ hk =>
          rw [System.setPc_pc, Function.update_self, hk]
          have := k.isLt
          simp only [Pc.left]
          omega
  · rw [turns, if_neg (by simpa using ha), hs.pc_other ha,
      (Listing.of_alike (hs.alike ha)).left, Nat.zero_add]

theorem left_run {es : List (Event c)} (hr : (machine c).run s es = some s')
    (hin : (machine c).Meets (fun q _ => (q.pc i).scheduling = true) s es) :
    (machine c).count (turns i) s es + (s'.pc i).left (s'.sched i) ≤
      (s.pc i).left (s.sched i) := by
  induction es generalizing s with
  | nil =>
      rw [Machine.run_nil, Option.some.injEq] at hr
      subst hr
      rw [Machine.count, Nat.zero_add]
  | cons e es ih =>
      obtain ⟨m, hm, hr⟩ := Machine.run_cons_some hr
      have hih := ih hr (hin.2 m hm)
      have hstep := left_step hm hin.1
      rw [Machine.count, hm, Option.elim_some]
      omega

/-- **The pass does not get stuck.** -/
theorem Passing.enabled (hp : Passing i x₀ (s.sched i) l (s.pc i))
    (hsch : (s.pc i).scheduling = true) : ∃ e s', turns i s e = true ∧ next s e = some s' := by
  have hcode : (∀ b, codeStep s i b (s.sched i) (s.pc i) ≠ none) →
      ∃ e s', turns i s e = true ∧ next s e = some s' := fun hne => by
    obtain ⟨r, hr⟩ := Option.ne_none_iff_exists'.mp (hne false)
    exact ⟨.code i false, s.setBoth i r.1 r.2, decide_eq_true rfl, by
      rw [next, hr, Option.map_some]⟩
  cases hpc : s.pc i with
  | stealTake k => exact ⟨.steal i, stealStep s i k, decide_eq_true rfl, by rw [next, hpc]⟩
  | assign t stolen =>
      refine hcode fun b => ?_
      have hidle : (s.sched i).idleQueue ≠ [] := by
        rw [hpc] at hp
        cases stolen with
        | false =>
            obtain ⟨_, _, _, _, hi, _⟩ := hp
            exact hi
        | true =>
            obtain ⟨_, _, _, _, _, _, hs, _⟩ := hp
            exact hs.idle
      obtain ⟨v, rest, hv⟩ := List.exists_cons_of_ne_nil hidle
      rw [hpc]
      simp [codeStep, assignTask, hv]
  | scheduleIo | scheduleWaiting | scheduleIdle | nextTask | scheduleYielded | stealWork | steal
  | stealLoad =>
      refine hcode fun b => ?_
      rw [hpc]
      simp only [codeStep]
      repeat' split
      all_goals simp
  | _ =>
      rw [hpc] at hsch
      cases hsch

/-! ## The pass -/

/-- Behind its last statement the pass is over. -/
theorem Passing.scheduled (hp : Passing i x₀ x l p) (hsch : p.scheduling = false) :
    p = .dispatch ∧ ∃ f, Scheduled i x₀ x l f := by
  cases p with
  | dispatch => exact ⟨rfl, hp⟩
  | assign t stolen => cases hsch
  | scheduleIo | scheduleWaiting | scheduleIdle | nextTask | scheduleYielded | stealWork | steal
  | stealLoad | stealTake => cases hsch
  | _ => exact hp.elim

/--
**`schedule_workers` does what it is to do**, whatever the lists are, whatever the requests, the
waits and the other schedulers answer and whatever these do meanwhile. From its first statement
on it does not get stuck, is over after a bounded number of statements, and then it has asked and
done what `Scheduled` says.
-/
theorem schedule_workers_spec {es : List (Event c)} (h₀ : s.pc i = .scheduleIo 0)
    (hr : (machine c).run s es = some s')
    (hin : (machine c).Meets (fun q _ => (q.pc i).scheduling = true) s es) :
    ((s'.pc i).scheduling = true → ∃ e m, turns i s' e = true ∧ (machine c).next s' e = some m) ∧
      (machine c).count (turns i) s es ≤ (s.sched i).pendingIoQueue.length +
        (s.sched i).waitingQueue.length + 3 * c.schedulers + 10 ∧
      ((s'.pc i).scheduling = false → s'.pc i = .dispatch ∧
        ∃ f, Scheduled i (s.sched i) (s'.sched i) ((machine c).log (asks i) s es) f) := by
  have hp : Passing i (s.sched i) (s'.sched i) ((machine c).log (asks i) s es) (s'.pc i) :=
    passing_run hr hin (by rw [h₀]; exact passing_start)
  refine ⟨hp.enabled, ?_, hp.scheduled⟩
  have hleft := left_run hr hin
  rw [h₀, Pc.left, Nat.sub_zero] at hleft
  omega

/-- One scheduler with three workers. -/
abbrev threeWorkers : Config := Options.config 1 3

/-- The scheduler. -/
abbrev sole : SchedId threeWorkers := ⟨0, threeWorkers.schedulers_pos⟩

instance : NeZero threeWorkers.workers := ⟨by decide⟩

/-- The task of `init_ums` starts two tasks and waits for a request. The first of them waits for
the second, which yields. -/
def yieldRun : List (Event threeWorkers) :=
  List.replicate 4 (Event.call .main) ++
  [Event.code sole false, Event.code sole false, Event.signal sole] ++
  List.replicate 9 (Event.code sole false) ++ [Event.loop sole] ++
  [Event.async sole] ++ List.replicate 4 (Event.call (.active sole)) ++
  [Event.async sole] ++ List.replicate 4 (Event.call (.active sole)) ++
  [Event.user sole .io] ++ List.replicate 9 (Event.code sole false) ++ [Event.loop sole] ++
  [Event.user sole (.setWaitInfo Time.max), Event.user sole .waitCondOrSleep] ++
  List.replicate 10 (Event.code sole false) ++ [Event.loop sole, Event.user sole .yield]

/-- The pass in which the request turns out to be done. -/
def passRun : List (Event threeWorkers) :=
  Event.code sole true :: List.replicate 6 (Event.code sole false)

/-- The worker whose request is done is to run and then the one that has yielded; the other one
keeps waiting. -/
theorem schedule_workers_spec_run : ∃ s s' f, (machine threeWorkers).Reachable s ∧
    s.pc sole = .scheduleIo 0 ∧ (machine threeWorkers).run s passRun = some s' ∧
    (s.sched sole).yieldedWorker = some 2 ∧ (s'.sched sole).runnableQueue = [0, 2] ∧
    Scheduled sole (s.sched sole) (s'.sched sole) [.io 0 true, .wait 1 false] f := by
  obtain ⟨s, hr, hp⟩ := Lib.Machine.exists_of_run (M := machine threeWorkers)
    (p := fun s => decide (s.pc sole = .scheduleIo 0 ∧ (s.sched sole).yieldedWorker = some 2) &&
      (machine threeWorkers).runOk (fun q _ => (q.pc sole).scheduling) s passRun &&
      ((machine threeWorkers).run s passRun).elim false fun s' =>
        decide ((s'.pc sole).scheduling = false ∧ (s'.sched sole).runnableQueue = [0, 2] ∧
          (machine threeWorkers).log (asks sole) s passRun = [.io 0 true, .wait 1 false]))
    (.init ⟨0, rfl⟩) yieldRun (by decide +kernel)
  simp only [Bool.and_eq_true, decide_eq_true_eq] at hp
  obtain ⟨⟨⟨h₀, hy⟩, hok⟩, hend⟩ := hp
  cases hrun : (machine threeWorkers).run s passRun with
  | none =>
      rw [hrun] at hend
      cases hend
  | some s' =>
      rw [hrun, Option.elim_some, decide_eq_true_eq] at hend
      obtain ⟨hover, hrunnable, hlog⟩ := hend
      have hin := Lib.Machine.meets_of_runOk (fun _ _ h => h) _ hok
      obtain ⟨-, -, hsp⟩ := schedule_workers_spec h₀ hrun hin
      obtain ⟨-, f, hf⟩ := hsp hover
      rw [hlog] at hf
      exact ⟨s, s', f, hr, h₀, hrun, hy, hrunnable, hf⟩

end Ums.Runtime
