import Ums.Scheduler.Partition
import Ums.Runtime.Steps

/-!
# What a scheduler looks like at each statement

`Shape` annotates every control point with what the scheduling code has already
found out about its lists, and `Core` adds the placement of the workers. Only the
active thread of a scheduler touches these, so they survive whatever the other
threads do (`Core.alike`), and each statement of the scheduler's own thread leads
from the annotation of one point to the annotation of the next.
-/

namespace Ums

/-- A worker has a task exactly when it is not idle, and without one it is about to wait. -/
structure Worker.Sound (u : Worker) : Prop where
  /-- Only idle workers are without a task. -/
  task : u.task = none ↔ u.state = .idle
  /-- A worker without a task is in `sync<main>`. -/
  loop : u.task = none → u.loop = .sync

namespace Scheduler

variable {w : Nat} {x y : Scheduler w}

/-- What another thread does to a scheduler leaves all of this alone. -/
structure Alike (x y : Scheduler w) : Prop where
  /-- The current worker. -/
  worker : y.worker = x.worker
  /-- The places of the workers. -/
  bin : ∀ a, y.bin a = x.bin a
  /-- The load counter. -/
  stateLoad : y.stateLoad = x.stateLoad
  /-- The state of the scheduler. -/
  state : y.state = x.state
  /-- Exit is never taken back. -/
  exit : x.exit = true → y.exit = true
  /-- The workers, up to their wait info. -/
  workers : ∀ v, (y.workers v).state = (x.workers v).state ∧ (y.workers v).task = (x.workers v).task
    ∧ (y.workers v).loop = (x.workers v).loop

/-- A change outside of the workers, their lists and the state. -/
theorem Alike.of_fields (hw : y.worker = x.worker) (hr : y.runnableQueue = x.runnableQueue)
    (hi : y.idleQueue = x.idleQueue) (ht : y.waitingQueue = x.waitingQueue)
    (hp : y.pendingIoQueue = x.pendingIoQueue) (hy : y.yieldedWorker = x.yieldedWorker)
    (hl : y.stateLoad = x.stateLoad) (hs : y.state = x.state) (he : x.exit = true → y.exit = true)
    (hv : y.workers = x.workers) : Alike x y where
  worker := hw
  bin a := by
    funext k
    cases k <;> simp only [Scheduler.bin, hr, hi, ht, hp, hy]
  stateLoad := hl
  state := hs
  exit := he
  workers v := by rw [hv]; exact ⟨rfl, rfl, rfl⟩

theorem Alike.refl (x : Scheduler w) : Alike x x :=
  .of_fields rfl rfl rfl rfl rfl rfl rfl rfl id rfl

theorem alike_enque (t : TaskId) : Alike x (x.enque t) :=
  .of_fields rfl rfl rfl rfl rfl rfl rfl rfl id rfl

theorem alike_dropTask : Alike x x.dropTask := .of_fields rfl rfl rfl rfl rfl rfl rfl rfl id rfl

theorem alike_notifySection : Alike x x.notifySection :=
  .of_fields rfl rfl rfl rfl rfl rfl rfl rfl id rfl

theorem alike_notifyCv : Alike x x.notifyCv := .of_fields rfl rfl rfl rfl rfl rfl rfl rfl id rfl

theorem alike_signalExit : Alike x x.signalExit :=
  .of_fields rfl rfl rfl rfl rfl rfl rfl rfl (fun _ => rfl) rfl

theorem alike_startIdleTimer (now : Time) : Alike x (x.startIdleTimer now) := by
  obtain ⟨start, hstart⟩ := x.startIdleTimer_eq now
  rw [hstart]
  exact .of_fields rfl rfl rfl rfl rfl rfl rfl rfl id rfl

/-- A worker replaced by one that differs in its wait info only. -/
theorem alike_setWorker {v : Fin w} {u : Worker} (hs : u.state = (x.workers v).state)
    (ht : u.task = (x.workers v).task) (hl : u.loop = (x.workers v).loop) :
    Alike x (x.setWorker v u) where
  worker := rfl
  bin _ := rfl
  stateLoad := rfl
  state := rfl
  exit := id
  workers i := by
    by_cases hi : i = v
    · subst hi; simp [setWorker, hs, ht, hl]
    · simp [setWorker, hi]

theorem alike_setCond (v : Fin w) : Alike x (x.setCond v) := alike_setWorker rfl rfl rfl

theorem Alike.stateOf (h : Alike x y) : y.stateOf = x.stateOf := funext fun v => (h.workers v).1

theorem Alike.runnableQueue (h : Alike x y) : y.runnableQueue = x.runnableQueue :=
  congrFun (h.bin none) .runnable

theorem Alike.idleQueue (h : Alike x y) : y.idleQueue = x.idleQueue :=
  congrFun (h.bin none) .idle

theorem Alike.waitingQueue (h : Alike x y) : y.waitingQueue = x.waitingQueue :=
  congrFun (h.bin none) .waiting

theorem Alike.pendingIoQueue (h : Alike x y) : y.pendingIoQueue = x.pendingIoQueue :=
  congrFun (h.bin none) .pendingIo

theorem Alike.yieldedWorker (h : Alike x y) (hn : x.yieldedWorker = none) :
    y.yieldedWorker = none := by
  have hb : y.yieldedWorker.toList = x.yieldedWorker.toList := congrFun (h.bin none) .yielded
  rw [hn] at hb
  simpa using hb

end Scheduler

namespace Runtime

open Lib Scheduler

variable {c : Config} {s s' : System c} {i : SchedId c} {x y : Scheduler c.workers} {p q : Pc c}

/-- The active thread runs a worker's task, or the part of `main_loop` around it. -/
def Pc.inTask : Pc c → Bool
  | .user | .call _ => true
  | _ => false

/-- The worker that is running in the sense of its `m_state`. -/
def activeAt (x : Scheduler c.workers) (p : Pc c) : Option (WorkerId c) :=
  if p.inTask then x.worker else none

/-- `m_state` at each control point. -/
def Pc.state : Pc c → SchedulerState
  | .idleWait _ => .idleWait
  | .signalIdle | .signalLock | .signalCv | .idleCheck | .idleBlock | .idleSleep
  | .signalRunning => .idleSleep
  | .exited => .exiting
  | _ => .running

/-- What the scheduling code knows of its lists at each control point. -/
def Shape (x : Scheduler c.workers) : Pc c → Prop
  | .user | .call _ | .stealWork | .dispatch => x.yieldedWorker = none
  | .scheduleIo _ | .scheduleWaiting _ | .scheduleIdle | .scheduleYielded | .exited => True
  | .nextTask | .assign _ false => x.runnableQueue = [] ∧ x.idleQueue ≠ []
  | .steal _ | .stealLoad _ | .stealTake _ | .assign _ true =>
    x.yieldedWorker = none ∧ x.runnableQueue = [] ∧ x.idleQueue ≠ []
  | .sleep | .shouldExit => x.yieldedWorker = none ∧ x.runnableQueue = []
  | .sleepSpin | .sleepLock | .sleepCheck | .sleepExit | .sleepWaiting =>
    x.yieldedWorker = none ∧ x.runnableQueue = [] ∧ x.pendingIoQueue = []
  | .sleepBlock _ | .idleWait _ =>
    x.yieldedWorker = none ∧ x.runnableQueue = [] ∧ x.pendingIoQueue = [] ∧ x.waitingQueue ≠ []
  | .signalIdle | .signalLock | .signalCv | .idleCheck | .idleBlock | .idleSleep
  | .signalRunning =>
    x.yieldedWorker = none ∧ x.runnableQueue = [] ∧ x.pendingIoQueue = [] ∧ x.waitingQueue = []

/-- A scheduler and the control point of its thread, until the thread exits. -/
structure Core (x : Scheduler c.workers) (p : Pc c) : Prop where
  /-- There is a current worker. -/
  worker : x.worker.isSome
  /-- The workers are where their states say. -/
  placed : Placed x (activeAt x p)
  /-- The workers that are not idle are the ones with a task. -/
  sound : ∀ v, (x.workers v).Sound
  /-- The lists are as the thread knows them. -/
  shape : Shape x p
  /-- The scheduler's state follows the control point. -/
  state : x.state = p.state

/-- What holds of a scheduler at any time. -/
structure Local (x : Scheduler c.workers) (p : Pc c) : Prop where
  /-- A worker with a task is not idle. -/
  busy : ∀ v, (x.workers v).task ≠ none → (x.workers v).state ≠ .idle
  /-- Until its thread exits, a scheduler looks as its control point says. -/
  core : p ≠ .exited → Core x p
  /-- A thread exits after it was told to. -/
  exit : p = .exited → x.exit = true

theorem Core.to_local (h : Core x p) (hp : p ≠ .exited) : Local x p where
  busy v ht hs := ht ((h.sound v).task.mpr hs)
  core _ := h
  exit he := absurd he hp

/-! ## Other threads -/

theorem shape_alike (h : Alike x y) (hs : Shape x p) : Shape y p := by
  have hy := h.yieldedWorker
  cases p with
  | assign t stolen =>
      cases stolen <;> simp only [Shape, h.runnableQueue, h.idleQueue] at hs ⊢
      · exact hs
      · exact ⟨hy hs.1, hs.2⟩
  | _ =>
      simp only [Shape, h.runnableQueue, h.idleQueue, h.waitingQueue, h.pendingIoQueue] at hs ⊢ <;>
      first
        | exact hs
        | exact hy hs
        | exact ⟨hy hs.1, hs.2⟩

/-- **Other threads leave a scheduler as its own thread knows it.** -/
theorem Core.alike (h : Core x p) (ha : Alike x y) : Core y p where
  worker := by rw [ha.worker]; exact h.worker
  placed := by
    have hact : activeAt y p = activeAt x p := by unfold activeAt; rw [ha.worker]
    rw [hact]
    exact h.placed.congr ha.stateOf (ha.bin _) ha.stateLoad
  sound v := by
    obtain ⟨h1, h2, h3⟩ := ha.workers v
    exact ⟨by rw [h1, h2]; exact (h.sound v).task, by rw [h2, h3]; exact (h.sound v).loop⟩
  shape := shape_alike ha h.shape
  state := by rw [ha.state]; exact h.state

theorem Local.alike (h : Local x p) (ha : Alike x y) : Local y p where
  busy v := by
    obtain ⟨h1, h2, _⟩ := ha.workers v
    rw [h1, h2]
    exact h.busy v
  core hp := (h.core hp).alike ha
  exit hp := ha.exit (h.exit hp)

/-! ## The thread of the scheduler -/

/-- A statement that only moves on. -/
theorem Core.goto (h : Core x p) (hq : q.inTask = p.inTask) (hs : Shape x q)
    (hst : q.state = p.state) : Core x q where
  worker := h.worker
  placed := by
    have hact : activeAt x q = activeAt x p := by unfold activeAt; rw [hq]
    rw [hact]
    exact h.placed
  sound := h.sound
  shape := hs
  state := by rw [hst]; exact h.state

/-- A statement that moves on and sets the scheduler's state. -/
theorem Core.setState (h : Core x p) (ha : Alike { x with state := q.state } y)
    (hq : q.inTask = p.inTask) (hs : Shape x q) : Core y q := by
  have hx : Core { x with state := q.state } q :=
    { worker := h.worker
      placed := by
        have hact : activeAt { x with state := q.state } q = activeAt x p := by
          unfold activeAt; rw [hq]
        rw [hact]
        refine h.placed.congr rfl ?_ rfl
        funext k
        cases k <;> rfl
      sound := h.sound
      shape := hs
      state := rfl }
  exact hx.alike ha

theorem sound_update {ws : WorkerId c → Worker} {v : WorkerId c} {u : Worker}
    (h : ∀ i, (ws i).Sound) (hu : u.Sound) (i : WorkerId c) : (Function.update ws v u i).Sound := by
  by_cases hi : i = v
  · subst hi; rw [Function.update_self]; exact hu
  · rw [Function.update_of_ne hi]; exact h i

/-- A worker that has a task stays sound in any state other than idle. -/
theorem sound_busy {u : Worker} {st : WorkerState} (ht : u.task ≠ none) (hst : st ≠ .idle) :
    ({ u with state := st } : Worker).Sound :=
  ⟨⟨fun he => absurd he ht, fun he => absurd he hst⟩, fun he => absurd he ht⟩

theorem Core.active {v : WorkerId c} (h : Core x p) (hp : p.inTask = true)
    (hv : x.worker = some v) : Placed x (some v) ∧ (x.workers v).state = .running := by
  have hpl := h.placed
  rw [activeAt, if_pos hp, hv] at hpl
  exact ⟨hpl, hpl.stateOf_active⟩

/-- **The worker that runs has a task.** -/
theorem Core.task_of_active {v : WorkerId c} (h : Core x p) (hp : p.inTask = true)
    (hv : x.worker = some v) : (x.workers v).task ≠ none := fun ht => by
  have hs := (h.sound v).task.mp ht
  rw [(h.active hp hv).2] at hs
  exact WorkerState.noConfusion hs

/-- The running worker gives up its scheduler and keeps its task. -/
theorem Core.park {v : WorkerId c} {ctx : SyncContext} (h : Core x .user)
    (hv : x.worker = some v) (hc : ctx ≠ .main) : Core (x.parkWorker ctx v) (.scheduleIo 0) := by
  obtain ⟨hpl, hrun⟩ := h.active rfl hv
  have ht := h.task_of_active rfl hv
  cases ctx with
  | main => exact absurd rfl hc
  | yield =>
      exact ⟨h.worker, hpl.parkYielded h.shape, sound_update h.sound (sound_busy ht (by decide)),
        trivial, h.state⟩
  | wait =>
      exact ⟨h.worker, hpl.parkWaiting, sound_update h.sound (sound_busy ht (by decide)),
        trivial, h.state⟩
  | io =>
      exact ⟨h.worker, hpl.parkPendingIo, sound_update h.sound (sound_busy ht (by decide)),
        trivial, h.state⟩

/-- The running worker drops its task and goes idle. -/
theorem Core.finish {v : WorkerId c} (h : Core x .user) (hv : x.worker = some v) :
    Core ((x.setWorker v { x.workers v with task := none, loop := .sync }).parkWorker .main v)
      (.scheduleIo 0) where
  worker := h.worker
  placed := by
    have hpl := (h.active rfl hv).1
    have hset : Placed (x.setWorker v { x.workers v with task := none, loop := .sync }) (some v) :=
      hpl.congr (stateOf_setWorker rfl) rfl rfl
    exact hset.parkIdle _
  sound u := by
    by_cases hu : u = v
    · subst hu
      simp [parkWorker, parkIdle, setWorkerState, setWorker, manageLoad]
      exact ⟨by simp, fun _ => rfl⟩
    · simp [parkWorker, parkIdle, setWorkerState, setWorker, manageLoad, hu]
      exact h.sound u
  shape := trivial
  state := h.state

theorem core_userStep {now : Time} {v : WorkerId c} {op : UserOp c} (h : Core x .user)
    (hv : x.worker = some v) (hu : userStep now x v op = some (y, q)) : Core y q := by
  cases op with
  | yield =>
      cases hu
      exact h.park hv (by decide)
  | io =>
      cases hu
      exact h.park hv (by decide)
  | setWaitInfo t =>
      simp only [userStep] at hu
      split at hu <;> cases hu
      exact h.alike (alike_setWorker rfl rfl rfl)
  | waitCondOrSleep =>
      simp only [userStep] at hu
      split at hu <;> cases hu
      · exact h
      · exact h.park hv (by decide)

/-- A worker that waited for something is runnable again. -/
theorem Core.sound_runnable {v : WorkerId c} {st : WorkerState} (h : Core x p)
    (hv : x.stateOf v = st) (hst : st ≠ .idle) (hy : y.workers = x.workers) (u : WorkerId c) :
    ((y.parkRunnable v).workers u).Sound := by
  have ht : (x.workers v).task ≠ none := fun ht =>
    hst (hv.symm.trans ((h.sound v).task.mp ht))
  rw [← hy] at ht
  have hs : ∀ i, (y.workers i).Sound := by rw [hy]; exact h.sound
  exact sound_update hs (sound_busy ht (by decide)) u

theorem Core.ioRound {it : Nat} {v : WorkerId c} {completed : Bool} (h : Core x (.scheduleIo it))
    (hv : x.pendingIoQueue[it]? = some v) :
    Core (x.scheduleIoWorker it v completed).1
      (.scheduleIo (x.scheduleIoWorker it v completed).2) := by
  have hpl := h.placed.scheduleIoWorker hv completed
  unfold Scheduler.scheduleIoWorker at hpl ⊢
  split
  · have hst := (h.placed.binned.mem .pendingIo v).mp (List.mem_of_getElem? hv)
    rw [if_pos ‹_›] at hpl
    exact ⟨h.worker, hpl, h.sound_runnable hst (by decide) rfl, trivial, h.state⟩
  · exact h.goto rfl trivial rfl

theorem Core.waitingRound {it : Nat} {v : WorkerId c} {now : Time}
    (h : Core x (.scheduleWaiting it)) (hv : x.waitingQueue[it]? = some v) :
    Core (x.scheduleWaitingWorker it v now).1
      (.scheduleWaiting (x.scheduleWaitingWorker it v now).2) := by
  have hpl := h.placed.scheduleWaitingWorker hv now
  unfold Scheduler.scheduleWaitingWorker at hpl ⊢
  split
  · have hst := (h.placed.binned.mem .waiting v).mp (List.mem_of_getElem? hv)
    rw [if_pos ‹_›] at hpl
    exact ⟨h.worker, hpl, h.sound_runnable hst (by decide) rfl, trivial, h.state⟩
  · exact h.goto rfl trivial rfl

theorem Core.yielded (h : Core x .scheduleYielded) : Core x.scheduleYieldedWorkers .stealWork := by
  have hpl := h.placed.scheduleYieldedWorkers
  unfold Scheduler.scheduleYieldedWorkers at hpl ⊢
  cases hy : x.yieldedWorker with
  | none => exact h.goto rfl hy rfl
  | some v =>
      have hst : x.stateOf v = .yielded :=
        (h.placed.binned.mem .yielded v).mp (by simp [bin, hy])
      rw [hy] at hpl
      exact ⟨h.worker, hpl, h.sound_runnable hst (by decide) rfl, rfl, h.state⟩

/-- **A task is handed to a worker that has none.** -/
theorem Core.assign {t : TaskId} {stolen : Bool} (h : Core x (.assign t stolen))
    (ha : x.assignTask t = some y) : Core y (if stolen then .dispatch else .scheduleYielded) := by
  have hpl := h.placed.assignTask ha
  have hsh := h.shape
  obtain ⟨w, rest, -, rfl⟩ := assignTask_eq_some.mp ha
  have hs : ∀ (v : WorkerId c) (u : WorkerId c),
      (Function.update (Function.update x.workers v { x.workers v with task := some t }) v
        { x.workers v with task := some t, state := .runnable } u).Sound := by
    intro v u
    rw [Function.update_idem]
    exact sound_update h.sound (sound_busy (u := { x.workers v with task := some t }) (by simp)
      (by decide)) u
  refine ⟨by cases stolen <;> exact h.worker, by cases stolen <;> exact hpl, ?_, ?_,
    by cases stolen <;> exact h.state⟩
  · intro u
    simp only [Scheduler.parkRunnable, setWorkerState, setWorker, manageLoad,
      Function.update_self]
    exact hs _ u
  · cases stolen with
    | false => trivial
    | true => exact hsh.1

theorem Core.exec (h : Core x .dispatch) (hp : x.prepareExec = some y) : Core y .user := by
  obtain ⟨v, hv, hpl⟩ := h.placed.prepareExec hp
  have hsh := h.shape
  have hso := h.sound
  obtain ⟨u, rest, hr, rfl⟩ := prepareExec_eq_some.mp hp
  have hst : x.stateOf u = .runnable :=
    (h.placed.binned.mem .runnable u).mp (by simp [bin, hr])
  have ht : (x.workers u).task ≠ none := fun ht =>
    WorkerState.noConfusion (hst.symm.trans ((hso u).task.mp ht))
  refine ⟨rfl, ?_, sound_update hso (sound_busy ht (by decide)), hsh, h.state⟩
  show Placed _ (activeAt _ .user)
  rw [activeAt, if_pos (show Pc.inTask (.user : Pc c) = true from rfl), hv]
  exact hpl

/-- **A statement of the scheduling code leads from one annotation to the next.** -/
theorem core_code (hs : Code s i x p y q) (h : Core x p) (hq : q ≠ .exited) : Core y q := by
  have hsh := h.shape
  cases hs with
  | ioEnd | waitingEnd | idleSkip | nextNone | again => exact h.goto rfl trivial rfl
  | ioRound _ hv => exact h.ioRound hv
  | waitingRound hv => exact h.waitingRound hv
  | idleTry hr hi => exact h.goto rfl ⟨hr, hi⟩ rfl
  | nextSome => exact (h.alike alike_dropTask).goto rfl hsh rfl
  | assign ha hq =>
      subst hq
      exact h.assign ha
  | yielded => exact h.yielded
  | stealSkip | stealSelf | stealEmpty | stealOne | stealMany | loadSome | loadNone =>
      exact h.goto rfl hsh rfl
  | stealStart hr hi => exact h.goto rfl ⟨hsh, hr, hi⟩ rfl
  | stealEnd => exact h.goto rfl hsh.1 rfl
  | exec hp => exact h.exec hp
  | toSleep hr => exact h.goto rfl ⟨hsh, hr⟩ rfl
  | ioPending => exact h.goto rfl hsh rfl
  | startTimer hp =>
      exact (h.goto (q := .sleepSpin) rfl ⟨hsh.1, hsh.2, hp⟩ rfl).alike (alike_startIdleTimer _)
  | lockNext | lock | noTask | stay => exact h.goto rfl hsh rfl
  | spin | ownTask | leave | condSet | due => exact h.goto rfl ⟨hsh.1, hsh.2.1⟩ rfl
  | condClear hw => exact h.goto rfl ⟨hsh.1, hsh.2.1, hsh.2.2, hw⟩ rfl
  | noWaiting hw =>
      exact h.setState (Alike.refl _) rfl ⟨hsh.1, hsh.2.1, hsh.2.2, hw⟩
  | block =>
      exact h.setState (.of_fields rfl rfl rfl rfl rfl rfl rfl rfl id rfl) rfl hsh
  | wake =>
      exact h.setState (.of_fields rfl rfl rfl rfl rfl rfl rfl rfl id rfl) rfl ⟨hsh.1, hsh.2.1⟩
  | waitAgain => exact h.alike (.of_fields rfl rfl rfl rfl rfl rfl rfl rfl id rfl)
  | idleLeave | idleStay => exact h.goto rfl hsh rfl
  | idleBlock =>
      exact (h.goto (q := .idleSleep) rfl hsh rfl).alike
        (.of_fields rfl rfl rfl rfl rfl rfl rfl rfl id rfl)
  | idleWake =>
      exact (h.goto (q := .idleCheck) rfl hsh rfl).alike
        (.of_fields rfl rfl rfl rfl rfl rfl rfl rfl id rfl)
  | exit => exact absurd rfl hq

/-- `exit` leaves the tasks where they are. -/
theorem local_exitNow (h : ∀ v, (x.workers v).task ≠ none → (x.workers v).state ≠ .idle)
    (he : x.exit = true) : Local x.exitNow (.exited : Pc c) where
  busy v := by
    unfold exitNow
    split
    · rename_i u _
      by_cases hv : v = u
      · subst hv
        simp [setWorkerState, setWorker, manageLoad]
      · simp only [setWorkerState, setWorker, manageLoad, Function.update_of_ne hv]
        exact h v
    · exact h v
  core hn := absurd rfl hn
  exit _ := by
    unfold exitNow
    split <;> exact he

theorem local_code (hs : Code s i x p y q) (h : Local x p) (hp : p ≠ .exited) : Local y q := by
  by_cases hq : q = .exited
  · subst hq
    cases hs with
    | assign _ he =>
        split at he <;> cases he
    | exit he => exact local_exitNow h.busy he
  · exact (core_code hs (h.core hp) hq).to_local hq

/-! ## The system -/

/-- Every scheduler looks as its thread's control point says. -/
def Locals (s : System c) : Prop := ∀ i, Local (s.sched i) (s.pc i)

theorem Locals.core (h : Locals s) (hp : s.pc i = p) (hx : p ≠ .exited) : Core (s.sched i) p := by
  subst hp
  exact (h i).core hx

theorem Locals.setBoth (h : Locals s) (hi : Core y q) (hq : q ≠ .exited) :
    Locals (s.setBoth i y q) :=
  System.forall_setBoth (fun j _ => h j) (hi.to_local hq)

theorem Locals.setSched (h : Locals s) (ha : Alike (s.sched i) y) : Locals (s.setSched i y) :=
  System.forall_setSched (fun j _ => h j) ((h i).alike ha)

theorem Locals.setPc (h : Locals s) (hi : Core (s.sched i) q) (hq : q ≠ .exited) :
    Locals (s.setPc i q) :=
  System.forall_setPc (fun j _ => h j) (hi.to_local hq)

/-- A thread that goes on with its call, or returns from it. -/
theorem Locals.setCall {a : Thread c} {k : Call c} {r : Option (Call c)} (h : Locals s)
    (hc : s.callOf a = some k) : Locals (s.setCall a r) := by
  cases a with
  | main => exact h
  | active i =>
      have hcore := h.core (callOf_active hc) (by simp)
      cases r with
      | none => exact h.setPc (hcore.goto (q := .user) rfl hcore.shape rfl) (by simp)
      | some k' => exact h.setPc (hcore.goto (q := .call k') rfl hcore.shape rfl) (by simp)

theorem locals_init (now : Nat) : Locals (System.constructed c now) := by
  intro i
  refine Core.to_local ?_ (by simp [System.constructed])
  exact
    { worker := constructed_worker c.workers_pos
      placed := placed_constructed c.workers
      sound := fun v => by
        show ((constructed c.workers).workers v).Sound
        rw [constructed_workers]
        exact ⟨by simp, fun _ => rfl⟩
      shape := by
        obtain ⟨h1, h2, h3, h4⟩ := constructed_lists c.workers
        exact ⟨h4, h1, h3, h2⟩
      state := rfl }

theorem locals_main (hs : Main s s') (h : Locals s) : Locals s' := by
  cases hs with
  | exitSignal => exact h.setSched alike_signalExit
  | exitNotify => exact h.setSched alike_notifySection
  | exitNotifyOne => exact h.setSched alike_notifyCv
  | _ => exact h

/-- The running worker reaches the next point of `main_loop` and keeps its task. -/
theorem Core.setLoop {v : WorkerId c} {l : LoopPoint} (h : Core x .user) (hv : x.worker = some v) :
    Core (x.setWorker v { x.workers v with loop := l }) .user where
  worker := h.worker
  placed := h.placed.congr (stateOf_setWorker rfl) rfl rfl
  sound := sound_update h.sound
    ⟨(h.sound v).task, fun ht => absurd ht (h.task_of_active rfl hv)⟩
  shape := h.shape
  state := h.state

/-- **Each step keeps every scheduler as its control point says.** -/
theorem locals_step {e : Event c} (hs : Step s e s') (h : Locals s) : Locals s' := by
  cases hs with
  | user hw hu =>
      obtain ⟨hp, hv, _⟩ := taskWorker_eq_some hw
      exact h.setBoth (core_userStep (h.core hp (by simp)) hv hu) (userStep_ne_exited hu)
  | async hw =>
      have hc := h.core (taskWorker_eq_some hw).1 (by simp)
      exact h.setPc (hc.goto rfl hc.shape rfl) (by simp)
  | @notifyWaiter i j _ v hw =>
      have h' : Locals (s.setSched j ((s.sched j).setCond v)) := h.setSched (alike_setCond v)
      have hc := h'.core (taskWorker_eq_some hw).1 (by simp)
      exact h'.setPc (hc.goto rfl hc.shape rfl) (by simp)
  | @invoke i v _ hp hv =>
      have hc := (h.core hp (by simp)).setLoop (l := .invoke) hv
      exact System.forall_setSched (fun j _ => h j) (by rw [hp]; exact hc.to_local (by simp))
  | @invoked i v _ hp hv =>
      have hc := (h.core hp (by simp)).setLoop (l := .notify) hv
      exact System.forall_setSched (fun j _ => h j) (by rw [hp]; exact hc.to_local (by simp))
  | finish hp hv => exact Locals.setBoth h ((h.core hp (by simp)).finish hv) (by simp)
  | compare hc | choose hc => exact h.setCall hc
  | @enque a j hc =>
      have h' : Locals (s.setSched j ((s.sched j).enque s.nextTask)) := h.setSched (alike_enque _)
      exact Locals.setCall (k := .enque j) h' (by cases a <;> exact hc)
  | @notifySection a j p hc =>
      have h' : Locals (s.setSched j (s.sched j).notifySection) := h.setSched alike_notifySection
      exact h'.setCall hc
  | @notifyCv a j p hc =>
      have h' : Locals (s.setSched j (s.sched j).notifyCv) := h.setSched alike_notifyCv
      exact h'.setCall hc
  | @code i _ y q hcode =>
      by_cases hp : s.pc i = .exited
      · rw [hp] at hcode
        cases hcode
      · exact System.forall_setBoth (fun j _ => h j) (local_code hcode (h i) hp)
  | stealNone hp =>
      have hc := h.core hp (by simp)
      exact h.setPc (hc.goto rfl hc.shape rfl) (by simp)
  | @stealSome i k _ _ hp =>
      have h' : Locals (s.setSched k (s.sched k).dropTask) := h.setSched alike_dropTask
      have hc := h'.core hp (by simp)
      exact h'.setPc (hc.goto rfl hc.shape rfl) (by simp)
  | signalFew hp | signalCv hp =>
      have hc := h.core hp (by simp)
      exact Locals.setBoth h ((hc.goto (q := .idleCheck) rfl hc.shape rfl).alike
        (.of_fields rfl rfl rfl rfl rfl rfl rfl rfl id rfl)) (by simp)
  | signalAll hp | signalLock hp =>
      have hc := h.core hp (by simp)
      exact Locals.setPc h (hc.goto rfl hc.shape rfl) (by simp)
  | signalRunning hp =>
      have hc := h.core hp (by simp)
      have hsh := hc.shape
      exact Locals.setBoth h (hc.setState (Alike.refl _) rfl ⟨hsh.1, hsh.2.1⟩) (by simp)
  | main hm => exact locals_main hm h
  | tick => exact h

theorem locals_reachable (h : (machine c).Reachable s) : Locals s := by
  refine h.invariant ?_ ?_
  · rintro s ⟨now, rfl⟩
    exact locals_init now
  · intro s e s' _ _ hs hl
    exact locals_step (step_of_next hs) hl

end Runtime

end Ums
