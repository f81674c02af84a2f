import Ums.Runtime.Balance
import Ums.Runtime.Strand

/-!
# Accounting for workers and load

Each worker of a scheduler is in one place, the load counter is what the lists say,
and a task that moves takes its load along. `load` shows the last as long as the
workload stays on one side of the bounds of a signed 32-bit integer: it moves by a
task's load or jumps from one end to the other exactly when a steal carries the
workload across `2 ^ 31`.
-/

namespace Ums

/-- A 32-bit reading goes down with its value, unless it is too close to the lower end. -/
theorem wrap32_sub_iff {x d : Int} (h : 0 ≤ d) (hd : d < 2 ^ 31) :
    wrap32 (x - d) = wrap32 x - d ↔ ¬(2 ^ 31 ≤ x % 2 ^ 32 ∧ x % 2 ^ 32 < 2 ^ 31 + d) := by
  have hx := Int.bmod_eq_emod x (2 ^ 32)
  have hy := Int.bmod_eq_emod (x - d) (2 ^ 32)
  unfold wrap32
  simp only [Nat.reducePow, Nat.cast_ofNat, Int.reducePow, Int.reduceAdd, Int.reduceDiv] at *
  rw [hx, hy]
  split <;> split <;> omega

/-- It goes up with its value, unless it is too close to the upper end. -/
theorem wrap32_add_iff {x d : Int} (h : 0 ≤ d) (hd : d < 2 ^ 31) :
    wrap32 (x + d) = wrap32 x + d ↔ ¬(2 ^ 31 - d ≤ x % 2 ^ 32 ∧ x % 2 ^ 32 < 2 ^ 31) := by
  have hsub := wrap32_sub_iff (x := x + d) h hd
  rw [Int.add_sub_cancel] at hsub
  constructor
  · intro hup
    have hfit := hsub.mp (by omega)
    omega
  · intro hfit
    have hdown := hsub.mpr (by omega)
    omega

namespace Runtime

open Lib Scheduler Schedulers

variable {c : Config} {s s' : System c} {i : SchedId c}

/-! ## What the accounts promise -/

/-- **The accounts of a scheduler**, as its thread is about to take its next step. -/
structure Accounts (s : System c) (i : SchedId c) : Prop where
  /-- Each worker is in one place, and the load counter is what the lists say. -/
  accounted : Accounted (s.sched i) (s.pc i)
  /-- A task that yields finds the slot empty. -/
  slot : ∀ v, s.taskWorker i = some v → (s.sched i).yieldedWorker = none
  /-- The front of an empty list is never taken. -/
  front : ∀ b, s.pc i = .dispatch ∨ (∃ t stolen, s.pc i = .assign t stolen) →
    (codeStep s i b (s.sched i) (s.pc i)).isSome
  /-- A queued task given to an own idle worker leaves `load` as it was. -/
  own : ∀ t rest, (s.sched i).tasks.queue = t :: rest → (s.sched i).idleQueue ≠ [] →
    ∃ y, (s.sched i).dropTask.assignTask t = some y ∧ y.load = (s.sched i).load
  /-- A steal lowers the load of the victim by one task's load. -/
  lowers : ∀ k t s', s.pc i = .stealTake k → next s (.steal i) = some s' →
    s'.pc i = .assign t true → k ≠ i ∧ s'.sched i = s.sched i ∧
      (s'.sched k).load = (s.sched k).load - Load.task
  /-- It raises the load of the thief by as much. -/
  raises : ∀ t b s', s.pc i = .assign t true → next s (.code i b) = some s' →
    (s'.sched i).load = (s.sched i).load + Load.task

/-- A steal carries no workload across the bound of a signed 32-bit integer. -/
structure StealsFit (s : System c) (i : SchedId c) : Prop where
  /-- Not the one of the victim, from `2 ^ 31` or above to below. -/
  victim : ∀ k, s.pc i = .stealTake k → (s.sched k).tasks.queue ≠ [] →
    ¬(2 ^ 31 ≤ (s.sched k).workload % 2 ^ 32 ∧ (s.sched k).workload % 2 ^ 32 < 2 ^ 31 + 10)
  /-- Not the one of the thief, from below `2 ^ 31` to there or above. -/
  thief : ∀ t, s.pc i = .assign t true →
    ¬(2 ^ 31 - 10 ≤ (s.sched i).workload % 2 ^ 32 ∧ (s.sched i).workload % 2 ^ 32 < 2 ^ 31)

/-- Workloads that fit a signed 32-bit integer, with one task more, are no reason for concern. -/
theorem StealsFit.of_le (h : ∀ k, 0 ≤ (s.sched k).workload ∧ (s.sched k).workload < 2 ^ 31 - 10) :
    StealsFit s i where
  victim k _ _ := by
    have := h k
    omega
  thief _ _ := by
    have := h i
    omega

/-- A thief that finds a task takes it. -/
theorem steal_enabled {k : SchedId c} (hp : s.pc i = .stealTake k)
    (hq : (s.sched k).tasks.queue ≠ []) :
    ∃ s' t, next s (.steal i) = some s' ∧ s'.pc i = .assign t true := by
  rcases (s.sched k).tasks.deque_cases with ⟨h, -⟩ | ⟨t, rest, -, ht, -⟩
  · exact absurd h hq
  · refine ⟨stealStep s i k, t, by simp [next, hp], ?_⟩
    simp [stealStep, ht]

/-- **A steal lowers the victim's load by one task's load** unless it carries the workload across
the bound. -/
theorem steal_load_iff {k : SchedId c} {t : TaskId} (h : (machine c).Reachable s)
    (hp : s.pc i = .stealTake k) (hs : next s (.steal i) = some s')
    (ht : s'.pc i = .assign t true) :
    (s'.sched k).load = (s.sched k).load - Load.task ↔
      ¬(2 ^ 31 ≤ (s.sched k).workload % 2 ^ 32 ∧
        (s.sched k).workload % 2 ^ 32 < 2 ^ 31 + 10) := by
  obtain ⟨-, -, hw⟩ := steal_workload (noSelfSteal_reachable h) hp hs ht
  rw [load_eq, load_eq, hw]
  exact wrap32_sub_iff (by decide) (by decide)

/-- **It raises the thief's** in the same way. -/
theorem assign_load_iff {t : TaskId} {stolen b : Bool} (h : Core (s.sched i) (.assign t stolen))
    (hp : s.pc i = .assign t stolen) (hs : next s (.code i b) = some s') :
    (s'.sched i).load = (s.sched i).load + Load.task ↔
      ¬(2 ^ 31 - 10 ≤ (s.sched i).workload % 2 ^ 32 ∧ (s.sched i).workload % 2 ^ 32 < 2 ^ 31) := by
  rw [load_eq, load_eq, assign_workload h hp hs]
  exact wrap32_add_iff (by decide) (by decide)

/--
**Workers and load are accounted for as long as no steal carries a workload across the bound.**
Until a scheduler is told to exit, each of its workers is in one place, its load counter is the
weighted sum of its lists, and so on; what a steal does to the two loads is right if and only if
the workloads fit.
-/
theorem accounts_iff (h : (machine c).Reachable s) (he : (s.sched i).exit = false) :
    Accounts s i ↔ StealsFit s i := by
  have hl := locals_reachable h i
  have hx : s.pc i ≠ .exited := fun hp => by
    rw [hl.exit hp] at he
    cases he
  have hcore := hl.core hx
  have hfront : ∀ b, s.pc i = .dispatch ∨ (∃ t stolen, s.pc i = .assign t stolen) →
      (codeStep s i b (s.sched i) (s.pc i)).isSome := fun b hp => hcore.front b hp
  constructor
  · intro ha
    refine ⟨fun k hp hq => ?_, fun t hp => ?_⟩
    · obtain ⟨s', t, hs, ht⟩ := steal_enabled hp hq
      exact (steal_load_iff h hp hs ht).mp (ha.lowers k t s' hp hs ht).2.2
    · obtain ⟨r, hr⟩ := Option.isSome_iff_exists.mp (hfront false (Or.inr ⟨t, true, hp⟩))
      have hs : next s (.code i false) = some (s.setBoth i r.1 r.2) := by
        rw [next, hr]
        rfl
      rw [hp] at hcore
      exact (assign_load_iff hcore hp hs).mp (ha.raises t false _ hp hs)
  · intro hfit
    refine ⟨hcore.accounted, ?_, hfront, ?_, ?_, ?_⟩
    · intro v hv
      have hsh := hcore.shape
      rwa [(taskWorker_eq_some hv).1] at hsh
    · intro t rest hq hi
      obtain ⟨y, hy⟩ := assignTask_isSome (x := (s.sched i).dropTask) t hi
      exact ⟨y, hy, hcore.placed.load_own hq hy⟩
    · intro k t s' hp hs ht
      obtain ⟨hk, hi, -⟩ := steal_workload (noSelfSteal_reachable h) hp hs ht
      have hq : (s.sched k).tasks.queue ≠ [] := by
        cases step_of_next hs with
        | stealNone => simp at ht
        | @stealSome _ l _ _ hp' hq =>
            obtain rfl : k = l := Pc.stealTake.inj (hp.symm.trans hp')
            simp [hq]
      exact ⟨hk, hi, (steal_load_iff h hp hs ht).mpr (hfit.victim k hp hq)⟩
    · intro t b s' hp hs
      rw [hp] at hcore
      exact (assign_load_iff hcore hp hs).mpr (hfit.thief t hp)

/-- The second scheduler has run a task and is about to take one from the first. -/
def stealRun : List (Event twoSchedulers) :=
  List.replicate 8 (Event.call .main) ++ wakeRun first ++
  [Event.async first] ++ List.replicate 8 (Event.call (.active first)) ++ wakeRun second ++
  [Event.async first] ++ List.replicate 8 (Event.call (.active first)) ++
  [Event.loop second, Event.loop second] ++ List.replicate 7 (Event.code second false)

/-- Its steal leaves the accounts in order. -/
theorem accounts_run : ∃ s, (machine twoSchedulers).Reachable s ∧
    s.pc second = .stealTake first ∧ (s.sched first).tasks.queue ≠ [] ∧ Accounts s second := by
  obtain ⟨s, hr, hp⟩ := Machine.exists_of_run (M := machine twoSchedulers)
    (p := fun s => decide (s.pc second = .stealTake first ∧ (s.sched first).tasks.queue ≠ [] ∧
      (s.sched second).exit = false ∧
      ∀ k, 0 ≤ (s.sched k).workload ∧ (s.sched k).workload < 2 ^ 31 - 10))
    (.init ⟨0, rfl⟩) stealRun (by decide +kernel)
  obtain ⟨hpc, hq, he, hle⟩ := of_decide_eq_true hp
  exact ⟨s, hr, hpc, hq, (accounts_iff hr he).mpr (.of_le hle)⟩

/-! ## A scheduler that goes on alone -/

/-- All workers of a scheduler are idle: `l` is the idle list and `q` the task queue. -/
structure Vacant (x : Scheduler c.workers) (l : List (WorkerId c)) (q : List TaskId) : Prop where
  runnable : x.runnableQueue = []
  waiting : x.waitingQueue = []
  pendingIo : x.pendingIoQueue = []
  yielded : x.yieldedWorker = none
  idle : x.idleQueue = l
  queue : x.tasks.queue = q
  exit : x.exit = false

/-- One statement of the scheduling code. -/
theorem reachable_code {x y : Scheduler c.workers} {p q : Pc c} {b : Bool}
    (h : (machine c).Reachable (s.setBoth i x p))
    (hc : codeStep (s.setBoth i x p) i b x p = some (y, q)) :
    (machine c).Reachable (s.setBoth i y q) := by
  refine h.tail (e := .code i b) ?_
  have hx : (s.setBoth i x p).sched i = x := Function.update_self ..
  have hp : (s.setBoth i x p).pc i = p := Function.update_self ..
  simp only [machine, next, hx, hp, hc, Option.map_some]
  simp [System.setBoth]

/-- The state as it is, with the scheduler and its control point named. -/
theorem setBoth_eq_self {x : Scheduler c.workers} {p : Pc c} (hx : x = s.sched i)
    (hp : s.pc i = p) : s.setBoth i x p = s := by
  subst hx hp
  simp [System.setBoth]

variable {l : List (WorkerId c)} {q : List TaskId}

/-- **A scheduler that is woken for a task** goes on to schedule it. -/
theorem wake_alone {t : TaskId} (h : (machine c).Reachable s) (hp : s.pc i = .idleSleep)
    (hf : s.mtxFree i = true) (hv : Vacant (s.sched i) l (t :: q)) :
    ∃ s', (machine c).Reachable s' ∧ s'.pc i = .scheduleIo 0 ∧ Vacant (s'.sched i) l (t :: q) ∧
      ∀ j, j ≠ i → s'.sched j = s.sched j := by
  obtain ⟨x, hx⟩ : ∃ x, x = s.sched i := ⟨_, rfl⟩
  rw [← hx] at hv
  have htasks : x.hasTasks = true := hasTasks_iff.mpr (by simp [hv.queue])
  have hsame := setBoth_eq_self hx hp
  have h0 : (machine c).Reachable (s.setBoth i x .idleSleep) := by rwa [hsame]
  have hfree : (s.setBoth i x .idleSleep).mtxFree i = true := by rwa [hsame]
  have h1 := reachable_code (b := false) (y := { x with cv := .awake }) (q := .idleCheck) h0
    (by simp only [codeStep, hfree, if_true])
  have h2 := reachable_code (b := false) (y := { x with cv := .awake }) (q := .signalRunning) h1
    (by
      have hsome : ({ x with cv := .awake } : Scheduler c.workers).hasTasks = true := htasks
      simp only [codeStep, hsome, Bool.true_or, if_true])
  have h3 : (machine c).Reachable (({ s with idleSchedulers := s.idleSchedulers - 1 } :
      System c).setBoth i { x with cv := .awake, state := .running } .shouldExit) := by
    refine h2.tail (e := .signal i) ?_
    simp only [machine, next, System.setBoth_pc, Function.update_self, signalStep]
    simp [System.setBoth]
  have h4 := reachable_code (b := false) (y := { x with cv := .awake, state := .running })
    (q := .scheduleIo 0) h3 (by simp [codeStep, hv.exit])
  refine ⟨_, h4, Function.update_self .., ?_, fun j hj => Function.update_of_ne hj _ _⟩
  rw [System.setBoth_sched, Function.update_self]
  exact ⟨hv.runnable, hv.waiting, hv.pendingIo, hv.yielded, hv.idle, hv.queue, hv.exit⟩

/-- **It takes the task**, and its front idle worker runs it. -/
theorem take_alone {v : WorkerId c} {t : TaskId} (h : (machine c).Reachable s)
    (hp : s.pc i = .scheduleIo 0) (hv : Vacant (s.sched i) (v :: l) (t :: q)) :
    ∃ s', (machine c).Reachable s' ∧ s'.pc i = .user ∧ Vacant (s'.sched i) l q ∧
      (s'.sched i).worker = some v ∧ ((s'.sched i).workers v).loop = .sync ∧
      ((s'.sched i).workers v).task = some t ∧ ∀ j, j ≠ i → s'.sched j = s.sched j := by
  have hcore := (locals_reachable h).core hp (by simp)
  obtain ⟨x, hx⟩ : ∃ x, x = s.sched i := ⟨_, rfl⟩
  rw [← hx] at hv hcore
  obtain ⟨hr, hw, hio, hy, hi, hq, he⟩ := hv
  have hidle : (x.workers v).state = .idle :=
    (hcore.placed.binned.mem .idle v).mp (by simp [bin, hi])
  have hloop : (x.workers v).loop = .sync := (hcore.sound v).loop ((hcore.sound v).task.mpr hidle)
  have htasks : x.hasTasks = true := hasTasks_iff.mpr (by simp [hq])
  obtain ⟨ht, hd⟩ : x.tasks.deque.1 = some t ∧ x.dropTask.tasks.queue = q := by
    rcases x.tasks.deque_cases with ⟨hn, -⟩ | ⟨t', rest, hn, ht, hd⟩ <;> rw [hq] at hn <;> cases hn
    exact ⟨ht, hd⟩
  have h0 : (machine c).Reachable (s.setBoth i x (.scheduleIo 0)) := by
    rwa [setBoth_eq_self hx hp]
  have h1 := reachable_code (b := false) (y := x) (q := .scheduleWaiting 0) h0
    (by simp [codeStep, hio])
  have h2 := reachable_code (b := false) (y := x) (q := .scheduleIdle) h1
    (by simp [codeStep, hw])
  have h3 := reachable_code (b := false) (y := x) (q := .nextTask) h2
    (by simp [codeStep, hasRunnableWorkers, hasIdleWorkers, hr, hi, htasks])
  have h4 := reachable_code (b := false) (y := x.dropTask) (q := .assign t false) h3
    (by simp [codeStep, ht])
  -- the idle worker that is given the task is the only runnable one
  obtain ⟨y, hy'⟩ : ∃ y, y = ({ x.dropTask with idleQueue := l }.setWorker v
    { x.dropTask.workers v with task := some t }).parkRunnable v := ⟨_, rfl⟩
  have hrun : y.runnableQueue = [v] := by
    rw [hy']
    exact congrArg (· ++ [v]) hr
  have hyield : y.yieldedWorker = none := by
    rw [hy']
    exact hy
  have h5 := reachable_code (b := false) (y := y) (q := .scheduleYielded) h4
    (by
      have ha : x.dropTask.assignTask t = some y := assignTask_eq_some.mpr ⟨v, l, hi, hy'⟩
      simp [codeStep, ha])
  have h6 := reachable_code (b := false) (y := y) (q := .stealWork) h5
    (by simp [codeStep, scheduleYieldedWorkers, hyield])
  have h7 := reachable_code (b := false) (y := y) (q := .dispatch) h6
    (by simp [codeStep, hasRunnableWorkers, hrun])
  have h8 := reachable_code (b := false) (y := { y.invalidateIdleTimer with
      worker := some v, runnableQueue := [] }.setWorkerState v .running) (q := .user) h7
    (by
      have hex := prepareExec_eq_some.mpr ⟨v, [], hrun, rfl⟩
      simp [codeStep, hasRunnableWorkers, hrun, hex])
  refine ⟨_, h8, Function.update_self .., ?_, ?_, ?_, ?_, ?_⟩
  · rw [System.setBoth_sched, Function.update_self, hy']
    exact ⟨rfl, hw, hio, hy, rfl, hd, he⟩
  · rw [System.setBoth_sched, Function.update_self]
    rfl
  · rw [System.setBoth_sched, Function.update_self, hy']
    simp [setWorkerState, setWorker, Scheduler.parkRunnable, manageLoad, invalidateIdleTimer,
      dropTask, hloop]
  · rw [System.setBoth_sched, Function.update_self, hy']
    simp [setWorkerState, setWorker, Scheduler.parkRunnable, manageLoad, invalidateIdleTimer]
  · intro j hj
    exact Function.update_of_ne hj _ _

/-- **The worker runs its task to its end** and is idle again. -/
theorem finish_alone {v : WorkerId c} {t : TaskId} (h : (machine c).Reachable s)
    (hp : s.pc i = .user) (hv : Vacant (s.sched i) l q) (hw : (s.sched i).worker = some v)
    (hl : ((s.sched i).workers v).loop = .sync) (ht : ((s.sched i).workers v).task = some t) :
    ∃ s', (machine c).Reachable s' ∧ s'.pc i = .scheduleIo 0 ∧ Vacant (s'.sched i) (v :: l) q ∧
      ∀ j, j ≠ i → s'.sched j = s.sched j := by
  have hcore := (locals_reachable h).core hp (by simp)
  have hst : (s.sched i).state = .running := hcore.state
  obtain ⟨x, hx⟩ : ∃ x, x = s.sched i := ⟨_, rfl⟩
  have h1 : (machine c).Reachable { s.setSched i (x.setWorker v { x.workers v with
      loop := .invoke }) with invoked := t :: s.invoked } := by
    refine h.tail (e := .loop i) ?_
    simp only [machine, next, hp, hw, loopStep, hl, ht, hx]
  have h2 : (machine c).Reachable { s.setSched i (x.setWorker v { x.workers v with
      loop := .notify }) with invoked := t :: s.invoked } := by
    refine h1.tail (e := .loop i) ?_
    simp [machine, next, hp, hw, loopStep, ht, hx, setWorker, System.setSched]
  have h3 : (machine c).Reachable { s.setBoth i ((x.setWorker v { x.workers v with
      task := none, loop := .sync }).parkWorker .main v) (.scheduleIo 0) with
      invoked := t :: s.invoked, notified := t :: s.notified } := by
    refine h2.tail (e := .loop i) ?_
    simp [machine, next, hp, hw, loopStep, ht, hx, setWorker, System.setSched, System.setBoth]
  have hpark : (x.setWorker v { x.workers v with task := none, loop := .sync }).parkWorker .main v =
      (x.setWorker v { x.workers v with task := none, loop := .sync }).parkIdle false v := by
    have hinit : (x.setWorker v { x.workers v with
        task := none, loop := .sync }).initializing = false := by
      show (x.state == .initializing) = false
      rw [hx, hst]
      rfl
    rw [parkWorker, hinit]
  refine ⟨_, h3, Function.update_self .., ?_, fun j hj => Function.update_of_ne hj _ _⟩
  rw [System.setBoth_sched, Function.update_self, hpark]
  rw [← hx] at hv
  exact ⟨hv.runnable, hv.waiting, hv.pendingIo, hv.yielded, congrArg (v :: ·) hv.idle, hv.queue,
    hv.exit⟩

/-- **It finds no task of its own** and turns to the first scheduler, which has some. -/
theorem steal_alone {v : WorkerId c} (h : (machine c).Reachable s) (hp : s.pc i = .scheduleIo 0)
    (hv : Vacant (s.sched i) (v :: l) []) (hi : i ≠ ⟨0, c.schedulers_pos⟩)
    (hq : 2 ≤ (s.sched ⟨0, c.schedulers_pos⟩).tasks.size) :
    (machine c).Reachable (s.setPc i (.stealTake ⟨0, c.schedulers_pos⟩)) := by
  obtain ⟨x, hx⟩ : ∃ x, x = s.sched i := ⟨_, rfl⟩
  rw [← hx] at hv
  have h0 : (machine c).Reachable (s.setBoth i x (.scheduleIo 0)) := by
    rwa [setBoth_eq_self hx hp]
  have h1 := reachable_code (b := false) (y := x) (q := .scheduleWaiting 0) h0
    (by simp [codeStep, hv.pendingIo])
  have h2 := reachable_code (b := false) (y := x) (q := .scheduleIdle) h1
    (by simp [codeStep, hv.waiting])
  have h3 := reachable_code (b := false) (y := x) (q := .scheduleYielded) h2
    (by
      have htasks : x.hasTasks = false := hasTasks_eq_false.mpr hv.queue
      simp [codeStep, htasks])
  have h4 := reachable_code (b := false) (y := x) (q := .stealWork) h3
    (by simp [codeStep, scheduleYieldedWorkers, hv.yielded])
  have h5 := reachable_code (b := false) (y := x) (q := .steal 0) h4
    (by simp [codeStep, hasRunnableWorkers, hasIdleWorkers, hv.runnable, hv.idle])
  have h6 := reachable_code (b := false) (y := x) (q := .stealTake ⟨0, c.schedulers_pos⟩) h5
    (by
      have hne : ¬0 = i.val := fun he => hi (Fin.ext he.symm)
      have hsched : (s.setBoth i x (.steal 0)).sched ⟨0, c.schedulers_pos⟩ =
          s.sched ⟨0, c.schedulers_pos⟩ := Function.update_of_ne (Ne.symm hi) _ _
      obtain ⟨k, hk⟩ := Nat.exists_eq_add_of_le hq
      have hk : (s.sched ⟨0, c.schedulers_pos⟩).tasks.size = k + 2 := by omega
      simp only [codeStep, c.schedulers_pos, dif_pos, if_neg hne, hsched, hk])
  have hsame : s.setBoth i x (.stealTake ⟨0, c.schedulers_pos⟩) =
      s.setPc i (.stealTake ⟨0, c.schedulers_pos⟩) := by
    simp [System.setBoth, System.setPc, hx]
  rwa [hsame] at h6

/-- **It empties its queue**, one task after the other. -/
theorem drain_alone {v : WorkerId c} (q : List TaskId) (h : (machine c).Reachable s)
    (hp : s.pc i = .scheduleIo 0) (hv : Vacant (s.sched i) (v :: l) q) :
    ∃ s', (machine c).Reachable s' ∧ s'.pc i = .scheduleIo 0 ∧ Vacant (s'.sched i) (v :: l) [] ∧
      ∀ j, j ≠ i → s'.sched j = s.sched j := by
  induction q generalizing s with
  | nil => exact ⟨s, h, hp, hv, fun _ _ => rfl⟩
  | cons t q ih =>
      obtain ⟨m, hm, hpm, hvm, hw, hl, ht, hom⟩ := take_alone h hp hv
      obtain ⟨n, hn, hpn, hvn, hon⟩ := finish_alone hm hpm hvm hw hl ht
      obtain ⟨s', hr, hp', hv', ho⟩ := ih hn hpn hvn
      exact ⟨s', hr, hp', hv', fun j hj => by rw [ho j hj, hon j hj, hom j hj]⟩

/-! ## Two long queues -/

/-- The only worker of the second scheduler. -/
abbrev soleWorker : WorkerId twoSchedulers := ⟨0, twoSchedulers.workers_pos⟩

/-- The first scheduler runs a task and has `n` more in its queue, the second one sleeps with `m`
tasks in its queue. -/
structure Filled (n m : Nat) (s : System twoSchedulers) : Prop where
  reachable : (machine twoSchedulers).Reachable s
  main : s.main = .predicate
  task : s.taskWorker first = some soleWorker
  sleeps : s.pc second = .idleSleep
  firstLoad : (s.sched first).stateLoad = 10
  secondLoad : (s.sched second).stateLoad = 0
  firstQueue : (s.sched first).tasks.size = n
  secondQueue : (s.sched second).tasks.size = m
  exit : (s.sched first).exit = false
  vacant : Vacant (s.sched second) [soleWorker] (s.sched second).tasks.queue

theorem filled_zero : ∃ s, Filled 0 0 s := by
  obtain ⟨s, hr, hp⟩ := Machine.exists_of_run (M := machine twoSchedulers)
    (p := fun s => decide (s.main = .predicate ∧ s.taskWorker first = some soleWorker ∧
      s.pc second = .idleSleep ∧ (s.sched first).stateLoad = 10 ∧ (s.sched second).stateLoad = 0 ∧
      (s.sched first).tasks.size = 0 ∧ (s.sched second).tasks.size = 0 ∧
      (s.sched first).exit = false ∧ (s.sched second).idleQueue = [soleWorker] ∧
      (s.sched second).exit = false))
    (.init ⟨0, rfl⟩) (List.replicate 8 (Event.call .main) ++ wakeRun first) (by decide +kernel)
  obtain ⟨h1, h2, h3, h4, h5, h6, h7, h8, h9, h10⟩ := of_decide_eq_true hp
  obtain ⟨hy, hrun, hio, hw⟩ := ((locals_reachable hr).core h3 (by simp)).shape
  exact ⟨s, hr, h1, h2, h3, h4, h5, h6, h7, h8, hrun, hw, hio, hy, h9, rfl, h10⟩

theorem first_or_second (j : SchedId twoSchedulers) : j = first ∨ j = second := by
  revert j
  decide

/-- The scheduler chosen of two. -/
theorem minLoadScheduler_two (f : SchedId twoSchedulers → Int) :
    minLoadScheduler f = if f second < f first then second else first := by
  have hlist : List.finRange twoSchedulers.schedulers = [first, second] := by decide
  rw [minLoadScheduler, hlist]
  simp [lesser]

theorem Filled.firstLoad_eq {n m : Nat} {s : System twoSchedulers} (h : Filled n m s)
    (hn : n ≤ 214748363) : (s.sched first).load = 10 + 10 * n := by
  have hw : (s.sched first).workload = 10 + 10 * n := by
    rw [workload, h.firstLoad, h.firstQueue, Load.task]
    omega
  rw [load_eq, hw]
  exact (wrap32_eq_iff (by omega)).mpr (by omega)

theorem Filled.secondLoad_eq {n m : Nat} {s : System twoSchedulers} (h : Filled n m s)
    (hm : m ≤ 214748364) : (s.sched second).load = 10 * m := by
  have hw : (s.sched second).workload = 10 * m := by
    rw [workload, h.secondLoad, h.secondQueue, Load.task]
    omega
  rw [load_eq, hw]
  exact (wrap32_eq_iff (by omega)).mpr (by omega)

theorem Filled.mtxFree {n m : Nat} {s : System twoSchedulers} (h : Filled n m s)
    (j : SchedId twoSchedulers) : s.mtxFree j = true := by
  have hp := (taskWorker_eq_some h.task).1
  rcases first_or_second j with rfl | rfl
  · simp [System.mtxFree, hp, h.main, Pc.holdsMtx, MainPc.holdsMtx]
  · simp [System.mtxFree, h.sleeps, h.main, Pc.holdsMtx, MainPc.holdsMtx]

/-- As long as the second scheduler has no more tasks than the first one, it is given the next. -/
theorem Filled.async_second {n m : Nat} {s : System twoSchedulers} (h : Filled n m s)
    (hm : m ≤ n) (hn : n ≤ 214748363) : ∃ s', Filled n (m + 1) s' := by
  have hj : second = minLoadScheduler fun k => (s.sched k).load := by
    rw [minLoadScheduler_two, h.firstLoad_eq hn, h.secondLoad_eq (by omega), if_pos (by omega)]
  refine ⟨_, async_alone h.reachable h.task h.mtxFree hj, h.main, h.task, h.sleeps, h.firstLoad,
    h.secondLoad, h.firstQueue, congrArg (· + 1) h.secondQueue, h.exit, ?_⟩
  obtain ⟨h1, h2, h3, h4, h5, -, h7⟩ := h.vacant
  exact ⟨h1, h2, h3, h4, h5, rfl, h7⟩

/-- If it has one more, the first one is given the next. -/
theorem Filled.async_first {n m : Nat} {s : System twoSchedulers} (h : Filled n m s)
    (hm : n < m) (hn : m ≤ 214748364) : ∃ s', Filled (n + 1) m s' := by
  have hj : first = minLoadScheduler fun k => (s.sched k).load := by
    rw [minLoadScheduler_two, h.firstLoad_eq (by omega), h.secondLoad_eq hn, if_neg (by omega)]
  exact ⟨_, async_alone h.reachable h.task h.mtxFree hj, h.main, h.task, h.sleeps, h.firstLoad,
    h.secondLoad, congrArg (· + 1) h.firstQueue, h.secondQueue, h.exit, h.vacant⟩

/-- **The two queues can grow in step** until a load does not fit any more. -/
theorem exists_filled (n : Nat) (hn : n ≤ 214748364) : ∃ s, Filled n n s := by
  induction n with
  | zero => exact filled_zero
  | succ n ih =>
      obtain ⟨s, hs⟩ := ih (by omega)
      obtain ⟨t, ht⟩ := hs.async_second (Nat.le_refl n) (by omega)
      exact ht.async_first (by omega) hn

/-- With the queues filled the second scheduler works off its own and turns to the first one's. -/
theorem Filled.turns {n m : Nat} {s : System twoSchedulers} (h : Filled n (m + 1) s)
    (hn : 2 ≤ n) : ∃ s', (machine twoSchedulers).Reachable s' ∧ s'.pc second = .stealTake first ∧
      s'.sched first = s.sched first ∧ (s'.sched second).exit = false := by
  obtain ⟨t, q, hq⟩ : ∃ t q, (s.sched second).tasks.queue = t :: q := by
    refine List.exists_cons_of_length_eq_add_one (n := m) ?_
    rw [← Tasks.sized, h.secondQueue]
  have hvac := h.vacant
  rw [hq] at hvac
  obtain ⟨w, hw, hpw, hvw, how⟩ := wake_alone h.reachable h.sleeps (h.mtxFree second) hvac
  obtain ⟨d, hd, hpd, hvd, hod⟩ := drain_alone _ hw hpw hvw
  have hsame : d.sched first = s.sched first := by
    rw [hod first (by decide), how first (by decide)]
  have hsteal := steal_alone hd hpd hvd (by decide)
    (by
      show 2 ≤ (d.sched first).tasks.size
      rw [hsame, h.firstQueue]
      exact hn)
  exact ⟨_, hsteal, by rw [System.setPc_pc, Function.update_self], hsame, hvd.exit⟩

/-- **With a long queue a steal raises the load of the victim**, from one end of the 32-bit
integers to the other. -/
theorem long_queue_steal : ∃ s s', (machine twoSchedulers).Reachable s ∧
    (∀ j, (s.sched j).exit = false) ∧ next s (.steal second) = some s' ∧
    (s.sched first).load = -2147483646 ∧ (s'.sched first).load = 2147483640 ∧
    ¬Accounts s second := by
  obtain ⟨s₀, hs₀⟩ := exists_filled 214748364 (Nat.le_refl _)
  obtain ⟨s, hr, hp, hsame, he⟩ := hs₀.turns (by omega)
  have hw : (s.sched first).workload = 2147483650 := by
    rw [hsame, workload, hs₀.firstLoad, hs₀.firstQueue, Load.task]
    omega
  have hq : (s.sched first).tasks.queue ≠ [] := by
    intro hq
    have hlen := (s.sched first).tasks.sized
    rw [hq, hsame, hs₀.firstQueue] at hlen
    cases hlen
  obtain ⟨s', t, hs, ht⟩ := steal_enabled hp hq
  obtain ⟨-, -, hw'⟩ := steal_workload (noSelfSteal_reachable hr) hp hs ht
  have hload : (s.sched first).load = -2147483646 := by
    rw [load_eq, hw]
    decide
  have hload' : (s'.sched first).load = 2147483640 := by
    rw [load_eq, hw', hw]
    decide
  refine ⟨s, s', hr, ?_, hs, hload, hload', ?_⟩
  · intro j
    rcases first_or_second j with rfl | rfl
    · rw [hsame]
      exact hs₀.exit
    · exact he
  · intro ha
    have hlow := (ha.lowers first t s' hp hs ht).2.2
    rw [hload, hload'] at hlow
    cases hlow

end Runtime

end Ums
