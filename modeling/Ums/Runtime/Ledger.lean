import Ums.Lib.Bins
import Ums.Runtime.Local

/-!
# The ledger of tasks

Where a task is: in the queue of a scheduler, in the hand of a scheduler that has
taken it from a queue, in the slot of a worker, or finished. The abstract ledger
is a function from tasks to places, so a task cannot be in two of them; the
system follows it (`Ledger`), since every step leaves all tasks where they are or
carries one task to its next place.
-/

namespace Ums.Runtime

open Lib Scheduler

variable {c : Config} {s s' : System c} {i : SchedId c}

/-- The places a task passes through. -/
inductive Place (c : Config) where
  /-- The task queue of a scheduler. -/
  | queue (j : SchedId c)
  /-- A local variable of the scheduling code. -/
  | hand (i : SchedId c)
  /-- The `m_task` of a worker. -/
  | slot (j : SchedId c) (v : WorkerId c)
  /-- Notified and dropped. -/
  | finished

/-- The task the scheduling code holds. -/
def Pc.hand : Pc c → Option TaskId
  | .assign t _ => some t
  | _ => none

/-- **The abstract ledger.** A task is put in a queue, taken in hand, given to a worker, done. -/
inductive Move : (TaskId → Option (Place c)) → (TaskId → Option (Place c)) → Prop
  | stay {loc} : Move loc loc
  | enque {loc t j} (h : loc t = none) : Move loc (Function.update loc t (some (.queue j)))
  | take {loc t k i} (h : loc t = some (.queue k)) :
      Move loc (Function.update loc t (some (.hand i)))
  | assign {loc t i v} (h : loc t = some (.hand i)) :
      Move loc (Function.update loc t (some (.slot i v)))
  | finish {loc t i v} (h : loc t = some (.slot i v)) :
      Move loc (Function.update loc t (some .finished))

/-- A task that leaves a worker is finished. -/
theorem Move.leave_slot {loc loc' : TaskId → Option (Place c)} {t : TaskId} {v : WorkerId c}
    (h : Move loc loc') (ht : loc t = some (.slot i v)) :
    loc' t = some (.slot i v) ∨ loc' t = some .finished := by
  cases h with
  | stay => exact Or.inl ht
  | @enque u _ hu | @take u _ _ hu | @assign u _ _ hu =>
      have hne : t ≠ u := by
        rintro rfl
        rw [ht] at hu
        cases hu
      rw [Function.update_of_ne hne]
      exact Or.inl ht
  | @finish u _ _ _ =>
      by_cases hne : t = u
      · subst hne
        exact Or.inr (Function.update_self ..)
      · rw [Function.update_of_ne hne]
        exact Or.inl ht

/-- The task is in the given place. -/
def Holds (s : System c) (t : TaskId) : Place c → Prop
  | .queue j => t ∈ (s.sched j).tasks.queue
  | .hand i => (s.pc i).hand = some t
  | .slot j v => ((s.sched j).workers v).task = some t
  | .finished => t ∈ s.notified

/-- The system follows the ledger `loc`. -/
structure Ledger (s : System c) (loc : TaskId → Option (Place c)) : Prop where
  /-- A task is where the ledger says and nowhere else. -/
  located : Located (Holds s) loc
  /-- The ledger knows the tasks that were put in a queue. -/
  known : ∀ t, loc t ≠ none ↔ t < s.nextTask
  /-- A task is in a queue once. -/
  queue : ∀ j, (s.sched j).tasks.queue.Nodup
  /-- A task is finished once. -/
  notified : s.notified.Nodup
  /-- A task is invoked once. -/
  invoked : s.invoked.Nodup
  /-- The tasks invoked so far are the finished ones and those whose worker has invoked them. -/
  started : ∀ t, t ∈ s.invoked ↔
    t ∈ s.notified ∨ ∃ j v, ((s.sched j).workers v).task = some t ∧
      ((s.sched j).workers v).loop ≠ .sync

/-! ## Steps that move no task -/

/-- A scheduler and its control point keep the tasks they have. -/
structure Kept (x : Scheduler c.workers) (p : Pc c) (y : Scheduler c.workers) (q : Pc c) :
    Prop where
  /-- The queue. -/
  queue : y.tasks.queue = x.tasks.queue
  /-- The task in hand. -/
  hand : q.hand = p.hand
  /-- The slots of the workers and what they did with their tasks. -/
  slot : ∀ v, (y.workers v).task = (x.workers v).task ∧ (y.workers v).loop = (x.workers v).loop

theorem Kept.refl (x : Scheduler c.workers) (p : Pc c) : Kept x p x p :=
  ⟨rfl, rfl, fun _ => ⟨rfl, rfl⟩⟩

/-- A change that leaves queue and workers alone. -/
theorem Kept.of_fields {x y : Scheduler c.workers} {p q : Pc c}
    (ht : y.tasks = x.tasks) (hw : y.workers = x.workers) (hp : q.hand = p.hand) : Kept x p y q :=
  ⟨by rw [ht], hp, fun v => by rw [hw]; exact ⟨rfl, rfl⟩⟩

theorem kept_setWorkerState {x y : Scheduler c.workers} {p q : Pc c} (v : WorkerId c)
    (st : WorkerState) (ht : y.tasks = x.tasks) (hw : y.workers = x.workers)
    (hp : q.hand = p.hand) : Kept x p (y.setWorkerState v st) q where
  queue := congrArg Tasks.queue ht
  hand := hp
  slot u := by
    by_cases hu : u = v
    · subst hu; simp [setWorkerState, setWorker, manageLoad, hw]
    · simp [setWorkerState, setWorker, manageLoad, hw, hu]

/-- Every scheduler keeps its tasks from `s` to `s'`. -/
def KeptAll (s s' : System c) : Prop := ∀ j, Kept (s.sched j) (s.pc j) (s'.sched j) (s'.pc j)

theorem keptAll_setBoth {y : Scheduler c.workers} {q : Pc c} (h : Kept (s.sched i) (s.pc i) y q) :
    KeptAll s (s.setBoth i y q) :=
  System.forall_setBoth (P := fun j => Kept (s.sched j) (s.pc j)) (fun _ _ => Kept.refl _ _) h

theorem keptAll_setSched {y : Scheduler c.workers} (h : Kept (s.sched i) (s.pc i) y (s.pc i)) :
    KeptAll s (s.setSched i y) :=
  System.forall_setSched (P := fun j => Kept (s.sched j) (s.pc j)) (fun _ _ => Kept.refl _ _) h

theorem keptAll_setPc {q : Pc c} (h : q.hand = (s.pc i).hand) : KeptAll s (s.setPc i q) :=
  System.forall_setPc (P := fun j => Kept (s.sched j) (s.pc j)) (fun _ _ => Kept.refl _ _)
    ⟨rfl, h, fun _ => ⟨rfl, rfl⟩⟩

theorem KeptAll.trans {t : System c} (h : KeptAll s t) (h' : KeptAll t s') : KeptAll s s' :=
  fun j =>
    ⟨(h' j).queue.trans (h j).queue, (h' j).hand.trans (h j).hand, fun v =>
      ⟨((h' j).slot v).1.trans ((h j).slot v).1, ((h' j).slot v).2.trans ((h j).slot v).2⟩⟩

/-- A thread that goes on with its call has nothing in hand. -/
theorem keptAll_setCall {a : Thread c} {k : Call c} {r : Option (Call c)}
    (hc : s.callOf a = some k) : KeptAll s (s.setCall a r) := by
  cases a with
  | main => exact fun j => Kept.refl _ _
  | active i =>
      refine keptAll_setPc ?_
      rw [callOf_active hc]
      cases r <;> rfl

/-- The places only depend on what `Kept` keeps. -/
theorem KeptAll.holds (h : KeptAll s s') (hn : s'.notified = s.notified) (t : TaskId)
    (q : Place c) : Holds s' t q ↔ Holds s t q := by
  cases q with
  | queue j => simp only [Holds, (h j).queue]
  | hand j => simp only [Holds, (h j).hand]
  | slot j v => simp only [Holds, ((h j).slot v).1]
  | finished => simp only [Holds, hn]

theorem Ledger.kept {loc : TaskId → Option (Place c)} (hl : Ledger s loc) (h : KeptAll s s')
    (ht : s'.nextTask = s.nextTask) (hn : s'.notified = s.notified)
    (hi : s'.invoked = s.invoked) : Ledger s' loc where
  located := hl.located.congr (h.holds hn)
  known := by rw [ht]; exact hl.known
  queue j := by rw [(h j).queue]; exact hl.queue j
  notified := by rw [hn]; exact hl.notified
  invoked := by rw [hi]; exact hl.invoked
  started t := by
    rw [hi, hn, hl.started]
    have : ∀ j v, (((s'.sched j).workers v).task = some t ∧ ((s'.sched j).workers v).loop ≠ .sync) ↔
        (((s.sched j).workers v).task = some t ∧ ((s.sched j).workers v).loop ≠ .sync) := by
      intro j v
      rw [((h j).slot v).1, ((h j).slot v).2]
    simp only [this]

/-- A thread that goes on with its call carries no task. -/
theorem Ledger.setCall {loc : TaskId → Option (Place c)} {a : Thread c} {k : Call c}
    {r : Option (Call c)} (h : Ledger s loc) (hc : s.callOf a = some k) :
    Ledger (s.setCall a r) loc :=
  h.kept (keptAll_setCall hc) System.setCall_nextTask System.setCall_notified
    System.setCall_invoked

/-- The scheduling code moves a task only where it dequeues one or hands one over. -/
theorem kept_code {x y : Scheduler c.workers} {p q : Pc c} (hc : Code s i x p y q)
    (hn : p ≠ .nextTask) (ha : ∀ t stolen, p ≠ .assign t stolen) : Kept x p y q := by
  cases hc with
  | nextNone | nextSome => exact absurd rfl hn
  | assign => exact absurd rfl (ha _ _)
  | ioRound =>
      unfold scheduleIoWorker
      split
      · exact kept_setWorkerState _ _ rfl rfl rfl
      · exact .of_fields rfl rfl rfl
  | waitingRound =>
      unfold scheduleWaitingWorker
      split
      · exact kept_setWorkerState _ _ rfl rfl rfl
      · exact .of_fields rfl rfl rfl
  | yielded =>
      unfold scheduleYieldedWorkers
      split
      · have := kept_setWorkerState (x := x) (y := x) (p := .scheduleYielded) (q := .stealWork)
          ‹_› .runnable rfl rfl rfl
        exact ⟨this.queue, rfl, this.slot⟩
      · exact .of_fields rfl rfl rfl
  | exec hp =>
      obtain ⟨_, _, -, rfl⟩ := prepareExec_eq_some.mp hp
      exact kept_setWorkerState _ _ rfl rfl rfl
  | startTimer =>
      obtain ⟨start, hstart⟩ := x.startIdleTimer_eq s.now
      rw [hstart]
      exact .of_fields rfl rfl rfl
  | exit =>
      unfold exitNow
      split
      · have := kept_setWorkerState (x := x) (y := x) (p := .shouldExit) (q := .exited)
          ‹_› .exiting rfl rfl rfl
        exact ⟨this.queue, rfl, this.slot⟩
      · exact .of_fields rfl rfl rfl
  | _ => exact .of_fields rfl rfl rfl

theorem kept_userStep {now : Time} {x y : Scheduler c.workers} {v : WorkerId c} {op : UserOp c}
    {q : Pc c} (h : userStep now x v op = some (y, q)) : Kept x .user y q := by
  cases op with
  | yield | io =>
      cases h
      exact kept_setWorkerState _ _ rfl rfl rfl
  | setWaitInfo t =>
      simp only [userStep] at h
      split at h <;> cases h
      refine ⟨rfl, rfl, fun u => ?_⟩
      by_cases hu : u = v
      · subst hu; simp [setWorker, Worker.setWaitInfo]
      · simp [setWorker, hu]
  | waitCondOrSleep =>
      simp only [userStep] at h
      split at h <;> cases h
      · exact .of_fields rfl rfl rfl
      · exact kept_setWorkerState _ _ rfl rfl rfl

theorem Ledger.main {loc : TaskId → Option (Place c)} (h : Ledger s loc) (hs : Main s s') :
    Ledger s' loc := by
  cases hs with
  | exitSignal | exitNotify | exitNotifyOne =>
      exact h.kept (keptAll_setSched (.of_fields rfl rfl rfl)) rfl rfl rfl
  | _ => exact h.kept (fun _ => Kept.refl _ _) rfl rfl rfl

/-! ## Steps that move a task -/

variable {loc : TaskId → Option (Place c)} {t : TaskId} {rest : List TaskId}

theorem queue_dropTask {x : Scheduler c.workers} (h : x.tasks.queue = t :: rest) :
    x.dropTask.tasks.queue = rest := by
  rcases x.tasks.deque_cases with ⟨hq, _⟩ | ⟨_, _, hq, _, hd⟩
  · rw [hq] at h
    cases h
  · rw [hq] at h
    cases h
    exact hd

/-- One worker of one scheduler is replaced. -/
theorem worker_setSched {v : WorkerId c} {x : Worker} {y : Scheduler c.workers}
    (hy : y.workers = Function.update (s.sched i).workers v x) (j : SchedId c) (u : WorkerId c) :
    (Function.update s.sched i y j).workers u =
      if j = i ∧ u = v then x else (s.sched j).workers u := by
  by_cases hj : j = i
  · subst hj
    by_cases hu : u = v
    · subst hu; simp [hy]
    · simp [hy, hu]
  · simp [hj]

theorem tasks_setSched {y : Scheduler c.workers} (hy : y.tasks = (s.sched i).tasks)
    (j : SchedId c) : (Function.update s.sched i y j).tasks = (s.sched j).tasks := by
  by_cases hj : j = i
  · subst hj; simp [hy]
  · simp [hj]

theorem workers_setSched {y : Scheduler c.workers} (hy : y.workers = (s.sched i).workers)
    (j : SchedId c) : (Function.update s.sched i y j).workers = (s.sched j).workers := by
  by_cases hj : j = i
  · subst hj; simp [hy]
  · simp [hj]

/-- A task known to be somewhere is below the counter, so the next task is nowhere. -/
theorem Ledger.next_nowhere (h : Ledger s loc) : loc s.nextTask = none := by
  by_contra hn
  exact absurd ((h.known s.nextTask).mp hn) (Nat.lt_irrefl _)

theorem Ledger.known_move (h : Ledger s loc) {k : Place c} (hk : Holds s t k) (k' : Place c)
    (u : TaskId) : Function.update loc t (some k') u ≠ none ↔ u < s.nextTask := by
  by_cases hu : u = t
  · subst hu
    rw [Function.update_self, ← h.known u, (h.located u k).mp hk]
    simp
  · rw [Function.update_of_ne hu, h.known u]

/-- **`Tasks::enque`.** A new task goes to a queue. -/
theorem Ledger.enque (h : Ledger s loc) (j : SchedId c) :
    Ledger { s.setSched j ((s.sched j).enque s.nextTask) with nextTask := s.nextTask + 1 }
      (Function.update loc s.nextTask (some (.queue j))) where
  located := by
    refine h.located.add h.next_nowhere fun u q => ?_
    cases q with
    | queue k =>
        by_cases hk : k = j
        · subst hk; simp [Holds, Scheduler.enque]
        · simp [Holds, hk]
    | slot k v =>
        by_cases hk : k = j
        · subst hk; simp [Holds, Scheduler.enque]
        · simp [Holds, hk]
    | hand | finished => simp [Holds]
  known u := by
    by_cases hu : u = s.nextTask
    · subst hu; simp
    · rw [Function.update_of_ne hu, h.known u]
      exact ⟨Nat.lt_succ_of_lt, fun hlt => Nat.lt_of_le_of_ne (Nat.le_of_lt_succ hlt) hu⟩
  queue k := by
    by_cases hk : k = j
    · subst hk
      -- the ledger has no place for the new task yet, so it is not in this queue
      have hnew : s.nextTask ∉ (s.sched k).tasks.queue := fun hm => by
        have := (h.located s.nextTask (.queue k)).mp hm
        rw [h.next_nowhere] at this
        cases this
      simp only [System.setSched_sched, Function.update_self, Scheduler.enque, Tasks.queue_enque]
      exact List.nodup_append.mpr ⟨h.queue k, by simp, by
        rintro a ha b hb rfl
        rw [List.mem_singleton.mp hb] at ha
        exact hnew ha⟩
    · simp only [System.setSched_sched, Function.update_of_ne hk]
      exact h.queue k
  notified := h.notified
  invoked := h.invoked
  started u := by
    have hsl := workers_setSched (s := s) (i := j) (y := (s.sched j).enque s.nextTask) rfl
    simp only [System.setSched_sched, hsl]
    exact h.started u

/-- **`Tasks::deque`.** The front task of a queue goes to the scheduler that took it. -/
theorem Ledger.take (h : Ledger s loc) {k : SchedId c} (stolen : Bool)
    (hq : (s.sched k).tasks.queue = t :: rest) (hi : (s.pc i).hand = none) :
    Ledger ((s.setSched k (s.sched k).dropTask).setPc i (.assign t stolen))
      (Function.update loc t (some (.hand i))) where
  located := by
    -- the task was in the queue once, so the rest of the queue does not have it
    have hnd := h.queue k
    rw [hq, List.nodup_cons] at hnd
    refine h.located.move (k := .queue k) (by rw [Holds, hq]; simp) fun u q => ?_
    cases q with
    | queue j =>
        by_cases hj : j = k
        · subst hj
          simp only [Holds, System.setPc_sched, System.setSched_sched, Function.update_self,
            queue_dropTask hq, hq, List.mem_cons, and_true, reduceCtorEq,
            and_false, or_false]
          exact ⟨fun hm => ⟨Or.inr hm, fun he => hnd.1 (he ▸ hm)⟩, fun hm => hm.1.resolve_left hm.2⟩
        · simp [Holds, hj]
    | hand j =>
        by_cases hj : j = i
        · subst hj
          simp only [Holds, System.setPc_pc, Function.update_self]
          rw [hi]
          simp [Pc.hand, eq_comm]
        · simp [Holds, hj]
    | slot j v =>
        by_cases hj : j = k
        · subst hj; simp [Holds, dropTask]
        · simp [Holds, hj]
    | finished => simp [Holds]
  known := h.known_move (k := .queue k) (by rw [Holds, hq]; simp) _
  queue j := by
    by_cases hj : j = k
    · subst hj
      have hnd := h.queue j
      rw [hq, List.nodup_cons] at hnd
      simp only [System.setPc_sched, System.setSched_sched, Function.update_self, queue_dropTask hq]
      exact hnd.2
    · simp only [System.setPc_sched, System.setSched_sched, Function.update_of_ne hj]
      exact h.queue j
  notified := h.notified
  invoked := h.invoked
  started u := by
    have hsl := workers_setSched (s := s) (i := k) (y := (s.sched k).dropTask) rfl
    simp only [System.setPc_sched, System.setSched_sched, hsl]
    exact h.started u

/-- The worker an assigned task goes to. -/
theorem assignTask_slot {x y : Scheduler c.workers} (ha : x.assignTask t = some y) :
    ∃ v rest, x.idleQueue = v :: rest ∧ y.tasks = x.tasks ∧
      ∀ u, (y.workers u).task = (if u = v then some t else (x.workers u).task) ∧
        (y.workers u).loop = (x.workers u).loop := by
  obtain ⟨v, rest, hi, rfl⟩ := assignTask_eq_some.mp ha
  refine ⟨v, rest, hi, rfl, fun u => ?_⟩
  by_cases hu : u = v
  · subst hu; simp [parkRunnable, setWorkerState, setWorker, manageLoad]
  · simp [parkRunnable, setWorkerState, setWorker, manageLoad, hu]

/-- **`schedule_idle_worker`.** The task in hand goes to a worker that has none. -/
theorem Ledger.assign (h : Ledger s loc) {y : Scheduler c.workers} {stolen : Bool} {q : Pc c}
    (hp : s.pc i = .assign t stolen) (hc : Core (s.sched i) (.assign t stolen))
    (ha : (s.sched i).assignTask t = some y) (hq : q.hand = none) :
    ∃ v, Ledger (s.setBoth i y q) (Function.update loc t (some (.slot i v))) := by
  obtain ⟨v, idle, hidle, htasks, hslot⟩ := assignTask_slot ha
  -- the front idle worker is free and has not begun anything
  have hst : ((s.sched i).workers v).state = .idle :=
    (hc.placed.binned.mem .idle v).mp (by simp [bin, hidle])
  have hnone : ((s.sched i).workers v).task = none := (hc.sound v).task.mpr hst
  have hsync : ((s.sched i).workers v).loop = .sync := (hc.sound v).loop hnone
  have hand : Holds s t (.hand i) := by rw [Holds, hp]; rfl
  refine ⟨v, ?_⟩
  exact
    { located := by
        refine h.located.move hand fun u q' => ?_
        cases q' with
        | queue j =>
            by_cases hj : j = i
            · subst hj; simp [Holds, htasks]
            · simp [Holds, hj]
        | hand j =>
            by_cases hj : j = i
            · subst hj
              simp only [Holds, System.setBoth_pc, Function.update_self, hq, hp]
              simp [Pc.hand, eq_comm]
            · simp [Holds, hj]
        | slot j v' =>
            by_cases hj : j = i
            · subst hj
              by_cases hv : v' = v
              · subst hv; simp [Holds, hslot, hnone, eq_comm]
              · simp [Holds, hslot, hv]
            · simp [Holds, hj]
        | finished => simp [Holds]
      known := h.known_move hand _
      queue := fun j => by
        by_cases hj : j = i
        · subst hj; simpa [htasks] using h.queue j
        · simpa [hj] using h.queue j
      notified := h.notified
      invoked := h.invoked
      started := fun u => by
        have hiff : ∀ j v', (((s.setBoth i y q).sched j).workers v').task = some u ∧
            (((s.setBoth i y q).sched j).workers v').loop ≠ .sync ↔
            ((s.sched j).workers v').task = some u ∧ ((s.sched j).workers v').loop ≠ .sync := by
          intro j v'
          by_cases hj : j = i
          · subst hj
            by_cases hv : v' = v
            · subst hv; simp [hslot, hsync]
            · simp [hslot, hv]
          · simp [hj]
        simp only [hiff]
        exact h.started u }

/-- The worker begins its task. -/
theorem Ledger.invoke (h : Ledger s loc) {v : WorkerId c}
    (hl : ((s.sched i).workers v).loop = .sync) (ht : ((s.sched i).workers v).task = some t) :
    Ledger { s.setSched i ((s.sched i).setWorker v { (s.sched i).workers v with loop := .invoke })
      with invoked := t :: s.invoked } loc := by
  have hslot : Holds s t (.slot i v) := ht
  have hqueue := tasks_setSched (s := s) (i := i)
    (y := (s.sched i).setWorker v { (s.sched i).workers v with loop := .invoke }) rfl
  have hworker := worker_setSched (s := s) (i := i)
    (y := (s.sched i).setWorker v { (s.sched i).workers v with loop := .invoke }) rfl
  have htask : ∀ j u, (if j = i ∧ u = v then
      { (s.sched i).workers v with loop := .invoke } else (s.sched j).workers u : Worker).task =
      ((s.sched j).workers u).task := by
    intro j u
    split
    · obtain ⟨rfl, rfl⟩ := ‹_ ∧ _›
      rfl
    · rfl
  refine ⟨h.located.congr fun u q => ?_, h.known, fun j => ?_, h.notified, ?_, fun u => ?_⟩
  · cases q <;> simp [Holds, hqueue, hworker, htask]
  · simpa [hqueue] using h.queue j
  · -- nobody invoked it before: it is in this slot and its worker had not begun
    refine List.nodup_cons.mpr ⟨fun hm => ?_, h.invoked⟩
    rcases (h.started t).mp hm with hf | ⟨j, u, hs, hne⟩
    · exact absurd (h.located.unique (k := .finished) hf hslot) (by simp)
    · cases h.located.unique (k := .slot j u) hs hslot
      exact hne hl
  · simp only [System.setSched_sched, hworker, htask, List.mem_cons, h.started u,
      System.setSched_notified]
    constructor
    · rintro (rfl | hf | ⟨j, w, hs, hne⟩)
      · exact Or.inr ⟨i, v, ht, by simp⟩
      · exact Or.inl hf
      · refine Or.inr ⟨j, w, hs, ?_⟩
        split
        · simp
        · exact hne
    · rintro (hf | ⟨j, w, hs, hne⟩)
      · exact Or.inr (Or.inl hf)
      · by_cases hjw : j = i ∧ w = v
        · obtain ⟨rfl, rfl⟩ := hjw
          rw [ht] at hs
          exact Or.inl (Option.some.inj hs).symm
        · rw [if_neg hjw] at hne
          exact Or.inr (Or.inr ⟨j, w, hs, hne⟩)

/-- The worker ends the invocation of its task. -/
theorem Ledger.invoked_notify (h : Ledger s loc) {v : WorkerId c}
    (hl : ((s.sched i).workers v).loop = .invoke) :
    Ledger (s.setSched i ((s.sched i).setWorker v
      { (s.sched i).workers v with loop := .notify })) loc := by
  have hqueue := tasks_setSched (s := s) (i := i)
    (y := (s.sched i).setWorker v { (s.sched i).workers v with loop := .notify }) rfl
  have hworker := worker_setSched (s := s) (i := i)
    (y := (s.sched i).setWorker v { (s.sched i).workers v with loop := .notify }) rfl
  have hsame : ∀ j u, (if j = i ∧ u = v then
      { (s.sched i).workers v with loop := .notify } else (s.sched j).workers u : Worker).task =
        ((s.sched j).workers u).task ∧
      ((if j = i ∧ u = v then
      { (s.sched i).workers v with loop := .notify } else (s.sched j).workers u : Worker).loop ≠
        .sync ↔ ((s.sched j).workers u).loop ≠ .sync) := by
    intro j u
    split
    · obtain ⟨rfl, rfl⟩ := ‹_ ∧ _›
      simp [hl]
    · exact ⟨rfl, Iff.rfl⟩
  refine ⟨h.located.congr fun u q => ?_, h.known, fun j => ?_, h.notified, h.invoked, fun u => ?_⟩
  · cases q <;> simp [Holds, hqueue, hworker, hsame]
  · simpa [hqueue] using h.queue j
  · simp only [System.setSched_sched, System.setSched_invoked, System.setSched_notified, hworker,
      (hsame _ _).1, (hsame _ _).2]
    exact h.started u

/-- **`TaskBase::notify` returns.** The task is finished and its worker drops it. -/
theorem Ledger.finish (h : Ledger s loc) {v : WorkerId c} (hp : s.pc i = .user)
    (hl : ((s.sched i).workers v).loop = .notify) (ht : ((s.sched i).workers v).task = some t) :
    Ledger { s.setBoth i (((s.sched i).setWorker v
        { (s.sched i).workers v with task := none, loop := .sync }).parkWorker .main v)
        (.scheduleIo 0) with notified := t :: s.notified }
      (Function.update loc t (some .finished)) := by
  have hslot : Holds s t (.slot i v) := ht
  have hqueue := tasks_setSched (s := s) (i := i) (y := ((s.sched i).setWorker v
    { (s.sched i).workers v with task := none, loop := .sync }).parkWorker .main v) rfl
  have hworker := worker_setSched (s := s) (i := i) (v := v) (y := ((s.sched i).setWorker v
      { (s.sched i).workers v with task := none, loop := .sync }).parkWorker .main v)
    (x := { (s.sched i).workers v with task := none, loop := .sync, state := .idle })
    (by simp [parkWorker, parkIdle, setWorkerState, setWorker, manageLoad])
  -- a task in a slot is not finished, so it is notified for the first time
  have hfresh : t ∉ s.notified := fun hf =>
    absurd (h.located.unique (k := .finished) hf hslot) (by simp)
  refine ⟨?_, h.known_move hslot _, fun j => ?_, ?_, h.invoked, fun u => ?_⟩
  · refine h.located.move hslot fun u q => ?_
    cases q with
    | queue j => simp [Holds, hqueue]
    | hand j =>
        by_cases hj : j = i
        · subst hj; simp [Holds, hp, Pc.hand]
        · simp [Holds, hj]
    | slot j w =>
        simp only [Holds, System.setBoth_sched, hworker]
        by_cases hjw : j = i ∧ w = v
        · obtain ⟨rfl, rfl⟩ := hjw
          simp [ht, eq_comm]
        · rw [if_neg hjw]
          simp [hjw]
    | finished => simp [Holds, or_comm, and_comm]
  · simpa [hqueue] using h.queue j
  · exact List.nodup_cons.mpr ⟨hfresh, h.notified⟩
  · simp only [System.setBoth_sched, System.setBoth_invoked, hworker, List.mem_cons]
    rw [h.started u]
    constructor
    · rintro (hf | ⟨j, w, hs, hne⟩)
      · exact Or.inl (Or.inr hf)
      · by_cases hjw : j = i ∧ w = v
        · obtain ⟨rfl, rfl⟩ := hjw
          rw [ht] at hs
          exact Or.inl (Or.inl (Option.some.inj hs).symm)
        · exact Or.inr ⟨j, w, by rw [if_neg hjw]; exact hs, by rw [if_neg hjw]; exact hne⟩
    · rintro ((rfl | hf) | ⟨j, w, hs, hne⟩)
      · exact Or.inr ⟨i, v, ht, by rw [hl]; simp⟩
      · exact Or.inl hf
      · by_cases hjw : j = i ∧ w = v
        · rw [if_pos hjw] at hs
          cases hs
        · rw [if_neg hjw] at hs hne
          exact Or.inr ⟨j, w, hs, hne⟩

/-! ## Runs -/

theorem ledger_init (now : Nat) : Ledger (System.constructed c now) fun _ => none where
  located t q := by
    cases q with
    | slot j v => simp [Holds, System.constructed, constructed_workers]
    | queue j => simp [Holds, System.constructed, constructed_tasks]
    | hand | finished => simp [Holds, System.constructed, Pc.hand]
  known t := by simp [System.constructed]
  queue j := by simp [System.constructed, constructed_tasks]
  notified := List.nodup_nil
  invoked := List.nodup_nil
  started t := by simp [System.constructed, constructed_workers]

/-- **Each step leaves every task where it is or carries one to its next place.** -/
theorem ledger_step {e : Event c} (hs : Step s e s') (hloc : Locals s) (h : Ledger s loc) :
    ∃ loc', Move loc loc' ∧ Ledger s' loc' := by
  have hat : ∀ {t : TaskId} {q : Place c}, Holds s t q → loc t = some q :=
    fun hq => (h.located _ _).mp hq
  cases hs with
  | user hw hu =>
      have hp := (taskWorker_eq_some hw).1
      have hk := kept_userStep hu
      rw [← hp] at hk
      exact ⟨loc, .stay, h.kept (keptAll_setBoth hk) rfl rfl rfl⟩
  | async hw =>
      have hp := (taskWorker_eq_some hw).1
      exact ⟨loc, .stay, h.kept (keptAll_setPc (by rw [hp]; rfl)) rfl rfl rfl⟩
  | @notifyWaiter i j _ v hw =>
      have hp := (taskWorker_eq_some hw).1
      have h1 : KeptAll s (s.setSched j ((s.sched j).setCond v)) :=
        keptAll_setSched ⟨rfl, rfl, fun u => by
          by_cases hu : u = v
          · subst hu; simp [setCond, setWorker, Worker.setCond]
          · simp [setCond, setWorker, hu]⟩
      have h2 := keptAll_setPc (s := s.setSched j ((s.sched j).setCond v)) (i := i)
        (q := .call (.notify j (.cond v))) (by simp [hp, Pc.hand])
      exact ⟨loc, .stay, h.kept (h1.trans h2) rfl rfl rfl⟩
  | invoke _ _ hl ht => exact ⟨loc, .stay, h.invoke hl ht⟩
  | invoked _ _ hl => exact ⟨loc, .stay, h.invoked_notify hl⟩
  | @finish i v t hp _ hl ht => exact ⟨_, .finish (hat (q := .slot i v) ht), h.finish hp hl ht⟩
  | compare hc | choose hc => exact ⟨loc, .stay, h.setCall hc⟩
  | @enque a j hc =>
      have hc' : System.callOf { s.setSched j ((s.sched j).enque s.nextTask) with
          nextTask := s.nextTask + 1 } a = some (.enque j) := by cases a <;> exact hc
      exact ⟨_, .enque h.next_nowhere, (h.enque j).setCall hc'⟩
  | @notifySection a j p hc =>
      have h1 : Ledger (s.setSched j (s.sched j).notifySection) loc :=
        h.kept (keptAll_setSched (.of_fields rfl rfl rfl)) rfl rfl rfl
      exact ⟨loc, .stay, h1.setCall hc⟩
  | @notifyCv a j p hc =>
      have h1 : Ledger (s.setSched j (s.sched j).notifyCv) loc :=
        h.kept (keptAll_setSched (.of_fields rfl rfl rfl)) rfl rfl rfl
      exact ⟨loc, .stay, h1.setCall hc⟩
  | @code i _ y q hc =>
      -- the scheduling code moves a task at `next_task` and at `schedule_idle_worker` only
      by_cases hn : s.pc i = .nextTask
      · rw [hn] at hc
        cases hc with
        | nextNone =>
            exact ⟨loc, .stay,
              h.kept (keptAll_setBoth (.of_fields rfl rfl (by rw [hn]; rfl))) rfl rfl rfl⟩
        | nextSome hq =>
            have hl := h.take (i := i) false hq (by rw [hn]; rfl)
            exact ⟨_, .take (hat (q := .queue i) (by rw [Holds, hq]; simp)), hl⟩
      · by_cases ha : ∃ t stolen, s.pc i = .assign t stolen
        · obtain ⟨t, stolen, ha⟩ := ha
          rw [ha] at hc
          cases hc with
          | assign hy hq =>
              have hand : (if stolen then .dispatch else .scheduleYielded : Pc c).hand = none := by
                split <;> rfl
              obtain ⟨v, hv⟩ := h.assign ha (hloc.core ha (by simp)) hy hand
              subst hq
              exact ⟨_, .assign (hat (q := .hand i) (by rw [Holds, ha]; rfl)), hv⟩
        · exact ⟨loc, .stay, h.kept (keptAll_setBoth (kept_code hc hn fun t b he => ha ⟨t, b, he⟩))
            rfl rfl rfl⟩
  | stealNone hp => exact ⟨loc, .stay, h.kept (keptAll_setPc (by rw [hp]; rfl)) rfl rfl rfl⟩
  | @stealSome i k t rest hp hq =>
      exact ⟨_, .take (hat (q := .queue k) (by rw [Holds, hq]; simp)),
        h.take true hq (by rw [hp]; rfl)⟩
  | signalFew hp | signalCv hp | signalRunning hp =>
      exact ⟨loc, .stay,
        h.kept (keptAll_setBoth (.of_fields rfl rfl (by rw [hp]; rfl))) rfl rfl rfl⟩
  | signalAll hp | signalLock hp =>
      exact ⟨loc, .stay, h.kept (keptAll_setPc (by rw [hp]; rfl)) rfl rfl rfl⟩
  | main hm => exact ⟨loc, .stay, h.main hm⟩
  | tick => exact ⟨loc, .stay, h.kept (fun _ => Kept.refl _ _) rfl rfl rfl⟩

theorem ledger_reachable (h : (machine c).Reachable s) : ∃ loc, Ledger s loc := by
  refine Machine.Reach.invariant (I := fun s => ∃ loc, Ledger s loc) ?_ ?_ h
  · rintro s ⟨now, rfl⟩
    exact ⟨_, ledger_init now⟩
  · rintro s e s' hr _ hs ⟨loc, hl⟩
    obtain ⟨loc', _, hl'⟩ := ledger_step (step_of_next hs) (locals_reachable hr) hl
    exact ⟨loc', hl'⟩

/--
**No task is lost, duplicated or run twice.** Every task that was put in a queue
is in exactly one place; the worker a task is handed to had none, a worker that
reaches `m_task` has one, and a worker with a task is not idle; a task is invoked
at most once and leaves its worker by being notified, once, after that.
-/
theorem task_conservation (h : (machine c).Reachable s) :
    (∀ t, t < s.nextTask → ∃! q, Holds s t q) ∧
    (∀ t q, Holds s t q → t < s.nextTask) ∧
    (∀ j, (s.sched j).tasks.queue.Nodup) ∧
    (∀ j v, ((s.sched j).workers v).task ≠ none → ((s.sched j).workers v).state ≠ .idle) ∧
    (∀ i t stolen v rest, s.pc i = .assign t stolen → (s.sched i).idleQueue = v :: rest →
      ((s.sched i).workers v).task = none) ∧
    (∀ i v, (s.pc i).inTask = true → (s.sched i).worker = some v →
      ((s.sched i).workers v).task ≠ none) ∧
    (∀ t, s.invoked.count t ≤ 1) ∧
    (∀ t, s.notified.count t ≤ 1) ∧
    (∀ t, t ∈ s.notified → s.invoked.count t = 1) ∧
    (∀ t i v, Holds s t (.slot i v) → (t ∈ s.invoked ↔ ((s.sched i).workers v).loop ≠ .sync)) ∧
    (∀ t i v e s', Holds s t (.slot i v) → next s e = some s' →
      Holds s' t (.slot i v) ∨ s'.notified.count t = 1) := by
  obtain ⟨loc, hl⟩ := ledger_reachable h
  have hloc := locals_reachable h
  refine ⟨fun t ht => ?_, fun t q hq => ?_, hl.queue, fun j => (hloc j).busy, ?_, ?_, ?_, ?_, ?_,
    ?_, ?_⟩
  · obtain ⟨q, hq⟩ := Option.ne_none_iff_exists'.mp ((hl.known t).mpr ht)
    have hq := (hl.located t q).mpr hq
    exact ⟨q, hq, fun q' hq' => hl.located.unique hq' hq⟩
  · refine (hl.known t).mp ?_
    rw [(hl.located t q).mp hq]
    simp
  · intro i t stolen v rest hp hi
    have hc := hloc.core hp (by simp)
    exact (hc.sound v).task.mpr ((hc.placed.binned.mem .idle v).mp (by simp [bin, hi]))
  · intro i v hp hv
    have hx : s.pc i ≠ .exited := fun hx => by
      rw [hx] at hp
      cases hp
    exact ((hloc i).core hx).task_of_active hp hv
  · exact fun t => List.nodup_iff_count_le_one.mp hl.invoked t
  · exact fun t => List.nodup_iff_count_le_one.mp hl.notified t
  · intro t ht
    exact List.count_eq_one_of_mem hl.invoked ((hl.started t).mpr (Or.inl ht))
  · intro t i v hs
    rw [hl.started t]
    constructor
    · rintro (hf | ⟨j, u, hs', hne⟩)
      · exact absurd (hl.located.unique (k := .finished) hf hs) (by simp)
      · cases hl.located.unique (k := .slot j u) hs' hs
        exact hne
    · exact fun hne => Or.inr ⟨i, v, hs, hne⟩
  · intro t i v e s' hs hn
    -- the ledger lets a task leave a slot in one way only
    obtain ⟨loc', hm, hl'⟩ := ledger_step (step_of_next hn) hloc hl
    rcases hm.leave_slot ((hl.located t _).mp hs) with hstay | hfin
    · exact Or.inl ((hl'.located t _).mpr hstay)
    · have hmem : t ∈ s'.notified := (hl'.located t .finished).mpr hfin
      exact Or.inr (List.count_eq_one_of_mem hl'.notified hmem)

/-- A task that runs is in the slot of its worker, and nowhere else. -/
theorem task_conservation_run : ∃ s, (machine oneWorker).Reachable s ∧ s.invoked = [0] ∧
    Holds s 0 (.slot only onlyWorker) ∧ ∃! q, Holds s 0 q := by
  obtain ⟨s, hr, hp⟩ := Machine.exists_of_run (M := machine oneWorker)
    (p := fun s => decide (s.invoked = [0] ∧ 0 < s.nextTask ∧
      ((s.sched only).workers onlyWorker).task = some 0))
    (.init ⟨0, rfl⟩) (startRun ++ [Event.loop only]) (by decide +kernel)
  obtain ⟨hi, hn, ht⟩ := of_decide_eq_true hp
  exact ⟨s, hr, hi, ht, (task_conservation hr).1 0 hn⟩

end Ums.Runtime
