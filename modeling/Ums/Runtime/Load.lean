import Ums.Runtime.Local

/-!
# Where the workers are and what a scheduler's load is

The annotations of `Ums.Runtime.Local`, read as statements about the lists, the
load counter and the workload: until its thread exits, a scheduler has each worker
in one place, `m_state_load` is the weighted sum of the lengths of the lists, and a
task that moves takes one task's load with it.
-/

namespace Ums

namespace Scheduler

variable {w : Nat} {x y : Scheduler w}

/-- The load as an exact integer: what `load` would return without 32-bit arithmetic. -/
def workload (x : Scheduler w) : Int := x.stateLoad + x.tasks.size * Load.task

/-- `load` is the 32-bit reading of the workload. -/
theorem load_eq (x : Scheduler w) : x.load = wrap32 x.workload := by
  unfold load tasksLoad workload wrap32
  rw [Int.add_bmod_bmod]

/-- A task that leaves a queue takes its load away. -/
theorem workload_dropTask {t : TaskId} {rest : List TaskId} (h : x.tasks.queue = t :: rest) :
    x.dropTask.workload = x.workload - Load.task := by
  rcases x.tasks.deque_cases with ⟨hq, _⟩ | ⟨t', rest', hq, _, hd⟩
  · rw [hq] at h
    cases h
  · have hsz : x.tasks.size = rest'.length + 1 := by rw [x.tasks.sized, hq, List.length_cons]
    have hsz' : x.dropTask.tasks.size = rest'.length := by
      rw [x.dropTask.tasks.sized]
      exact congrArg _ hd
    have hst : x.dropTask.stateLoad = x.stateLoad := rfl
    rw [workload, workload, hsz', hsz, hst]
    unfold Load.task
    push_cast
    omega

/-- A task handed to an idle worker brings its load along. -/
theorem Placed.workload_assignTask {a : Option (Fin w)} {t : TaskId} (h : Placed x a)
    (ha : x.assignTask t = some y) : y.workload = x.workload + Load.task := by
  obtain ⟨v, rest, hi, rfl⟩ := assignTask_eq_some.mp ha
  have hst : (x.workers v).state = .idle := (h.binned.mem .idle v).mp (by simp [bin, hi])
  simp only [workload, Scheduler.parkRunnable, setWorkerState, setWorker, manageLoad,
    Function.update_self, hst, Load.ofState, Load.task]
  omega

theorem assignTask_isSome (t : TaskId) (h : x.idleQueue ≠ []) : ∃ y, x.assignTask t = some y := by
  obtain ⟨v, rest, hi⟩ := List.exists_cons_of_ne_nil h
  exact ⟨_, assignTask_eq_some.mpr ⟨v, rest, hi, rfl⟩⟩

/-- **A queued task handed to an own idle worker leaves `load` as it was.** -/
theorem Placed.load_own {a : Option (Fin w)} {t : TaskId} {rest : List TaskId} (h : Placed x a)
    (hq : x.tasks.queue = t :: rest) (ha : x.dropTask.assignTask t = some y) : y.load = x.load := by
  have hd : Placed x.dropTask a := h.congr rfl rfl rfl
  have h1 := workload_dropTask hq
  have h2 := hd.workload_assignTask ha
  rw [load_eq, load_eq, h2, h1, Int.sub_add_cancel]

end Scheduler

namespace Runtime

open Lib Scheduler

variable {c : Config} {s s' : System c} {i : SchedId c}

/-! ## The other scheduler of a steal -/

/-- The scheduler a thief is looking at. -/
def Pc.victim : Pc c → Option (SchedId c)
  | .stealLoad k | .stealTake k => some k
  | _ => none

/-- Nobody steals from itself. -/
def NoSelfSteal (s : System c) : Prop := ∀ i, (s.pc i).victim ≠ some i

theorem turn_victim {p q : Pc c} (h : Turn s i p q) (hp : p.victim ≠ some i) :
    q.victim ≠ some i := by
  cases h with
  | code hc =>
      cases hc with
      | assign _ hq => subst hq; split <;> simp [Pc.victim]
      | stealOne _ hk | stealMany _ hk => exact fun he => hk (congrArg Fin.val (Option.some.inj he))
      | loadSome => exact hp
      | _ => simp [Pc.victim]
  | task ht => rcases ht with rfl | rfl | ⟨k, rfl⟩ <;> simp [Pc.victim]
  | call ht => rcases ht with rfl | ⟨k, rfl⟩ <;> simp [Pc.victim]
  | steal ht => rcases ht with rfl | ⟨t, rfl⟩ <;> simp [Pc.victim]
  | _ => simp [Pc.victim]

theorem noSelfSteal_reachable (h : (machine c).Reachable s) : NoSelfSteal s := by
  refine h.invariant ?_ ?_
  · rintro s ⟨now, rfl⟩ i
    simp [System.constructed, Pc.victim]
  · intro s e s' _ _ hs hi
    exact (step_of_next hs).forall_pc (P := fun i p => p.victim ≠ some i) hi
      fun _ _ _ => turn_victim

/-! ## What the annotations say -/

/-- What the lists, the running worker and the load counter of a scheduler say of each other. -/
structure Accounted (x : Scheduler c.workers) (p : Pc c) : Prop where
  /-- Each worker is in the place its state names, once, and in no other. -/
  place : ∀ v k, (x.bin (activeAt x p) k).count v = if (x.workers v).state = k then 1 else 0
  /-- That place is one of the six. -/
  named : ∀ v, (x.workers v).state ≠ .initializing ∧ (x.workers v).state ≠ .exiting
  /-- The load counter is the weighted sum of the lengths. -/
  load : x.stateLoad = 10 * (x.runnableQueue.length + (activeAt x p).toList.length
      + x.yieldedWorker.toList.length) + 2 * x.pendingIoQueue.length + x.waitingQueue.length
  /-- The load counter is never negative. -/
  nonneg : 0 ≤ x.stateLoad
  /-- It is never more than as many running workers weigh, so 32 bits are enough for it. -/
  bound : x.stateLoad ≤ 10 * c.workers

theorem Core.accounted {x : Scheduler c.workers} {p : Pc c} (h : Core x p) : Accounted x p where
  place v k := h.placed.binned.count k v
  named v := by
    refine ⟨fun hv => ?_, fun hv => ?_⟩
    · exact absurd ((h.placed.binned.mem _ v).mpr hv) (by simp [bin])
    · exact absurd ((h.placed.binned.mem _ v).mpr hv) (by simp [bin])
  load := h.placed.stateLoad_eq
  nonneg := h.placed.stateLoad_nonneg
  bound := h.placed.stateLoad_le

/-- The scheduling code never takes the front of an empty list. -/
theorem Core.front {x : Scheduler c.workers} {p : Pc c} (h : Core x p) (b : Bool)
    (hp : p = .dispatch ∨ ∃ t stolen, p = .assign t stolen) : (codeStep s i b x p).isSome := by
  rcases hp with rfl | ⟨t, stolen, rfl⟩
  · simp only [codeStep]
    split
    · rename_i hr
      rw [hasRunnableWorkers_iff] at hr
      obtain ⟨v, rest, hr⟩ := List.exists_cons_of_ne_nil hr
      rw [prepareExec_eq_some.mpr ⟨v, rest, hr, rfl⟩]
      rfl
    · rfl
  · have hi : x.idleQueue ≠ [] := by
      have hsh := h.shape
      cases stolen
      · exact hsh.2
      · exact hsh.2.2
    obtain ⟨y, hy⟩ := assignTask_isSome t hi
    simp [codeStep, hy]

/-- A thief takes a task, and with it the task's load, from its victim. -/
theorem steal_workload {k : SchedId c} {t : TaskId} (hn : NoSelfSteal s)
    (hp : s.pc i = .stealTake k) (hs : next s (.steal i) = some s')
    (ht : s'.pc i = .assign t true) :
    k ≠ i ∧ s'.sched i = s.sched i ∧
      (s'.sched k).workload = (s.sched k).workload - Load.task := by
  have hk : k ≠ i := fun he => hn i (by rw [hp, he]; rfl)
  have hstep := step_of_next hs
  cases hstep with
  | stealNone =>
      simp at ht
  | @stealSome _ k' t' rest hp' hq =>
      obtain rfl : k = k' := by
        rw [hp] at hp'
        exact Pc.stealTake.inj hp'
      refine ⟨hk, ?_, ?_⟩
      · simp [hk.symm]
      · simp only [System.setPc_sched, System.setSched_sched, Function.update_self]
        exact workload_dropTask hq

/-- A thief, or a scheduler with a task of its own, hands the task over and takes on its load. -/
theorem assign_workload {t : TaskId} {stolen b : Bool} (h : Core (s.sched i) (.assign t stolen))
    (hp : s.pc i = .assign t stolen) (hs : next s (.code i b) = some s') :
    (s'.sched i).workload = (s.sched i).workload + Load.task := by
  have hstep := step_of_next hs
  cases hstep with
  | code hc =>
      rw [hp] at hc
      cases hc with
      | assign ha =>
          simp only [System.setBoth_sched, Function.update_self]
          exact h.placed.workload_assignTask ha

end Runtime

end Ums
