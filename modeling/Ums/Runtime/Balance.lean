import Ums.Runtime.Load

/-!
# Load balancing

`min_load_scheduler` compares what `load` returns, a signed 32-bit integer. Whether it finds a
scheduler that has least to do depends on whether `load` is what the scheduler has to do, which
is a matter of the length of its queue only: the counters of the workers are small.
-/

namespace Ums

open Scheduler

/-! ## What `load` returns -/

/-- A 32-bit reading is exact as long as the value fits. -/
theorem wrap32_eq_iff {x : Int} (h : 0 ≤ x) : wrap32 x = x ↔ x ≤ 2 ^ 31 - 1 := by
  unfold wrap32
  constructor
  · intro he
    have hlt : x.bmod (2 ^ 32) < _ := Int.bmod_lt (by decide)
    rw [he] at hlt
    omega
  · intro hle
    apply Int.bmod_eq_of_le <;> omega

namespace Scheduler

variable {w : Nat}

/-- The product in `tasks_load` is one of unsigned 64-bit integers; the cast does not see that. -/
theorem tasksLoad_eq (x : Scheduler w) :
    x.tasksLoad = wrap32 ((x.tasks.size * Load.task) % 2 ^ 64) := by
  have hmod : (x.tasks.size * Load.task) % 2 ^ 64 % 2 ^ 32 = x.tasks.size * Load.task % 2 ^ 32 :=
    Int.emod_emod_of_dvd _ (by decide)
  unfold tasksLoad wrap32
  rw [Int.bmod_eq_emod, Int.bmod_eq_emod]
  simp only [Nat.cast_pow, Nat.cast_ofNat, hmod]

end Scheduler

/-- A scheduler whose load counter is accurate. -/
structure Counted (w : Nat) where
  /-- The scheduler. -/
  scheduler : Scheduler w
  /-- The counter is the sum of the loads of the workers. -/
  counted : scheduler.stateLoad = ∑ v, Load.ofState (scheduler.stateOf v)

namespace Counted

variable {w : Nat} (x : Counted w)

/-- `load`. -/
def load : Int := x.scheduler.load

/-- What it is to return: ten for every queued task, and the loads of the workers. -/
def workload : Int := 10 * x.scheduler.tasks.size + ∑ v, Load.ofState (x.scheduler.stateOf v)

theorem workload_eq : x.workload = x.scheduler.workload := by
  rw [workload, Scheduler.workload, x.counted, Load.task]
  omega

theorem load_eq : x.load = wrap32 x.workload := by
  rw [load, Scheduler.load_eq, x.workload_eq]

theorem workload_nonneg : 0 ≤ x.workload := by
  have hsum : 0 ≤ ∑ v, Load.ofState (x.scheduler.stateOf v) := by
    refine Finset.sum_nonneg ?_
    intro v _
    cases x.scheduler.stateOf v <;> decide
  unfold workload
  omega

/-- `load` is exact as long as the load fits 32 bits. -/
theorem load_eq_workload_iff : x.load = x.workload ↔ x.workload ≤ 2 ^ 31 - 1 := by
  rw [x.load_eq]
  exact wrap32_eq_iff x.workload_nonneg

/-- A scheduler that has been constructed, with `n` tasks in its queue. -/
def queued (w n : Nat) : Counted w where
  scheduler := { constructed w with tasks := ⟨List.range n, n, (List.length_range ..).symm⟩ }
  counted := (placed_constructed w).load

theorem workload_queued (n : Nat) : (queued w n).workload = 10 * n := by
  have hidle : ∀ v : Fin w, Load.ofState ((queued w n).scheduler.stateOf v) = 0 := by
    intro v
    have hst : ((constructed w).workers v).state = .idle := by rw [constructed_workers]
    show Load.ofState ((constructed w).workers v).state = 0
    rw [hst]
    rfl
  rw [workload, Finset.sum_congr rfl fun v _ => hidle v, Finset.sum_const_zero, Int.add_zero]
  rfl

end Counted

/-! ## Choosing a scheduler -/

section

variable {α : Type} (f : α → Int)

/-- One comparison of `min_element`: the first of two equal ones stays. -/
def lesser (best k : α) : α := if f k < f best then k else best

theorem lesser_le (best k : α) : f (lesser f best k) ≤ f best ∧ f (lesser f best k) ≤ f k := by
  unfold lesser
  split
  · constructor <;> omega
  · constructor <;> omega

/-- The element that is left has the least value of all that were compared. -/
theorem foldl_lesser_le (l : List α) (best : α) :
    f (l.foldl (lesser f) best) ≤ f best ∧ ∀ k ∈ l, f (l.foldl (lesser f) best) ≤ f k := by
  induction l generalizing best with
  | nil => exact ⟨Int.le_refl _, by simp⟩
  | cons a l ih =>
      obtain ⟨hbest, hall⟩ := ih (lesser f best a)
      obtain ⟨h1, h2⟩ := lesser_le f best a
      refine ⟨Int.le_trans hbest h1, ?_⟩
      intro k hk
      rcases List.mem_cons.mp hk with rfl | hk
      · exact Int.le_trans hbest h2
      · exact hall k hk

end

namespace Schedulers

variable {c : Config}

/-- `min_load_scheduler`, when nothing changes meanwhile. -/
def minLoadScheduler (load : SchedId c → Int) : SchedId c :=
  (List.finRange c.schedulers).foldl (lesser load) ⟨0, c.schedulers_pos⟩

/-- It returns a scheduler that shows no more than any other. -/
theorem minLoadScheduler_le (load : SchedId c → Int) (i : SchedId c) :
    load (minLoadScheduler load) ≤ load i :=
  (foldl_lesser_le load _ _).2 i (List.mem_finRange i)

/-- **Load balancing is exact**: each scheduler shows what it has to do, and one that has least to
do is chosen. -/
def Balanced (x : SchedId c → Counted c.workers) : Prop :=
  (∀ i, (x i).load = (x i).workload ∧ 0 ≤ (x i).load) ∧
    ∀ i, (x (minLoadScheduler fun j => (x j).load)).workload ≤ (x i).workload

/-- **Load balancing is exact as long as every load fits 32 bits, and only then.** -/
theorem balanced_iff (x : SchedId c → Counted c.workers) :
    Balanced x ↔
      ∀ i, 10 * ((x i).scheduler.tasks.size : Int) +
        ∑ v, Load.ofState ((x i).scheduler.stateOf v) ≤ 2 ^ 31 - 1 := by
  constructor
  · rintro ⟨hload, -⟩ i
    exact (x i).load_eq_workload_iff.mp (hload i).1
  · intro hfit
    have hload : ∀ i, (x i).load = (x i).workload :=
      fun i => (x i).load_eq_workload_iff.mpr (hfit i)
    refine ⟨fun i => ⟨hload i, ?_⟩, fun i => ?_⟩
    · rw [hload i]
      exact (x i).workload_nonneg
    · rw [← hload, ← hload i]
      exact minLoadScheduler_le (fun j => (x j).load) i

/-- Two schedulers with one worker each. -/
abbrev twoSchedulers : Config := Options.config 2 1

/-- A long queue at the first scheduler, one task at the second. -/
def longQueue (i : SchedId twoSchedulers) : Counted twoSchedulers.workers :=
  .queued _ (if i.val = 0 then 214748365 else 1)

/-- **A scheduler with a long queue looks idle** and is given one more task. -/
theorem long_queue_chosen : ¬Balanced longQueue ∧
    (longQueue ⟨0, by decide⟩).load = -2147483646 ∧
    minLoadScheduler (fun j => (longQueue j).load) = ⟨0, by decide⟩ := by
  have h0 : (longQueue ⟨0, by decide⟩).load = -2147483646 := by
    rw [Counted.load_eq, longQueue, if_pos rfl, Counted.workload_queued]
    decide
  have h1 : (longQueue ⟨1, by decide⟩).load = 10 := by
    rw [Counted.load_eq, longQueue, if_neg (by decide), Counted.workload_queued]
    decide
  have hmin : minLoadScheduler (fun j => (longQueue j).load) = ⟨0, by decide⟩ := by
    have hlist : List.finRange twoSchedulers.schedulers =
        [⟨0, by decide⟩, ⟨1, by decide⟩] := by decide
    rw [minLoadScheduler, hlist]
    simp only [List.foldl_cons, List.foldl_nil, lesser, h0, h1]
    decide
  refine ⟨?_, h0, hmin⟩
  rintro ⟨hload, -⟩
  have hneg := (hload ⟨0, by decide⟩).2
  rw [h0] at hneg
  cases hneg

end Schedulers

namespace Runtime

open Lib Schedulers

variable {c : Config} {s : System c} {a : Thread c}

/-- Until its thread exits, the counter of a scheduler is accurate. -/
theorem counted_reachable (h : (machine c).Reachable s) (i : SchedId c)
    (he : (s.sched i).exit = false) : ∃ x : Counted c.workers, x.scheduler = s.sched i := by
  have hl := locals_reachable h i
  have hx : s.pc i ≠ .exited := fun hp => by
    rw [hl.exit hp] at he
    cases he
  exact ⟨⟨s.sched i, (hl.core hx).placed.load⟩, rfl⟩

/-- One comparison of `min_load_scheduler` reads four counters. -/
theorem compare_run {k : Nat} {best : SchedId c} (hk : k < c.schedulers)
    (hc : s.callOf a = some (.minLoad k best .nothing)) :
    (machine c).run s (List.replicate 4 (.call a)) = some (s.setCall a (some
      (.minLoad (k + 1) (lesser (fun j => (s.sched j).load) best ⟨k, hk⟩) .nothing))) := by
  simp only [List.replicate, Machine.run_cons, Machine.run_nil, machine, next, hc,
    callOf_setCall_self, callStep, hk, dif_pos, Option.map_some, Option.bind_some,
    System.setCall_sched, System.setCall_setCall]
  rfl

/-- One comparison of `min_load_scheduler` after the other, while nothing else happens. -/
theorem minLoad_from (d k : Nat) (best : SchedId c) (hk : k + d = c.schedulers)
    (hc : s.callOf a = some (.minLoad k best .nothing)) :
    (machine c).run s (List.replicate (4 * d + 1) (.call a)) = some (s.setCall a (some (.enque
      (((List.finRange c.schedulers).drop k).foldl (lesser fun j => (s.sched j).load) best)))) := by
  induction d generalizing k best s with
  | zero =>
      have hdrop : (List.finRange c.schedulers).drop k = [] :=
        List.drop_eq_nil_of_le (by rw [List.length_finRange]; omega)
      have hnext : (machine c).next s (.call a) = some (s.setCall a (some (.enque best))) := by
        simp [machine, next, hc, callStep, show ¬k < c.schedulers by omega]
      rw [Nat.mul_zero, Nat.zero_add, List.replicate_one, Machine.run_cons, hnext, hdrop]
      rfl
  | succ d ih =>
      have hlt : k < c.schedulers := by omega
      have hdrop : (List.finRange c.schedulers).drop k =
          ⟨k, hlt⟩ :: (List.finRange c.schedulers).drop (k + 1) := by
        rw [List.drop_eq_getElem_cons (by rw [List.length_finRange]; exact hlt)]
        simp
      have hrest := ih (k + 1) (lesser (fun j => (s.sched j).load) best ⟨k, hlt⟩) (by omega)
        (callOf_setCall_self (s := s) (a := a))
      rw [show 4 * (d + 1) + 1 = 4 + (4 * d + 1) by omega, List.replicate_add,
        Machine.run_append (compare_run hlt hc), hrest, hdrop, List.foldl_cons,
        System.setCall_setCall, System.setCall_sched]

/-- **A call puts its task in the queue of `min_load_scheduler`**, if it finds the schedulers as
they are. -/
theorem minLoad_run (hc : s.callOf a = some (.minLoad 1 ⟨0, c.schedulers_pos⟩ .nothing)) :
    (machine c).run s (List.replicate (4 * (c.schedulers - 1) + 1) (.call a)) =
      some (s.setCall a (some (.enque (minLoadScheduler fun j => (s.sched j).load)))) := by
  have hpos := c.schedulers_pos
  have hlist : List.finRange c.schedulers =
      ⟨0, hpos⟩ :: (List.finRange c.schedulers).drop 1 := by
    have hdrop := List.drop_eq_getElem_cons (l := List.finRange c.schedulers) (i := 0)
      (by rw [List.length_finRange]; exact hpos)
    simpa using hdrop
  have hself : lesser (fun j => (s.sched j).load) ⟨0, hpos⟩ ⟨0, hpos⟩ = ⟨0, hpos⟩ := by
    simp [lesser]
  rw [minLoad_from (c.schedulers - 1) 1 _ (by omega) hc, minLoadScheduler]
  conv => rhs; rw [hlist]
  rw [List.foldl_cons, hself]

/-- **A call of `async` carried out alone** puts its task at the scheduler `min_load_scheduler`
returns. -/
theorem async_alone {i : SchedId c} {v : WorkerId c} (h : (machine c).Reachable s)
    (hw : s.taskWorker i = some v) (hf : ∀ j, s.mtxFree j = true) {j : SchedId c}
    (hj : j = minLoadScheduler fun k => (s.sched k).load) :
    (machine c).Reachable { s.setSched j ((s.sched j).enque s.nextTask).notifySection.notifyCv with
      nextTask := s.nextTask + 1 } := by
  have hp := (taskWorker_eq_some hw).1
  have hbegin : (machine c).Reachable (s.setCall (.active i)
      (some (.minLoad 1 ⟨0, c.schedulers_pos⟩ .nothing))) :=
    h.tail (e := .async i) (by simp [machine, next, hw, System.setCall])
  have hchoose := Machine.reachable_of_run hbegin _ (minLoad_run callOf_setCall_self)
  rw [System.setCall_setCall, System.setCall_sched, ← hj] at hchoose
  have henque : (machine c).Reachable (({ s.setSched j ((s.sched j).enque s.nextTask) with
      nextTask := s.nextTask + 1 } : System c).setCall (.active i)
        (some (.notify j (.task s.nextTask)))) := by
    refine hchoose.tail (e := .call (.active i)) ?_
    simp only [machine, next, callOf_setCall_self, callStep, Option.map_some]
    simp [System.setCall, System.setPc, System.setSched]
  have hsection : (machine c).Reachable (({ s.setSched j
      ((s.sched j).enque s.nextTask).notifySection with
      nextTask := s.nextTask + 1 } : System c).setCall (.active i)
        (some (.notifyOne j (.task s.nextTask)))) := by
    refine henque.tail (e := .call (.active i)) ?_
    have hfree : System.mtxFree (({ s.setSched j ((s.sched j).enque s.nextTask) with
      nextTask := s.nextTask + 1 } : System c).setCall (.active i)
        (some (.notify j (.task s.nextTask)))) j = true := by
      have hj := hf j
      unfold System.mtxFree at hj ⊢
      by_cases hi : j = i
      · subst hi
        simpa [System.setCall, Pc.holdsMtx, hp] using hj
      · simpa [System.setCall, hi] using hj
    simp only [machine, next, callOf_setCall_self, callStep, hfree, if_true, Option.map_some]
    simp [System.setCall, System.setPc, System.setSched]
  refine hsection.tail (e := .call (.active i)) ?_
  simp only [machine, next, callOf_setCall_self, callStep, Option.map_some]
  simp [System.setCall, System.setPc, System.setSched, hp]

end Runtime

end Ums
