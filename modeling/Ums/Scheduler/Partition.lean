import Mathlib.Algebra.Order.BigOperators.Group.Finset
import Mathlib.Algebra.Order.Ring.Int
import Ums.Lib.Bins
import Ums.Scheduler.Basic

/-!
# Where the workers of a scheduler are

Each worker is linked into one of the four lists, sits in the yielded slot or is
the running one, and its `m_state` says which; `m_state_load` is the sum of the
loads of these states. `Placed` states this for a scheduler and the worker that
runs at the moment, if one does, and every function that moves a worker keeps it.
-/

namespace Ums

instance : Fintype WorkerState where
  elems := {.initializing, .idle, .waiting, .pendingIo, .yielded, .runnable, .running, .exiting}
  complete k := by cases k <;> decide

namespace Scheduler

open Lib

variable {w : Nat} {s : Scheduler w} {a : Option (Fin w)}

/-- The workers a scheduler keeps in the place a state stands for; `a` is the running worker. -/
def bin (s : Scheduler w) (a : Option (Fin w)) : WorkerState → List (Fin w)
  | .runnable => s.runnableQueue
  | .idle => s.idleQueue
  | .waiting => s.waitingQueue
  | .pendingIo => s.pendingIoQueue
  | .yielded => s.yieldedWorker.toList
  | .running => a.toList
  | .initializing => []
  | .exiting => []

/-- The state of each worker. -/
def stateOf (s : Scheduler w) (v : Fin w) : WorkerState := (s.workers v).state

/-- Each worker is in the place its state names, and the load counter is accurate. -/
structure Placed (s : Scheduler w) (a : Option (Fin w)) : Prop where
  /-- A worker is in the place of its state, once, and in no other. -/
  binned : Binned s.stateOf (s.bin a)
  /-- The load counter is the sum of the workers' loads. -/
  load : s.stateLoad = ∑ v, Load.ofState (s.stateOf v)

/-! ## What the moves do to the places -/

theorem stateOf_setWorkerState (v : Fin w) (st : WorkerState) :
    (s.setWorkerState v st).stateOf = Function.update s.stateOf v st := by
  funext u
  by_cases hu : u = v
  · subst hu; simp [stateOf, setWorkerState, setWorker]
  · simp [stateOf, setWorkerState, setWorker, manageLoad, hu]

/-- A worker replaced by one in the same state moves nobody. -/
theorem stateOf_setWorker {v : Fin w} {x : Worker} (hx : x.state = (s.workers v).state) :
    (s.setWorker v x).stateOf = s.stateOf := by
  funext u
  by_cases hu : u = v
  · subst hu; simp [stateOf, setWorker, hx]
  · simp [stateOf, setWorker, hu]

/--
**The move lemma.** A worker unlinked from its place and then parked in another
with `set_worker_state` is placed again, and the counter follows.

`t` is the scheduler between the unlinking and the state change: it has the
workers and the counter of `s` and already has the lists of the result.
-/
theorem Placed.move (h : Placed s a) {t : Scheduler w} {b : Option (Fin w)} {v : Fin w}
    {st : WorkerState} (hst : t.stateOf = s.stateOf) (hload : t.stateLoad = s.stateLoad)
    (hne : s.stateOf v ≠ st)
    (hout : (s.bin a (s.stateOf v)).Perm (v :: t.bin b (s.stateOf v)))
    (hin : (t.bin b st).Perm (v :: s.bin a st))
    (hrest : ∀ k, k ≠ s.stateOf v → k ≠ st → t.bin b k = s.bin a k) :
    Placed (t.setWorkerState v st) b where
  binned := by
    rw [stateOf_setWorkerState, hst]
    exact h.binned.move hne hout hin hrest
  load := by
    rw [stateOf_setWorkerState, hst, sum_update_tag, ← h.load, ← hload, ← hst]
    rfl

/-- What a change of other data leaves in place. -/
theorem Placed.congr (h : Placed s a) {t : Scheduler w} {b : Option (Fin w)}
    (hst : t.stateOf = s.stateOf) (hbin : t.bin b = s.bin a) (hload : t.stateLoad = s.stateLoad) :
    Placed t b where
  binned := by rw [hst, hbin]; exact h.binned
  load := by rw [hst, hload]; exact h.load

theorem Placed.stateOf_active {v : Fin w} (h : Placed s (some v)) : s.stateOf v = .running :=
  (h.binned.mem .running v).mp (by simp [bin])

/-! ## The running worker parks itself -/

theorem Placed.parkYielded {v : Fin w} (h : Placed s (some v)) (hy : s.yieldedWorker = none) :
    Placed (s.parkYielded v) none := by
  have hv := h.stateOf_active
  refine h.move (t := { s with yieldedWorker := some v }) rfl rfl (by simp [hv]) ?_ ?_ ?_
  · simp [hv, bin]
  · simp [bin, hy]
  · intro k h1 h2
    cases k <;> simp_all [bin]

theorem Placed.parkWaiting {v : Fin w} (h : Placed s (some v)) : Placed (s.parkWaiting v) none := by
  have hv := h.stateOf_active
  refine h.move (t := { s with waitingQueue := s.waitingQueue ++ [v] }) rfl rfl (by simp [hv])
    ?_ ?_ ?_
  · simp [hv, bin]
  · exact List.perm_append_singleton v s.waitingQueue
  · intro k h1 h2
    cases k <;> simp_all [bin]

theorem Placed.parkPendingIo {v : Fin w} (h : Placed s (some v)) :
    Placed (s.parkPendingIo v) none := by
  have hv := h.stateOf_active
  refine h.move (t := { s with pendingIoQueue := s.pendingIoQueue ++ [v] }) rfl rfl (by simp [hv])
    ?_ ?_ ?_
  · simp [hv, bin]
  · exact List.perm_append_singleton v s.pendingIoQueue
  · intro k h1 h2
    cases k <;> simp_all [bin]

theorem Placed.parkIdle {v : Fin w} (h : Placed s (some v)) (back : Bool) :
    Placed (s.parkIdle back v) none := by
  have hv := h.stateOf_active
  refine h.move (t := { s with idleQueue := if back then s.idleQueue ++ [v] else v :: s.idleQueue })
    rfl rfl (by simp [hv]) ?_ ?_ ?_
  · simp [hv, bin]
  · cases back
    · exact List.Perm.refl _
    · exact List.perm_append_singleton v s.idleQueue
  · intro k h1 h2
    cases k <;> simp_all [bin]

/-! ## The scheduling code moves a worker -/

/-- The element at a position and the list without it, back together. -/
private theorem perm_cons_eraseIdx {l : List (Fin w)} {it : Nat} {v : Fin w}
    (h : l[it]? = some v) : l.Perm (v :: l.eraseIdx it) := by
  obtain ⟨hlt, rfl⟩ := List.getElem?_eq_some_iff.mp h
  exact (List.getElem_cons_eraseIdx_perm hlt).symm

/-- A worker unlinked from the list of its state and parked as runnable. -/
theorem Placed.parkRunnable (h : Placed s a) {t : Scheduler w} {b : Option (Fin w)} {v : Fin w}
    (hst : t.stateOf = s.stateOf) (hload : t.stateLoad = s.stateLoad)
    (hne : s.stateOf v ≠ .runnable)
    (hout : (s.bin a (s.stateOf v)).Perm (v :: t.bin b (s.stateOf v)))
    (hrest : ∀ k, k ≠ s.stateOf v → t.bin b k = s.bin a k) :
    Placed (t.parkRunnable v) b := by
  have hrun : t.runnableQueue = s.runnableQueue := hrest .runnable (Ne.symm hne)
  refine h.move (t := { t with runnableQueue := t.runnableQueue ++ [v] }) hst hload hne ?_ ?_ ?_
  · have : ({ t with runnableQueue := t.runnableQueue ++ [v] } : Scheduler w).bin b (s.stateOf v)
        = t.bin b (s.stateOf v) := by
      cases hk : s.stateOf v <;> simp_all [bin]
    rw [this]
    exact hout
  · show (t.runnableQueue ++ [v]).Perm (v :: s.runnableQueue)
    rw [hrun]
    exact List.perm_append_singleton v s.runnableQueue
  · intro k h1 h2
    rw [← hrest k h1]
    cases k <;> simp_all [bin]

theorem Placed.scheduleIoWorker (h : Placed s a) {it : Nat} {v : Fin w}
    (hv : s.pendingIoQueue[it]? = some v) (completed : Bool) :
    Placed (s.scheduleIoWorker it v completed).1 a := by
  unfold Scheduler.scheduleIoWorker
  split
  · have hst : s.stateOf v = .pendingIo := (h.binned.mem .pendingIo v).mp (List.mem_of_getElem? hv)
    refine h.parkRunnable (t := { s with pendingIoQueue := s.pendingIoQueue.eraseIdx it })
      rfl rfl (by simp [hst]) ?_ ?_
    · rw [hst]; exact perm_cons_eraseIdx hv
    · intro k hk
      cases k <;> simp_all [bin]
  · exact h

theorem Placed.scheduleWaitingWorker (h : Placed s a) {it : Nat} {v : Fin w}
    (hv : s.waitingQueue[it]? = some v) (now : Time) :
    Placed (s.scheduleWaitingWorker it v now).1 a := by
  unfold Scheduler.scheduleWaitingWorker
  split
  · have hst : s.stateOf v = .waiting := (h.binned.mem .waiting v).mp (List.mem_of_getElem? hv)
    refine h.parkRunnable (t := { s with waitingQueue := s.waitingQueue.eraseIdx it })
      rfl rfl (by simp [hst]) ?_ ?_
    · rw [hst]; exact perm_cons_eraseIdx hv
    · intro k hk
      cases k <;> simp_all [bin]
  · exact h

theorem Placed.scheduleYieldedWorkers (h : Placed s a) : Placed s.scheduleYieldedWorkers a := by
  unfold Scheduler.scheduleYieldedWorkers
  split
  · rename_i v hv
    have hst : s.stateOf v = .yielded := (h.binned.mem .yielded v).mp (by simp [bin, hv])
    refine h.parkRunnable (t := { s with yieldedWorker := none }) rfl rfl (by simp [hst]) ?_ ?_
    · rw [hst]; simp [bin, hv]
    · intro k hk
      cases k <;> simp_all [bin]
  · exact h

theorem Placed.assignTask (h : Placed s a) {t : TaskId} {s' : Scheduler w}
    (ha : s.assignTask t = some s') : Placed s' a := by
  obtain ⟨v, rest, hi, rfl⟩ := assignTask_eq_some.mp ha
  have hst : s.stateOf v = .idle := (h.binned.mem .idle v).mp (by simp [bin, hi])
  refine h.parkRunnable (stateOf_setWorker rfl) rfl (by simp [hst]) ?_ ?_
  · rw [hst]; simp [bin, hi, setWorker]
  · intro k hk
    cases k <;> simp_all [bin, setWorker]

theorem Placed.prepareExec (h : Placed s none) {s' : Scheduler w}
    (hp : s.prepareExec = some s') : ∃ v, s'.worker = some v ∧ Placed s' (some v) := by
  obtain ⟨v, rest, hr, rfl⟩ := prepareExec_eq_some.mp hp
  have hst : s.stateOf v = .runnable := (h.binned.mem .runnable v).mp (by simp [bin, hr])
  refine ⟨v, rfl, h.move rfl rfl (by simp [hst]) ?_ ?_ ?_⟩
  · rw [hst]; simp [bin, hr]
  · simp [bin]
  · intro k h1 h2
    cases k <;> simp_all [bin, invalidateIdleTimer]

/-! ## A scheduler as its constructor leaves it -/

/-- The workers parked so far while the scheduler is initializing. -/
private structure ParkedAll (s : Scheduler w) (l : List (Fin w)) : Prop where
  idle : s.idleQueue = l
  rest : s.runnableQueue = [] ∧ s.waitingQueue = [] ∧ s.pendingIoQueue = [] ∧ s.yieldedWorker = none
  state : s.state = .initializing
  load : s.stateLoad = 0
  tasks : s.tasks = {}
  exit : s.exit = false
  workers : ∀ v, s.workers v = if v ∈ l then { state := .idle } else {}

private theorem ParkedAll.park {l : List (Fin w)} {v : Fin w} (h : ParkedAll s l) (hv : v ∉ l) :
    ParkedAll (s.parkWorker .main v) (l ++ [v]) := by
  have hback : s.initializing = true := by rw [initializing, h.state]; rfl
  have hw : s.workers v = {} := by rw [h.workers, if_neg hv]
  simp only [parkWorker, Scheduler.parkIdle, hback]
  refine ⟨by simp [setWorkerState, setWorker, manageLoad, h.idle], h.rest, h.state, ?_, h.tasks,
    h.exit, fun u => ?_⟩
  · simp [setWorkerState, setWorker, manageLoad, hw, h.load, Load.ofState]
  · by_cases hu : u = v
    · subst hu; simp [setWorkerState, setWorker, manageLoad, hw]
    · simp [setWorkerState, setWorker, manageLoad, hu, h.workers]

private theorem parkedAll_foldl (m l : List (Fin w)) (h : ParkedAll s l) (hnd : (l ++ m).Nodup) :
    ParkedAll (m.foldl (fun s v => s.parkWorker .main v) s) (l ++ m) := by
  induction m generalizing s l with
  | nil => rw [List.append_nil]; exact h
  | cons v m ih =>
      rw [List.append_cons] at hnd ⊢
      refine ih (l ++ [v]) (h.park fun hv => ?_) hnd
      have := List.nodup_append.mp (List.nodup_append.mp hnd).1
      exact this.2.2 v hv v (List.mem_singleton_self v) rfl

private theorem parkedAll_constructor (w : Nat) :
    ParkedAll ((List.finRange w).foldl (fun s v => s.parkWorker .main v) ({} : Scheduler w))
      (List.finRange w) :=
  parkedAll_foldl _ [] ⟨rfl, ⟨rfl, rfl, rfl, rfl⟩, rfl, rfl, rfl, rfl, fun _ => rfl⟩
    (List.nodup_finRange w)

theorem constructed_idleQueue (w : Nat) : (constructed w).idleQueue = List.finRange w :=
  (parkedAll_constructor w).idle

theorem constructed_lists (w : Nat) : (constructed w).runnableQueue = [] ∧
    (constructed w).waitingQueue = [] ∧ (constructed w).pendingIoQueue = [] ∧
    (constructed w).yieldedWorker = none :=
  (parkedAll_constructor w).rest

theorem constructed_workers {w : Nat} (v : Fin w) :
    (constructed w).workers v = { state := .idle } :=
  ((parkedAll_constructor w).workers v).trans (if_pos (List.mem_finRange v))

theorem constructed_tasks (w : Nat) : (constructed w).tasks = {} := (parkedAll_constructor w).tasks

theorem constructed_exit (w : Nat) : (constructed w).exit = false := (parkedAll_constructor w).exit

theorem constructed_worker {w : Nat} (hw : 0 < w) : (constructed w).worker.isSome := by
  have hlen : (constructed w).idleQueue ≠ [] := fun he => by
    rw [constructed_idleQueue] at he
    have := congrArg List.length he
    rw [List.length_finRange] at this
    exact absurd this (by simp; omega)
  show (constructed w).idleQueue.head?.isSome
  rwa [List.isSome_head?, ← List.isEmpty_eq_false_iff] at *

/-- **A constructed scheduler has all its workers in the idle list.** -/
theorem placed_constructed (w : Nat) : Placed (constructed w) none where
  binned := by
    obtain ⟨h1, h2, h3, h4⟩ := constructed_lists w
    have hst : ∀ v, (constructed w).stateOf v = .idle := fun v => by
      rw [stateOf, constructed_workers]
    refine ⟨fun k v => ?_, fun k => ?_⟩
    · rw [hst]
      cases k <;> simp [bin, h1, h2, h3, h4, constructed_idleQueue]
    · cases k <;> simp [bin, h1, h2, h3, h4, constructed_idleQueue, List.nodup_finRange]
  load := by
    have hst : ∀ v, Load.ofState ((constructed w).stateOf v) = 0 := fun v => by
      rw [stateOf, constructed_workers]; rfl
    rw [Finset.sum_congr rfl fun v _ => hst v, Finset.sum_const_zero]
    exact (parkedAll_constructor w).load

/-! ## What the placement says about the load -/

/-- A sum over all states, written out. -/
private theorem sum_states (f : WorkerState → Int) :
    ∑ k, f k = f .initializing + f .idle + f .waiting + f .pendingIo + f .yielded + f .runnable
      + f .running + f .exiting := by
  have huniv : (Finset.univ : Finset WorkerState)
      = {.initializing, .idle, .waiting, .pendingIo, .yielded, .runnable, .running, .exiting} := rfl
  rw [huniv]
  repeat rw [Finset.sum_insert (by decide)]
  rw [Finset.sum_singleton]
  omega

/-- **The load counter, from the lengths of the lists.** -/
theorem Placed.stateLoad_eq (h : Placed s a) :
    s.stateLoad = 10 * (s.runnableQueue.length + a.toList.length + s.yieldedWorker.toList.length)
      + 2 * s.pendingIoQueue.length + s.waitingQueue.length := by
  rw [h.load, h.binned.sum_eq Load.ofState, sum_states]
  simp only [bin, Load.ofState]
  omega

/-- The counter is never negative. -/
theorem Placed.stateLoad_nonneg (h : Placed s a) : 0 ≤ s.stateLoad := by
  rw [h.stateLoad_eq]
  omega

/-- The counter never exceeds the load of as many running workers: it fits 32 bits. -/
theorem Placed.stateLoad_le (h : Placed s a) : s.stateLoad ≤ 10 * w := by
  have hle : ∀ v ∈ Finset.univ, Load.ofState (s.stateOf v) ≤ 10 := fun v _ => by
    cases s.stateOf v <;> decide
  rw [h.load]
  refine (Finset.sum_le_sum hle).trans ?_
  simp [mul_comm]

end Scheduler

end Ums
