import Ums.Scheduler.Basic

/-!
# What `schedule_workers` is to do

The answers that a pass gets, in the order in which it asks, and the lists it is to leave
behind when it gets these answers: first the old runnable workers, then those whose request
is done and those whose wait is over, then a new task if there is nobody to run, then the
worker that has yielded, and last a task of another scheduler if there is still nobody.

Nothing here says how the lists are edited. That `Scheduler::schedule_workers` leaves them
behind is the business of `Ums.Runtime.Pass`.
-/

namespace Ums

variable {c : Config}

/-- A question asked during a pass, with its answer. -/
inductive Test (c : Config) where
  /-- Whether the I/O request of a worker is done. -/
  | io (v : WorkerId c) (done : Bool)
  /-- `check_wait_info` of a worker. -/
  | wait (v : WorkerId c) (ended : Bool)
  /-- `has_tasks`. -/
  | tasks (some : Bool)
  /-- `next_task`: the front of the scheduler's own queue. -/
  | next (t : Option TaskId)
  /-- `has_stealable_work` of another scheduler. -/
  | stealable (k : SchedId c) (some : Bool)
  /-- `next_task` of another scheduler. -/
  | take (k : SchedId c) (t : Option TaskId)
  deriving DecidableEq

/-! ## Moving the ones that are ready -/

section

variable {α : Type}

/-- Those with a positive answer. -/
def readied (l : List (α × Bool)) : List α := (l.filter fun p => p.2).map Prod.fst

/-- Those with a negative one. -/
def kept (l : List (α × Bool)) : List α := (l.filter fun p => !p.2).map Prod.fst

@[simp] theorem readied_nil : readied ([] : List (α × Bool)) = [] := rfl

@[simp] theorem kept_nil : kept ([] : List (α × Bool)) = [] := rfl

@[simp] theorem readied_concat_true (l : List (α × Bool)) (v : α) :
    readied (l ++ [(v, true)]) = readied l ++ [v] := by
  simp [readied]

@[simp] theorem readied_concat_false (l : List (α × Bool)) (v : α) :
    readied (l ++ [(v, false)]) = readied l := by
  simp [readied]

@[simp] theorem kept_concat_true (l : List (α × Bool)) (v : α) :
    kept (l ++ [(v, true)]) = kept l := by
  simp [kept]

@[simp] theorem kept_concat_false (l : List (α × Bool)) (v : α) :
    kept (l ++ [(v, false)]) = kept l ++ [v] := by
  simp [kept]

end

/-! ## New tasks -/

/-- The other schedulers before position `k`, in the order of `m_schedulers`. -/
def othersBefore (i : SchedId c) (k : Nat) : List (SchedId c) :=
  (List.range k).filterMap fun a =>
    if h : a < c.schedulers then if a = i.val then none else some ⟨a, h⟩ else none

/-- All other schedulers. -/
def others (i : SchedId c) : List (SchedId c) := othersBefore i c.schedulers

theorem othersBefore_self {i : SchedId c} {k : Nat} (hk : k = i.val) :
    othersBefore i (k + 1) = othersBefore i k := by
  rw [othersBefore, othersBefore, List.range_succ, List.filterMap_append]
  simp [hk]

theorem othersBefore_succ {i : SchedId c} {k : Nat} (h : k < c.schedulers) (hk : k ≠ i.val) :
    othersBefore i (k + 1) = othersBefore i k ++ [⟨k, h⟩] := by
  rw [othersBefore, othersBefore, List.range_succ, List.filterMap_append]
  simp [h, hk]

theorem othersBefore_prefix (i : SchedId c) {k m : Nat} (h : k ≤ m) :
    othersBefore i k <+: othersBefore i m := by
  obtain ⟨d, rfl⟩ := Nat.exists_eq_add_of_le h
  clear h
  induction d with
  | zero => exact List.prefix_rfl
  | succ d ih =>
      refine ih.trans ?_
      rw [othersBefore, othersBefore, ← Nat.add_assoc, List.range_succ, List.filterMap_append]
      exact List.prefix_append _ _

/-- The scheduler at position `k` comes after those before it. -/
theorem others_eq {i : SchedId c} {k : Nat} (h : k < c.schedulers) (hk : k ≠ i.val) :
    ∃ rest, others i = othersBefore i k ++ ⟨k, h⟩ :: rest := by
  obtain ⟨rest, hrest⟩ := othersBefore_prefix i (Nat.succ_le_of_lt h)
  refine ⟨rest, ?_⟩
  rw [others, ← hrest, Nat.succ_eq_add_one, othersBefore_succ h hk, List.append_assoc,
    List.singleton_append]

/-- Whether the scheduler admits a task of its own: only when nobody is to run, there is an idle
worker and there is a task; and the task may be gone when it is asked for. -/
inductive Admits (run idle : List (WorkerId c)) : List (Test c) → Option TaskId → Prop
  /-- It does not even look. -/
  | skip (h : run ≠ [] ∨ idle = []) : Admits run idle [] none
  /-- There is no task. -/
  | noTask (hr : run = []) (hi : idle ≠ []) : Admits run idle [.tasks false] none
  /-- There was one, and it is the result of `next_task`, or somebody was faster. -/
  | next (hr : run = []) (hi : idle ≠ []) (t : Option TaskId) :
      Admits run idle [.tasks true, .next t] t

/-- The schedulers in `ks` were asked one after the other, and none had a task to steal. -/
inductive Misses : List (SchedId c) → List (Test c) → Prop
  /-- Nobody was asked. -/
  | nil : Misses [] []
  /-- The last one has no work to steal. -/
  | skip {ks l k} (h : Misses ks l) : Misses (ks ++ [k]) (l ++ [.stealable k false])
  /-- The last one had, and somebody was faster. -/
  | lost {ks l k} (h : Misses ks l) :
      Misses (ks ++ [k]) (l ++ [.stealable k true, .take k none])

/-- Whether the scheduler steals a task: only when there is still nobody to run and an idle
worker, and then from the first of the others that can be stolen from. -/
inductive Steals (i : SchedId c) (run idle : List (WorkerId c)) :
    List (Test c) → Option TaskId → Prop
  /-- It does not even look. -/
  | skip (h : run ≠ [] ∨ idle = []) : Steals i run idle [] none
  /-- No other scheduler has a task to steal. -/
  | none {l} (hr : run = []) (hi : idle ≠ []) (h : Misses (others i) l) : Steals i run idle l none
  /-- The scheduler `k` has, and those before it have not. -/
  | takes {ks k rest l t} (hr : run = []) (hi : idle ≠ []) (hk : others i = ks ++ k :: rest)
      (h : Misses ks l) :
      Steals i run idle (l ++ [.stealable k true, .take k (some t)]) (some t)

/-! ## A pass -/

/-- What a pass finds out. -/
structure Findings (c : Config) where
  /-- The workers whose requests were looked at, with the answers. -/
  ios : List (WorkerId c × Bool) := []
  /-- The workers whose waits were looked at, with the answers. -/
  waits : List (WorkerId c × Bool) := []
  /-- The task admitted from the scheduler's own queue. -/
  own : Option TaskId := none
  /-- The task stolen. -/
  stolen : Option TaskId := none

namespace Findings

variable (f : Findings c) (x : Scheduler c.workers)

/-- The questions of the first two parts. -/
def polls : List (Test c) :=
  (f.ios.map fun p => Test.io p.1 p.2) ++ f.waits.map fun p => Test.wait p.1 p.2

/-- The workers to run after these. -/
def resumed : List (WorkerId c) := x.runnableQueue ++ readied f.ios ++ readied f.waits

/-- The new task. -/
def admitted : Option TaskId := f.own.or f.stolen

end Findings

/-- The idle worker that gets a task, if there is one. -/
def newest (idle : List (WorkerId c)) (t : Option TaskId) : List (WorkerId c) :=
  if t.isSome then idle.take 1 else []

/-- The task of a worker when the front idle worker has got this one. -/
def carried (x : Scheduler c.workers) (t : Option TaskId) (v : WorkerId c) : Option TaskId :=
  if t.isSome ∧ x.idleQueue.head? = some v then t else (x.workers v).task

/--
What `schedule_workers` of scheduler `i` makes of `x`, when it asks the questions in `l` and gets
these answers.
-/
structure Scheduled (i : SchedId c) (x y : Scheduler c.workers) (l : List (Test c))
    (f : Findings c) : Prop where
  /-- The questions, in order. -/
  log : ∃ a b, l = f.polls ++ a ++ b ∧ Admits (f.resumed x) x.idleQueue a f.own ∧
    Steals i (f.resumed x ++ newest x.idleQueue f.own ++ x.yieldedWorker.toList) x.idleQueue b
      f.stolen
  /-- Every worker with a pending request is asked about once, in the order of the list. -/
  io : f.ios.map Prod.fst = x.pendingIoQueue
  /-- Those whose requests are not done stay. -/
  pendingIo : y.pendingIoQueue = kept f.ios
  /-- Every waiting worker is asked about once, in the order of the list. -/
  wait : f.waits.map Prod.fst = x.waitingQueue
  /-- Those whose waits are not over stay. -/
  waiting : y.waitingQueue = kept f.waits
  /-- The workers to run. -/
  runnable : y.runnableQueue = f.resumed x ++ newest x.idleQueue f.own ++
    x.yieldedWorker.toList ++ newest x.idleQueue f.stolen
  /-- The idle worker that has got a task is idle no more. -/
  idle : y.idleQueue = if f.admitted.isSome then x.idleQueue.tail else x.idleQueue
  /-- It carries the task; the others have what they had. -/
  tasks : ∀ v, (y.workers v).task = carried x f.admitted v
  /-- Nobody is left behind as yielded. -/
  yielded : y.yieldedWorker = none
  /-- There is one new task at most. -/
  one : f.own = none ∨ f.stolen = none

end Ums
