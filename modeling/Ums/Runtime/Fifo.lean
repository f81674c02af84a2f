import Ums.Lib.Fifo
import Ums.Runtime.Ledger
import Ums.Runtime.Load
import Ums.Runtime.Pass

/-!
# First come, first served

What enters and what leaves the queues of a scheduler is noted in a `History`, which the
system does not look at. A task queue is first in, first out whoever takes from it, and so is
the list of the runnable workers. With a single scheduler the tasks that have left the queue and
are not started yet form a third one, since a task is given to a worker that goes to the end of
the runnable list and starts it as soon as it gets the scheduler.
-/

namespace Ums.Runtime

open Lib Scheduler

variable {c : Config} {s s' : System c} {e : Event c} {i k : SchedId c} {x y : Scheduler c.workers}
  {p q : Pc c}

/-! ## The history -/

/-- What has entered and left the queues so far. -/
structure History (c : Config) where
  /-- The tasks put in the queue of each scheduler, in this order. -/
  enqueued : SchedId c → List TaskId := fun _ => []
  /-- The tasks taken out of it, by its own workers or by thieves, in this order. -/
  taken : SchedId c → List TaskId := fun _ => []
  /-- The workers put in the runnable list of each scheduler, in this order. -/
  entered : SchedId c → List (WorkerId c) := fun _ => []
  /-- The workers of each scheduler that were resumed, in this order. -/
  resumed : SchedId c → List (WorkerId c) := fun _ => []

/-- The task that a step puts in the queue of scheduler `k`. -/
def enques (s : System c) (e : Event c) (k : SchedId c) : List TaskId :=
  match e with
  | .call a => if s.callOf a = some (.enque k) then [s.nextTask] else []
  | _ => []

/-- The task that a step takes out of the queue of scheduler `k`, and now has in hand. -/
def takes (s : System c) (e : Event c) (s' : System c) (k : SchedId c) : List TaskId :=
  match e with
  | .code i _ => if i = k ∧ s.pc i = .nextTask then (s'.pc i).hand.toList else []
  | .steal i => if s.pc i = .stealTake k then (s'.pc i).hand.toList else []
  | _ => []

/-- The worker that a statement of the scheduling code passes to `park_runnable`. -/
def codeEnters (now : Time) (x : Scheduler c.workers) (completed : Bool) :
    Pc c → List (WorkerId c)
  | .scheduleIo it => if completed then (x.pendingIoQueue[it]?).toList else []
  | .scheduleWaiting it =>
    (x.waitingQueue[it]?).toList.filter fun v => (x.workers v).checkWaitInfo now
  | .assign _ _ => x.idleQueue.head?.toList
  | .scheduleYielded => x.yieldedWorker.toList
  | _ => []

/-- The worker that a step puts in the runnable list of scheduler `i`. -/
def enters (s : System c) (e : Event c) (i : SchedId c) : List (WorkerId c) :=
  match e with
  | .code j completed => if j = i then codeEnters s.now (s.sched i) completed (s.pc i) else []
  | _ => []

/-- The worker of scheduler `i` that a step lets run. -/
def resumes (s : System c) (e : Event c) (s' : System c) (i : SchedId c) : List (WorkerId c) :=
  match e with
  | .code j _ =>
    if j = i ∧ s.pc i = .dispatch ∧ s'.pc i = .user then (s'.sched i).worker.toList else []
  | _ => []

/-- How a step continues the history. -/
def History.next (s : System c) (e : Event c) (s' : System c) (h : History c) : History c where
  enqueued k := h.enqueued k ++ enques s e k
  taken k := h.taken k ++ takes s e s' k
  entered i := h.entered i ++ enters s e i
  resumed i := h.resumed i ++ resumes s e s' i

/-- The runtime with its history. -/
abbrev noted (c : Config) : Machine (System c × History c) (Event c) :=
  (machine c).track {} History.next

/-! ## The task queues -/

theorem queue_keptAll (hk : KeptAll s s') : (s.sched k).tasks.queue = (s'.sched k).tasks.queue :=
  (hk k).queue.symm

/-- A statement of the scheduling code takes tasks at `next_task` only. -/
theorem queue_code {b : Bool} (h : Code s i (s.sched i) (s.pc i) y q) :
    (s.sched k).tasks.queue =
      takes s (.code i b) (s.setBoth i y q) k ++ ((s.setBoth i y q).sched k).tasks.queue := by
  by_cases hn : s.pc i = .nextTask
  · have hc := h
    rw [hn] at hc
    cases hc with
    | nextNone hq =>
        have hsame : KeptAll s (s.setBoth i (s.sched i) .scheduleYielded) :=
          keptAll_setBoth (.of_fields rfl rfl (by rw [hn]; rfl))
        rw [queue_keptAll hsame]
        simp [takes, Pc.hand]
    | nextSome hq =>
        by_cases hk : k = i
        · subst hk
          simp [takes, hn, Pc.hand, queue_dropTask hq, hq]
        · simp [takes, hk, Ne.symm hk]
  · have htakes : takes s (.code i b) (s.setBoth i y q) k = [] := by simp [takes, hn]
    rw [htakes, List.nil_append]
    by_cases ha : ∃ t stolen, s.pc i = .assign t stolen
    · obtain ⟨t, stolen, ha⟩ := ha
      rw [ha] at h
      cases h with
      | assign hy =>
          obtain ⟨_, _, _, htasks, _⟩ := assignTask_slot hy
          rw [System.setBoth_sched, tasks_setSched htasks]
    · exact queue_keptAll (keptAll_setBoth (kept_code h hn fun t b he => ha ⟨t, b, he⟩))

/-- **A task queue is first in, first out.** -/
theorem Step.queue (hs : Step s e s') (k : SchedId c) :
    (s.sched k).tasks.queue ++ enques s e k = takes s e s' k ++ (s'.sched k).tasks.queue := by
  have hset : ∀ {j : SchedId c} {z : Scheduler c.workers}, z.tasks = (s.sched j).tasks →
      (s.sched k).tasks.queue = (Function.update s.sched j z k).tasks.queue := by
    intro j z hz
    rw [tasks_setSched hz]
  cases hs with
  | user hw hu =>
      have hk := kept_userStep hu
      rw [← (taskWorker_eq_some hw).1] at hk
      rw [queue_keptAll (keptAll_setBoth hk)]
      simp [enques, takes]
  | async | signalAll | signalLock | tick => simp [enques, takes]
  | notifyWaiter | invoke | invoked =>
      simp only [enques, takes, List.append_nil, List.nil_append]
      exact hset rfl
  | finish | signalFew | signalCv | signalRunning =>
      simp only [enques, takes, List.append_nil, List.nil_append]
      exact hset rfl
  | compare hc | choose hc => simp [enques, takes, hc]
  | @enque a j hc =>
      rw [System.setCall_sched]
      by_cases hk : k = j
      · subst hk
        simp [enques, takes, hc, Scheduler.enque]
      · simp [enques, takes, hc, hk, Ne.symm hk]
  | notifySection hc | notifyCv hc =>
      rw [System.setCall_sched]
      simp only [enques, takes, hc, Option.some.injEq, reduceCtorEq, if_false, List.append_nil,
        List.nil_append]
      exact hset rfl
  | code hc =>
      simp only [enques, List.append_nil]
      exact queue_code hc
  | @stealNone i j hp =>
      simp [enques, takes, Pc.hand]
  | @stealSome i j t rest hp hq =>
      by_cases hk : k = j
      · subst hk
        simp [enques, takes, hp, Pc.hand, hq, queue_dropTask hq]
      · simp [enques, takes, hp, hk, Ne.symm hk]
  | main hm =>
      simp only [enques, takes, List.append_nil, List.nil_append]
      cases hm with
      | exitSignal | exitNotify | exitNotifyOne =>
          exact hset rfl
      | _ => rfl

/-! ## The runnable lists -/

/-- The two loops put a worker in the runnable list when the answer is positive. -/
theorem runnable_round {b : Bool} (h : codeStep s i b x p = some (y, q))
    (hp : (∃ it, p = .scheduleIo it) ∨ ∃ it, p = .scheduleWaiting it) :
    x.runnableQueue ++ codeEnters s.now x b p = y.runnableQueue := by
  rcases hp with ⟨it, rfl⟩ | ⟨it, rfl⟩
  · simp only [codeStep, codeEnters] at h ⊢
    split at h <;> rename_i hv <;> cases h <;> rw [hv]
    · cases b <;> simp
    · cases b with
      | false => simp [scheduleIoWorker]
      | true => rfl
  · simp only [codeStep, codeEnters] at h ⊢
    split at h <;> rename_i hv <;> cases h <;> rw [hv]
    · simp
    · rename_i v
      cases hc : (x.workers v).checkWaitInfo s.now with
      | false => simp [scheduleWaitingWorker, hc]
      | true =>
          simp only [scheduleWaitingWorker, hc, if_true, Option.toList_some,
            List.filter_cons_of_pos, List.filter_nil]
          rfl

/-- **The scheduling code puts workers in the runnable list at the back and takes them from the
front.** -/
theorem runnable_code {b : Bool} (h : codeStep s i b x p = some (y, q)) :
    x.runnableQueue ++ codeEnters s.now x b p =
      (if p = .dispatch ∧ q = .user then y.worker.toList else []) ++ y.runnableQueue := by
  by_cases hp : (∃ it, p = .scheduleIo it) ∨ ∃ it, p = .scheduleWaiting it
  · have hd : p ≠ .dispatch := by
      rcases hp with ⟨it, rfl⟩ | ⟨it, rfl⟩ <;> simp
    rw [if_neg fun hc => hd hc.1, List.nil_append]
    exact runnable_round h hp
  · have hc := code_of_codeStep h
    cases hc with
    | ioEnd | ioRound => exact absurd (Or.inl ⟨_, rfl⟩) hp
    | waitingEnd | waitingRound => exact absurd (Or.inr ⟨_, rfl⟩) hp
    | assign ha =>
        obtain ⟨v, rest, hi, rfl⟩ := assignTask_eq_some.mp ha
        simp only [codeEnters, hi, reduceCtorEq, false_and, if_false]
        rfl
    | yielded =>
        unfold scheduleYieldedWorkers
        cases hy : x.yieldedWorker with
        | none => simp [codeEnters, hy]
        | some v =>
            simp only [codeEnters, hy, reduceCtorEq, false_and, if_false]
            rfl
    | exec hx =>
        obtain ⟨v, rest, hr, rfl⟩ := prepareExec_eq_some.mp hx
        simp only [codeEnters, hr, and_self, if_true, List.append_nil]
        rfl
    | startTimer => simp [codeEnters, (alike_startIdleTimer (x := x) _).runnableQueue]
    | exit =>
        have hrun : x.exitNow.runnableQueue = x.runnableQueue := by
          unfold exitNow
          split <;> rfl
        simp [codeEnters, hrun]
    | _ => simp [codeEnters, dropTask]

/-- **A runnable list is first in, first out.** -/
theorem next_runnable (h : next s e = some s') (i : SchedId c) :
    (s.sched i).runnableQueue ++ enters s e i =
      resumes s e s' i ++ (s'.sched i).runnableQueue := by
  by_cases he : ∃ b, e = .code i b
  · obtain ⟨b, rfl⟩ := he
    obtain ⟨⟨y, q⟩, hcode, rfl⟩ := Option.map_eq_some_iff.mp h
    have hrun := runnable_code hcode
    simpa [enters, resumes] using hrun
  · have hsame := ((step_of_next h).lists fun b hb => he ⟨b, hb⟩).1
    have henters : enters s e i = [] := by
      cases e with
      | code j b => exact if_neg fun hj => he ⟨b, by rw [hj]⟩
      | _ => rfl
    have hresumes : resumes s e s' i = [] := by
      cases e with
      | code j b => exact if_neg fun hj => he ⟨b, by rw [hj.1]⟩
      | _ => rfl
    rw [henters, hresumes, hsame, List.append_nil, List.nil_append]

/-! ## The tasks to be started -/

/-- The task of a worker that has not begun it. -/
def fresh (u : Worker) : Option TaskId := if u.loop = .sync then u.task else none

/-- The workers of a scheduler in the order in which they get to run. -/
def upcoming (x : Scheduler c.workers) (p : Pc c) : List (WorkerId c) :=
  (activeAt x p).toList ++ x.runnableQueue

/-- The tasks in `l` are those that a scheduler has and has not started, in the order in which it
will. -/
structure Unstarted (x : Scheduler c.workers) (p : Pc c) (l : List TaskId) : Prop where
  /-- Those of the workers, then the one that is yet to be handed over. -/
  order : (upcoming x p).filterMap (fun v => fresh (x.workers v)) ++ p.hand.toList = l
  /-- Nobody else has one. -/
  others : ∀ v, fresh (x.workers v) ≠ none → v ∈ upcoming x p

variable {l : List TaskId}

/-- Nobody begins anything and nobody comes or goes. -/
theorem Unstarted.congr (h : Unstarted x p l)
    (hf : ∀ v, fresh (y.workers v) = fresh (x.workers v)) (hu : upcoming y q = upcoming x p)
    (hh : q.hand = p.hand) : Unstarted y q l where
  order := by
    simp only [hf, hu, hh]
    exact h.order
  others v hv := by
    rw [hf] at hv
    rw [hu]
    exact h.others v hv

theorem fresh_alike (ha : Alike x y) (v : WorkerId c) :
    fresh (y.workers v) = fresh (x.workers v) := by
  obtain ⟨-, ht, hl⟩ := ha.workers v
  rw [fresh, fresh, ht, hl]

theorem upcoming_alike (ha : Alike x y) : upcoming y p = upcoming x p := by
  rw [upcoming, upcoming, activeAt, activeAt, ha.worker, ha.runnableQueue]

theorem Unstarted.alike (h : Unstarted x p l) (ha : Alike x y) : Unstarted y p l :=
  h.congr (fresh_alike ha) (upcoming_alike ha) rfl

theorem fresh_kept (hk : Kept x p y q) (v : WorkerId c) :
    fresh (y.workers v) = fresh (x.workers v) := by
  rw [fresh, fresh, (hk.slot v).1, (hk.slot v).2]

/-- A worker joins those to run without a task to begin. -/
theorem Unstarted.join (h : Unstarted x p l) {v : WorkerId c}
    (hf : ∀ u, fresh (y.workers u) = fresh (x.workers u)) (hu : upcoming y q = upcoming x p ++ [v])
    (hv : fresh (x.workers v) = none) (hh : q.hand = p.hand) : Unstarted y q l where
  order := by
    simp only [hf, hu, hh, List.filterMap_append, List.filterMap_cons, hv, List.filterMap_nil,
      List.append_nil]
    exact h.order
  others u hu' := by
    rw [hf] at hu'
    rw [hu]
    exact List.mem_append_left _ (h.others u hu')

/-- The worker that runs has begun its task and gives up its scheduler. -/
theorem Unstarted.leave (h : Unstarted x p l) {v : WorkerId c}
    (hf : ∀ u, fresh (y.workers u) = fresh (x.workers u)) (hu : upcoming x p = v :: upcoming y q)
    (hv : fresh (x.workers v) = none) (hh : q.hand = p.hand) : Unstarted y q l where
  order := by
    have hord := h.order
    simp only [hu, List.filterMap_cons, hv] at hord
    simpa only [hf, hh] using hord
  others u hu' := by
    rw [hf] at hu'
    have hmem := h.others u hu'
    rw [hu] at hmem
    rcases List.mem_cons.mp hmem with rfl | hmem
    · exact absurd hv hu'
    · exact hmem

/-- Those to run are where their states say. -/
theorem Core.upcoming {v : WorkerId c} (h : Core x p) (hv : v ∈ upcoming x p) :
    x.stateOf v = .running ∨ x.stateOf v = .runnable := by
  rcases List.mem_append.mp hv with hv | hv
  · exact Or.inl ((h.placed.binned.mem .running v).mp hv)
  · exact Or.inr ((h.placed.binned.mem .runnable v).mp hv)

/-- A worker in another list has nothing to begin. -/
theorem Unstarted.absent (h : Unstarted x p l) (hc : Core x p) {v : WorkerId c}
    (hr : x.stateOf v ≠ .running) (hn : x.stateOf v ≠ .runnable) : fresh (x.workers v) = none := by
  by_contra hf
  rcases hc.upcoming (h.others v hf) with he | he
  · exact hr he
  · exact hn he

/-- The task in hand goes to an idle worker, which goes to the end of the runnable list. -/
theorem Unstarted.assign {t : TaskId} {stolen : Bool} (h : Unstarted x (.assign t stolen) l)
    (hc : Core x (.assign t stolen)) (ha : x.assignTask t = some y) (hq : q.inTask = false)
    (hh : q.hand = none) : Unstarted y q l := by
  obtain ⟨v, rest, hi, -, hslot⟩ := assignTask_slot ha
  obtain ⟨-, -, -, -, hrun, -⟩ := assignTask_spec ha
  have hidle : x.stateOf v = .idle := (hc.placed.binned.mem .idle v).mp (by simp [bin, hi])
  have hnone : (x.workers v).task = none := (hc.sound v).task.mpr hidle
  have hup : upcoming y q = upcoming x (.assign t stolen) ++ [v] := by
    rw [upcoming, activeAt, hq, hrun, hi]
    rfl
  have hfv : fresh (y.workers v) = some t := by
    rw [fresh, (hslot v).1, (hslot v).2, (hc.sound v).loop hnone, if_pos rfl, if_pos rfl]
  have hfu : ∀ u, u ≠ v → fresh (y.workers u) = fresh (x.workers u) := by
    intro u hu
    rw [fresh, fresh, (hslot u).1, (hslot u).2, if_neg hu]
  constructor
  · -- the worker that gets the task was not among those to run
    have hsame : (upcoming x (.assign t stolen)).filterMap (fun u => fresh (y.workers u)) =
        (upcoming x (.assign t stolen)).filterMap fun u => fresh (x.workers u) := by
      refine List.filterMap_congr fun u hu => hfu u ?_
      rintro rfl
      rcases hc.upcoming hu with he | he
      · rw [hidle] at he
        cases he
      · rw [hidle] at he
        cases he
    rw [hup, List.filterMap_append, hsame, hh, ← h.order]
    simp [hfv, Pc.hand]
  · intro u hu
    rw [hup]
    by_cases huv : u = v
    · simp [huv]
    · rw [hfu u huv] at hu
      exact List.mem_append_left _ (h.others u hu)

/-- **The scheduling code gives the tasks it takes to workers in this order.** -/
theorem unstarted_code (hs : Code s i x p y q) (hc : Core x p) (h : Unstarted x p l) :
    Unstarted y q (l ++ if p = .nextTask then q.hand.toList else []) := by
  by_cases hn : p = .nextTask
  · subst hn
    rw [if_pos rfl]
    cases hs with
    | nextNone =>
        simp only [Pc.hand, Option.toList_none, List.append_nil]
        exact h.congr (fun _ => rfl) rfl rfl
    | @nextSome t rest hq =>
        have hord := h.order
        simp only [Pc.hand, Option.toList_none, List.append_nil] at hord
        exact ⟨by rw [← hord]; rfl, h.others⟩
  · rw [if_neg hn, List.append_nil]
    by_cases ha : ∃ t stolen, p = .assign t stolen
    · obtain ⟨t, stolen, rfl⟩ := ha
      cases hs with
      | assign hy hq =>
          subst hq
          refine h.assign hc hy ?_ ?_
          · cases stolen <;> rfl
          · cases stolen <;> rfl
    · have hf := fresh_kept (kept_code hs hn fun t b he => ha ⟨t, b, he⟩)
      cases hs with
      | nextNone | nextSome => exact absurd rfl hn
      | assign => exact absurd ⟨_, _, rfl⟩ ha
      | @ioRound it v completed hv =>
          have hst : x.stateOf v = .pendingIo :=
            (hc.placed.binned.mem .pendingIo v).mp (List.mem_of_getElem? hv)
          cases completed with
          | false => exact h.congr hf rfl rfl
          | true => exact h.join hf rfl (h.absent hc (by simp [hst]) (by simp [hst])) rfl
      | @waitingRound it v hv =>
          have hst : x.stateOf v = .waiting :=
            (hc.placed.binned.mem .waiting v).mp (List.mem_of_getElem? hv)
          unfold scheduleWaitingWorker at hf ⊢
          split at hf
          · rw [if_pos ‹_›]
            exact h.join hf rfl (h.absent hc (by simp [hst]) (by simp [hst])) rfl
          · rw [if_neg ‹_›]
            exact h.congr hf rfl rfl
      | yielded =>
          unfold scheduleYieldedWorkers at hf ⊢
          cases hy : x.yieldedWorker with
          | none => exact h.congr (fun _ => rfl) rfl rfl
          | some v =>
              have hst : x.stateOf v = .yielded :=
                (hc.placed.binned.mem .yielded v).mp (by simp [bin, hy])
              rw [hy] at hf
              exact h.join hf rfl (h.absent hc (by simp [hst]) (by simp [hst])) rfl
      | exec hx =>
          obtain ⟨v, rest, hr, rfl⟩ := prepareExec_eq_some.mp hx
          refine h.congr hf ?_ rfl
          rw [upcoming, upcoming, hr]
          rfl
      | startTimer => exact h.congr hf (upcoming_alike (p := .sleep) (alike_startIdleTimer _)) rfl
      | exit =>
          refine h.congr hf ?_ rfl
          unfold exitNow
          split <;> rfl
      | _ => exact h.congr hf rfl rfl

/-- The running worker has begun its task, whatever it does then. -/
theorem unstarted_userStep {now : Time} {v : WorkerId c} {op : UserOp c} (h : Unstarted x .user l)
    (hv : x.worker = some v) (hl : (x.workers v).loop ≠ .sync)
    (hu : userStep now x v op = some (y, q)) : Unstarted y q l := by
  have hf := fresh_kept (kept_userStep hu)
  have hnone : fresh (x.workers v) = none := if_neg hl
  -- it is the first of those to run
  have hup : upcoming x (.user : Pc c) = v :: x.runnableQueue := by
    rw [upcoming, activeAt, hv]
    rfl
  cases op with
  | yield | io =>
      cases hu
      exact h.leave hf hup hnone rfl
  | setWaitInfo t =>
      simp only [userStep] at hu
      split at hu <;> cases hu
      exact h.congr hf rfl rfl
  | waitCondOrSleep =>
      simp only [userStep] at hu
      split at hu <;> cases hu
      · exact h
      · exact h.leave hf hup hnone rfl

/-- **The running worker begins its task**, which is the first of those to be started. -/
theorem Unstarted.invoke {t : TaskId} {v : WorkerId c} (h : Unstarted x .user l)
    (hc : Core x .user) (hv : x.worker = some v) (hl : (x.workers v).loop = .sync)
    (ht : (x.workers v).task = some t) :
    ∃ l', l = t :: l' ∧
      Unstarted (x.setWorker v { x.workers v with loop := .invoke }) .user l' := by
  have hup : upcoming x (.user : Pc c) = v :: x.runnableQueue := by
    rw [upcoming, activeAt, hv]
    rfl
  have hfv : fresh (x.workers v) = some t := by rw [fresh, if_pos hl, ht]
  have hrun : x.stateOf v = .running := (hc.active rfl hv).2
  have hmem : ∀ u ∈ x.runnableQueue, u ≠ v := by
    rintro u hu rfl
    have he := (hc.placed.binned.mem .runnable u).mp hu
    rw [hrun] at he
    cases he
  have hord := h.order
  simp only [hup, List.filterMap_cons, hfv, List.cons_append] at hord
  refine ⟨_, hord.symm, ?_, fun u hu => ?_⟩
  · have hsame : ∀ u ∈ x.runnableQueue,
        fresh ((x.setWorker v { x.workers v with loop := .invoke }).workers u) =
          fresh (x.workers u) := by
      intro u hu
      simp [setWorker, hmem u hu]
    have hup' : upcoming (x.setWorker v { x.workers v with loop := .invoke }) (.user : Pc c) =
        v :: x.runnableQueue := hup
    have hfv' : fresh ((x.setWorker v { x.workers v with loop := .invoke }).workers v) = none := by
      simp [fresh, setWorker]
    simp only [hup', List.filterMap_cons, hfv']
    rw [List.filterMap_congr hsame]
  · by_cases huv : u = v
    · subst huv
      simp [fresh, setWorker] at hu
    · simp only [setWorker, Function.update_of_ne huv] at hu
      exact h.others u hu

/-- The running worker has done its task. -/
theorem Unstarted.finish {v : WorkerId c} (h : Unstarted x .user l) (hv : x.worker = some v)
    (hl : (x.workers v).loop = .notify) :
    Unstarted ((x.setWorker v { x.workers v with task := none, loop := .sync }).parkWorker .main v)
      (.scheduleIo 0) l := by
  have hnone : fresh (x.workers v) = none := if_neg (by simp [hl])
  refine h.leave (fun u => ?_) (v := v) ?_ hnone rfl
  · by_cases hu : u = v
    · subst hu
      rw [hnone]
      simp [fresh, parkWorker, parkIdle, setWorkerState, setWorker, manageLoad]
    · simp [parkWorker, parkIdle, setWorkerState, setWorker, manageLoad, hu]
  · rw [upcoming, activeAt, hv]
    rfl

/-- A call begins nothing. -/
theorem Unstarted.setCall {a : Thread c} {k : Call c} {r : Option (Call c)}
    (h : Unstarted x (s.pc i) l) (hc : s.callOf a = some k) :
    Unstarted x ((s.setCall a r).pc i) l := by
  cases a with
  | main => exact h
  | active j =>
      by_cases hj : i = j
      · subst hj
        rw [callOf_active hc] at h
        have hpc : (s.setCall (.active i) r).pc i = r.elim .user .call := Function.update_self ..
        rw [hpc]
        cases r with
        | none => exact h.congr (fun _ => rfl) rfl rfl
        | some k' => exact h.congr (fun _ => rfl) rfl rfl
      · have hpc : (s.setCall (.active j) r).pc i = s.pc i := Function.update_of_ne hj ..
        rw [hpc]
        exact h

/-- **A single scheduler starts the tasks in the order in which it takes them.** -/
theorem Step.starts (hone : c.schedulers = 1) (hs : Step s e s') (hl : Locals s)
    (hn : NoSelfSteal s) (h : Unstarted (s.sched i) (s.pc i) l) :
    ∃ l' outs, Unstarted (s'.sched i) (s'.pc i) l' ∧
      s'.invoked.reverse = s.invoked.reverse ++ outs ∧ l ++ takes s e s' i = outs ++ l' := by
  have hall : ∀ j : SchedId c, j = i := by
    intro j
    refine Fin.ext ?_
    have := j.isLt
    have := i.isLt
    omega
  -- nothing is started and nothing is taken
  have hquiet : s'.invoked = s.invoked → takes s e s' i = [] →
      Unstarted (s'.sched i) (s'.pc i) l →
      ∃ l' outs, Unstarted (s'.sched i) (s'.pc i) l' ∧
        s'.invoked.reverse = s.invoked.reverse ++ outs ∧ l ++ takes s e s' i = outs ++ l' :=
    fun hi ht hu => ⟨l, [], hu, by rw [hi, List.append_nil], by rw [ht, List.append_nil]; rfl⟩
  cases hs with
  | @user j op v y p hw hu =>
      obtain rfl := hall j
      obtain ⟨hp, hv, hloop⟩ := taskWorker_eq_some hw
      rw [hp] at h
      refine hquiet rfl rfl ?_
      rw [System.setBoth_sched, System.setBoth_pc, Function.update_self, Function.update_self]
      exact unstarted_userStep h hv hloop hu
  | @async j v hw =>
      obtain rfl := hall j
      rw [(taskWorker_eq_some hw).1] at h
      refine hquiet rfl rfl ?_
      rw [System.setPc_pc, Function.update_self]
      exact h.congr (fun _ => rfl) rfl rfl
  | @notifyWaiter j _ _ v hw =>
      obtain rfl := hall j
      rw [(taskWorker_eq_some hw).1] at h
      refine hquiet rfl rfl ?_
      rw [System.setPc_pc, Function.update_self]
      exact (h.alike (alike_setSched (alike_setCond v))).congr (fun _ => rfl) rfl rfl
  | @invoke j v t hp hv hloop ht =>
      obtain rfl := hall j
      rw [hp] at h
      obtain ⟨l', rfl, hu⟩ := h.invoke (hl.core hp (by simp)) hv hloop ht
      refine ⟨l', [t], ?_, by simp, by simp [takes]⟩
      simp only [System.setSched_sched, System.setSched_pc, Function.update_self, hp]
      exact hu
  | @invoked j v t hp hv hloop ht =>
      obtain rfl := hall j
      refine hquiet rfl rfl ?_
      simp only [System.setSched_sched, System.setSched_pc, Function.update_self]
      refine h.congr (fun u => ?_) rfl rfl
      by_cases hu : u = v
      · subst hu
        simp [fresh, setWorker, hloop]
      · simp [setWorker, hu]
  | @finish j v t hp hv hloop ht =>
      obtain rfl := hall j
      rw [hp] at h
      refine hquiet rfl rfl ?_
      simp only [System.setBoth_sched, System.setBoth_pc, Function.update_self]
      exact h.finish hv hloop
  | compare hc | choose hc =>
      refine hquiet System.setCall_invoked rfl ?_
      rw [System.setCall_sched]
      exact h.setCall hc
  | @enque a j hc =>
      refine hquiet System.setCall_invoked rfl ?_
      rw [System.setCall_sched]
      exact (h.alike (alike_setSched (alike_enque s.nextTask))).setCall
        (s := { s.setSched j ((s.sched j).enque s.nextTask) with nextTask := s.nextTask + 1 })
        (k := .enque j) (by cases a <;> exact hc)
  | @notifySection a j _ hc =>
      refine hquiet System.setCall_invoked rfl ?_
      rw [System.setCall_sched]
      exact (h.alike (alike_setSched alike_notifySection)).setCall
        (s := s.setSched j (s.sched j).notifySection) hc
  | @notifyCv a j _ hc =>
      refine hquiet System.setCall_invoked rfl ?_
      rw [System.setCall_sched]
      exact (h.alike (alike_setSched alike_notifyCv)).setCall
        (s := s.setSched j (s.sched j).notifyCv) hc
  | @code j b y q hc =>
      obtain rfl := hall j
      have hx : s.pc j ≠ .exited := fun hx => by
        rw [hx] at hc
        cases hc
      refine ⟨_, [], ?_, by simp, rfl⟩
      have htakes : takes s (.code j b) (s.setBoth j y q) j =
          if s.pc j = .nextTask then q.hand.toList else [] := by
        simp [takes]
      simp only [htakes, System.setBoth_sched, System.setBoth_pc, Function.update_self]
      exact unstarted_code hc ((hl j).core hx) h
  | @stealNone j k hp | @stealSome j k _ _ hp =>
      -- there is nobody to steal from
      refine absurd ?_ (hn j)
      rw [hp, hall k, hall j]
      rfl
  | @signalFew j hp | @signalCv j hp | @signalRunning j hp =>
      obtain rfl := hall j
      rw [hp] at h
      refine hquiet rfl rfl ?_
      simp only [System.setBoth_sched, System.setBoth_pc, Function.update_self]
      exact h.congr (fun _ => rfl) rfl rfl
  | @signalAll j hp | @signalLock j hp =>
      obtain rfl := hall j
      rw [hp] at h
      refine hquiet rfl rfl ?_
      simp only [System.setPc_pc, Function.update_self]
      exact h.congr (fun _ => rfl) rfl rfl
  | main hm =>
      have hs : Step s .main s' := .main hm
      refine hquiet (by cases hm <;> rfl) rfl ?_
      rw [hs.pc_eq rfl]
      exact h.alike (hs.alike (by simp [Event.actor]))
  | tick => exact hquiet rfl rfl h

/-! ## Runs -/

/-- With a single scheduler, the tasks taken and not started are those it is about to start. -/
theorem starting_reachable (hone : c.schedulers = 1) {r : System c × History c}
    (h : (noted c).Reachable r) (i : SchedId c) :
    ∃ l, Unstarted (r.1.sched i) (r.1.pc i) l ∧ Fifo (r.2.taken i) r.1.invoked.reverse l := by
  refine h.invariant (I := fun r => ∃ l, Unstarted (r.1.sched i) (r.1.pc i) l ∧
    Fifo (r.2.taken i) r.1.invoked.reverse l) ?_ ?_
  · rintro ⟨s, h⟩ ⟨⟨now, rfl⟩, rfl⟩
    refine ⟨[], ⟨?_, fun v hv => ?_⟩, Fifo.nil⟩
    · have hrun := (constructed_lists c.workers).1
      rw [upcoming, System.constructed, hrun]
      rfl
    · simp [System.constructed, constructed_workers, fresh] at hv
  · rintro ⟨s, h⟩ e ⟨s', h'⟩ hr _ hs ⟨l, hu, hf⟩
    obtain ⟨hnext, hh⟩ := Machine.track_next.mp hs
    dsimp only at hnext hh
    subst hh
    have hreach : (machine c).Reachable s := hr.untrack
    obtain ⟨l', outs, hu', hinv, heq⟩ := (step_of_next hnext).starts hone
      (locals_reachable hreach) (noSelfSteal_reachable hreach) hu
    refine ⟨l', hu', ?_⟩
    rw [hinv]
    exact hf.step heq

/--
**First come, first served.** Whoever takes from a task queue, the tasks leave it in the order in
which they were put in; the workers of a scheduler are resumed in the order in which they entered
its runnable list; and a single scheduler starts the tasks in the order in which they were put in
its queue.
-/
theorem first_come_first_served {r : System c × History c} (h : (noted c).Reachable r) :
    (∀ k, Fifo (r.2.enqueued k) (r.2.taken k) (r.1.sched k).tasks.queue) ∧
    (∀ i, Fifo (r.2.entered i) (r.2.resumed i) (r.1.sched i).runnableQueue) ∧
    (c.schedulers = 1 → ∀ i, ∃ l, Fifo (r.2.enqueued i) r.1.invoked.reverse l) := by
  have hqueue : ∀ k, Fifo (r.2.enqueued k) (r.2.taken k) (r.1.sched k).tasks.queue := by
    intro k
    refine h.invariant (I := fun r => Fifo (r.2.enqueued k) (r.2.taken k)
      (r.1.sched k).tasks.queue) ?_ ?_
    · rintro ⟨s, h⟩ ⟨⟨now, rfl⟩, rfl⟩
      simp [System.constructed, constructed_tasks, Fifo]
    · rintro ⟨s, h⟩ e ⟨s', h'⟩ _ _ hs hf
      obtain ⟨hnext, hh⟩ := Machine.track_next.mp hs
      dsimp only at hnext hh
      subst hh
      exact hf.step ((step_of_next hnext).queue k)
  refine ⟨hqueue, fun i => ?_, fun hone i => ?_⟩
  · refine h.invariant (I := fun r => Fifo (r.2.entered i) (r.2.resumed i)
      (r.1.sched i).runnableQueue) ?_ ?_
    · rintro ⟨s, h⟩ ⟨⟨now, rfl⟩, rfl⟩
      simp [System.constructed, (constructed_lists c.workers).1, Fifo]
    · rintro ⟨s, h⟩ e ⟨s', h'⟩ _ _ hs hf
      obtain ⟨hnext, hh⟩ := Machine.track_next.mp hs
      dsimp only at hnext hh
      subst hh
      exact hf.step (next_runnable hnext i)
  · obtain ⟨l, -, hf⟩ := starting_reachable hone h i
    exact ⟨_, (hqueue i).trans hf⟩

/-- The first task starts a second one, which the only worker begins when it is done. -/
theorem first_come_first_served_run : ∃ r, (noted oneWorker).Reachable r ∧
    r.1.invoked = [1, 0] ∧ r.2.resumed only = [onlyWorker, onlyWorker] ∧
    ∃ l, Fifo (r.2.enqueued only) [0, 1] l := by
  obtain ⟨r, hr, hp⟩ := Machine.exists_of_run (M := noted oneWorker)
    (p := fun r => decide (r.1.invoked = [1, 0]) &&
      decide (r.2.resumed only = [onlyWorker, onlyWorker]))
    (.init (s := (System.constructed oneWorker 0, {})) ⟨⟨0, rfl⟩, rfl⟩)
    (List.flatten [startRun, [.loop only, .async only],
      List.replicate 4 (.call (.active only)), List.replicate 2 (.loop only),
      List.replicate 8 (.code only false), [.loop only]]) (by decide +kernel)
  rw [Bool.and_eq_true, decide_eq_true_eq, decide_eq_true_eq] at hp
  obtain ⟨l, hl⟩ := (first_come_first_served hr).2.2 rfl only
  rw [hp.1] at hl
  exact ⟨r, hr, hp.1, hp.2, l, hl⟩

end Ums.Runtime
