import Ums.Runtime.Ledger
import Ums.Runtime.Load
import Ums.Runtime.Sleep

/-!
# Tasks that stay in a queue

A blocked scheduler is woken for its own queue only. So a task that nobody announces
any more is left in the queue of a scheduler without an idle worker: its workers all
wait, and none of them may go on.

Another scheduler may have an idle worker then. It looked for work to steal before it
slept, and `enque_task` had chosen the queue by loads it read still earlier. `Neglects`
says which steps can leave a task beside such a worker: one that gives a scheduler more
tasks than it has idle workers while another one sleeps with a worker to spare, and one
that puts such a scheduler to sleep while another one has too many tasks.
-/

namespace Ums.Runtime

open Lib Scheduler

variable {c : Config} {s s' : System c} {i j : SchedId c} {x y : Scheduler c.workers} {p q : Pc c}

/-- The thread is blocked on the scheduler's `m_cv` and has not been signalled. -/
def Blocked (s : System c) (j : SchedId c) : Prop :=
  ((∃ d, s.pc j = .idleWait d) ∨ s.pc j = .idleSleep) ∧ (s.sched j).cv = .blocked

/-! ## A task beside a free worker -/

/-- The scheduler a call is about to notify. -/
def Call.notifies : Call c → Option (SchedId c)
  | .notify j _ | .notifyOne j _ => some j
  | _ => none

/-- Some thread is about to notify the scheduler. -/
def Notifying (s : System c) (j : SchedId c) : Prop :=
  ∃ a, (s.callOf a).bind Call.notifies = some j

/-- A blocked scheduler to which no notification is on its way has nothing to do. -/
theorem no_work_of_blocked (h : (machine c).Reachable s) (hb : Blocked s j)
    (hn : ¬Notifying s j) (pub : Publication c) : ¬Work (s.sched j) pub := by
  intro hw
  have hann : ¬Announcing s j pub := fun ⟨a, ha⟩ => hn ⟨a, by rw [ha]; rfl⟩
  have hsig : ¬Signalling s j pub := fun ⟨a, ha⟩ => hn ⟨a, by rw [ha]; rfl⟩
  have hwatch := watched_reachable h j
  obtain ⟨⟨d, hp⟩ | hp, hc⟩ := hb <;> rw [hp] at hwatch
  · rcases hwatch pub hw with h1 | ⟨_, h1 | h1⟩
    · exact hann h1
    · exact hsig h1
    · exact h1 hc
  · rcases hwatch pub hw with h1 | h1 | h1
    · exact hann h1
    · exact hsig h1
    · exact h1 hc

/-- No waiting worker has its condition set, and none waits for a time. -/
def Endless (x : Scheduler c.workers) : Prop :=
  ∀ v ∈ x.waitingQueue, (x.workers v).checkCond = false ∧
    (x.workers v).waitInfo.sleepTimePoint = Time.max

/-- The scheduler is blocked in `sleep` for good: in `idle_sleep`, or in `idle_wait` with
workers that nobody has told to go on. -/
def Asleep (s : System c) (j : SchedId c) : Prop :=
  Blocked s j ∧ (s.pc j ≠ .idleSleep → Endless (s.sched j))

/-- **A task is stranded while a worker is free.** -/
structure Stranded (s : System c) : Prop where
  /-- Every scheduler is blocked for good. -/
  asleep : ∀ j, Asleep s j
  /-- No thread is inside `enque_task` or `notify`. -/
  quiet : ∀ a, s.callOf a = none
  /-- Some task is still in a queue. -/
  queued : ∃ j, (s.sched j).tasks.queue ≠ []
  /-- Some scheduler has an idle worker. -/
  idle : ∃ j, (s.sched j).idleQueue ≠ []

/-! ## Which steps lead there -/

/-- The idle workers of a scheduler, less the tasks that are there for them. -/
def surplus (x : Scheduler c.workers) (p : Pc c) : Int :=
  x.idleQueue.length - (x.tasks.queue.length + p.hand.toList.length)

/-- The idle workers of a scheduler, less its tasks. -/
def System.surplus (s : System c) (j : SchedId c) : Int := Runtime.surplus (s.sched j) (s.pc j)

/-- A worker stays idle when the scheduler has handed out its tasks. -/
def Spare (s : System c) (j : SchedId c) : Prop := 0 < s.surplus j

/-- The scheduler has more tasks than idle workers. -/
def Short (s : System c) (j : SchedId c) : Prop := s.surplus j < 0

/-- The scheduler sleeps with a worker to spare, and nobody is about to wake it. -/
def Dozing (s : System c) (j : SchedId c) : Prop := Asleep s j ∧ Spare s j ∧ ¬Notifying s j

/-- The scheduler a step gives a task to: it is enqueued there, or the scheduler steals it. -/
def System.receiver (s : System c) : Event c → Option (SchedId c)
  | .call a =>
    match s.callOf a with
    | some (.enque j) => some j
    | _ => none
  | .steal i =>
    match s.pc i with
    | .stealTake k => if (s.sched k).hasTasks then some i else none
    | _ => none
  | _ => none

/-- The scheduler a step relieves: a worker ends its task there, or a task is stolen from it. -/
def System.giver (s : System c) : Event c → Option (SchedId c)
  | .loop i =>
    match s.pc i, (s.sched i).worker with
    | .user, some v =>
      if ((s.sched i).workers v).loop = .notify ∧ ((s.sched i).workers v).task.isSome then some i
      else none
    | _, _ => none
  | .steal i =>
    match s.pc i with
    | .stealTake k => if (s.sched k).hasTasks then some k else none
    | _ => none
  | _ => none

/-- The scheduler a step blocks in `sleep`. -/
def System.sleeper (s : System c) : Event c → Option (SchedId c)
  | .code i _ =>
    match s.pc i with
    | .sleepBlock d => if (s.now : Time) < d then some i else none
    | .idleWait d =>
      if s.mtxFree i = true ∧ (s.sched i).running = false ∧ (s.now : Time) < d then some i
      else none
    | .idleBlock => some i
    | _ => none
  | _ => none

/--
**The steps that neglect a task or a worker.** A scheduler without a worker to spare is given a
task while another one dozes, or a scheduler with a worker to spare goes to sleep, for good,
while another one is short of workers.
-/
def Neglects (s : System c) (e : Event c) : Prop :=
  (∃ j, s.receiver e = some j ∧ ¬Spare s j ∧ ∃ k, Dozing s k) ∨
    ∃ i, s.sleeper e = some i ∧ Spare s i ∧ ¬Notifying s i ∧
      (s.pc i ≠ .idleBlock → Endless (s.sched i)) ∧ ∃ j, Short s j

/-- A scheduler dozes while another one is short of workers. -/
def Neglected (s : System c) : Prop := ∃ i j, Dozing s i ∧ Short s j

/-! ## Tasks and workers -/

/-- A task taken from the queue. -/
theorem surplus_dropTask {t : TaskId} {rest : List TaskId} (hq : x.tasks.queue = t :: rest) :
    surplus x.dropTask p = surplus x p + 1 := by
  rcases x.tasks.deque_cases with ⟨h, _⟩ | ⟨t', rest', h, _, hd⟩
  · rw [hq] at h
    cases h
  · have hlen : x.dropTask.tasks.queue.length + 1 = x.tasks.queue.length := by
      rw [h, List.length_cons]
      exact congrArg (List.length · + 1) hd
    have hidle : x.dropTask.idleQueue = x.idleQueue := rfl
    rw [surplus, surplus, hidle]
    omega

/-- A task taken in hand. -/
theorem surplus_hand {t : TaskId} (hp : p.hand = none) (hq : q.hand = some t) :
    surplus x q = surplus x p - 1 := by
  simp only [surplus, hp, hq, Option.toList_none, Option.toList_some, List.length_nil,
    List.length_singleton]
  omega

theorem surplus_enque {t : TaskId} : surplus (x.enque t) p = surplus x p - 1 := by
  simp only [surplus, Scheduler.enque, Tasks.queue_enque, List.length_append,
    List.length_singleton]
  omega

/-- A step that changes neither the idle workers nor the tasks. -/
theorem surplus_congr (hi : y.idleQueue = x.idleQueue) (ht : y.tasks = x.tasks)
    (hq : q.hand = p.hand) : surplus y q = surplus x p := by
  rw [surplus, surplus, hi, ht, hq]

/-- **A scheduler hands its tasks out one by one**, to one idle worker each. -/
theorem code_surplus (h : Code s i x p y q) : surplus y q = surplus x p := by
  cases h with
  | @nextSome t _ hq =>
      have hd := surplus_dropTask (p := (.nextTask : Pc c)) hq
      have hh := surplus_hand (x := x.dropTask) (p := (.nextTask : Pc c))
        (q := .assign t false) rfl rfl
      omega
  | @assign t stolen _ _ ha hq =>
      obtain ⟨v, rest, hi, rfl⟩ := assignTask_eq_some.mp ha
      have hhand : q.hand = none := by
        subst hq
        cases stolen <;> rfl
      rw [surplus, surplus, hhand, hi]
      simp only [Pc.hand, Scheduler.parkRunnable, setWorkerState, setWorker, manageLoad,
        Option.toList_none, Option.toList_some, List.length_nil, List.length_cons]
      omega
  | ioRound =>
      refine surplus_congr ?_ ?_ rfl
      all_goals
        unfold scheduleIoWorker
        split <;> rfl
  | waitingRound =>
      refine surplus_congr ?_ ?_ rfl
      all_goals
        unfold scheduleWaitingWorker
        split <;> rfl
  | yielded =>
      refine surplus_congr ?_ ?_ rfl
      all_goals
        unfold scheduleYieldedWorkers
        split <;> rfl
  | exec hx =>
      obtain ⟨v, rest, -, rfl⟩ := prepareExec_eq_some.mp hx
      exact surplus_congr rfl rfl rfl
  | startTimer =>
      obtain ⟨start, hstart⟩ := x.startIdleTimer_eq s.now
      rw [hstart]
      exact surplus_congr rfl rfl rfl
  | exit =>
      refine surplus_congr ?_ ?_ rfl
      all_goals
        unfold exitNow
        split <;> rfl
  | _ => exact surplus_congr rfl rfl rfl

theorem surplus_userStep {now : Time} {v : WorkerId c} {op : UserOp c}
    (h : userStep now x v op = some (y, q)) : surplus y q = surplus x (.user : Pc c) := by
  cases op <;> simp only [userStep] at h
  case yield | io =>
    cases h
    exact surplus_congr rfl rfl rfl
  case setWaitInfo t =>
    split at h <;> cases h
    exact surplus_congr rfl rfl rfl
  case waitCondOrSleep =>
    split at h <;> cases h <;> exact surplus_congr rfl rfl rfl

/-- A worker that ends its task goes idle. -/
theorem surplus_finish {v : WorkerId c} {u : Worker} :
    surplus ((x.setWorker v u).parkWorker .main v) (.scheduleIo 0 : Pc c) =
      surplus x (.user : Pc c) + 1 := by
  have hidle : ∀ b, ((x.setWorker v u).parkIdle b v).idleQueue.length =
      x.idleQueue.length + 1 := by
    intro b
    cases b <;> simp [parkIdle, setWorkerState, setWorker, manageLoad]
  have hlen : ((x.setWorker v u).parkWorker .main v).idleQueue.length =
      x.idleQueue.length + 1 := hidle _
  have htasks : ((x.setWorker v u).parkWorker .main v).tasks = x.tasks := rfl
  rw [surplus, surplus, hlen, htasks]
  simp only [Pc.hand]
  omega

section

variable {t : System c}

/-- A step of one scheduler's thread. -/
theorem surplus_both (hx : t.sched = Function.update s.sched i y)
    (hp : t.pc = Function.update s.pc i q) (h : surplus y q = s.surplus i) :
    t.surplus j = s.surplus j := by
  rw [System.surplus, hx, hp]
  exact System.forall_setBoth (P := fun j x p => surplus x p = s.surplus j) (fun _ _ => rfl) h j

/-- A step that changes one scheduler. -/
theorem surplus_sched (hx : t.sched = Function.update s.sched i y) (hp : t.pc = s.pc)
    (hi : y.idleQueue = (s.sched i).idleQueue) (ht : y.tasks = (s.sched i).tasks) :
    t.surplus j = s.surplus j := by
  rw [System.surplus, hx, hp]
  exact System.forall_setSched (P := fun j x p => surplus x p = s.surplus j) (fun _ _ => rfl)
    (surplus_congr hi ht rfl) j

/-- A step that changes one control point. -/
theorem surplus_pc (hx : t.sched = s.sched) (hp : t.pc = Function.update s.pc i q)
    (h : q.hand = (s.pc i).hand) : t.surplus j = s.surplus j := by
  rw [System.surplus, hx, hp]
  exact System.forall_setPc (P := fun j x p => surplus x p = s.surplus j) (fun _ _ => rfl)
    (surplus_congr rfl rfl h) j

/-- The scheduler whose thread has moved. -/
theorem surplus_self (hx : t.sched = Function.update s.sched i y)
    (hp : t.pc = Function.update s.pc i q) : t.surplus i = surplus y q := by
  rw [System.surplus, hx, hp, Function.update_self, Function.update_self]

/-- A scheduler whose thread has not moved. -/
theorem surplus_other (hx : t.sched = Function.update s.sched i y)
    (hp : t.pc = Function.update s.pc i q) (hj : j ≠ i) : t.surplus j = s.surplus j := by
  rw [System.surplus, hx, hp, Function.update_of_ne hj, Function.update_of_ne hj]
  rfl

/-- A thread that goes on with its call. -/
theorem surplus_setCall {a : Thread c} {k : Call c} {r : Option (Call c)} {n : Int}
    (hn : t.surplus j = n) (hp : t.pc = s.pc) (hc : s.callOf a = some k) :
    (t.setCall a r).surplus j = n := by
  subst hn
  cases a with
  | main => rfl
  | active i =>
      refine surplus_pc rfl rfl ?_
      rw [hp, callOf_active hc]
      cases r <;> rfl

end

/-- **What a step does to the surplus of a scheduler.** -/
theorem Step.surplus {e : Event c} (hs : Step s e s') (j : SchedId c) :
    s'.surplus j = s.surplus j + (if s.giver e = some j then 1 else 0) -
      if s.receiver e = some j then 1 else 0 := by
  have hsame : s.giver e = none → s.receiver e = none → s'.surplus j = s.surplus j →
      s'.surplus j = s.surplus j + (if s.giver e = some j then 1 else 0) -
        if s.receiver e = some j then 1 else 0 := by
    intro hg hr he
    rw [hg, hr, he]
    simp
  cases hs with
  | @user i _ _ _ _ hw hu =>
      have hp := (taskWorker_eq_some hw).1
      exact hsame rfl rfl (surplus_both rfl rfl
        ((surplus_userStep hu).trans (by rw [System.surplus, hp])))
  | @async i _ hw =>
      have hp := (taskWorker_eq_some hw).1
      exact hsame rfl rfl (surplus_pc (i := i) rfl rfl (by rw [hp]; rfl))
  | @notifyWaiter i k _ v hw =>
      have hp := (taskWorker_eq_some hw).1
      have hset : (s.setSched k ((s.sched k).setCond v)).surplus j = s.surplus j :=
        surplus_sched rfl rfl rfl rfl
      refine hsame rfl rfl (Eq.trans ?_ hset)
      exact surplus_pc (i := i) rfl rfl (by rw [System.setSched_pc, hp]; rfl)
  | invoke hp hv hl | invoked hp hv hl =>
      exact hsame (by simp [System.giver, hp, hv, hl]) rfl (surplus_sched rfl rfl rfl rfl)
  | @finish i v t hp hv hl ht =>
      have hg : s.giver (.loop i) = some i := by simp [System.giver, hp, hv, hl, ht]
      rw [hg]
      by_cases hj : j = i
      · subst hj
        rw [if_pos rfl]
        refine (surplus_self rfl rfl).trans ?_
        rw [surplus_finish, System.surplus, hp]
        simp [System.receiver]
      · have hne : some i ≠ some j := fun he => hj (Option.some.inj he).symm
        rw [if_neg hne]
        refine (surplus_other rfl rfl hj).trans ?_
        simp [System.receiver]
  | @compare a _ _ _ _ _ _ hc | @choose a _ _ _ hc =>
      exact hsame rfl (by simp [System.receiver, hc]) (surplus_setCall rfl rfl hc)
  | @enque a k hc =>
      have hr : s.receiver (.call a) = some k := by simp [System.receiver, hc]
      rw [hr]
      by_cases hj : j = k
      · subst hj
        refine surplus_setCall ?_ rfl hc
        rw [System.surplus, System.setSched_sched, Function.update_self]
        refine surplus_enque.trans ?_
        simp [System.giver, System.surplus]
      · have hne : some k ≠ some j := fun he => hj (Option.some.inj he).symm
        rw [if_neg hne]
        refine surplus_setCall ?_ rfl hc
        rw [System.surplus, System.setSched_sched, Function.update_of_ne hj]
        simp [System.giver, System.surplus]
  | @notifySection a k p hc =>
      have hset : (s.setSched k (s.sched k).notifySection).surplus j = s.surplus j :=
        surplus_sched rfl rfl rfl rfl
      exact hsame rfl (by simp [System.receiver, hc]) (surplus_setCall hset rfl hc)
  | @notifyCv a k p hc =>
      have hset : (s.setSched k (s.sched k).notifyCv).surplus j = s.surplus j :=
        surplus_sched rfl rfl rfl rfl
      exact hsame rfl (by simp [System.receiver, hc]) (surplus_setCall hset rfl hc)
  | code hc => exact hsame rfl rfl (surplus_both rfl rfl (code_surplus hc))
  | @stealNone i _ hp hq =>
      exact hsame (by simp [System.giver, hp, hq]) (by simp [System.receiver, hp, hq])
        (surplus_pc (i := i) rfl rfl (by rw [hp]; rfl))
  | @stealSome i k t rest hp hq =>
      have hg : s.giver (.steal i) = some k := by simp [System.giver, hp, hq]
      have hr : s.receiver (.steal i) = some i := by simp [System.receiver, hp, hq]
      -- first the task leaves the queue, then it is in the thief's hand
      have htake : (s.setSched k (s.sched k).dropTask).surplus j =
          s.surplus j + if k = j then 1 else 0 := by
        by_cases hk : j = k
        · subst hk
          rw [if_pos rfl, System.surplus, System.setSched_sched, Function.update_self]
          exact surplus_dropTask hq
        · rw [if_neg (Ne.symm hk), System.surplus, System.setSched_sched, Function.update_of_ne hk]
          exact (Int.add_zero _).symm
      have hgive : ((s.setSched k (s.sched k).dropTask).setPc i (.assign t true)).surplus j =
          (s.setSched k (s.sched k).dropTask).surplus j - if i = j then 1 else 0 := by
        by_cases hi : j = i
        · subst hi
          rw [if_pos rfl, System.surplus, System.setPc_pc, Function.update_self]
          exact surplus_hand (by rw [System.setSched_pc, hp]; rfl) rfl
        · rw [if_neg (Ne.symm hi), System.surplus, System.setPc_pc, Function.update_of_ne hi]
          exact (Int.sub_zero _).symm
      rw [hgive, htake, hg, hr]
      simp only [Option.some.injEq]
  | @signalFew i hp | @signalCv i hp | @signalRunning i hp =>
      exact hsame rfl rfl (surplus_both rfl rfl (surplus_congr rfl rfl (by rw [hp]; rfl)))
  | @signalAll i hp | @signalLock i hp =>
      exact hsame rfl rfl (surplus_pc (i := i) rfl rfl (by rw [hp]; rfl))
  | main hm =>
      cases hm with
      | exitSignal | exitNotify | exitNotifyOne =>
          exact hsame rfl rfl (surplus_sched rfl rfl rfl rfl)
      | _ => exact hsame rfl rfl rfl
  | tick => exact hsame rfl rfl rfl

/-! ## Who falls asleep -/

/-- Other threads put nobody to sleep. -/
theorem Touched.blocked (h : Touched x y) (hc : y.cv = .blocked) : x.cv = .blocked := by
  cases h with
  | notifyCv => exact absurd hc (notifyCv_ne_blocked x)
  | _ => exact hc

/-- They may tell a worker to go on and do not take that back. -/
theorem Touched.endless (h : Touched x y) (he : Endless y) : Endless x := by
  cases h with
  | @setCond v =>
      intro u hu
      have hy := he u hu
      by_cases huv : u = v
      · subst huv
        have hcond := hy.1
        simp [Scheduler.setCond, setWorker, Worker.setCond, Worker.checkCond] at hcond
      · simpa [Scheduler.setCond, setWorker, huv] using hy
  | _ => exact he

/-- A thread that is about to sleep, or sleeps, is in the scheduling code. -/
theorem Step.code_of_watched {e : Event c} (hs : Step s e s') (ha : e.actor = some i)
    (hw : (s.pc i).watched = true) : ∃ b y q, e = .code i b ∧
      Code s i (s.sched i) (s.pc i) y q ∧ s' = s.setBoth i y q := by
  have hne : ∀ {p : Pc c}, s.pc i = p → p.watched = false → False := by
    intro p hp hf
    rw [hp, hf] at hw
    cases hw
  cases hs with
  | code hc =>
      cases ha
      exact ⟨_, _, _, rfl, hc, rfl⟩
  | user ht | async ht | notifyWaiter ht =>
      cases ha
      exact (hne (taskWorker_eq_some ht).1 rfl).elim
  | invoke hp | invoked hp | finish hp | stealNone hp | stealSome hp | signalFew hp | signalAll hp
  | signalLock hp | signalCv hp | signalRunning hp =>
      cases ha
      exact (hne hp rfl).elim
  | @compare a _ _ _ _ _ _ hc | @choose a _ _ _ hc | @enque a _ hc | @notifySection a _ _ hc
  | @notifyCv a _ _ hc =>
      cases a with
      | main => cases ha
      | active k =>
          cases ha
          exact (hne (callOf_active hc) rfl).elim
  | main | tick => cases ha

/-- A thread blocks in `sleep` only. -/
theorem Turn.watched (h : Turn s i p q) (hq : (∃ d, q = .idleWait d) ∨ q = .idleSleep) :
    p.watched = true := by
  cases h with
  | code hc =>
      cases hc with
      | @assign _ stolen _ _ _ he =>
          subst he
          cases stolen <;> simp at hq
      | block | waitAgain | idleBlock => rfl
      | _ => simp at hq
  | task ht => rcases ht with rfl | rfl | ⟨k, rfl⟩ <;> simp at hq
  | call ht => rcases ht with rfl | ⟨k, rfl⟩ <;> simp at hq
  | steal ht => rcases ht with rfl | ⟨t, rfl⟩ <;> simp at hq
  | _ => simp at hq

/-- **A thread that is blocked after its step** has been put to sleep by it. -/
theorem Step.sleeper {e : Event c} (hs : Step s e s') (ha : e.actor = some i)
    (hb : Blocked s' i) : s.sleeper e = some i := by
  obtain ⟨b, y, q, rfl, hc, rfl⟩ := hs.code_of_watched ha ((hs.turn ha).watched hb.1)
  have hq := hb.1
  rw [System.setBoth_pc, Function.update_self] at hq
  generalize hp : s.pc i = p at hc
  cases hc with
  | @assign _ stolen _ _ _ he =>
      subst he
      cases stolen <;> simp at hq
  | block hd => simp [System.sleeper, hp, hd]
  | waitAgain hf hr hd => simp [System.sleeper, hp, hf, hr, hd]
  | idleBlock => simp [System.sleeper, hp]
  | _ => simp at hq

/-- **What a step does that puts a thread to sleep.** -/
theorem Step.sleeps {e : Event c} (hs : Step s e s') (h : s.sleeper e = some i) :
    (∃ b, e = .code i b) ∧ Blocked s' i ∧ (s'.pc i = .idleSleep ↔ s.pc i = .idleBlock) ∧
      (Endless (s'.sched i) ↔ Endless (s.sched i)) := by
  cases hs with
  | @code k b y q hc =>
      have hk : k = i := by
        simp only [System.sleeper] at h
        split at h
        · split at h <;> cases h
          rfl
        · split at h <;> cases h
          rfl
        · exact Option.some.inj h
        · cases h
      subst hk
      refine ⟨⟨b, rfl⟩, ?_⟩
      simp only [Blocked, System.setBoth_pc, System.setBoth_sched, Function.update_self]
      generalize hp : s.pc k = p at hc
      simp only [System.sleeper, hp] at h
      cases hc with
      | block => exact ⟨⟨Or.inl ⟨_, rfl⟩, rfl⟩, by simp, Iff.rfl⟩
      | waitAgain => exact ⟨⟨Or.inl ⟨_, rfl⟩, rfl⟩, by simp, Iff.rfl⟩
      | idleBlock => exact ⟨⟨Or.inr rfl, rfl⟩, by simp, Iff.rfl⟩
      | due hd => simp [Int.not_lt.mpr hd] at h
      | wake _ hr =>
          rcases hr with hr | hr
          · simp [hr] at h
          · simp [Int.not_lt.mpr hr] at h
      | _ => simp at h
  | _ => simp [System.sleeper] at h

/-- A thread that is in no notification can go on without losing one. -/
theorem Notifying.setCall {t : System c} {a : Thread c} {r : Option (Call c)}
    (ht : ∀ b, t.callOf b = s.callOf b)
    (ha : (s.callOf a).bind Call.notifies = some j → r.bind Call.notifies = some j)
    (h : Notifying s j) : Notifying (t.setCall a r) j := by
  obtain ⟨b, hb⟩ := h
  by_cases hba : b = a
  · subst hba
    exact ⟨b, by rw [callOf_setCall_self]; exact ha hb⟩
  · exact ⟨b, by rw [callOf_setCall_ne hba, ht]; exact hb⟩

/-- **A notification under way** stays under way until it has reached the scheduler. -/
theorem Step.notifying {e : Event c} (hs : Step s e s') (h : Notifying s j) :
    Notifying s' j ∨ (s'.sched j).cv ≠ .blocked := by
  have hsame : (∀ a, s'.callOf a = s.callOf a) → Notifying s' j := by
    rintro hc
    obtain ⟨a, ha⟩ := h
    exact ⟨a, by rw [hc]; exact ha⟩
  cases hs with
  | user hw hu =>
      obtain ⟨hq, -⟩ := userStep_inCall hu
      have hp := (taskWorker_eq_some hw).1
      exact Or.inl (hsame (callOf_own rfl rfl (by rw [hp, hq]; rfl)))
  | @async i _ hw =>
      have hp := (taskWorker_eq_some hw).1
      refine Or.inl (Notifying.setCall (a := .active i)
        (r := some (.minLoad 1 ⟨0, c.schedulers_pos⟩ .nothing)) (fun _ => rfl) ?_ h)
      simp [System.callOf, hp, Pc.inCall]
  | @notifyWaiter i k _ v hw =>
      have hp := (taskWorker_eq_some hw).1
      refine Or.inl (Notifying.setCall (a := .active i) (r := some (.notify k (.cond v)))
        (t := s.setSched k ((s.sched k).setCond v)) (fun b => by cases b <;> rfl) ?_ h)
      simp [System.callOf, hp, Pc.inCall]
  | invoke | invoked => exact Or.inl (hsame fun b => by cases b <;> rfl)
  | finish hp => exact Or.inl (hsame (callOf_own rfl rfl (by rw [hp]; rfl)))
  | compare hc | choose hc =>
      exact Or.inl (h.setCall (fun _ => rfl) (by rw [hc]; simp [Call.notifies]))
  | @enque a k hc =>
      exact Or.inl (h.setCall (fun b => by cases b <;> rfl) (by rw [hc]; simp [Call.notifies]))
  | @notifySection a k pub hc =>
      exact Or.inl (h.setCall (fun b => by cases b <;> rfl) (by rw [hc]; exact id))
  | @notifyCv a k pub hc =>
      by_cases hk : j = k
      · subst hk
        refine Or.inr ?_
        rw [System.setCall_sched, System.setSched_sched, Function.update_self]
        exact notifyCv_ne_blocked _
      · refine Or.inl (h.setCall (fun b => by cases b <;> rfl) ?_)
        rw [hc]
        exact fun he => absurd (Option.some.inj he).symm hk
  | code hc => exact Or.inl (hsame (callOf_own rfl rfl (code_inCall hc)))
  | stealNone hp | stealSome hp | signalFew hp | signalAll hp | signalLock hp
  | signalRunning hp => exact Or.inl (hsame (callOf_own rfl rfl (by rw [hp]; rfl)))
  | signalCv hp =>
      have hm : s.main.notified.inCall = s.main.inCall := by cases s.main <;> rfl
      exact Or.inl (hsame (callOf_own rfl hm (by rw [hp]; rfl)))
  | main hm =>
      refine Or.inl (hsame fun a => ?_)
      cases a with
      | main => cases hm <;> simp_all [System.callOf, MainPc.inCall]
      | active k => cases hm <;> rfl
  | tick => exact Or.inl (hsame fun b => by cases b <;> rfl)

/-! ## Who is neglected -/

/-- Only a scheduler that is awake, or has work, is relieved of anything. -/
theorem giver_asleep {e : Event c} (h : (machine c).Reachable s) (hb : Blocked s i)
    (hn : ¬Notifying s i) (hspare : 0 ≤ s.surplus i) : s.giver e ≠ some i := by
  intro hg
  cases e with
  | loop k =>
      simp only [System.giver] at hg
      split at hg
      · rename_i hp _
        split at hg <;> cases hg
        rcases hb.1 with ⟨d, hd⟩ | hd <;> rw [hp] at hd <;> cases hd
      · cases hg
  | steal k =>
      simp only [System.giver] at hg
      split at hg
      · split at hg <;> cases hg
        rename_i hq
        rw [hasTasks_iff] at hq
        -- a blocked scheduler with a task and an idle worker would be woken
        obtain ⟨t, ht⟩ := List.exists_mem_of_ne_nil _ hq
        refine no_work_of_blocked h hb hn (.task t) ⟨ht, ?_⟩
        intro hidle
        have hpos := List.length_pos_of_ne_nil hq
        simp only [System.surplus, Runtime.surplus, hidle, List.length_nil] at hspare
        omega
      · cases hg
  | _ => cases hg

/-- A step that puts a thread to sleep moves no task. -/
theorem sleeper_moves {e : Event c} (h : s.sleeper e = some i) (j : SchedId c) :
    s.giver e ≠ some j ∧ s.receiver e ≠ some j := by
  cases e with
  | code k b => exact ⟨by simp [System.giver], by simp [System.receiver]⟩
  | _ => cases h

/-- **A scheduler that dozes** did so before, unless this step has put it to sleep. -/
theorem Dozing.before {e : Event c} (h : (machine c).Reachable s) (hs : Step s e s')
    (hd : Dozing s' i) : Dozing s i ∨ (s.sleeper e = some i ∧ Spare s i ∧ ¬Notifying s i ∧
      (s.pc i ≠ .idleBlock → Endless (s.sched i))) := by
  obtain ⟨⟨hb, hend⟩, hspare, hn⟩ := hd
  have hn' : ¬Notifying s i := fun hnot =>
    (hs.notifying hnot).elim hn fun hc => hc hb.2
  have hsum := hs.surplus i
  by_cases ha : e.actor = some i
  · have hsl := hs.sleeper ha hb
    obtain ⟨-, -, hpc, hendless⟩ := hs.sleeps hsl
    obtain ⟨hg, hr⟩ := sleeper_moves hsl i
    rw [if_neg hg, if_neg hr] at hsum
    refine Or.inr ⟨hsl, ?_, hn', fun hne => hendless.mp (hend fun he => hne (hpc.mp he))⟩
    unfold Spare at hspare ⊢
    omega
  · have htouch := hs.touched ha
    have hpc := hs.pc_other ha
    rw [hpc] at hend
    have hb' : Blocked s i := ⟨hpc ▸ hb.1, htouch.blocked hb.2⟩
    refine Or.inl ⟨⟨hb', fun hne => htouch.endless (hend hne)⟩, ?_, hn'⟩
    unfold Spare at hspare ⊢
    by_contra hle
    have hg : s.giver e = some i := by
      by_contra hg
      rw [if_neg hg] at hsum
      split at hsum <;> omega
    rw [if_pos hg] at hsum
    refine giver_asleep h hb' hn' ?_ hg
    split at hsum <;> omega

/-- **A scheduler that is short of workers** was so before, unless this step has given it a task. -/
theorem Short.before {e : Event c} (hs : Step s e s') (h : Short s' j) :
    Short s j ∨ (s.receiver e = some j ∧ ¬Spare s j) := by
  have hsum := hs.surplus j
  unfold Short Spare at *
  by_cases hr : s.receiver e = some j
  · rw [if_pos hr] at hsum
    by_cases hlt : s.surplus j < 0
    · exact Or.inl hlt
    · refine Or.inr ⟨hr, ?_⟩
      split at hsum <;> omega
  · rw [if_neg hr] at hsum
    refine Or.inl ?_
    split at hsum <;> omega

/-- A step that gives a task to one scheduler does nothing to another one that sleeps, but for
the one the task is stolen from. -/
theorem Step.receives {e : Event c} {k : SchedId c} (hs : Step s e s')
    (hr : s.receiver e = some j) (hk : k ≠ j) (hg : s.giver e ≠ some k)
    (hw : (s.pc k).watched = true) :
    s'.sched k = s.sched k ∧ s'.pc k = s.pc k ∧ (Notifying s' k → Notifying s k) := by
  have hpc : s'.pc k = s.pc k := by
    refine hs.pc_other fun ha => ?_
    obtain ⟨b, _, _, rfl, _⟩ := hs.code_of_watched ha hw
    cases hr
  cases hs with
  | @enque a l hc =>
      have hl : l = j := by simpa [System.receiver, hc] using hr
      subst hl
      refine ⟨?_, hpc, ?_⟩
      · rw [System.setCall_sched]
        exact Function.update_of_ne hk _ _
      · rintro ⟨b, hb⟩
        by_cases hba : b = a
        · subst hba
          rw [callOf_setCall_self] at hb
          exact absurd (Option.some.inj hb).symm hk
        · rw [callOf_setCall_ne hba] at hb
          exact ⟨b, by cases b <;> exact hb⟩
  | @stealSome i l t rest hp hq =>
      have hl : k ≠ l := fun he => hg (by simp [System.giver, hp, hq, he])
      have hcall : ∀ a, ((s.setSched l (s.sched l).dropTask).setPc i (.assign t true)).callOf a =
          s.callOf a := callOf_own rfl rfl (by rw [hp]; rfl)
      refine ⟨Function.update_of_ne hl _ _, hpc, ?_⟩
      rintro ⟨b, hb⟩
      exact ⟨b, by rwa [hcall] at hb⟩
  | stealNone hp hq => simp [System.receiver, hp, hq] at hr
  | compare hc | choose hc | notifySection hc | notifyCv hc => simp [System.receiver, hc] at hr
  | _ => cases hr

/-- Nobody is relieved of the task that it is given. -/
theorem receiver_ne_giver {e : Event c} (h : (machine c).Reachable s)
    (hr : s.receiver e = some j) : s.giver e ≠ some j := by
  cases e with
  | steal i =>
      intro hg
      simp only [System.receiver, System.giver] at hr hg
      split at hr
      · rename_i k hp
        rw [hp] at hg
        split at hr <;> rename_i hq <;> cases hr
        simp only [hq, if_true, Option.some.injEq] at hg
        exact noSelfSteal_reachable h j (by rw [hp, hg]; rfl)
      · cases hr
  | call a => simp [System.giver]
  | _ => cases hr

/-- **A step that neglects somebody** leaves a scheduler dozing beside one short of workers. -/
theorem Neglects.neglected {e : Event c} (h : (machine c).Reachable s) (hs : Step s e s')
    (hn : Neglects s e) : Neglected s' := by
  rcases hn with ⟨j, hr, hfull, k, hd⟩ | ⟨i, hsl, hspare, hnot, hend, j, hshort⟩
  · have hk : k ≠ j := by
      rintro rfl
      exact hfull hd.2.1
    have hg : s.giver e ≠ some k := giver_asleep h hd.1.1 hd.2.2 (Int.le_of_lt hd.2.1)
    have hw : (s.pc k).watched = true := by
      rcases hd.1.1.1 with ⟨d, hp⟩ | hp <;> rw [hp] <;> rfl
    obtain ⟨hsched, hpc, hback⟩ := hs.receives hr hk hg hw
    refine ⟨k, j, ⟨⟨?_, ?_⟩, ?_, fun he => hd.2.2 (hback he)⟩, ?_⟩
    · rw [Blocked, hsched, hpc]
      exact hd.1.1
    · rw [hsched, hpc]
      exact hd.1.2
    · rw [Spare, System.surplus, hsched, hpc]
      exact hd.2.1
    · have hsum := hs.surplus j
      rw [if_pos hr, if_neg (receiver_ne_giver h hr)] at hsum
      unfold Short Spare at *
      omega
  · obtain ⟨⟨b, rfl⟩, hb, hpc, hendless⟩ := hs.sleeps hsl
    have hsame : ∀ k, s'.surplus k = s.surplus k := by
      intro k
      obtain ⟨hg, hr⟩ := sleeper_moves hsl k
      have hsum := hs.surplus k
      rw [if_neg hg, if_neg hr] at hsum
      omega
    refine ⟨i, j, ⟨⟨hb, fun hne => hendless.mpr (hend fun he => hne (hpc.mpr he))⟩, ?_, ?_⟩, ?_⟩
    · rw [Spare, hsame]
      exact hspare
    · rintro ⟨a, ha⟩
      refine hnot ⟨a, ?_⟩
      cases hs with
      | @code _ _ y q hc =>
          have hcall : ∀ a, (s.setBoth i y q).callOf a = s.callOf a :=
            callOf_own rfl rfl (code_inCall hc)
          rwa [hcall] at ha
    · rw [Short, hsame]
      exact hshort

/-- **What it takes to neglect somebody**: as long as nobody is, it is one of these steps. -/
theorem neglected_iff {e : Event c} (h : (machine c).Reachable s) (hs : next s e = some s')
    (hn : ¬Neglected s) : Neglected s' ↔ Neglects s e := by
  have hstep := step_of_next hs
  constructor
  · rintro ⟨i, j, hd, hshort⟩
    rcases hd.before h hstep with hd | ⟨hsl, hspare, hnot, hend⟩
    · rcases hshort.before hstep with hshort | ⟨hr, hfull⟩
      · exact absurd ⟨i, j, hd, hshort⟩ hn
      · exact Or.inl ⟨j, hr, hfull, i, hd⟩
    · rcases hshort.before hstep with hshort | ⟨hr, -⟩
      · exact Or.inr ⟨i, hsl, hspare, hnot, hend, j, hshort⟩
      · exact absurd hr (sleeper_moves hsl j).2
  · exact fun hneg => hneg.neglected h hstep

/-- In a run without such a step nobody is neglected. -/
theorem not_neglected (h : (machine c).Reach (fun s e => ¬Neglects s e) s) : ¬Neglected s := by
  refine Machine.Reach.invariant (I := fun s => ¬Neglected s) ?_ ?_ h
  · rintro s ⟨now, rfl⟩ ⟨i, j, -, hshort⟩
    have hq : ((System.constructed c now).sched j).tasks.queue = [] := by
      show (constructed c.workers).tasks.queue = []
      rw [constructed_tasks]
    unfold Short System.surplus surplus at hshort
    rw [hq] at hshort
    simp [System.constructed, Pc.hand] at hshort
    omega
  · intro s e s' hr hok hs hn hneg
    exact hok ((neglected_iff hr.reachable hs hn).mp hneg)

/-! ## The result -/

/-- The workers of a blocked scheduler are idle or wait. -/
theorem idle_or_waiting (h : (machine c).Reachable s) (hb : Blocked s j) (v : WorkerId c) :
    v ∈ (s.sched j).idleQueue ∨ v ∈ (s.sched j).waitingQueue := by
  have hpl : ∀ p, s.pc j = p → p ≠ .exited → p.inTask = false →
      Binned (s.sched j).stateOf ((s.sched j).bin none) ∧ Shape (s.sched j) p := by
    intro p hp hx ht
    have hcore := (locals_reachable h).core hp hx
    have hb := hcore.placed.binned
    rw [activeAt, ht] at hb
    exact ⟨hb, hcore.shape⟩
  obtain ⟨hbin, hy, hr, hio⟩ : Binned (s.sched j).stateOf ((s.sched j).bin none) ∧
      (s.sched j).yieldedWorker = none ∧ (s.sched j).runnableQueue = [] ∧
      (s.sched j).pendingIoQueue = [] := by
    rcases hb.1 with ⟨d, hp⟩ | hp
    · obtain ⟨h1, h2, h3, h4, _⟩ := hpl _ hp (by simp) rfl
      exact ⟨h1, h2, h3, h4⟩
    · obtain ⟨h1, h2, h3, h4, _⟩ := hpl _ hp (by simp) rfl
      exact ⟨h1, h2, h3, h4⟩
  have hm : v ∈ (s.sched j).bin none ((s.sched j).stateOf v) := (hbin.mem _ v).mpr rfl
  cases hst : (s.sched j).stateOf v <;> rw [hst, Scheduler.bin] at hm
  case idle => exact Or.inl hm
  case waiting => exact Or.inr hm
  all_goals simp [hy, hr, hio] at hm

/--
**A task is not left beside a free worker of its scheduler.** In a state in which every
scheduler is blocked in `sleep` and no notification is on its way, a scheduler with a
queued task has no idle worker: all its workers wait, without their condition set.
-/
theorem no_task_beside_idle_worker (h : (machine c).Reachable s) (hb : Blocked s j)
    (hn : ¬Notifying s j) (hq : (s.sched j).tasks.queue ≠ []) :
    (s.sched j).idleQueue = [] ∧
      ∀ v, v ∈ (s.sched j).waitingQueue ∧ ((s.sched j).workers v).checkCond = false := by
  have hnone := no_work_of_blocked h hb hn
  obtain ⟨t, ht⟩ := List.exists_mem_of_ne_nil _ hq
  have hidle : (s.sched j).idleQueue = [] := by
    by_contra hi
    exact hnone (.task t) ⟨ht, hi⟩
  refine ⟨hidle, ?_⟩
  intro v
  have hv : v ∈ (s.sched j).waitingQueue := by
    rcases idle_or_waiting h hb v with hi | hw
    · rw [hidle] at hi
      cases hi
    · exact hw
  refine ⟨hv, ?_⟩
  by_contra hc
  exact hnone (.cond v) ⟨hv, by simpa using hc⟩

/-- A stranded task is at a scheduler short of workers, beside one that dozes. -/
theorem Stranded.neglected (h : (machine c).Reachable s) (hs : Stranded s) : Neglected s := by
  have hnot : ∀ j, ¬Notifying s j := by
    rintro j ⟨a, ha⟩
    rw [hs.quiet a] at ha
    cases ha
  have hhand : ∀ j, (s.pc j).hand = none := by
    intro j
    rcases (hs.asleep j).1.1 with ⟨d, hp⟩ | hp <;> rw [hp] <;> rfl
  obtain ⟨j, hq⟩ := hs.queued
  obtain ⟨i, hi⟩ := hs.idle
  refine ⟨i, j, ⟨hs.asleep i, ?_, hnot i⟩, ?_⟩
  · have hempty : (s.sched i).tasks.queue = [] := by
      by_contra hqi
      exact hi (no_task_beside_idle_worker h (hs.asleep i).1 (hnot i) hqi).1
    have hpos := List.length_pos_of_ne_nil hi
    simp only [Spare, System.surplus, surplus, hempty, hhand, Option.toList_none, List.length_nil]
    omega
  · have hempty := (no_task_beside_idle_worker h (hs.asleep j).1 (hnot j) hq).1
    have hpos := List.length_pos_of_ne_nil hq
    simp only [Short, System.surplus, surplus, hempty, hhand, Option.toList_none, List.length_nil]
    omega

section

instance : Decidable (Blocked s j) :=
  decidable_of_iff ((match s.pc j with
      | .idleWait _ | .idleSleep => true
      | _ => false) = true ∧ (s.sched j).cv = .blocked) (by
    unfold Blocked
    cases s.pc j <;> simp)

instance : Decidable (Notifying s j) :=
  decidable_of_iff ((∃ i, (s.pc i).inCall.bind Call.notifies = some j) ∨
      s.main.inCall.bind Call.notifies = some j)
    ⟨fun h => h.elim (fun ⟨i, hi⟩ => ⟨.active i, hi⟩) fun hm => ⟨.main, hm⟩,
      fun ⟨a, ha⟩ => by
        cases a with
        | active i => exact Or.inl ⟨i, ha⟩
        | main => exact Or.inr ha⟩

instance : Decidable (Endless x) :=
  inferInstanceAs (Decidable (∀ v ∈ x.waitingQueue, _))

instance : Decidable (Asleep s j) := inferInstanceAs (Decidable (_ ∧ (_ → _)))

instance : Decidable (Spare s j) := inferInstanceAs (Decidable (0 < s.surplus j))

instance : Decidable (Short s j) := inferInstanceAs (Decidable (s.surplus j < 0))

instance : Decidable (Dozing s j) := inferInstanceAs (Decidable (_ ∧ _ ∧ ¬_))

instance {e : Event c} : Decidable (Neglects s e) := inferInstanceAs (Decidable (_ ∨ _))

instance : Decidable (Stranded s) :=
  decidable_of_iff ((∀ j, Asleep s j) ∧ ((∀ i, (s.pc i).inCall = none) ∧ s.main.inCall = none) ∧
      (∃ j, (s.sched j).tasks.queue ≠ []) ∧ ∃ j, (s.sched j).idleQueue ≠ [])
    ⟨fun ⟨h1, h2, h3, h4⟩ => ⟨h1, fun a => by
        cases a with
        | active i => exact h2.1 i
        | main => exact h2.2, h3, h4⟩,
      fun h => ⟨h.asleep, ⟨fun i => h.quiet (.active i), h.quiet .main⟩, h.queued, h.idle⟩⟩

end

/-! ## A task stranded beside a free worker of another scheduler -/

/-- Two schedulers with one worker each. -/
abbrev twoSchedulers : Config := Options.config 2 1

/-- The first scheduler. -/
abbrev first : SchedId twoSchedulers := ⟨0, by decide⟩

/-- The second scheduler. -/
abbrev second : SchedId twoSchedulers := ⟨1, by decide⟩

/-- The scheduler wakes up, takes the task from its queue and runs it. -/
def wakeRun (j : SchedId twoSchedulers) : List (Event twoSchedulers) :=
  [Event.code j false, Event.code j false, Event.signal j] ++
    List.replicate 9 (Event.code j false) ++ [Event.loop j]

/--
The task of `init_ums` runs on the first scheduler and starts a task on the second.
While that one runs it starts another: both loads are equal, so `min_load_scheduler`
chooses the first. The second scheduler ends its task, finds nothing to steal and
sleeps. Only then the task is enqueued, and the one that enqueued it waits for ever.
-/
def strandRun : List (Event twoSchedulers) :=
  List.replicate 8 (Event.call .main) ++ wakeRun first ++
  [Event.async first] ++ List.replicate 8 (Event.call (.active first)) ++ wakeRun second ++
  [Event.async first] ++ List.replicate 5 (Event.call (.active first)) ++
  [Event.loop second, Event.loop second] ++ List.replicate 11 (Event.code second false) ++
  [Event.tick 200000] ++ List.replicate 16 (Event.code second false) ++ [Event.signal second] ++
  List.replicate 2 (Event.code second false) ++
  List.replicate 3 (Event.call (.active first)) ++
  [Event.user first (.setWaitInfo Time.max), Event.user first .waitCondOrSleep] ++
  List.replicate 9 (Event.code first false) ++ [Event.tick 200000] ++
  List.replicate 15 (Event.code first false)

/-- The task of `init_ums` starts two tasks on the second scheduler, the first of which waits for
ever, and then waits for ever itself. -/
def waitRun : List (Event twoSchedulers) :=
  List.replicate 8 (Event.call .main) ++ wakeRun first ++
  [Event.async first] ++ List.replicate 8 (Event.call (.active first)) ++ wakeRun second ++
  [Event.user second (.setWaitInfo Time.max), Event.user second .waitCondOrSleep] ++
  List.replicate 9 (Event.code second false) ++ [Event.tick 200000] ++
  List.replicate 15 (Event.code second false) ++
  [Event.async first] ++ List.replicate 8 (Event.call (.active first)) ++
  List.replicate 16 (Event.code second false) ++
  [Event.user first (.setWaitInfo Time.max), Event.user first .waitCondOrSleep] ++
  List.replicate 9 (Event.code first false) ++ [Event.tick 200000] ++
  List.replicate 15 (Event.code first false)

end Ums.Runtime
