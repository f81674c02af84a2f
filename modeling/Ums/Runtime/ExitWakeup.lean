import Ums.Lib.Bins
import Ums.Runtime.Exit

/-!
# The wakeup of the main thread

The last scheduler to go idle sets `m_check_idle` and notifies the main thread.
`m_idle_schedulers` counts the schedulers between the two counter updates
(`idle_count`), so whenever all of them are asleep for good one of them has set
the flag, and either the flag is still set or the main thread is testing the
schedulers and will find them idle (`flag_or_testing`).

What is not kept is that the main thread notices the flag. The predicate of
`wait_exit` releases `m_mtx` while `all_idle` runs: a scheduler can set the flag
and notify between a negative answer and the blocking wait, and nobody notifies
again (`lost_wakeup`). When the flag is clear each time the main thread takes the
mutex back with a negative answer, or the scheduler that has set it has yet to
notify, the wakeup is not lost (`no_lost_wakeup`).
-/

namespace Ums.Runtime

open Lib Scheduler

variable {c : Config} {s s' : System c} {i j : SchedId c}
  {x y : Scheduler c.workers} {p q : Pc c} {e : Event c}

/-! ## The idle counter -/

/-- The control points between the two updates of `m_idle_schedulers`. -/
def Pc.counted : Pc c → Bool
  | .signalLock | .signalCv | .idleCheck | .idleBlock | .idleSleep | .signalRunning => true
  | _ => false

/-- The contribution of a control point to the idle counter. -/
def Pc.weight (p : Pc c) : Int := if p.counted then 1 else 0

/-- `m_idle_schedulers` counts the schedulers between the two updates. -/
def IdleCount (s : System c) : Prop := (s.idleSchedulers : Int) = ∑ i, (s.pc i).weight

theorem weight_nonneg (p : Pc c) : 0 ≤ p.weight := by
  unfold Pc.weight
  split <;> omega

/-- When all are counted the counter shows the number of schedulers. -/
theorem IdleCount.all (h : IdleCount s) (hall : ∀ i, (s.pc i).counted = true) :
    s.idleSchedulers = c.schedulers := by
  have hw : ∀ i ∈ Finset.univ, (s.pc i).weight = 1 := fun i _ => by rw [Pc.weight, if_pos (hall i)]
  rw [IdleCount, Finset.sum_congr rfl hw] at h
  simpa using h

/-- A counted scheduler keeps the counter above zero. -/
theorem IdleCount.pos (h : IdleCount s) (hi : (s.pc i).counted = true) : 0 < s.idleSchedulers := by
  have hle : (s.pc i).weight ≤ ∑ i, (s.pc i).weight :=
    Finset.single_le_sum (f := fun i => (s.pc i).weight) (fun i _ => weight_nonneg _)
      (Finset.mem_univ i)
  rw [Pc.weight, if_pos hi, ← h] at hle
  omega

/-- The counter follows a change of one control point. -/
theorem IdleCount.update (h : IdleCount s) (hp : s'.pc = Function.update s.pc i q)
    (hn : (s'.idleSchedulers : Int) = s.idleSchedulers + (q.weight - (s.pc i).weight)) :
    IdleCount s' := by
  rw [IdleCount, hn, hp, h, sum_update_tag s.pc Pc.weight]

theorem IdleCount.same (h : IdleCount s) (hp : s'.pc = Function.update s.pc i q)
    (hq : q.counted = (s.pc i).counted) (hn : s'.idleSchedulers = s.idleSchedulers) :
    IdleCount s' := by
  refine h.update hp ?_
  rw [Pc.weight, Pc.weight, hq, hn]
  omega

theorem code_counted (h : Code s i x p y q) : q.counted = p.counted := by
  cases h with
  | assign _ he => subst he; split <;> rfl
  | _ => rfl

theorem userStep_counted {now : Time} {v : WorkerId c} {op : UserOp c}
    (h : userStep now x v op = some (y, q)) : q.counted = false := by
  cases op <;> simp only [userStep] at h
  · cases h; rfl
  · cases h; rfl
  · split at h <;> cases h; rfl
  · split at h <;> cases h <;> rfl

/-- **The counter is right.** Each step that makes a scheduler counted, or no longer counted, is one
of the two updates. -/
theorem idleCount_step (hs : Step s e s') (h : IdleCount s) : IdleCount s' := by
  -- a thread inside `notify` is not counted
  have hcall : ∀ {t : System c} {a : Thread c} {k : Call c} {r : Option (Call c)},
      s.callOf a = some k → t.pc = s.pc → t.idleSchedulers = s.idleSchedulers →
      IdleCount (t.setCall a r) := by
    intro t a k r hc hp hn
    cases a with
    | main =>
        rw [IdleCount] at h ⊢
        rw [System.setCall_idleSchedulers, hn, h, show (t.setCall .main r).pc = s.pc from hp]
    | active i =>
        refine h.same (i := i) (q := r.elim .user .call) ?_ ?_ ?_
        · rw [← hp]
          rfl
        · rw [callOf_active hc]
          cases r <;> rfl
        · rw [System.setCall_idleSchedulers, hn]
  cases hs with
  | user hw hu =>
      exact h.same rfl (by rw [userStep_counted hu, (taskWorker_eq_some hw).1]; rfl) rfl
  | async hw | notifyWaiter hw => exact h.same rfl (by rw [(taskWorker_eq_some hw).1]; rfl) rfl
  | invoke | invoked | tick => exact h
  | finish hp | stealNone hp | stealSome hp | signalLock hp | signalCv hp =>
      exact h.same rfl (by rw [hp]; rfl) rfl
  | compare hc | choose hc => exact hcall hc rfl rfl
  | enque hc | notifySection hc | notifyCv hc => exact hcall hc rfl rfl
  | code hc => exact h.same rfl (code_counted hc) rfl
  | signalFew hp | signalAll hp =>
      refine h.update rfl ?_
      rw [hp]
      exact Int.natCast_succ s.idleSchedulers
  | @signalRunning i hp =>
      refine h.update (i := i) rfl ?_
      have hpos := h.pos (i := i) (by rw [hp]; rfl)
      rw [hp]
      show ((s.idleSchedulers - 1 : Nat) : Int) = s.idleSchedulers + (0 - 1)
      omega
  | main hm => cases hm <;> exact h

theorem idleCount_reachable (h : (machine c).Reachable s) : IdleCount s := by
  refine Machine.Reach.invariant ?_ ?_ h
  · rintro s ⟨now, rfl⟩
    simp [IdleCount, System.constructed, Pc.weight, Pc.counted]
  · intro s e s' _ _ hs hi
    exact idleCount_step (step_of_next hs) hi

/-! ## The flag -/

/-- Every scheduler is asleep with an empty queue and the last of them has set the flag. -/
structure AllAsleep (s : System c) : Prop where
  /-- All are between the two counter updates. -/
  counted : ∀ i, (s.pc i).counted = true
  /-- Nobody is about to set the flag. -/
  flagged : ∀ i, s.pc i ≠ .signalLock
  /-- Nothing is queued. -/
  queue : ∀ i, (s.sched i).tasks.queue = []

/-- The main thread tests the schedulers and has found nothing against leaving, or has left. -/
def MainPc.testing : MainPc c → Bool
  | .allIdleCount | .allIdleTasks _ | .allIdleLock _ | .allIdleState _ => true
  | m => m.leaving

/-- While all are asleep for good, the flag is set or the main thread is about to find out. -/
def FlagOrTesting (s : System c) : Prop :=
  AllAsleep s → s.checkIdle = true ∨ s.main.testing = true

theorem testing_notified (m : MainPc c) : m.notified.testing = m.testing := by
  cases m <;> rfl

/-- A thread can only make all schedulers be asleep by setting the flag. -/
theorem AllAsleep.before (hs : Step s e s') (ha : e.actor = some i) (hi : IdleCount s)
    (h : AllAsleep s') : AllAsleep s ∨ s'.checkIdle = true := by
  have hcount : (s'.pc i).counted = true := h.counted i
  -- the thread that moved was counted before, and no queue has changed
  have hback : (s.pc i).counted = true → s.pc i ≠ .signalLock →
      (∀ j, (s'.sched j).tasks.queue = (s.sched j).tasks.queue) → AllAsleep s := by
    intro h1 h2 h3
    have hother : ∀ j, j ≠ i → s'.pc j = s.pc j := fun j hj =>
      hs.pc_other (by rw [ha]; simpa using Ne.symm hj)
    refine ⟨fun j => ?_, fun j => ?_, fun j => by rw [← h3]; exact h.queue j⟩
    · by_cases hj : j = i
      · rwa [hj]
      · rw [← hother j hj]
        exact h.counted j
    · by_cases hj : j = i
      · rwa [hj]
      · rw [← hother j hj]
        exact h.flagged j
  have hcall : ∀ {t : System c} {a : Thread c} {r : Option (Call c)},
      Event.actor (.call a) = some i → ((t.setCall a r).pc i).counted = false := by
    intro t a r he
    cases a with
    | main => cases he
    | active k =>
        cases he
        rw [show (t.setCall (.active i) r).pc i = r.elim .user .call from Function.update_self ..]
        cases r <;> rfl
  cases hs with
  | signalLock => exact Or.inr rfl
  | signalCv hp =>
      cases ha
      refine Or.inl (hback (by rw [hp]; rfl) (by rw [hp]; simp) fun j => ?_)
      exact congrArg Tasks.queue
        (tasks_setSched (s := s) (y := { s.sched i with running := false }) rfl j)
  | @code _ _ y q hc =>
      cases ha
      rw [System.setBoth_pc, Function.update_self, code_counted hc] at hcount
      refine Or.inl (hback hcount (fun hp => by rw [hp] at hc; cases hc) fun j => ?_)
      have hk := kept_code hc (fun hp => by rw [hp] at hcount; cases hcount)
        (fun t b hp => by rw [hp] at hcount; cases hcount)
      exact (keptAll_setBoth hk j).queue
  | signalFew hp hlt =>
      have hn := (idleCount_step (.signalFew hp hlt) hi).all h.counted
      exact absurd hlt (by rw [show s.idleSchedulers + 1 = c.schedulers from hn]; omega)
  | signalAll => cases ha; exact absurd (Function.update_self ..) (h.flagged i)
  | compare | choose => rw [hcall ha] at hcount; cases hcount
  | enque | notifySection | notifyCv => rw [hcall ha] at hcount; cases hcount
  | user hw hu =>
      cases ha
      rw [System.setBoth_pc, Function.update_self, userStep_counted hu] at hcount
      cases hcount
  | invoke hp | invoked hp =>
      cases ha
      simp only [System.setSched_pc, hp] at hcount
      cases hcount
  | main | tick => cases ha
  | _ =>
      cases ha
      simp [Pc.counted] at hcount

/-- A thread sets the flag on its way to the notification, and clears it never. -/
theorem Step.checkIdle_actor (hs : Step s e s') (ha : e.actor = some i) :
    s'.checkIdle = s.checkIdle ∨ (s'.checkIdle = true ∧ s'.pc i = .signalCv) := by
  cases hs with
  | signalLock => cases ha; exact Or.inr ⟨rfl, Function.update_self ..⟩
  | compare | choose => exact Or.inl System.setCall_checkIdle
  | enque | notifySection | notifyCv => exact Or.inl System.setCall_checkIdle
  | main | tick => cases ha
  | _ => exact Or.inl rfl

/-- The counted control points belong to a scheduler in `idle_sleep`. -/
theorem Locals.idleSleep (h : Locals s) (hc : (s.pc i).counted = true) :
    (s.sched i).state = .idleSleep := by
  have hx : s.pc i ≠ .exited := fun hx => by
    rw [hx] at hc
    cases hc
  rw [((h i).core hx).state]
  cases hp : s.pc i <;> rw [hp] at hc <;> first | rfl | cases hc

theorem flagOrTesting_main (hs : Main s s') (hloc : Locals s) (hi : IdleCount s)
    (h : FlagOrTesting s) : FlagOrTesting s' := by
  intro hall
  -- the main thread puts nobody to sleep
  have hasleep : AllAsleep s := by
    cases hs with
    | @exitSignal k _ hlt =>
        refine ⟨hall.counted, hall.flagged, fun j => ?_⟩
        rw [← tasks_setSched (s := s) (y := (s.sched ⟨k, hlt⟩).signalExit) rfl j]
        exact hall.queue j
    | @exitNotify k =>
        refine ⟨hall.counted, hall.flagged, fun j => ?_⟩
        rw [← tasks_setSched (s := s) (y := (s.sched k).notifySection) rfl j]
        exact hall.queue j
    | @exitNotifyOne k =>
        refine ⟨hall.counted, hall.flagged, fun j => ?_⟩
        rw [← tasks_setSched (s := s) (y := (s.sched k).notifyCv) rfl j]
        exact hall.queue j
    | _ => exact ⟨hall.counted, hall.flagged, hall.queue⟩
  have hold := h hasleep
  cases hs with
  | flagClear hm hc =>
      rw [hm, hc] at hold
      rcases hold with hf | hf <;> cases hf
  -- a test that fails contradicts what is assumed of all schedulers
  | countFew hm hlt => exact absurd (hi.all hasleep.counted) (by omega)
  | tasksSome hm hk hq => exact absurd (hasleep.queue _) hq
  | stateBusy hm hk hb =>
      exact absurd (hasleep.queue _) (hb (hloc.idleSleep (hasleep.counted _)))
  | @unlock k r hm | @unlockEnd k r hm =>
      cases r with
      | true => exact Or.inr rfl
      | false =>
          rw [hm] at hold
          exact Or.inl (hold.resolve_right (by simp [MainPc.testing, MainPc.leaving]))
  | returnFalse hm | wake hm =>
      rw [hm] at hold
      exact Or.inl (hold.resolve_right (by simp [MainPc.testing, MainPc.leaving]))
  | _ => exact Or.inr rfl

/-- While the main thread is in its call, only `next_task` takes something out of a queue. -/
theorem Step.queue_call {k : Call c} (hs : Step s e s') (ha : e.actor = none)
    (hk : s.main = .call k)
    (hq : (s'.sched j).tasks.queue = []) : (s.sched j).tasks.queue = [] := by
  have hset : ∀ {l : SchedId c} {y : Scheduler c.workers}, y.tasks = (s.sched l).tasks →
      (Function.update s.sched l y j).tasks.queue = [] → (s.sched j).tasks.queue = [] := by
    intro l y hy hn
    rwa [tasks_setSched hy] at hn
  cases hs with
  | compare | choose => rwa [System.setCall_sched] at hq
  | @enque a l hc =>
      rw [System.setCall_sched] at hq
      by_cases hj : j = l
      · subst hj
        simp [Scheduler.enque] at hq
      · simpa [hj] using hq
  | @notifySection _ l =>
      rw [System.setCall_sched] at hq
      exact hset (y := (s.sched l).notifySection) rfl hq
  | @notifyCv _ l =>
      rw [System.setCall_sched] at hq
      exact hset (y := (s.sched l).notifyCv) rfl hq
  | main hm => cases hm <;> simp_all
  | tick => exact hq
  | _ => cases ha

/-- **When all are asleep for good, the flag is set or the main thread is about to find out.** -/
theorem flagOrTesting_step (hs : Step s e s') (hloc : Locals s) (hi : IdleCount s)
    (h : FlagOrTesting s) : FlagOrTesting s' := by
  cases ha : e.actor with
  | some i =>
      intro hall
      rcases hall.before hs ha hi with hasleep | hf
      · rcases h hasleep with hf | ht
        · rcases hs.checkIdle_actor ha with he | ⟨he, _⟩
          · exact Or.inl (he.trans hf)
          · exact Or.inl he
        · refine Or.inr ?_
          rcases hs.main_of_actor ha with he | he
          · rwa [he]
          · rwa [he, testing_notified]
      · exact Or.inl hf
  | none =>
      rcases hs.main_cases ha with ⟨_, hmain⟩ | ⟨⟨k, hk⟩, _, hf, _⟩ | ⟨hsched, hmain, hf, _⟩
      · exact flagOrTesting_main hmain hloc hi h
      · intro hall
        rw [hf]
        refine Or.inl ((h ⟨?_, ?_, fun j => hs.queue_call ha hk (hall.queue j)⟩).resolve_right ?_)
        · rw [← hs.pc_eq ha]
          exact hall.counted
        · rw [← hs.pc_eq ha]
          exact hall.flagged
        · rw [hk]
          simp [MainPc.testing, MainPc.leaving]
      · intro hall
        rw [hf, hmain]
        refine h ⟨?_, ?_, ?_⟩
        · rw [← hs.pc_eq ha]
          exact hall.counted
        · rw [← hs.pc_eq ha]
          exact hall.flagged
        · rw [← hsched]
          exact hall.queue

theorem flagOrTesting_reachable (h : (machine c).Reachable s) : FlagOrTesting s := by
  refine Machine.Reach.invariant ?_ ?_ h
  · rintro s ⟨now, rfl⟩ _
    exact Or.inl rfl
  · intro s e s' hr _ hs hf
    exact flagOrTesting_step (step_of_next hs) (locals_reachable hr) (idleCount_reachable hr) hf

/-! ## The wakeup -/

/-- The main thread is blocked in `m_cv` while every scheduler is in `idle_sleep`, its queue empty
and no thread is inside `signal_idle`. -/
structure LostWakeup (s : System c) : Prop where
  /-- The main thread is blocked and was not notified. -/
  main : s.main = .blocked false
  /-- Every scheduler is in `idle_sleep`. -/
  state : ∀ i, (s.sched i).state = .idleSleep
  /-- Every queue is empty. -/
  queue : ∀ i, (s.sched i).tasks.queue = []
  /-- Nobody is inside `signal_idle`. -/
  signal : ∀ i, s.pc i ≠ .signalIdle ∧ s.pc i ≠ .signalLock ∧ s.pc i ≠ .signalCv

/-- The step, if it is the one with which the main thread blocks after a negative answer of
`all_idle`, finds the flag clear, or a scheduler that has set it and has yet to notify. -/
def FlagClear (s : System c) (e : Event c) : Prop :=
  e = .main → s.main = .relock false → s.checkIdle = false ∨ ∃ i, s.pc i = .signalCv

/-- The main thread is blocked only while the flag is clear or its notification is on the way. -/
def FlagNoticed (s : System c) : Prop :=
  s.main = .blocked false → s.checkIdle = false ∨ ∃ i, s.pc i = .signalCv

theorem notified_ne_blocked (m : MainPc c) : m.notified ≠ .blocked false := by
  cases m <;> simp [MainPc.notified]

/-- The notification of the main thread is what ends `signal_idle`. -/
theorem Step.main_of_signalCv (hs : Step s e s') (ha : e.actor = some i)
    (hp : s.pc i = .signalCv) : s'.main = s.main.notified := by
  have hno : ∀ {q : Pc c}, s.pc i = q → q ≠ .signalCv → False := fun hq hne => hne (hq ▸ hp)
  have hcall : ∀ {a : Thread c} {k : Call c}, Event.actor (.call a) = some i →
      s.callOf a = some k → False := by
    intro a k he hc
    cases a with
    | main => cases he
    | active l => cases he; exact hno (callOf_active hc) (by simp)
  cases hs with
  | signalCv => rfl
  | code hc =>
      cases ha
      rw [hp] at hc
      cases hc
  | user hw | async hw | notifyWaiter hw =>
      cases ha
      exact (hno (taskWorker_eq_some hw).1 (by simp)).elim
  | compare hc | choose hc => exact (hcall ha hc).elim
  | enque hc | notifySection hc | notifyCv hc => exact (hcall ha hc).elim
  | main | tick => cases ha
  | _ => cases ha; exact (hno ‹_› (by simp)).elim

theorem flagNoticed_step (hs : Step s e s') (hok : FlagClear s e) (h : FlagNoticed s) :
    FlagNoticed s' := by
  intro hb
  cases ha : e.actor with
  | some i =>
      have hm : s'.main = s.main := (hs.main_of_actor ha).resolve_right fun he =>
        notified_ne_blocked s.main (he ▸ hb)
      rcases hs.checkIdle_actor ha with hf | ⟨_, hp⟩
      · rw [hf]
        refine (h (hm ▸ hb)).imp id fun ⟨k, hk⟩ => ⟨k, ?_⟩
        have hki : k ≠ i := by
          rintro rfl
          have hn := hs.main_of_signalCv ha hk
          exact notified_ne_blocked s.main (hn ▸ hb)
        rw [hs.pc_other (by rw [ha]; simpa using Ne.symm hki)]
        exact hk
      · exact Or.inr ⟨i, hp⟩
  | none =>
      rcases hs.main_cases ha with ⟨he, hmain⟩ | ⟨_, hm, _⟩ | ⟨_, hm, hf, _⟩
      · cases hmain with
        | flagClear _ hc => exact Or.inl hc
        | returnFalse hr => exact hok he hr
        | _ => cases hb
      · rcases hm with hm | ⟨k, hm⟩ <;> rw [hm] at hb <;> cases hb
      · rw [hf, hs.pc_eq ha]
        exact h (hm ▸ hb)

/--
**No lost exit wakeup.** In every run in which the main thread, each time it blocks
after a negative answer of `all_idle`, finds `m_check_idle` clear or a scheduler about
to notify it, it is never left blocked while every scheduler is asleep with an empty
queue and nobody is inside `signal_idle`.
-/
theorem no_lost_wakeup (h : (machine c).Reach FlagClear s) : ¬LostWakeup s := by
  intro hl
  have hr := h.reachable
  have hnoticed : FlagNoticed s := by
    refine Machine.Reach.invariant ?_ ?_ h
    · rintro s ⟨now, rfl⟩ hb
      cases hb
    · intro s e s' _ hok hs hn
      exact flagNoticed_step (step_of_next hs) hok hn
  have hall : AllAsleep s := by
    refine ⟨fun i => ?_, fun i => (hl.signal i).2.1, hl.queue⟩
    have hx : s.pc i ≠ .exited := fun hx => by
      have he := (locals_reachable hr i).exit hx
      rw [(verdict_reachable hr).exit (by rw [hl.main]; rfl) i] at he
      cases he
    have hst := ((locals_reachable hr i).core hx).state
    rw [hl.state] at hst
    have hi := (hl.signal i).1
    cases hp : s.pc i <;> rw [hp] at hst hi <;>
      first | rfl | exact absurd rfl hi | (simp [Pc.state] at hst)
  rcases flagOrTesting_reachable hr hall with hf | ht
  · rcases hnoticed hl.main with hc | ⟨i, hi⟩
    · rw [hf] at hc
      cases hc
    · exact (hl.signal i).2.2 hi
  · rw [hl.main] at ht
    cases ht

/-! ## A run that loses the wakeup -/

instance : Decidable (LostWakeup s) :=
  decidable_of_iff (s.main = .blocked false ∧ (∀ i, (s.sched i).state = .idleSleep) ∧
      (∀ i, (s.sched i).tasks.queue = []) ∧
      ∀ i, s.pc i ≠ .signalIdle ∧ s.pc i ≠ .signalLock ∧ s.pc i ≠ .signalCv)
    ⟨fun ⟨h1, h2, h3, h4⟩ => ⟨h1, h2, h3, h4⟩, fun h => ⟨h.main, h.state, h.queue, h.signal⟩⟩

instance : Decidable (FlagClear s e) :=
  inferInstanceAs (Decidable (e = .main → s.main = .relock false →
    s.checkIdle = false ∨ ∃ i, s.pc i = .signalCv))

/-- The main thread enqueues its task, tests the schedulers too early and has not yet taken the
mutex back when the scheduler has run the task, gone to sleep and signalled that. -/
def lostWakeupRun : List (Event oneWorker) :=
  -- `async`; the predicate clears the flag and `all_idle` finds the task in the queue
  List.replicate 4 (Event.call .main) ++ List.replicate 3 Event.main ++
  -- the scheduler wakes up, takes the task and runs it
  List.replicate 2 (Event.code only false) ++ [Event.signal only] ++
    List.replicate 9 (Event.code only false) ++ List.replicate 3 (Event.loop only) ++
  -- it spins for a while and goes to sleep again
  List.replicate 11 (Event.code only false) ++ [Event.tick 200000] ++
    List.replicate 14 (Event.code only false) ++ List.replicate 3 (Event.signal only) ++
    List.replicate 2 (Event.code only false) ++
  -- the main thread takes the mutex back and blocks
  [Event.main]

/-- **The wakeup can be lost.** -/
theorem lost_wakeup : ∃ s, (machine oneWorker).Reachable s ∧ LostWakeup s := by
  obtain ⟨s, hr, hp⟩ := Machine.exists_of_run (M := machine oneWorker)
    (p := fun s => decide (LostWakeup s)) (.init ⟨0, rfl⟩) lostWakeupRun (by decide +kernel)
  exact ⟨s, hr, of_decide_eq_true hp⟩

/-- The main thread blocks after a negative answer, the flag being clear. -/
theorem no_lost_wakeup_run : ∃ s, (machine oneWorker).Reach FlagClear s ∧
    s.main = .blocked false ∧ ¬LostWakeup s := by
  have hinit : (machine oneWorker).Reach FlagClear (System.constructed oneWorker 0) :=
    .init ⟨0, rfl⟩
  obtain ⟨s, hr, hp⟩ := Machine.exists_reach_of_run (fun s e => decide (FlagClear s e))
    (fun s => decide (s.main = .blocked false)) (fun _ _ => of_decide_eq_true) hinit
    (List.flatten [List.replicate 4 (.call .main), List.replicate 4 .main])
    (by decide +kernel) (by decide +kernel)
  exact ⟨s, hr, of_decide_eq_true hp, no_lost_wakeup hr⟩

end Ums.Runtime
