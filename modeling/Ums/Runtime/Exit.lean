import Ums.Runtime.Ledger

/-!
# `all_idle` and the way out

The main thread tests every scheduler while it holds all their mutexes. A scheduler
that is busy at that time stays busy until the mutexes are released, so the test
sees it when it comes to it, however late something was put in a queue it has
already looked at. Once the test has succeeded nothing runs any more: every
scheduler rests (`Resting`) until it is told to exit.
-/

namespace Ums.Runtime

open Lib Scheduler

variable {c : Config} {s s' : System c} {i j : SchedId c}
  {x y : Scheduler c.workers} {p q : Pc c} {e : Event c}

/-! ## The scheduler mutexes -/

theorem holdsMtx_notified (m : MainPc c) (j : SchedId c) :
    m.notified.holdsMtx j = m.holdsMtx j := by
  cases m <;> rfl

/-- No scheduler is inside the critical section of a mutex the main thread holds. -/
def MtxExcl (s : System c) : Prop := ∀ j, s.main.holdsMtx j = true → (s.pc j).holdsMtx = false

/-- A thread locks its mutex only when it is free. -/
theorem Turn.locks (h : Turn s i p q) (hq : q.holdsMtx = true) :
    p.holdsMtx = true ∨ s.mtxFree i = true := by
  cases h with
  | code hc =>
      cases hc with
      | assign _ he => subst he; split at hq <;> cases hq
      | lock hf | idleWake hf => exact Or.inr hf
      | _ => first | exact Or.inl rfl | cases hq
  | task ht => rcases ht with rfl | rfl | ⟨k, rfl⟩ <;> cases hq
  | call ht => rcases ht with rfl | ⟨k, rfl⟩ <;> cases hq
  | steal ht => rcases ht with rfl | ⟨t, rfl⟩ <;> cases hq
  | signalFew | signalAll | signalLock | signalCv => exact Or.inl rfl
  | signalRunning => cases hq

theorem mtxExcl_main (hs : Main s s') (h : MtxExcl s) : MtxExcl s' := by
  intro j hm
  have hj := j.isLt
  cases hs with
  | @lock k hk hlt hf =>
      rcases Nat.lt_succ_iff_lt_or_eq.mp (of_decide_eq_true hm) with hl | he
      · exact h j (by rw [hk]; exact decide_eq_true hl)
      · obtain rfl : j = ⟨k, hlt⟩ := Fin.ext he
        exact hf
  | @lockEnd k hk hle => exact h j (by rw [hk]; exact decide_eq_true (Nat.lt_of_lt_of_le hj hle))
  | stateIdle hk | stateBusy hk | stateEnd hk => exact h j (by rw [hk]; rfl)
  | @unlock k r hk =>
      exact h j (by rw [hk]; exact decide_eq_true (Nat.le_of_succ_le (of_decide_eq_true hm)))
  | tasksEnd | exitSignal | exitNotify | exitNotifyOne => simp [MainPc.holdsMtx] at hm
  | _ => simp [MainPc.holdsMtx] at hm

theorem mtxExcl_step (hs : Step s e s') (h : MtxExcl s) : MtxExcl s' := by
  intro j hm
  cases ha : e.actor with
  | some i =>
      have hm' : s.main.holdsMtx j = true := by
        rcases hs.main_of_actor ha with he | he
        · rwa [he] at hm
        · rwa [he, holdsMtx_notified] at hm
      by_cases hj : j = i
      · subst hj
        by_contra hq
        rw [Bool.not_eq_false] at hq
        rcases (hs.turn ha).locks hq with hp | hf
        · rw [h j hm'] at hp
          cases hp
        · simp [System.mtxFree, hm'] at hf
      · rw [hs.pc_other (j := j) (by rw [ha]; simpa using Ne.symm hj)]
        exact h j hm'
  | none =>
      rw [hs.pc_eq ha]
      rcases hs.main_cases ha with ⟨_, hmain⟩ | ⟨_, hk | ⟨k, hk⟩, _⟩ | ⟨_, he, _⟩
      · rw [← hs.pc_eq ha]
        exact mtxExcl_main hmain h j hm
      · rw [hk] at hm
        cases hm
      · rw [hk] at hm
        cases hm
      · exact h j (he ▸ hm)

/-! ## The verdict -/

/-- The main thread's control points once `all_idle` has returned true. -/
def MainPc.leaving : MainPc c → Bool
  | .allIdleUnlock _ true | .relock true | .exitSignal _ | .exitNotify _ | .exitNotifyOne _
  | .exitJoin _ | .done => true
  | _ => false

/-- The main thread's control points once it has told a scheduler to exit. -/
def MainPc.told : MainPc c → Bool
  | .exitSignal (_ + 1) | .exitNotify _ | .exitNotifyOne _ | .exitJoin _ | .done => true
  | _ => false

/-- A scheduler with no work left, asleep or on its way out. -/
structure Resting (x : Scheduler c.workers) (p : Pc c) : Prop where
  /-- There is no work in any of its lists. -/
  work : x.hasWork = false
  /-- Its thread sleeps, or leaves because it was told to. -/
  pc : p = .idleSleep ∨ p = .idleCheck ∨ p = .idleBlock ∨
    ((p = .signalRunning ∨ p = .shouldExit ∨ p = .exited) ∧ x.exit = true)

/-- What the main thread knows while it holds all mutexes, and once it let go of them. -/
structure Verdict (s : System c) : Prop where
  /-- Nobody exits before the main thread says so. -/
  exit : s.main.told = false → ∀ j, (s.sched j).exit = false
  /-- The schedulers tested so far sleep, and have no task unless somebody is still to be found
  awake. -/
  tested : ∀ k, s.main = .allIdleState k → (∀ j : SchedId c, j.val < k → s.pc j = .idleSleep) ∧
    ((∀ j : SchedId c, j.val < k → (s.sched j).tasks.queue = []) ∨
      ∃ m : SchedId c, k ≤ m.val ∧ s.pc m ≠ .idleSleep)
  /-- After a positive answer nothing runs any more. -/
  resting : s.main.leaving = true → ∀ j, Resting (s.sched j) (s.pc j)

theorem leaving_notified (m : MainPc c) : m.notified.leaving = m.leaving := by
  cases m <;> rfl

theorem told_notified (m : MainPc c) : m.notified.told = m.told := by
  cases m <;> rfl

theorem notified_eq_allIdleState {m : MainPc c} {k : Nat} (h : m.notified = .allIdleState k) :
    m = .allIdleState k := by
  cases m <;> first | exact h | cases h

/-- A sleeping thread wakes up only while its mutex is free. -/
theorem Turn.wakes (h : Turn s i .idleSleep q) : s.mtxFree i = true := by
  cases h with
  | code hc =>
      cases hc with
      | idleWake hf => exact hf

theorem Turn.sleeps (h : Turn s i p .idleSleep) : p = .idleBlock := by
  cases h with
  | code hc =>
      cases hc with
      | assign _ he => split at he <;> cases he
      | idleBlock => rfl
  | task ht => rcases ht with ht | ht | ⟨k, ht⟩ <;> cases ht
  | call ht => rcases ht with ht | ⟨k, ht⟩ <;> cases ht
  | steal ht => rcases ht with ht | ⟨t, ht⟩ <;> cases ht

/-! ## The exit flags -/

theorem code_exit (h : Code s i x p y q) : y.exit = x.exit := by
  cases h with
  | ioRound => unfold scheduleIoWorker; split <;> rfl
  | waitingRound => unfold scheduleWaitingWorker; split <;> rfl
  | yielded => unfold scheduleYieldedWorkers; split <;> rfl
  | assign ha =>
      obtain ⟨_, _, -, rfl⟩ := assignTask_eq_some.mp ha
      rfl
  | exec hp =>
      obtain ⟨_, _, -, rfl⟩ := prepareExec_eq_some.mp hp
      rfl
  | startTimer =>
      obtain ⟨start, hstart⟩ := x.startIdleTimer_eq s.now
      rw [hstart]
  | exit => unfold exitNow; split <;> rfl
  | _ => rfl

/-- Nobody but the main thread, outside of its call, tells a scheduler to exit. -/
theorem Step.exit_eq (hs : Step s e s') (he : e ≠ .main) (j : SchedId c) :
    (s'.sched j).exit = (s.sched j).exit := by
  have hset : ∀ {f : SchedId c → Scheduler c.workers} {k : SchedId c} {y : Scheduler c.workers},
      y.exit = (f k).exit → (Function.update f k y j).exit = (f j).exit := by
    intro f k y hy
    by_cases hj : j = k
    · subst hj; rw [Function.update_self, hy]
    · rw [Function.update_of_ne hj]
  cases hs with
  | user hw hu =>
      refine hset ?_
      rename_i op _ _ _
      cases op <;> simp only [userStep] at hu
      · cases hu; rfl
      · cases hu; rfl
      · split at hu <;> cases hu; rfl
      · split at hu <;> cases hu <;> rfl
  | async | stealNone | signalAll | signalLock | tick => rfl
  | code hc => exact hset (code_exit hc)
  | compare | choose => rw [System.setCall_sched]
  | enque | notifySection | notifyCv =>
      rw [System.setCall_sched]
      exact hset rfl
  | main => exact absurd rfl he
  | _ => exact hset rfl

/-! ## Rest -/

/-- What rests keeps resting, whichever thread moves. -/
theorem resting_actor (hs : Step s e s') (ha : e.actor = some i)
    (h : ∀ j, Resting (s.sched j) (s.pc j)) (j : SchedId c) : Resting (s'.sched j) (s'.pc j) := by
  -- a thread that does anything else than sleep, wake up or exit does not rest
  have hno : ∀ {q : Pc c}, s.pc i = q → ¬ (q = .idleSleep ∨ q = .idleCheck ∨ q = .idleBlock ∨
      q = .signalRunning ∨ q = .shouldExit ∨ q = .exited) → False := by
    rintro q rfl hn
    exact hn ((h i).pc.imp id (Or.imp id (Or.imp id And.left)))
  have hcall : ∀ {a : Thread c} {k : Call c}, Event.actor (.call a) = some i →
      s.callOf a = some k → False := by
    intro a k he hc
    cases a with
    | main => cases he
    | active l =>
        cases he
        exact hno (callOf_active hc) (by simp)
  have hset : ∀ {y : Scheduler c.workers} {q : Pc c} {t : System c},
      t.sched = Function.update s.sched i y → t.pc = Function.update s.pc i q →
      Resting y q → Resting (t.sched j) (t.pc j) := by
    intro y q t hx hp hr
    rw [hx, hp]
    by_cases hj : j = i
    · subst hj; simpa using hr
    · simpa [hj] using h j
  cases hs with
  | user hw | async hw | notifyWaiter hw =>
      cases ha
      exact (hno (taskWorker_eq_some hw).1 (by simp)).elim
  | invoke hp | invoked hp | finish hp | stealNone hp | stealSome hp | signalFew hp | signalAll hp
  | signalLock hp | signalCv hp =>
      cases ha
      exact (hno hp (by simp)).elim
  | compare hc | choose hc => exact (hcall ha hc).elim
  | enque hc | notifySection hc | notifyCv hc => exact (hcall ha hc).elim
  | main | tick => cases ha
  | signalRunning hp =>
      cases ha
      have hi := h i
      rw [hp] at hi
      refine hset rfl rfl ⟨hi.work, ?_⟩
      rcases hi.pc with hp | hp | hp | ⟨_, he⟩
      · cases hp
      · cases hp
      · cases hp
      · exact Or.inr (Or.inr (Or.inr ⟨Or.inr (Or.inl rfl), he⟩))
  | @code _ _ y q hc =>
      cases ha
      refine hset rfl rfl ?_
      have hi := h i
      rcases hi.pc with hp | hp | hp | ⟨hp | hp | hp, he⟩ <;> rw [hp] at hc
      · cases hc
        exact ⟨hi.work, Or.inr (Or.inl rfl)⟩
      · cases hc with
        | idleLeave hq =>
            -- there is no work, so what woke it up is the exit flag
            have hwork := hi.work
            simp only [hasWork, Bool.or_eq_false_iff, hasTasks_eq_false] at hwork
            refine ⟨hi.work, Or.inr (Or.inr (Or.inr ⟨Or.inl rfl, ?_⟩))⟩
            exact hq.resolve_left fun hne => hne hwork.1.2
        | idleStay => exact ⟨hi.work, Or.inr (Or.inr (Or.inl rfl))⟩
      · cases hc
        exact ⟨hi.work, Or.inl rfl⟩
      · cases hc
      · cases hc with
        | exit =>
            refine ⟨?_, Or.inr (Or.inr (Or.inr ⟨Or.inr (Or.inr rfl), ?_⟩))⟩
            · rw [← hi.work]
              unfold exitNow
              split <;> rfl
            · unfold exitNow
              split <;> exact he
        | again hn =>
            rw [he] at hn
            cases hn
      · cases hc

theorem resting_main (hs : Main s s') (h : ∀ j, Resting (s.sched j) (s.pc j)) (j : SchedId c) :
    Resting (s'.sched j) (s'.pc j) := by
  have hset : ∀ {k : SchedId c} {y : Scheduler c.workers}, Resting y (s.pc k) →
      Resting (Function.update s.sched k y j) (s.pc j) := by
    intro k y hy
    by_cases hj : j = k
    · subst hj; rwa [Function.update_self]
    · rw [Function.update_of_ne hj]
      exact h j
  cases hs with
  | exitSignal =>
      refine hset ⟨(h _).work, ?_⟩
      exact (h _).pc.imp id (Or.imp id (Or.imp id fun hp => ⟨hp.1, rfl⟩))
  | exitNotify | exitNotifyOne => exact hset ⟨(h _).work, (h _).pc⟩
  | _ => exact h j

/-- A scheduler that sleeps with an empty queue has no work at all. -/
theorem Core.resting (h : Core x .idleSleep) (hq : x.tasks.queue = []) :
    Resting x (.idleSleep : Pc c) where
  work := by
    obtain ⟨h1, h2, h3, h4⟩ := h.shape
    simp [hasWork, hasYieldedWorkers, h1, h2, h3, h4, hq]
  pc := Or.inl rfl

/-- A scheduler in state `idle_sleep` outside of its critical section is blocked. -/
theorem Local.asleep (h : Local x p) (he : x.exit = false) (hs : x.state = .idleSleep)
    (hf : p.holdsMtx = false) : p = .idleSleep := by
  have hp : p ≠ .exited := fun hp => by
    rw [h.exit hp] at he
    cases he
  have hst := (h.core hp).state
  rw [hs] at hst
  cases p <;> first | rfl | (simp [Pc.holdsMtx] at hf; done) | simp [Pc.state] at hst

/-! ## The verdict over a run -/

theorem Verdict.actor (h : Verdict s) (hx : MtxExcl s) (hs : Step s e s') (ha : e.actor = some i) :
    Verdict s' where
  exit hl j := by
    rw [hs.exit_eq (by rintro rfl; cases ha)]
    refine h.exit ?_ j
    rcases hs.main_of_actor ha with he | he
    · rwa [he] at hl
    · rwa [he, told_notified] at hl
  tested k hk := by
    have hk' : s.main = .allIdleState k := by
      rcases hs.main_of_actor ha with he | he
      · rwa [he] at hk
      · exact notified_eq_allIdleState (he ▸ hk)
    have hheld : s.main.holdsMtx i = true := by rw [hk']; rfl
    -- all mutexes are held, so the thread that moves was awake and stays awake
    have hp : s.pc i ≠ .idleSleep := fun hp => by
      have hturn := hs.turn ha
      rw [hp] at hturn
      have hf := hturn.wakes
      simp [System.mtxFree, hheld] at hf
    have hq : s'.pc i ≠ .idleSleep := fun hq => by
      have hturn := hs.turn ha
      rw [hq] at hturn
      have hb := hx i hheld
      rw [hturn.sleeps] at hb
      cases hb
    obtain ⟨hsleep, _⟩ := h.tested k hk'
    have hki : k ≤ i.val := Nat.not_lt.mp fun hlt => hp (hsleep i hlt)
    refine ⟨fun j hj => ?_, Or.inr ⟨i, hki, hq⟩⟩
    have hji : j ≠ i := by
      rintro rfl
      omega
    rw [hs.pc_other (by rw [ha]; simpa using Ne.symm hji)]
    exact hsleep j hj
  resting hl := by
    refine resting_actor hs ha (h.resting ?_)
    rcases hs.main_of_actor ha with he | he
    · rwa [he] at hl
    · rwa [he, leaving_notified] at hl

theorem Verdict.main (h : Verdict s) (hx : MtxExcl s) (hloc : Locals s) (hs : Main s s') :
    Verdict s' := by
  -- `all_idle` has answered before and the answer stands
  have hstay : s.main.leaving = true → s'.main.leaving = true →
      (s'.main.told = true ∨ (s.main.told = false ∧ s'.sched = s.sched)) → Verdict s' := by
    intro hl hl' ht
    refine ⟨fun hn => ?_, fun k hk => ?_, fun _ => resting_main hs (h.resting hl)⟩
    · rcases ht with ht | ⟨ht, hsched⟩
      · rw [hn] at ht
        cases ht
      · rw [hsched]
        exact h.exit ht
    · rw [hk] at hl'
      cases hl'
  -- the main thread does not answer, or answers false
  have hgo : ∀ {m : MainPc c} {b : Bool}, s.main.told = false → m.leaving = false →
      (∀ k, m ≠ .allIdleState k) → Verdict { s with checkIdle := b, main := m } :=
    fun hl hm hk => ⟨fun _ => h.exit hl, fun k he => absurd he (hk k), fun hn => by
      rw [show ({ s with checkIdle := _, main := _ } : System c).main.leaving = false from hm] at hn
      cases hn⟩
  cases hs with
  | lockEnd hm =>
      refine ⟨fun _ => h.exit (by rw [hm]; rfl), fun k hk => ?_, fun hn => by cases hn⟩
      cases hk
      exact ⟨fun j hj => absurd hj (Nat.not_lt_zero _), Or.inl fun j hj => absurd hj
        (Nat.not_lt_zero _)⟩
  | @stateIdle k hm hlt hi hq =>
      refine ⟨fun _ => h.exit (by rw [hm]; rfl), fun k' hk => ?_, fun hn => by cases hn⟩
      cases hk
      obtain ⟨hsleep, hqueue⟩ := h.tested k hm
      have hpk : s.pc ⟨k, hlt⟩ = .idleSleep :=
        (hloc _).asleep (h.exit (by rw [hm]; rfl) _) hi (hx _ (by rw [hm]; rfl))
      refine ⟨fun j hj => ?_, ?_⟩
      · rcases Nat.lt_succ_iff_lt_or_eq.mp hj with hj | hj
        · exact hsleep j hj
        · obtain rfl : j = ⟨k, hlt⟩ := Fin.ext hj
          exact hpk
      · -- the scheduler seen awake is another one: this one sleeps
        rcases hqueue with hall | ⟨m, hkm, hpm⟩
        · refine Or.inl fun j hj => ?_
          rcases Nat.lt_succ_iff_lt_or_eq.mp hj with hj | hj
          · exact hall j hj
          · obtain rfl : j = ⟨k, hlt⟩ := Fin.ext hj
            exact hq
        · refine Or.inr ⟨m, Nat.lt_of_le_of_ne hkm ?_, hpm⟩
          rintro rfl
          exact hpm hpk
  | @stateEnd k hm hle =>
      obtain ⟨hsleep, hqueue⟩ := h.tested k hm
      refine ⟨fun _ => h.exit (by rw [hm]; rfl), fun k' hk => (by cases hk), fun _ j => ?_⟩
      have hjk : j.val < k := Nat.lt_of_lt_of_le j.isLt hle
      have hp : s.pc j = .idleSleep := hsleep j hjk
      -- every scheduler was tested, so none was seen awake and the queues were all empty
      have hq : (s.sched j).tasks.queue = [] := by
        rcases hqueue with hall | ⟨m, hkm, _⟩
        · exact hall j hjk
        · exact absurd m.isLt (by omega)
      show Resting (s.sched j) (s.pc j)
      rw [hp]
      exact (hloc.core hp (by simp)).resting hq
  | @unlock k r hm | @unlockEnd k r hm =>
      cases r with
      | true => exact hstay (by rw [hm]; rfl) rfl (Or.inr ⟨by rw [hm]; rfl, rfl⟩)
      | false => exact hgo (b := s.checkIdle) (by rw [hm]; rfl) rfl (by simp)
  | returnTrue hm => exact hstay (by rw [hm]; rfl) rfl (Or.inr ⟨by rw [hm]; rfl, rfl⟩)
  | exitSignal hm | exitEnd hm | exitNotify hm | exitNotifyOne hm | exitJoin hm =>
      exact hstay (by rw [hm]; rfl) rfl (Or.inl rfl)
  | flagSet hm => exact hgo (by rw [hm]; rfl) rfl (by simp)
  | flagClear hm | countFew hm | countAll hm | tasksSome hm | tasksNone hm | tasksEnd hm | lock hm
  | stateBusy hm | returnFalse hm | wake hm =>
      exact hgo (b := s.checkIdle) (by rw [hm]; rfl) rfl (by simp)

theorem verdict_step (hs : Step s e s') (hx : MtxExcl s) (hloc : Locals s) (h : Verdict s) :
    Verdict s' := by
  cases ha : e.actor with
  | some i => exact h.actor hx hs ha
  | none =>
      have hpc := hs.pc_eq ha
      rcases hs.main_cases ha with ⟨_, hmain⟩ | ⟨⟨k, hk⟩, hm, _⟩ | ⟨hsched, hmain, _⟩
      · exact h.main hx hloc hmain
      · have hl : s'.main.leaving = false := by rcases hm with hm | ⟨k', hm⟩ <;> rw [hm] <;> rfl
        refine ⟨fun _ j => ?_, fun k' hk' => ?_, fun hn => ?_⟩
        · by_cases he : e = .main
          · subst he
            cases hs with
            | main hmain => cases hmain <;> simp_all
          · rw [hs.exit_eq he]
            exact h.exit (by rw [hk]; rfl) j
        · rcases hm with hm | ⟨k', hm⟩ <;> rw [hm] at hk' <;> cases hk'
        · rw [hl] at hn
          cases hn
      · refine ⟨fun hl => ?_, fun k hk => ?_, fun hl => ?_⟩
        · rw [hsched]
          exact h.exit (hmain ▸ hl)
        · rw [hsched, hpc]
          exact h.tested k (hmain ▸ hk)
        · rw [hsched, hpc]
          exact h.resting (hmain ▸ hl)

theorem mtxExcl_reachable (h : (machine c).Reachable s) : MtxExcl s := by
  refine Machine.Reach.invariant ?_ ?_ h
  · rintro s ⟨now, rfl⟩ j hm
    rfl
  · intro s e s' _ _ hs hx
    exact mtxExcl_step (step_of_next hs) hx

theorem verdict_reachable (h : (machine c).Reachable s) : Verdict s := by
  refine Machine.Reach.invariant ?_ ?_ h
  · rintro s ⟨now, rfl⟩
    refine ⟨fun _ j => ?_, fun k hk => ?_, fun hn => ?_⟩
    · exact constructed_exit c.workers
    · cases hk
    · cases hn
  · intro s e s' hr _ hs hv
    exact verdict_step (step_of_next hs) (mtxExcl_reachable hr) (locals_reachable hr) hv

/-- `all_idle` has returned true, up to the return of `wait_exit`. -/
def MainPc.answered : MainPc c → Bool
  | .allIdleUnlock _ true | .relock true | .exitSignal 0 => true
  | _ => false

theorem leaving_of_answered {m : MainPc c} (h : m.answered = true) :
    m.leaving = true ∧ m.told = false := by
  cases m with
  | allIdleUnlock k r => cases r <;> first | exact ⟨rfl, rfl⟩ | cases h
  | relock r => cases r <;> first | exact ⟨rfl, rfl⟩ | cases h
  | exitSignal k => cases k <;> first | exact ⟨rfl, rfl⟩ | cases h
  | _ => cases h

/-- A resting scheduler that was not told to exit has only idle workers. -/
theorem Resting.idle (h : Resting x p) (hl : Local x p) (he : x.exit = false) (v : WorkerId c) :
    (x.workers v).state = .idle := by
  have hp : p ≠ .exited := fun hp => by
    rw [hl.exit hp] at he
    cases he
  have hc := hl.core hp
  have hact : activeAt x p = none := by
    rcases h.pc with rfl | rfl | rfl | ⟨_, hx⟩
    · rfl
    · rfl
    · rfl
    · rw [he] at hx
      cases hx
  have hw := h.work
  simp only [hasWork, Bool.or_eq_false_iff, hasRunnableWorkers_eq_false,
    hasWaitingWorkers_eq_false, hasPendingIoWorkers_eq_false, hasYieldedWorkers] at hw
  obtain ⟨⟨⟨⟨h1, h2⟩, h3⟩, _⟩, h4⟩ := hw
  have hbin := (hc.placed.binned.mem _ v).mpr rfl
  rw [hact] at hbin
  show x.stateOf v = .idle
  cases hst : x.stateOf v <;> rw [hst] at hbin <;> simp [bin, h1, h2, h3] at hbin
  rw [hbin] at h4
  cases h4

/--
**No premature exit.** When `all_idle` has returned true, every task is finished,
every queue is empty and every worker is idle, up to the return of `wait_exit`;
and a scheduler that is told to exit has no work, so the assertion in `should_exit`
never fails.
-/
theorem no_premature_exit (h : (machine c).Reachable s) :
    (s.main.answered = true →
      (∀ t, t < s.nextTask → t ∈ s.notified) ∧
      (∀ j, (s.sched j).tasks.queue = []) ∧
      (∀ j v, ((s.sched j).workers v).state = .idle)) ∧
    (∀ i, s.pc i = .shouldExit → (s.sched i).exit = true → (s.sched i).hasWork = false) := by
  have hv := verdict_reachable h
  have hloc := locals_reachable h
  refine ⟨fun ha => ?_, fun i _ he => ?_⟩
  · obtain ⟨hl, ht⟩ := leaving_of_answered ha
    have hrest := hv.resting hl
    have hqueue : ∀ j, (s.sched j).tasks.queue = [] := fun j => by
      have hw := (hrest j).work
      simp only [hasWork, Bool.or_eq_false_iff, hasTasks_eq_false] at hw
      exact hw.1.2
    have hidle : ∀ j v, ((s.sched j).workers v).state = .idle := fun j v =>
      (hrest j).idle (hloc j) (hv.exit ht j) v
    refine ⟨fun t hlt => ?_, hqueue, hidle⟩
    -- the task is somewhere, and the only place left is `finished`
    obtain ⟨q, hq, _⟩ := (task_conservation h).1 t hlt
    cases q with
    | queue j =>
        rw [Holds, hqueue j] at hq
        cases hq
    | hand i =>
        rcases (hrest i).pc with hp | hp | hp | ⟨hp | hp | hp, _⟩ <;> rw [Holds, hp] at hq <;>
          cases hq
    | slot j v =>
        exact absurd (hidle j v) ((hloc j).busy v (by rw [show _ = some t from hq]; simp))
    | finished => exact hq
  · -- only a main thread that has its answer tells a scheduler to exit
    refine (hv.resting ?_ i).work
    by_contra hl
    have ht : s.main.told = false := by
      cases hm : s.main <;> rw [hm] at hl <;> first | rfl | exact absurd rfl hl
    rw [hv.exit ht i] at he
    cases he

/-- The main thread waits until its task is done, and is answered. -/
theorem no_premature_exit_run : ∃ s, (machine oneWorker).Reachable s ∧ s.nextTask = 1 ∧
    s.main.answered = true ∧ 0 ∈ s.notified ∧ (s.sched only).tasks.queue = [] := by
  obtain ⟨s, hr, hp⟩ := Machine.exists_of_run (M := machine oneWorker)
    (p := fun s => decide (s.nextTask = 1 ∧ s.main.answered = true)) (.init ⟨0, rfl⟩)
    (List.flatten [
      startRun, List.replicate 3 (.loop only), List.replicate 11 (.code only false), [.tick 200000],
      List.replicate 14 (.code only false), List.replicate 3 (.signal only),
      List.replicate 2 (.code only false), List.replicate 8 .main])
    (by decide +kernel)
  obtain ⟨hn, ha⟩ := of_decide_eq_true hp
  obtain ⟨hall, hq, _⟩ := (no_premature_exit hr).1 ha
  exact ⟨s, hr, hn, ha, hall 0 (by rw [hn]; decide), hq only⟩

end Ums.Runtime
