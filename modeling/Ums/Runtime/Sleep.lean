import Ums.Runtime.Local

/-!
# Sleeping and being woken

A scheduler decides to sleep under its `m_mtx`; what others publish for it is
published without the mutex and announced afterwards under it. `Watch` says, from
the decision on, that everything published for a sleeping scheduler is still on its
way to it: the publisher has yet to lock the mutex, or has set `m_running` and has
yet to notify, or the sleeper has been signalled.
-/

namespace Ums.Runtime

open Lib Scheduler

variable {c : Config} {s s' : System c} {i j : SchedId c}
  {x y : Scheduler c.workers} {p q : Pc c}

/-- What a scheduler ought to wake up for. -/
def Work (x : Scheduler c.workers) : Publication c → Prop
  | .task t => t ∈ x.tasks.queue ∧ x.idleQueue ≠ []
  | .cond v => v ∈ x.waitingQueue ∧ (x.workers v).checkCond = true

/-- Some thread has published `pub` for scheduler `j` and has yet to set `m_running`. -/
def Announcing (s : System c) (j : SchedId c) (pub : Publication c) : Prop :=
  ∃ a, s.callOf a = some (.notify j pub)

/-- Some thread has published `pub` for scheduler `j` and has yet to notify `m_cv`. -/
def Signalling (s : System c) (j : SchedId c) (pub : Publication c) : Prop :=
  ∃ a, s.callOf a = some (.notifyOne j pub)

/-- The work of a scheduler that is about to sleep, or sleeps, is on its way to it. -/
def Watch (x : Scheduler c.workers) (ann sig : Publication c → Prop) : Pc c → Prop
  | .sleepExit | .sleepWaiting => ∀ t, Work x (.task t) → ann (.task t)
  | .sleepBlock _ | .idleBlock => ∀ pub, Work x pub → ann pub
  | .idleWait _ =>
    ∀ pub, Work x pub → ann pub ∨ (x.running = true ∧ (sig pub ∨ x.cv ≠ .blocked))
  | .idleSleep => ∀ pub, Work x pub → ann pub ∨ sig pub ∨ x.cv ≠ .blocked
  | _ => True

variable {ann sig ann' sig' : Publication c → Prop}

/-- The control points `Watch` speaks about. -/
def Pc.watched : Pc c → Bool
  | .sleepExit | .sleepWaiting | .sleepBlock _ | .idleBlock | .idleWait _ | .idleSleep => true
  | _ => false

theorem watch_of_not_watched (hp : p.watched = false) : Watch x ann sig p := by
  cases p <;> first | exact trivial | cases hp

/-- More announcements, and no work but what is announced, keep the watch. -/
theorem Watch.mono (h : Watch x ann sig p) (hw : ∀ pub, Work y pub → Work x pub ∨ ann' pub)
    (ha : ∀ pub, ann pub → ann' pub) (hg : ∀ pub, sig pub → sig' pub)
    (hr : x.running = true → y.running = true) (hc : y.cv = .blocked → x.cv = .blocked) :
    Watch y ann' sig' p := by
  cases p with
  | sleepExit | sleepWaiting =>
      intro t ht
      exact (hw _ ht).elim (fun hx => ha _ (h t hx)) id
  | sleepBlock | idleBlock =>
      intro pub ht
      exact (hw _ ht).elim (fun hx => ha _ (h pub hx)) id
  | idleWait =>
      intro pub ht
      rcases hw _ ht with hx | hn
      · rcases h pub hx with h1 | ⟨h1, h2 | h2⟩
        · exact Or.inl (ha _ h1)
        · exact Or.inr ⟨hr h1, Or.inl (hg _ h2)⟩
        · exact Or.inr ⟨hr h1, Or.inr fun he => h2 (hc he)⟩
      · exact Or.inl hn
  | idleSleep =>
      intro pub ht
      rcases hw _ ht with hx | hn
      · rcases h pub hx with h1 | h2 | h2
        · exact Or.inl (ha _ h1)
        · exact Or.inr (Or.inl (hg _ h2))
        · exact Or.inr (Or.inr fun he => h2 (hc he))
      · exact Or.inl hn
  | _ => trivial

/-- **The critical section of `notify`** turns an announcement into a signal about to be sent. -/
theorem Watch.notifySection {pub₀ : Publication c} (h : Watch x ann sig p) (hp : p.holdsMtx = false)
    (ha : ∀ pub, ann pub → ann' pub ∨ pub = pub₀) (hs : sig' pub₀)
    (hg : ∀ pub, sig pub → sig' pub) : Watch x.notifySection ann' sig' p := by
  cases p with
  | sleepExit | sleepWaiting | sleepBlock | idleBlock => cases hp
  | idleWait =>
      intro pub ht
      refine (h pub ht).elim (fun h1 => ?_) fun ⟨_, h2⟩ => ?_
      · rcases ha _ h1 with h1 | rfl
        · exact Or.inl h1
        · exact Or.inr ⟨rfl, Or.inl hs⟩
      · exact Or.inr ⟨rfl, h2.imp (hg _) id⟩
  | idleSleep =>
      intro pub ht
      rcases h pub ht with h1 | h2 | h2
      · rcases ha _ h1 with h1 | rfl
        · exact Or.inl h1
        · exact Or.inr (Or.inl hs)
      · exact Or.inr (Or.inl (hg _ h2))
      · exact Or.inr (Or.inr h2)
  | _ => trivial

theorem notifyCv_ne_blocked (x : Scheduler c.workers) : x.notifyCv.cv ≠ .blocked := by
  unfold Scheduler.notifyCv Sleeper.notifyOne
  cases x.cv <;> simp

/-- **The notification** leaves nobody blocked, so nothing has to be on its way any more. -/
theorem Watch.notifyCv (h : Watch x ann sig p) (ha : ∀ pub, ann pub → ann' pub) :
    Watch x.notifyCv ann' sig' p := by
  have hn := notifyCv_ne_blocked x
  cases p with
  | sleepExit | sleepWaiting => exact fun t ht => ha _ (h t ht)
  | sleepBlock | idleBlock => exact fun pub ht => ha _ (h pub ht)
  | idleWait =>
      exact fun pub ht => (h pub ht).imp (ha _) fun ⟨hr, _⟩ => ⟨hr, Or.inr hn⟩
  | idleSleep => exact fun pub ht => Or.inr (Or.inr hn)
  | _ => trivial

/-- **The decisions of `sleep`.** A scheduler goes on to sleep only past the test that finds no
work of the kind it will be woken for. -/
theorem Watch.code (hc : Code s i x p y q) (hsh : Shape x p) (h : Watch x ann sig p) :
    Watch y ann sig q := by
  cases hc with
  | noTask hq =>
      intro t ⟨ht, hi⟩
      rw [hq hi] at ht
      cases ht
  | stay => exact h
  | condClear _ hcond =>
      intro pub hw
      cases pub with
      | task t => exact h t hw
      | cond v =>
          simp only [waitersCond, List.any_eq_false] at hcond
          exact absurd hw.2 (hcond v hw.1)
  | block => exact fun pub hw => Or.inl (h pub hw)
  | waitAgain _ hr =>
      intro pub hw
      rcases h pub hw with h1 | ⟨h1, _⟩
      · exact Or.inl h1
      · rw [hr] at h1
        cases h1
  | idleStay hq =>
      intro pub hw
      cases pub with
      | task t =>
          have := hw.1
          rw [hq] at this
          cases this
      | cond v =>
          have := hw.1
          rw [hsh.2.2.2] at this
          cases this
  | idleBlock => exact fun pub hw => Or.inl (h pub hw)
  | assign _ hq =>
      subst hq
      exact watch_of_not_watched (by split <;> rfl)
  | _ => exact trivial

/-! ## Calls and the steps that leave them alone -/

theorem callOf_setCall_ne {a b : Thread c} {r : Option (Call c)} (h : b ≠ a) :
    (s.setCall a r).callOf b = s.callOf b := by
  cases a with
  | active i =>
      cases b with
      | active k =>
          have hk : k ≠ i := fun he => h (congrArg Thread.active he)
          simp [System.callOf, System.setCall, hk]
      | main => rfl
  | main =>
      cases b with
      | active k => rfl
      | main => exact absurd rfl h

/-- A step of one scheduler's thread that neither begins nor ends a call. -/
theorem callOf_own (hp : s'.pc = Function.update s.pc i q) (hm : s'.main.inCall = s.main.inCall)
    (h : q.inCall = (s.pc i).inCall) (a : Thread c) : s'.callOf a = s.callOf a := by
  cases a with
  | main => exact hm
  | active k =>
      by_cases hk : k = i
      · subst hk; simpa [System.callOf, hp] using h
      · simp [System.callOf, hp, hk]

theorem code_inCall (h : Code s i x p y q) : q.inCall = p.inCall := by
  cases h with
  | assign _ hq => subst hq; split <;> rfl
  | _ => rfl

theorem userStep_inCall {now : Time} {v : WorkerId c} {op : UserOp c}
    (h : userStep now x v op = some (y, q)) : q.inCall = none ∧ q.watched = false := by
  cases op <;> simp only [userStep] at h
  · cases h; exact ⟨rfl, rfl⟩
  · cases h; exact ⟨rfl, rfl⟩
  · split at h <;> cases h; exact ⟨rfl, rfl⟩
  · split at h <;> cases h <;> exact ⟨rfl, rfl⟩

/-- Every scheduler that is about to sleep, or sleeps, is watched. -/
def Watched (s : System c) : Prop :=
  ∀ j, Watch (s.sched j) (Announcing s j) (Signalling s j) (s.pc j)

/-- The announcements and signals under way depend on the calls only. -/
theorem Watched.congr {x : SchedId c → Scheduler c.workers} {p : SchedId c → Pc c}
    (h : ∀ j, Watch (x j) (Announcing s j) (Signalling s j) (p j)) (hx : s'.sched = x)
    (hp : s'.pc = p) (hc : ∀ a, s'.callOf a = s.callOf a) : Watched s' := by
  intro j
  have ha : Announcing s' j = Announcing s j := by
    funext pub
    simp only [Announcing, hc]
  have hs : Signalling s' j = Signalling s j := by
    funext pub
    simp only [Signalling, hc]
  rw [ha, hs, hx, hp]
  exact h j

/-- A step of one scheduler's thread outside of calls. -/
theorem Watched.own (h : Watched s) (hx : s'.sched = Function.update s.sched i y)
    (hp : s'.pc = Function.update s.pc i q) (hc : ∀ a, s'.callOf a = s.callOf a)
    (hi : Watch y (Announcing s i) (Signalling s i) q) : Watched s' :=
  Watched.congr (System.forall_setBoth
    (P := fun j x p => Watch x (Announcing s j) (Signalling s j) p) (fun k _ => h k) hi) hx hp hc

/-- A step of another thread outside of calls. -/
theorem Watched.remote (h : Watched s) (hx : s'.sched = Function.update s.sched j y)
    (hp : s'.pc = s.pc) (hc : ∀ a, s'.callOf a = s.callOf a)
    (hj : Watch y (Announcing s j) (Signalling s j) (s.pc j)) : Watched s' :=
  Watched.congr (System.forall_setSched
    (P := fun j x p => Watch x (Announcing s j) (Signalling s j) p) (fun k _ => h k) hj) hx hp hc

/-! ## Calls -/

/-- A thread that is in no announcement can go on without losing one. -/
theorem Announcing.setCall {t : System c} {a : Thread c} {r : Option (Call c)} {pub : Publication c}
    (ht : ∀ b, t.callOf b = s.callOf b) (ha : s.callOf a ≠ some (.notify j pub))
    (h : Announcing s j pub) : Announcing (t.setCall a r) j pub := by
  obtain ⟨b, hb⟩ := h
  refine ⟨b, ?_⟩
  rw [callOf_setCall_ne (by rintro rfl; exact ha hb), ht, hb]

theorem Signalling.setCall {t : System c} {a : Thread c} {r : Option (Call c)} {pub : Publication c}
    (ht : ∀ b, t.callOf b = s.callOf b) (ha : s.callOf a ≠ some (.notifyOne j pub))
    (h : Signalling s j pub) : Signalling (t.setCall a r) j pub := by
  obtain ⟨b, hb⟩ := h
  refine ⟨b, ?_⟩
  rw [callOf_setCall_ne (by rintro rfl; exact ha hb), ht, hb]

/-- The thread of the call itself is not asleep. -/
theorem Watched.setCall {t : System c} {a : Thread c} {r : Option (Call c)}
    (h : ∀ k, Watch (t.sched k) (Announcing (t.setCall a r) k) (Signalling (t.setCall a r) k)
      (t.pc k)) : Watched (t.setCall a r) := by
  cases a with
  | main => exact h
  | active i =>
      intro k
      by_cases hk : k = i
      · subst hk
        refine watch_of_not_watched ?_
        cases r <;> simp [System.setCall, Pc.watched]
      · have := h k
        simpa [System.setCall, hk] using this

/-- A call that touches no scheduler. -/
theorem Watched.goOn {a : Thread c} {r : Option (Call c)} (h : Watched s)
    (hn : ∀ j pub, s.callOf a ≠ some (.notify j pub) ∧ s.callOf a ≠ some (.notifyOne j pub)) :
    Watched (s.setCall a r) := by
  refine Watched.setCall fun k => (h k).mono (fun _ => Or.inl) ?_ ?_ id id
  · exact fun pub => Announcing.setCall (fun _ => rfl) (hn k pub).1
  · exact fun pub => Signalling.setCall (fun _ => rfl) (hn k pub).2

/-- **A publication**: whatever becomes work is announced by the same thread. -/
theorem Watched.publish {t : System c} {a : Thread c} {pub₀ : Publication c} (h : Watched s)
    (hn : ∀ j pub, s.callOf a ≠ some (.notify j pub) ∧ s.callOf a ≠ some (.notifyOne j pub))
    (ht : ∀ b, t.callOf b = s.callOf b) (hp : t.pc = s.pc)
    (hx : t.sched = Function.update s.sched j y)
    (hw : ∀ pub, Work y pub → Work (s.sched j) pub ∨ pub = pub₀)
    (hr : y.running = (s.sched j).running) (hc : y.cv = (s.sched j).cv) :
    Watched (t.setCall a (some (.notify j pub₀))) := by
  refine Watched.setCall fun k => ?_
  have ha : ∀ pub, Announcing s k pub → Announcing (t.setCall a (some (.notify j pub₀))) k pub :=
    fun pub => Announcing.setCall ht (hn k pub).1
  have hs : ∀ pub, Signalling s k pub → Signalling (t.setCall a (some (.notify j pub₀))) k pub :=
    fun pub => Signalling.setCall ht (hn k pub).2
  rw [hx, hp]
  by_cases hk : k = j
  · subst hk
    rw [Function.update_self]
    refine (h k).mono (fun pub hpub => (hw pub hpub).imp id ?_) ha hs (by rw [hr]; exact id)
      (by rw [hc]; exact id)
    rintro rfl
    exact ⟨a, callOf_setCall_self⟩
  · rw [Function.update_of_ne hk]
    exact (h k).mono (fun _ => Or.inl) ha hs id id

theorem work_enque {t : TaskId} (pub : Publication c) (h : Work (x.enque t) pub) :
    Work x pub ∨ pub = .task t := by
  cases pub with
  | task u =>
      obtain ⟨hm, hi⟩ := h
      rw [Scheduler.enque, Tasks.queue_enque, List.mem_append, List.mem_singleton] at hm
      rcases hm with hm | rfl
      · exact Or.inl ⟨hm, hi⟩
      · exact Or.inr rfl
  | cond v => exact Or.inl h

theorem work_setCond {v : WorkerId c} (pub : Publication c) (h : Work (x.setCond v) pub) :
    Work x pub ∨ pub = .cond v := by
  cases pub with
  | task u => exact Or.inl h
  | cond u =>
      by_cases hu : u = v
      · exact Or.inr (by rw [hu])
      · refine Or.inl ⟨h.1, ?_⟩
        have := h.2
        simpa [Scheduler.setCond, setWorker, hu] using this

theorem work_dropTask {pub : Publication c} (h : Work x.dropTask pub) : Work x pub := by
  cases pub with
  | cond v => exact h
  | task u =>
      refine ⟨?_, h.2⟩
      have hm := h.1
      rcases x.tasks.deque_cases with ⟨hq, hd⟩ | ⟨t, rest, hq, _, hd⟩
      · rw [dropTask, hd] at hm
        exact hm
      · rw [dropTask, hd] at hm
        rw [hq]
        exact List.mem_cons_of_mem _ hm

/-- **The critical section of a publisher's `notify`.** -/
theorem Watched.notifySection {a : Thread c} {pub₀ : Publication c} (h : Watched s)
    (hc : s.callOf a = some (.notify j pub₀)) (hf : s.mtxFree j = true) :
    Watched ((s.setSched j (s.sched j).notifySection).setCall a (some (.notifyOne j pub₀))) := by
  have hfree : (s.pc j).holdsMtx = false := by
    rw [System.mtxFree, Bool.and_eq_true, Bool.not_eq_true'] at hf
    exact hf.1
  have ht : ∀ b, (s.setSched j (s.sched j).notifySection).callOf b = s.callOf b := fun b => by
    cases b <;> rfl
  refine Watched.setCall fun k => ?_
  by_cases hk : k = j
  · subst hk
    rw [System.setSched_sched, Function.update_self]
    refine (h k).notifySection (p := s.pc k) hfree (fun pub ha => ?_) ⟨a, callOf_setCall_self⟩ ?_
    · by_cases hpub : pub = pub₀
      · exact Or.inr hpub
      · exact Or.inl (ha.setCall ht (by rw [hc]; simpa using Ne.symm hpub))
    · exact fun pub hg => hg.setCall ht (by rw [hc]; simp)
  · rw [System.setSched_sched, Function.update_of_ne hk]
    refine (h k).mono (fun _ => Or.inl) (fun pub ha => ?_) (fun pub hg => ?_) id id
    · exact ha.setCall ht (by rw [hc]; simp [Ne.symm hk])
    · exact hg.setCall ht (by rw [hc]; simp)

/-- **The notification of a publisher.** -/
theorem Watched.notifyCv {a : Thread c} {pub₀ : Publication c} (h : Watched s)
    (hc : s.callOf a = some (.notifyOne j pub₀)) :
    Watched ((s.setSched j (s.sched j).notifyCv).setCall a none) := by
  have ht : ∀ b, (s.setSched j (s.sched j).notifyCv).callOf b = s.callOf b := fun b => by
    cases b <;> rfl
  refine Watched.setCall fun k => ?_
  by_cases hk : k = j
  · subst hk
    rw [System.setSched_sched, Function.update_self]
    exact (h k).notifyCv fun pub ha => ha.setCall ht (by rw [hc]; simp)
  · rw [System.setSched_sched, Function.update_of_ne hk]
    refine (h k).mono (fun _ => Or.inl) (fun pub ha => ?_) (fun pub hg => ?_) id id
    · exact ha.setCall ht (by rw [hc]; simp)
    · exact hg.setCall ht (by rw [hc]; simp [Ne.symm hk])

/-- A step of the main thread outside of calls. -/
theorem watched_main (hs : Main s s') (h : Watched s) : Watched s' := by
  have hcall : ∀ a, s'.callOf a = s.callOf a := by
    intro a
    cases a with
    | main => cases hs <;> simp_all [System.callOf, MainPc.inCall]
    | active k => cases hs <;> rfl
  cases hs with
  | exitSignal =>
      exact h.remote rfl rfl hcall
        ((h _).mono (fun _ => Or.inl) (fun _ => id) (fun _ => id) id id)
  | exitNotify =>
      exact h.remote rfl rfl hcall
        ((h _).mono (fun _ => Or.inl) (fun _ => id) (fun _ => id) (fun _ => rfl) id)
  | exitNotifyOne => exact h.remote rfl rfl hcall ((h _).notifyCv fun _ => id)
  | _ => exact Watched.congr h rfl rfl hcall

/-- **Each step keeps every sleeping scheduler watched.** -/
theorem watched_step {e : Event c} (hs : Step s e s') (hloc : Locals s) (h : Watched s) :
    Watched s' := by
  cases hs with
  | @user i _ _ y q hw hu =>
      obtain ⟨hq, hn⟩ := userStep_inCall hu
      have hp := (taskWorker_eq_some hw).1
      exact h.own rfl rfl (callOf_own rfl rfl (by rw [hp, hq]; rfl)) (watch_of_not_watched hn)
  | @async i _ hw =>
      have hp := (taskWorker_eq_some hw).1
      exact h.goOn (a := .active i) (r := some _) fun j pub => by
        simp [System.callOf, hp, Pc.inCall]
  | @notifyWaiter i j _ v hw =>
      have hp := (taskWorker_eq_some hw).1
      exact h.publish (a := .active i) (t := s.setSched j ((s.sched j).setCond v))
        (fun j pub => by simp [System.callOf, hp, Pc.inCall]) (fun b => by cases b <;> rfl) rfl rfl
        work_setCond rfl rfl
  | @invoke i _ _ hp | @invoked i _ _ hp =>
      refine h.own (q := .user) rfl ?_ (fun b => by cases b <;> rfl) trivial
      rw [← hp, Function.update_eq_self]
      rfl
  | finish hp =>
      exact h.own rfl rfl (callOf_own rfl rfl (by rw [hp]; rfl)) trivial
  | compare hc | choose hc => exact h.goOn fun j pub => by simp [hc]
  | @enque a j hc =>
      exact h.publish (a := a) (t := { s.setSched j ((s.sched j).enque s.nextTask) with
        nextTask := s.nextTask + 1 }) (fun j pub => by simp [hc]) (fun b => by cases b <;> rfl) rfl
        rfl work_enque rfl rfl
  | @notifySection a j p hc hf => exact h.notifySection hc hf
  | @notifyCv a j p hc => exact h.notifyCv hc
  | @code i _ y q hc =>
      by_cases hp : s.pc i = .exited
      · rw [hp] at hc
        cases hc
      · have hsh := ((hloc i).core hp).shape
        exact h.own rfl rfl (callOf_own rfl rfl (code_inCall hc)) ((h i).code hc hsh)
  | @stealNone i k hp =>
      exact h.own (i := i) (Function.update_eq_self ..).symm rfl
        (callOf_own rfl rfl (by rw [hp]; rfl))
        trivial
  | @stealSome i k t rest hp hq =>
      have h1 : Watched (s.setSched k (s.sched k).dropTask) :=
        h.remote rfl rfl (fun a => by cases a <;> rfl)
          ((h k).mono (fun pub hw => Or.inl (work_dropTask hw)) (fun _ => id) (fun _ => id) id id)
      exact h1.own (i := i) (Function.update_eq_self ..).symm rfl
        (callOf_own rfl rfl (by rw [System.setSched_pc, hp]; rfl)) trivial
  | signalFew hp | signalRunning hp =>
      exact h.own rfl rfl (callOf_own rfl rfl (by rw [hp]; rfl)) trivial
  | @signalCv i hp =>
      have hm : s.main.notified.inCall = s.main.inCall := by cases s.main <;> rfl
      exact h.own rfl rfl (callOf_own rfl hm (by rw [hp]; rfl)) trivial
  | signalAll hp | signalLock hp =>
      exact h.own (Function.update_eq_self ..).symm rfl (callOf_own rfl rfl (by rw [hp]; rfl))
        trivial
  | main hm => exact watched_main hm h
  | tick => exact Watched.congr h rfl rfl fun a => by cases a <;> rfl

theorem watched_init (now : Nat) : Watched (System.constructed c now) := by
  intro j pub hw
  cases pub with
  | task t =>
      have hm : t ∈ (constructed c.workers).tasks.queue := hw.1
      rw [constructed_tasks] at hm
      cases hm
  | cond v =>
      have hm : v ∈ (constructed c.workers).waitingQueue := hw.1
      rw [(constructed_lists c.workers).2.1] at hm
      cases hm

theorem watched_reachable (h : (machine c).Reachable s) : Watched s := by
  refine Machine.Reach.invariant ?_ ?_ h
  · rintro s ⟨now, rfl⟩
    exact watched_init now
  · intro s e s' hr _ hs hw
    exact watched_step (step_of_next hs) (locals_reachable hr) hw

/-! ## How long a scheduler sleeps -/

/-- The deadline of a worker's wait. -/
def timeOf (x : Scheduler c.workers) (v : WorkerId c) : Time :=
  (x.workers v).waitInfo.sleepTimePoint

/-- The time-out a scheduler is about to block with, or blocks with. -/
def Pc.deadline : Pc c → Option Time
  | .sleepBlock d | .idleWait d => some d
  | _ => none

/-- The deadlines of the waiting workers and the time-out that follows from them. -/
structure Timed (x : Scheduler c.workers) (p : Pc c) : Prop where
  /-- A worker only waits for a later time, and the clock is never negative. -/
  waiting : ∀ v ∈ x.waitingQueue, 0 < timeOf x v
  /-- The scheduler wakes up a threshold before every deadline. -/
  deadline : ∀ d, p.deadline = some d → ∀ v ∈ x.waitingQueue, d ≤ timeOf x v - idleSleepThreshold

/-- The state of a worker says nothing about its deadline. -/
theorem timeOf_setWorkerState (u : WorkerId c) (st : WorkerState) (v : WorkerId c) :
    timeOf (x.setWorkerState u st) v = timeOf x v := by
  by_cases hu : v = u
  · subst hu; simp [timeOf, setWorkerState, setWorker, manageLoad]
  · simp [timeOf, setWorkerState, setWorker, manageLoad, hu]

/-- Nobody starts to wait and nobody's deadline changes. -/
theorem Timed.kept (h : Timed x p)
    (hk : ∀ v ∈ y.waitingQueue, v ∈ x.waitingQueue ∧ timeOf y v = timeOf x v)
    (hq : q.deadline = p.deadline ∨ q.deadline = none) : Timed y q where
  waiting v hv := by
    obtain ⟨hx, he⟩ := hk v hv
    rw [he]
    exact h.waiting v hx
  deadline d hd v hv := by
    obtain ⟨hx, he⟩ := hk v hv
    rw [he]
    rcases hq with hq | hq
    · exact h.deadline d (hq ▸ hd) v hx
    · rw [hq] at hd
      cases hd

theorem Timed.of_fields (h : Timed x p) (hw : y.waitingQueue = x.waitingQueue)
    (hv : y.workers = x.workers) (hq : q.deadline = p.deadline ∨ q.deadline = none) : Timed y q :=
  h.kept (fun v hm => ⟨hw ▸ hm, by rw [timeOf, timeOf, hv]⟩) hq

theorem earliestWait_le {v : WorkerId c} (hv : v ∈ x.waitingQueue) :
    x.earliestWait ≤ timeOf x v := by
  have hfold : ∀ (l : List (WorkerId c)) (e : Time),
      l.foldl (fun e v => min e (x.workers v).waitInfo.sleepTimePoint) e ≤ e ∧
      ∀ v ∈ l, l.foldl (fun e v => min e (x.workers v).waitInfo.sleepTimePoint) e ≤ timeOf x v := by
    intro l
    induction l with
    | nil => exact fun e => ⟨Int.le_refl e, fun v hv => by cases hv⟩
    | cons u l ih =>
        intro e
        obtain ⟨h1, h2⟩ := ih (min e (x.workers u).waitInfo.sleepTimePoint)
        refine ⟨h1.trans (Int.min_le_left _ _), fun v hv => ?_⟩
        rcases List.mem_cons.mp hv with rfl | hv
        · exact h1.trans (Int.min_le_right _ _)
        · exact h2 v hv
  exact (hfold x.waitingQueue Time.max).2 v hv

theorem earliestWait_mem (h : ∀ v ∈ x.waitingQueue, 0 < timeOf x v) :
    0 < x.earliestWait ∧ x.earliestWait ≤ Time.max := by
  have hfold : ∀ (l : List (WorkerId c)) (e : Time), (∀ v ∈ l, 0 < timeOf x v) → 0 < e →
      e ≤ Time.max →
      0 < l.foldl (fun e v => min e (x.workers v).waitInfo.sleepTimePoint) e ∧
      l.foldl (fun e v => min e (x.workers v).waitInfo.sleepTimePoint) e ≤ Time.max := by
    intro l
    induction l with
    | nil => exact fun e _ h0 h1 => ⟨h0, h1⟩
    | cons u l ih =>
        intro e hl h0 h1
        refine ih _ (fun v hv => hl v (List.mem_cons_of_mem _ hv)) ?_ ?_
        · exact Int.lt_min.mpr ⟨h0, hl u List.mem_cons_self⟩
        · exact (Int.min_le_left _ _).trans h1
  exact hfold x.waitingQueue Time.max h (by decide) (Int.le_refl _)

/-- **The time-out of `idle_wait`** does not wrap around, so it precedes every deadline. -/
theorem timeout_le (h : ∀ v ∈ x.waitingQueue, 0 < timeOf x v) {v : WorkerId c}
    (hv : v ∈ x.waitingQueue) :
    wrap64 (x.earliestWait - idleSleepThreshold) ≤ timeOf x v - idleSleepThreshold := by
  obtain ⟨h0, h1⟩ : (0 : Int) < x.earliestWait ∧ (x.earliestWait : Int) ≤ Time.max :=
    earliestWait_mem h
  have hle := earliestWait_le hv
  rw [wrap64_of_mem]
  · exact Int.sub_le_sub_right hle _
  · unfold Time.min idleSleepThreshold
    omega
  · exact (Int.sub_le_self _ (by decide)).trans h1

/-- The scheduling code lets nobody wait and touches no deadline. -/
theorem code_waiting (hc : Code s i x p y q) {v : WorkerId c} (hv : v ∈ y.waitingQueue) :
    v ∈ x.waitingQueue ∧ timeOf y v = timeOf x v := by
  cases hc with
  | ioRound =>
      unfold scheduleIoWorker at hv ⊢
      split
      · rw [if_pos ‹_›] at hv
        exact ⟨hv, timeOf_setWorkerState _ _ v⟩
      · rw [if_neg ‹_›] at hv
        exact ⟨hv, rfl⟩
  | waitingRound =>
      unfold scheduleWaitingWorker at hv ⊢
      split
      · rw [if_pos ‹_›] at hv
        exact ⟨List.mem_of_mem_eraseIdx hv, timeOf_setWorkerState _ _ v⟩
      · rw [if_neg ‹_›] at hv
        exact ⟨hv, rfl⟩
  | yielded =>
      unfold scheduleYieldedWorkers at hv ⊢
      cases hy : x.yieldedWorker with
      | none =>
          rw [hy] at hv
          exact ⟨hv, rfl⟩
      | some u =>
          rw [hy] at hv
          exact ⟨hv, timeOf_setWorkerState u .runnable v⟩
  | assign ha =>
      obtain ⟨u, rest, -, rfl⟩ := assignTask_eq_some.mp ha
      refine ⟨hv, (timeOf_setWorkerState u _ v).trans ?_⟩
      by_cases hu : v = u
      · subst hu; simp [timeOf, setWorker]
      · simp [timeOf, setWorker, hu]
  | exec hp =>
      obtain ⟨_, _, -, rfl⟩ := prepareExec_eq_some.mp hp
      exact ⟨hv, timeOf_setWorkerState _ _ v⟩
  | startTimer =>
      obtain ⟨start, hstart⟩ := x.startIdleTimer_eq s.now
      rw [hstart] at hv ⊢
      exact ⟨hv, rfl⟩
  | exit =>
      unfold exitNow at hv ⊢
      cases hw : x.worker with
      | none =>
          rw [hw] at hv
          exact ⟨hv, rfl⟩
      | some u =>
          rw [hw] at hv
          exact ⟨hv, timeOf_setWorkerState u .exiting v⟩
  | _ => exact ⟨hv, rfl⟩

theorem timed_code (hc : Code s i x p y q) (h : Timed x p) : Timed y q := by
  by_cases hq : q.deadline = p.deadline ∨ q.deadline = none
  · exact h.kept (fun v hv => code_waiting hc hv) hq
  · cases hc with
    | condClear =>
        -- here the time-out is computed, under the mutex
        refine ⟨h.waiting, fun d hd v hv => ?_⟩
        cases hd
        exact timeout_le h.waiting hv
    | assign _ he => subst he; exact absurd (by split <;> exact Or.inr rfl) hq
    | _ => exact absurd (by first | exact Or.inl rfl | exact Or.inr rfl) hq

theorem timed_userStep {now : Nat} {v : WorkerId c} {op : UserOp c} (hc : Core x .user)
    (hv : x.worker = some v) (h : Timed x .user) (hu : userStep now x v op = some (y, q)) :
    Timed y q := by
  cases op with
  | yield | io =>
      cases hu
      exact h.kept (fun u hu => ⟨hu, timeOf_setWorkerState _ _ u⟩) (Or.inr rfl)
  | setWaitInfo t =>
      simp only [userStep] at hu
      split at hu <;> cases hu
      refine h.kept (fun u hm => ⟨hm, ?_⟩) (Or.inl rfl)
      -- the running worker is not one of the waiting ones
      have hne : u ≠ v := by
        rintro rfl
        have hst := (hc.placed.binned.mem .waiting u).mp hm
        rw [Scheduler.stateOf, (hc.active rfl hv).2] at hst
        cases hst
      simp [timeOf, setWorker, hne]
  | waitCondOrSleep =>
      simp only [userStep] at hu
      split at hu <;> rename_i hw <;> cases hu
      · exact h
      · simp only [Worker.checkWaitInfo, Worker.checkSleep, Bool.or_eq_true, not_or,
          decide_eq_true_eq] at hw
        refine ⟨fun u hm => ?_, fun d hd => by cases hd⟩
        rw [show timeOf (x.parkWorker .wait v) u = timeOf x u from
          timeOf_setWorkerState _ _ u]
        rcases List.mem_append.mp hm with hm | hm
        · exact h.waiting u hm
        · -- a worker only parks for a time that has not come yet
          rw [List.mem_singleton.mp hm]
          exact Int.lt_of_le_of_lt (Int.natCast_nonneg now) (Int.not_le.mp hw.2)

/-- Every scheduler sleeps no longer than its waiting workers allow. -/
def AllTimed (s : System c) : Prop := ∀ j, Timed (s.sched j) (s.pc j)

theorem AllTimed.setBoth (h : AllTimed s) (hi : Timed y q) : AllTimed (s.setBoth i y q) :=
  System.forall_setBoth (fun k _ => h k) hi

theorem AllTimed.setSched (h : AllTimed s) (hi : Timed y (s.pc i)) : AllTimed (s.setSched i y) :=
  System.forall_setSched (fun k _ => h k) hi

theorem AllTimed.setPc (h : AllTimed s) (hq : q.deadline = none) : AllTimed (s.setPc i q) :=
  System.forall_setPc (fun k _ => h k) ((h i).of_fields rfl rfl (Or.inr hq))

theorem AllTimed.setCall {a : Thread c} {r : Option (Call c)} (h : AllTimed s) :
    AllTimed (s.setCall a r) := by
  cases a with
  | main => exact h
  | active i => exact h.setPc (by cases r <;> rfl)

/-- A change of one worker that leaves its deadline alone. -/
theorem Timed.setWorker {v : WorkerId c} {u : Worker} (h : Timed x p)
    (hu : u.waitInfo.sleepTimePoint = timeOf x v) : Timed (x.setWorker v u) p := by
  refine h.kept (fun r hr => ⟨hr, ?_⟩) (Or.inl rfl)
  by_cases he : r = v
  · subst he
    simp only [timeOf, Scheduler.setWorker, Function.update_self]
    exact hu
  · simp only [timeOf, Scheduler.setWorker, Function.update_of_ne he]

theorem timed_step {e : Event c} (hs : Step s e s') (hloc : Locals s) (h : AllTimed s) :
    AllTimed s' := by
  cases hs with
  | @user i _ _ y q hw hu =>
      obtain ⟨hp, hv, _⟩ := taskWorker_eq_some hw
      have hi := h i
      rw [hp] at hi
      exact h.setBoth (timed_userStep (hloc.core hp (by simp)) hv hi hu)
  | async hw => exact h.setPc rfl
  | @notifyWaiter i j _ v hw =>
      have h1 : AllTimed (s.setSched j ((s.sched j).setCond v)) := h.setSched ((h j).setWorker rfl)
      exact h1.setPc rfl
  | @invoke i v _ hp => exact AllTimed.setSched h ((h i).setWorker rfl)
  | @invoked i v _ hp => exact AllTimed.setSched h ((h i).setWorker rfl)
  | @finish i v _ hp =>
      have h1 : Timed ((s.sched i).setWorker v
          { (s.sched i).workers v with task := none, loop := .sync }) .user := by
        have hi := h i
        rw [hp] at hi
        exact hi.setWorker rfl
      exact AllTimed.setBoth h
        (h1.kept (fun u hu => ⟨hu, timeOf_setWorkerState v .idle u⟩) (Or.inl rfl))
  | compare | choose => exact h.setCall
  | @enque a j hc =>
      have h1 : AllTimed (s.setSched j ((s.sched j).enque s.nextTask)) :=
        h.setSched ((h j).of_fields rfl rfl (Or.inl rfl))
      exact AllTimed.setCall h1
  | @notifySection a j p hc =>
      exact (h.setSched (y := (s.sched j).notifySection)
        ((h j).of_fields rfl rfl (Or.inl rfl))).setCall
  | @notifyCv a j p hc =>
      exact (h.setSched (y := (s.sched j).notifyCv) ((h j).of_fields rfl rfl (Or.inl rfl))).setCall
  | @code i _ y q hc => exact h.setBoth (timed_code hc (h i))
  | stealNone => exact h.setPc rfl
  | @stealSome i k =>
      have h1 : AllTimed (s.setSched k (s.sched k).dropTask) :=
        h.setSched ((h k).of_fields rfl rfl (Or.inl rfl))
      exact h1.setPc rfl
  | @signalFew i | @signalCv i | @signalRunning i =>
      exact AllTimed.setBoth h ((h i).of_fields rfl rfl (Or.inr rfl))
  | signalAll | signalLock => exact AllTimed.setPc h rfl
  | main hm =>
      cases hm with
      | exitSignal | exitNotify | exitNotifyOne =>
          exact AllTimed.setSched h ((h _).of_fields rfl rfl (Or.inl rfl))
      | _ => exact h
  | tick => exact h

theorem timed_reachable (h : (machine c).Reachable s) : AllTimed s := by
  refine Machine.Reach.invariant ?_ ?_ h
  · rintro s ⟨now, rfl⟩ j
    have hw : ((System.constructed c now).sched j).waitingQueue = [] :=
      (constructed_lists c.workers).2.1
    refine ⟨fun v hv => ?_, fun d hd => by cases hd⟩
    rw [hw] at hv
    cases hv
  · intro s e s' hr _ hs ht
    exact timed_step (step_of_next hs) (locals_reachable hr) ht

/--
**A scheduler never sleeps through its own work.** Where the thread is blocked on
`m_cv` and has not been signalled, a queued task that meets an idle worker, and a
waiting worker whose condition is set, have a publisher that is still inside
`notify`; and the time-out of `idle_wait` is a threshold earlier than the deadline
of every waiting worker.
-/
theorem no_sleep_through_work (h : (machine c).Reachable s) (j : SchedId c) :
    (((∃ d, s.pc j = .idleWait d) ∨ s.pc j = .idleSleep) → (s.sched j).cv = .blocked →
      (∀ t ∈ (s.sched j).tasks.queue, (s.sched j).idleQueue ≠ [] →
        Announcing s j (.task t) ∨ Signalling s j (.task t)) ∧
      (∀ v ∈ (s.sched j).waitingQueue, ((s.sched j).workers v).checkCond = true →
        Announcing s j (.cond v) ∨ Signalling s j (.cond v))) ∧
    (∀ d, s.pc j = .sleepBlock d ∨ s.pc j = .idleWait d → ∀ v ∈ (s.sched j).waitingQueue,
      d ≤ ((s.sched j).workers v).waitInfo.sleepTimePoint - idleSleepThreshold) := by
  refine ⟨fun hp hb => ?_, fun d hp v hv => ?_⟩
  · have hw := watched_reachable h j
    have hall : ∀ pub, Work (s.sched j) pub → Announcing s j pub ∨ Signalling s j pub := by
      intro pub hpub
      rcases hp with ⟨d, hp⟩ | hp
      · rw [hp] at hw
        rcases hw pub hpub with h1 | ⟨_, h2 | h2⟩
        · exact Or.inl h1
        · exact Or.inr h2
        · exact absurd hb h2
      · rw [hp] at hw
        rcases hw pub hpub with h1 | h2 | h2
        · exact Or.inl h1
        · exact Or.inr h2
        · exact absurd hb h2
    exact ⟨fun t ht hi => hall (.task t) ⟨ht, hi⟩, fun v hv hc => hall (.cond v) ⟨hv, hc⟩⟩
  · refine (timed_reachable h j).deadline d ?_ v hv
    rcases hp with hp | hp <;> rw [hp] <;> rfl

/-- The only scheduler sleeps on its task, whose publisher is about to announce it. -/
theorem no_sleep_through_work_run : ∃ s, (machine oneWorker).Reachable s ∧
    s.pc only = .idleSleep ∧ 0 ∈ (s.sched only).tasks.queue ∧
    (Announcing s only (.task 0) ∨ Signalling s only (.task 0)) := by
  obtain ⟨s, hr, hp⟩ := Machine.exists_of_run (M := machine oneWorker)
    (p := fun s => decide (s.pc only = .idleSleep ∧ (s.sched only).cv = .blocked ∧
      (s.sched only).idleQueue ≠ [] ∧ 0 ∈ (s.sched only).tasks.queue))
    (.init ⟨0, rfl⟩) (List.replicate 3 (.call .main)) (by decide +kernel)
  obtain ⟨hs, hb, hi, ht⟩ := of_decide_eq_true hp
  exact ⟨s, hr, hs, ht, ((no_sleep_through_work hr only).1 (Or.inr hs) hb).1 0 ht hi⟩

end Ums.Runtime
