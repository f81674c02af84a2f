import Ums.Wakeup.Program

/-!
# No hand-over is lost

Who sets the flag of a worker that is blocked notifies it, and both happen under
`m_workers_mtx`, which the worker holds from its test of the flag until it is blocked. The same
goes for the constructor: the worker it waits for clears its flag right after it has notified it,
and the scheduler that sleeps for the first time notifies it under `m_mtx`. So nobody waits for
what has already happened, and some thread can always go on.
-/

namespace Ums.Wakeup

open Lib
open Handoff (Pc CtorPc Thread)

variable {w : Nat} {s s' : State w} {x x' : Handoff.State w}

/-! ## What a step can do -/

/-- The worker waits for nobody and wakes up nobody there. -/
def quiet : Pc → Bool
  | .blocked _ | .initNotify | .switchNotify | .asleep | .schedule => false
  | _ => true

/-- The same for the constructor. -/
def ctorQuiet : CtorPc → Bool
  | .blocked _ | .start | .await => false
  | _ => true

/-- The worker `v` is about to notify `n`. -/
def Notifies (x : Handoff.State w) (v n : Fin w) : Prop :=
  x.pc v = .initNotify ∧ n = v ∨ x.pc v = .switchNotify ∧ x.worker = some n

/-- The outcomes of a step. -/
inductive Step (s : State w) : Event w → State w → Prop
  | resume {v p y e} (he : (∃ b, e = .worker v b) ∧ s.notified v = true ∨ e = .spurious v)
      (hp : s.threads.pc v = .blocked p) (hy : Handoff.next s.threads (.worker v) = some y) :
      Step s e { s with threads := y, notified := Function.update s.notified v false }
  | notify {v n b y} (hn : Notifies s.threads v n)
      (hy : Handoff.next s.threads (.worker v) = some y) :
      Step s (.worker v b) { s.notifyOne n b with threads := y }
  | asleep {v b y} (hp : s.threads.pc v = .asleep)
      (hy : Handoff.next s.threads (.worker v) = some y) :
      Step s (.worker v b) { s with threads := y, mtx := none }
  | settle {v b} (hs : s.stirring = some v) (hp : s.threads.pc v = .schedule) :
      Step s (.worker v b) { s with mtx := none, stirring := none }
  | quiet {v b y} (hp : quiet (s.threads.pc v) = true)
      (hy : Handoff.next s.threads (.worker v) = some y) :
      Step s (.worker v b) { s with threads := y }
  | prepare {v n y} (hy : Handoff.next s.threads (.prepare v n) = some y) :
      Step s (.prepare v n) { s with threads := y }
  | sleep {v y} (hm : s.mtx = none)
      (hi : s.threads.initializing = true ∨ s.threads.ctor = .done)
      (hy : Handoff.next s.threads (.sleep v) = some y) :
      Step s (.sleep v)
        { s with
          threads := y
          mtx := some (.worker v)
          ctorNotified := s.ctorNotified || (s.threads.initializing && s.ctorAwaits) }
  | stir {v} (hp : s.threads.pc v = .schedule) (hi : s.threads.initializing = false)
      (hc : s.threads.ctor ≠ .done) (hm : s.mtx = none) :
      Step s (.stir v) { s with mtx := some (.worker v), stirring := some v }
  | ctorResume {k y e} (he : e = .ctor ∧ s.ctorNotified = true ∨ e = .ctorSpurious)
      (hc : s.threads.ctor = .blocked k) (hy : Handoff.next s.threads .ctor = some y) :
      Step s e { s with threads := y, ctorNotified := false }
  | awaitResume {e} (he : e = .ctor ∧ s.ctorNotified = true ∨ e = .ctorSpurious)
      (hc : s.threads.ctor = .await) (ha : s.await = .blocked) (hm : s.mtx = none) :
      Step s e { s with mtx := some .ctor, await := .test, ctorNotified := false }
  | start {n y} (hc : s.threads.ctor = .start) (hy : Handoff.next s.threads .ctor = some y)
      (hn : y.worker = some n) : Step s .ctor { s.notifyOne n false with threads := y }
  | awaitLock (hc : s.threads.ctor = .await) (ha : s.await = .lock) (hm : s.mtx = none) :
      Step s .ctor { s with mtx := some .ctor, await := .test }
  | awaitBlock (hc : s.threads.ctor = .await) (ha : s.await = .test)
      (hr : s.threads.schedRunning = true) :
      Step s .ctor { s with mtx := none, await := .blocked }
  | done {y} (hc : s.threads.ctor = .await) (ha : s.await = .test)
      (hy : Handoff.next s.threads .ctor = some y) :
      Step s .ctor { s with threads := y, mtx := none }
  | ctorQuiet {y} (hc : ctorQuiet s.threads.ctor = true)
      (hy : Handoff.next s.threads .ctor = some y) :
      Step s .ctor { s with threads := y }

theorem step_of_resume {v : Fin w} {p : Handoff.Place} {e : Event w}
    (he : (∃ b, e = .worker v b) ∧ s.notified v = true ∨ e = .spurious v)
    (hp : s.threads.pc v = .blocked p) (h : resume s v = some s') : Step s e s' := by
  obtain ⟨y, hy, rfl⟩ := Option.map_eq_some_iff.mp h
  exact .resume he hp hy

theorem step_of_workerStep {v : Fin w} {b : Bool}
    (h : workerStep s v b (s.threads.pc v) = some s') : Step s (.worker v b) s' := by
  cases hp : s.threads.pc v <;> rw [hp] at h
  case blocked p =>
    simp only [workerStep] at h
    split at h
    · exact step_of_resume (Or.inl ⟨⟨b, rfl⟩, ‹_›⟩) hp h
    · cases h
  case initNotify =>
    obtain ⟨y, hy, rfl⟩ := Option.map_eq_some_iff.mp h
    exact .notify (Or.inl ⟨hp, rfl⟩) hy
  case switchNotify =>
    obtain ⟨n, hn, h⟩ := Option.bind_eq_some_iff.mp h
    obtain ⟨y, hy, rfl⟩ := Option.map_eq_some_iff.mp h
    exact .notify (Or.inr ⟨hp, hn⟩) hy
  case asleep =>
    obtain ⟨y, hy, rfl⟩ := Option.map_eq_some_iff.mp h
    exact .asleep hp hy
  case schedule =>
    simp only [workerStep] at h
    split at h <;> cases h
    exact .settle ‹_› hp
  all_goals
    obtain ⟨y, hy, rfl⟩ := Option.map_eq_some_iff.mp h
    exact .quiet (by rw [hp]; rfl) hy

theorem step_of_ctorResume {e : Event w}
    (he : e = .ctor ∧ s.ctorNotified = true ∨ e = .ctorSpurious)
    (h : ctorResume s s.threads.ctor = some s') : Step s e s' := by
  cases hc : s.threads.ctor <;> rw [hc] at h <;> simp only [ctorResume, reduceCtorEq] at h
  case blocked k =>
    obtain ⟨y, hy, rfl⟩ := Option.map_eq_some_iff.mp h
    exact .ctorResume he hc hy
  case await =>
    split at h <;> rename_i hm <;> cases h
    exact .awaitResume he hc hm.1 hm.2

theorem step_of_ctorStep (h : ctorStep s s.threads.ctor = some s') : Step s .ctor s' := by
  cases hc : s.threads.ctor <;> rw [hc] at h
  case blocked k =>
    simp only [ctorStep] at h
    split at h
    · exact step_of_ctorResume (Or.inl ⟨rfl, ‹_›⟩) (by rw [hc]; exact h)
    · cases h
  case start =>
    obtain ⟨y, hy, h⟩ := Option.bind_eq_some_iff.mp h
    obtain ⟨n, hn, rfl⟩ := Option.map_eq_some_iff.mp h
    exact .start hc hy hn
  case await =>
    simp only [ctorStep] at h
    split at h <;> rename_i ha
    · split at h <;> cases h
      exact .awaitLock hc ha ‹_›
    · split at h
      · cases h
        exact .awaitBlock hc ha ‹_›
      · obtain ⟨y, hy, rfl⟩ := Option.map_eq_some_iff.mp h
        exact .done hc ha hy
    · split at h
      · exact step_of_ctorResume (Or.inl ⟨rfl, ‹_›⟩) (by rw [hc]; exact h)
      · cases h
  all_goals
    obtain ⟨y, hy, rfl⟩ := Option.map_eq_some_iff.mp h
    exact .ctorQuiet (by rw [hc]; rfl) hy

/-- **A step does nothing but what `Step` lists.** -/
theorem step_of_next {e : Event w} (h : next s e = some s') : Step s e s' := by
  cases e with
  | worker v b => exact step_of_workerStep h
  | spurious v =>
      simp only [next] at h
      split at h
      · rename_i hb
        obtain ⟨p, hp⟩ : ∃ p, s.threads.pc v = .blocked p := by
          cases hp : s.threads.pc v <;> rw [hp] at hb <;> first | exact ⟨_, rfl⟩ | cases hb
        exact step_of_resume (Or.inr rfl) hp h
      · cases h
  | prepare v n =>
      obtain ⟨y, hy, rfl⟩ := Option.map_eq_some_iff.mp h
      exact .prepare hy
  | sleep v =>
      simp only [next] at h
      split at h
      · rename_i hm
        obtain ⟨y, hy, rfl⟩ := Option.map_eq_some_iff.mp h
        exact .sleep hm.1 hm.2 hy
      · cases h
  | stir v =>
      simp only [next] at h
      split at h <;> rename_i hm <;> cases h
      exact .stir hm.1 hm.2.1 hm.2.2.1 hm.2.2.2
  | ctor => exact step_of_ctorStep h
  | ctorSpurious => exact step_of_ctorResume (Or.inr rfl) h

/-! ## The threads -/

@[simp] theorem State.notifyOne_threads (s : State w) (n : Fin w) (b : Bool) :
    (s.notifyOne n b).threads = s.threads := by
  rw [notifyOne]
  split
  · rfl
  · split <;> rfl

@[simp] theorem State.notifyOne_await (s : State w) (n : Fin w) (b : Bool) :
    (s.notifyOne n b).await = s.await := by
  rw [notifyOne]
  split
  · rfl
  · split <;> rfl

@[simp] theorem State.notifyOne_mtx (s : State w) (n : Fin w) (b : Bool) :
    (s.notifyOne n b).mtx = s.mtx := by
  rw [notifyOne]
  split
  · rfl
  · split <;> rfl

@[simp] theorem State.notifyOne_stirring (s : State w) (n : Fin w) (b : Bool) :
    (s.notifyOne n b).stirring = s.stirring := by
  rw [notifyOne]
  split
  · rfl
  · split <;> rfl

/-- Without the notifications it is a step of the threads, or none. -/
theorem Step.threads {e : Event w} (h : Step s e s') :
    s'.threads = s.threads ∨ ∃ e', Handoff.next s.threads e' = some s'.threads := by
  cases h with
  | resume _ _ hy | notify _ hy | asleep _ hy | quiet _ hy | prepare hy | sleep _ _ hy
  | ctorResume _ _ hy | start _ hy | done _ _ hy | ctorQuiet _ hy => exact Or.inr ⟨_, hy⟩
  | settle | stir | awaitResume | awaitLock | awaitBlock => exact Or.inl rfl

/-- So a run is one of the threads. -/
theorem threads_reachable (h : (machine w).Reachable s) :
    (Handoff.machine w).Reachable s.threads := by
  refine Machine.Reach.invariant (I := fun s => (Handoff.machine w).Reachable s.threads) ?_ ?_ h
  · rintro s rfl
    exact Machine.Reach.init rfl
  · intro s e s' _ _ hs ih
    rcases (step_of_next hs).threads with heq | ⟨e', hy⟩
    · rw [heq]
      exact ih
    · exact ih.tail hy

/-- What a worker does to the threads. -/
structure Moves (x x' : Handoff.State w) (v : Fin w) : Prop where
  /-- The constructor is where it was. -/
  ctor : x'.ctor = x.ctor
  initializing : x'.initializing = x.initializing
  /-- So are the other workers. -/
  others : ∀ u, u ≠ v → x'.pc u = x.pc u
  /-- It is not back in `sleep`. -/
  awake : x'.pc v ≠ .asleep
  /-- If it is blocked, its flag is cleared. -/
  blocked : ∀ p, x'.pc v = .blocked p → x'.running v = false
  /-- A flag that it sets belongs to the worker that it notifies. -/
  running : ∀ u, x'.running u = true → x.running u = true ∨ Notifies x v u
  /-- The scheduler stops running when it sleeps. -/
  schedRunning : x.schedRunning = false ∨ x.pc v = .asleep → x'.schedRunning = false
  /-- On its way to its parking place it comes by where it notifies the constructor. -/
  entering : x.initializing = true → x.pc v ∈ [.park, .syncInit, .initLock] →
    x'.pc v ∈ [.park, .syncInit, .initLock, .initNotify]

/-- A step that leaves the flags alone, but for `m_running` of the worker itself. -/
theorem moves_to {v : Fin w} {p q : Pc} (hp : x.pc v = p) (hc : x'.ctor = x.ctor)
    (hi : x'.initializing = x.initializing) (hpc : x'.pc = Function.update x.pc v q)
    (hq : q ≠ .asleep) (hb : ∀ p, q = .blocked p → x'.running v = false)
    (hr : ∀ u, x'.running u = true → x.running u = true ∨ Notifies x v u)
    (hs : x.schedRunning = false ∨ p = .asleep → x'.schedRunning = false)
    (he : x.initializing = true → p ∈ [.park, .syncInit, .initLock] →
      q ∈ [.park, .syncInit, .initLock, .initNotify]) : Moves x x' v := by
  subst hp
  have hself : x'.pc v = q := by rw [hpc, Function.update_self]
  refine ⟨hc, hi, ?_, ?_, ?_, hr, hs, ?_⟩
  · intro u hu
    rw [hpc, Function.update_of_ne hu]
  · rw [hself]
    exact hq
  · rw [hself]
    exact hb
  · intro hi he'
    rw [hself]
    exact he hi he'

theorem moves_of_step {v : Fin w} (h : Handoff.Step x (.worker v) x') : Moves x x' v := by
  -- what a step does to `m_running` when it sets no flag
  have same : ∀ u, x.running u = true → x.running u = true ∨ Notifies x v u := fun _ => Or.inl
  cases h with
  | user hp | syncInit hp | initLock hp | resumeInit hp | resumeSwitch hp | wake hp
  | decideFalse hp | decideTrue hp | stays hp | switch hp | switchLock hp | switchReturn hp =>
      exact moves_to hp rfl rfl rfl (by simp) (by simp) same (by simp) (by simp)
  | park hp =>
      exact moves_to hp rfl rfl rfl (by simp) (by simp) same (by simp) (by simp)
  | syncSkip hp hi =>
      refine moves_to hp rfl rfl rfl (by simp) (by simp) same (by simp) ?_
      intro hi'
      rw [hi] at hi'
      cases hi'
  | initNotify hp =>
      refine moves_to hp rfl rfl rfl (by simp) (by simp) ?_ (by simp) (by simp)
      intro u hu
      by_cases huv : u = v
      · exact Or.inr (Or.inl ⟨hp, huv⟩)
      · exact Or.inl (by simpa [huv] using hu)
  | clear hp =>
      refine moves_to hp rfl rfl rfl (by simp) (by simp) ?_ (by simp) (by simp)
      intro u hu
      by_cases huv : u = v
      · simp [huv] at hu
      · exact Or.inl (by simpa [huv] using hu)
  | block hp hr => exact moves_to hp rfl rfl rfl (by simp) (fun _ _ => hr) same (by simp) (by simp)
  | initReturn hp =>
      refine moves_to hp rfl rfl rfl ?_ ?_ same (by simp) (by simp)
      · split <;> simp
      · split <;> simp
  | asleep hp => exact moves_to hp rfl rfl rfl (by simp) (by simp) same (fun _ => rfl) (by simp)
  | switchNotify hp hw =>
      refine moves_to hp rfl rfl rfl (by simp) (by simp) ?_ (by simp) (by simp)
      intro u hu
      rename_i n
      by_cases hun : u = n
      · exact Or.inr (Or.inr ⟨hp, by rw [hun]; exact hw⟩)
      · exact Or.inl (by simpa [hun] using hu)

/-! ## Who has been notified -/

/-- The thread holds `m_mtx`. -/
def holdsMtx (s : State w) : Thread w → Bool
  | .worker v => decide (s.threads.pc v = .asleep) || decide (s.stirring = some v)
  | .ctor => decide (s.threads.ctor = .await) && decide (s.await = .test)

/-- Who waits has nothing to wait for yet. -/
structure Notes (s : State w) : Prop where
  /-- The owner of `m_mtx` is between a lock and an unlock. -/
  mtx : Owner s.mtx (holdsMtx s)
  /-- Only a worker that sleeps wakes up for no reason, as long as there are no tasks. -/
  stirring : ∀ v, s.stirring = some v → s.threads.pc v = .schedule ∧ s.threads.ctor ≠ .done
  /-- The constructor does not wait for the scheduler to sleep before it gets there. -/
  lock : s.threads.ctor ≠ .await → s.threads.ctor ≠ .done → s.await = .lock
  /-- A scheduler that sleeps has said so, or is about to. -/
  slept : s.threads.initializing = false →
    s.threads.schedRunning = false ∨ ∃ v, s.threads.pc v = .asleep
  /-- A worker that is blocked has been notified if its flag is set. -/
  flagged : ∀ v p, s.threads.pc v = .blocked p → s.threads.running v = true → s.notified v = true
  /-- The worker that the constructor waits for is still to notify it. -/
  ctor : ∀ v : Fin w, s.threads.ctor = .blocked v.val → s.ctorNotified = false →
    s.threads.pc v ∈ [.park, .syncInit, .initLock, .initNotify]
  /-- So is the scheduler. -/
  awaits : s.threads.ctor = .await → s.await = .blocked → s.ctorNotified = false →
    s.threads.initializing = true

/-- A worker hands over only when the constructor waits for no worker. -/
theorem not_ctorWaits (h : (Handoff.machine w).Reachable x) {v : Fin w}
    (hp : x.pc v = .switchNotify) (k : Nat) : x.ctor ≠ .blocked k := by
  intro hc
  have hb := Handoff.building_reachable h (by rw [hc]; rfl)
  rcases hb.cases v with hu | ⟨hm, _⟩ | ⟨hm, _⟩
  · rw [hp] at hu
    cases hu
  · simp [hp] at hm
  · simp [hp] at hm

/-- The worker whose flag the constructor finds set is still to notify it. -/
theorem not_parked (h : (Handoff.machine w).Reachable x) {k : Nat} (hc : x.ctor = .test k)
    (hk : k < w) (hrun : x.running ⟨k, hk⟩ = true) :
    x.pc ⟨k, hk⟩ ∈ [.park, .syncInit, .initLock, .initNotify] := by
  have hb := Handoff.building_reachable h (by rw [hc]; rfl)
  have hparked : x.ctor.parked w ≤ k := by rw [hc]; exact Nat.le_refl k
  have hcreated : k < x.ctor.created w := by rw [hc]; exact Nat.lt_succ_self k
  rcases hb.entering ⟨k, hk⟩ hparked hcreated with ⟨hm, _⟩ | ⟨_, hr⟩
  · have hclear : x.pc ⟨k, hk⟩ ≠ .clear .syncInit := by
      intro hp
      -- both would hold `m_workers_mtx`
      have hw : Thread.holds x (.worker ⟨k, hk⟩) = true := by rw [Thread.holds, hp]; rfl
      have hctor : Thread.holds x .ctor = true := by rw [Thread.holds, hc]; rfl
      cases (Handoff.locked_reachable h).unique hw hctor
    simpa [hclear] using hm
  · rw [hrun] at hr
    cases hr

theorem Notifies.unique {v n u : Fin w} (hn : Notifies x v n) (hu : Notifies x v u) : u = n := by
  rcases hn with ⟨hp, rfl⟩ | ⟨hp, hw⟩ <;> rcases hu with ⟨hp', rfl⟩ | ⟨hp', hw'⟩
  · rfl
  · rw [hp] at hp'
    cases hp'
  · rw [hp] at hp'
    cases hp'
  · exact Option.some.inj (hw'.symm.trans hw)

/-- Nobody is forgotten by a notification. -/
theorem notified_of_notified {u n : Fin w} {b : Bool} (h : s.notified u = true) :
    (s.notifyOne n b).notified u = true := by
  rw [State.notifyOne]
  split
  · exact h
  · split
    · by_cases hu : u = n
      · simp [hu]
      · simpa [hu] using h
    · exact h

theorem ctorNotified_of_ctorNotified {n : Fin w} {b : Bool} (h : s.ctorNotified = true) :
    (s.notifyOne n b).ctorNotified = true := by
  rw [State.notifyOne]
  split
  · rfl
  · split <;> exact h

/-- A worker that is blocked where the constructor does not wait is notified. -/
theorem notified_notifyOne {n : Fin w} {b : Bool} (hb : isBlocked (s.threads.pc n) = true)
    (hc : ∀ k, s.threads.ctor ≠ .blocked k) : (s.notifyOne n b).notified n = true := by
  have hw : s.ctorWaits n = false := by simp [State.ctorWaits, hc]
  rw [State.notifyOne, hw, if_neg (by simp)]
  split
  · simp
  · rename_i hn
    simpa [State.waits, hb] using hn

/-- The constructor is notified where it is the only one that waits. -/
theorem ctorNotified_notifyOne {n : Fin w} {b : Bool} (hb : isBlocked (s.threads.pc n) = false)
    (hc : s.threads.ctor = .blocked n.val) : (s.notifyOne n b).ctorNotified = true := by
  have hw : s.waits n = false := by simp [State.waits, hb]
  rw [State.notifyOne, hw]
  split
  · rfl
  · rename_i hn
    simpa [State.ctorWaits, hc] using hn

/-- Who holds `m_mtx` does not change where only the worker `v` moves, but for `v`. -/
theorem holdsMtx_other {v : Fin w} (hpc : ∀ u, u ≠ v → s'.threads.pc u = s.threads.pc u)
    (hc : s'.threads.ctor = s.threads.ctor) (ha : s'.await = s.await)
    (hst : s'.stirring = s.stirring) {t : Thread w} (ht : t ≠ .worker v) :
    holdsMtx s' t = holdsMtx s t := by
  cases t with
  | worker u =>
      have hu : u ≠ v := fun he => ht (by rw [he])
      rw [holdsMtx, holdsMtx, hpc u hu, hst]
  | ctor => rw [holdsMtx, holdsMtx, hc, ha]

namespace Notes

/-- A worker moves. -/
theorem moves (h : Notes s) (hr : (Handoff.machine w).Reachable s.threads) {v : Fin w}
    (hm : Moves s.threads s'.threads v) (ha : s'.await = s.await) (hst : s'.stirring = s.stirring)
    (hv : s.threads.pc v ≠ .schedule)
    (hmtx : Passes (.worker v) s.mtx s'.mtx (decide (s.threads.pc v = .asleep)) false)
    (hkeep : ∀ u, u ≠ v → s.notified u = true → s'.notified u = true)
    (hnew : ∀ u p, s.threads.pc u = .blocked p → Notifies s.threads v u → s'.notified u = true)
    (hckeep : s.ctorNotified = true → s'.ctorNotified = true)
    (hcnew : s.threads.pc v = .initNotify → s.threads.ctor = .blocked v.val →
      s'.ctorNotified = true) : Notes s' := by
  have hsv : s.stirring ≠ some v := fun he => hv (h.stirring v he).1
  have hnone : s'.ctorNotified = false → s.ctorNotified = false := by
    intro hn
    by_contra hne
    rw [hckeep ((Bool.not_eq_false _).mp hne)] at hn
    cases hn
  refine ⟨?_, ?_, ?_, ?_, ?_, ?_, ?_⟩
  · refine h.mtx.step (t := .worker v) ?_ ?_
    · simpa [holdsMtx, hm.awake, hst, hsv] using hmtx
    · intro t ht
      exact holdsMtx_other hm.others hm.ctor ha hst ht
  · intro u hu
    rw [hst] at hu
    have huv : u ≠ v := fun he => hsv (by rw [← he]; exact hu)
    rw [hm.others u huv, hm.ctor]
    exact h.stirring u hu
  · rw [hm.ctor, ha]
    exact h.lock
  · intro hi
    rw [hm.initializing] at hi
    rcases h.slept hi with hs | ⟨u, hu⟩
    · exact Or.inl (hm.schedRunning (Or.inl hs))
    · by_cases huv : u = v
      · exact Or.inl (hm.schedRunning (Or.inr (huv ▸ hu)))
      · exact Or.inr ⟨u, by rw [hm.others u huv]; exact hu⟩
  · intro u p hp hrun
    by_cases huv : u = v
    · subst huv
      rw [hm.blocked p hp] at hrun
      cases hrun
    · rw [hm.others u huv] at hp
      rcases hm.running u hrun with hrun | hn
      · exact hkeep u huv (h.flagged u p hp hrun)
      · exact hnew u p hp hn
  · intro u hc hn
    rw [hm.ctor] at hc
    have hpu := h.ctor u hc (hnone hn)
    by_cases huv : u = v
    · subst huv
      -- it is on its way, and it does not get past `notify` without notifying
      have hb := Handoff.building_reachable hr (by rw [hc]; rfl)
      refine hm.entering hb.initializing ?_
      have hne : s.threads.pc u ≠ .initNotify := by
        intro hp
        rw [hcnew hp hc] at hn
        cases hn
      simpa [hne] using hpu
    · rw [hm.others u huv]
      exact hpu
  · intro hc hb hn
    rw [hm.ctor] at hc
    rw [ha] at hb
    rw [hm.initializing]
    exact h.awaits hc hb (hnone hn)

/-- A worker that notifies nobody moves. -/
theorem quiet (h : Notes s) (hr : (Handoff.machine w).Reachable s.threads) {v : Fin w}
    (hm : Moves s.threads s'.threads v) (ha : s'.await = s.await) (hst : s'.stirring = s.stirring)
    (hv : s.threads.pc v ≠ .schedule) (hi : s.threads.pc v ≠ .initNotify)
    (hs : s.threads.pc v ≠ .switchNotify)
    (hmtx : Passes (.worker v) s.mtx s'.mtx (decide (s.threads.pc v = .asleep)) false)
    (hkeep : ∀ u, u ≠ v → s.notified u = true → s'.notified u = true)
    (hc : s'.ctorNotified = s.ctorNotified) : Notes s' := by
  refine h.moves hr hm ha hst hv hmtx hkeep ?_ (fun hn => by rw [hc]; exact hn) ?_
  · intro u p _ hn
    rcases hn with ⟨hp, _⟩ | ⟨hp, _⟩
    · exact absurd hp hi
    · exact absurd hp hs
  · intro hp
    exact absurd hp hi

/-- A worker notifies another one, or the constructor. -/
theorem notify (h : Notes s) (hr : (Handoff.machine w).Reachable s.threads) {v n : Fin w} {b : Bool}
    (hn : Notifies s.threads v n) (hm : Moves s.threads x v) :
    Notes { s.notifyOne n b with threads := x } := by
  have hv : s.threads.pc v ≠ .schedule := by
    intro hp
    rcases hn with ⟨hp', _⟩ | ⟨hp', _⟩ <;> rw [hp] at hp' <;> cases hp'
  have hs : s.threads.pc v ≠ .asleep := by
    intro hp
    rcases hn with ⟨hp', _⟩ | ⟨hp', _⟩ <;> rw [hp] at hp' <;> cases hp'
  refine h.moves hr (v := v) hm (by simp) (by simp) hv (.keeps (by simp) (by simp [hs]))
    (fun u _ hu => notified_of_notified hu) ?_ ctorNotified_of_ctorNotified ?_
  · intro u p hp hu
    obtain rfl := hn.unique hu
    refine notified_notifyOne (by rw [hp]; rfl) ?_
    rcases hu with ⟨hp', rfl⟩ | ⟨hp', _⟩
    · rw [hp] at hp'
      cases hp'
    · exact not_ctorWaits hr hp'
  · intro hp hc
    obtain rfl := hn.unique (Or.inl ⟨hp, rfl⟩)
    exact ctorNotified_notifyOne (by rw [hp]; rfl) hc

/-- Where nobody moves but the constructor, and only where it waits for the scheduler. -/
theorem awaiting (h : Notes s) (ht : s'.threads = s.threads) (hst : s'.stirring = s.stirring)
    (hno : s'.notified = s.notified) (hc : s.threads.ctor = .await)
    (hmtx : Passes .ctor s.mtx s'.mtx (decide (s.await = .test)) (decide (s'.await = .test)))
    (hb : s'.await = .blocked → s.threads.initializing = true) : Notes s' := by
  refine ⟨?_, ?_, ?_, ?_, ?_, ?_, ?_⟩
  · refine h.mtx.step (t := .ctor) ?_ ?_
    · simpa [holdsMtx, ht, hc] using hmtx
    · intro t hne
      cases t with
      | worker u => rw [holdsMtx, holdsMtx, ht, hst]
      | ctor => exact absurd rfl hne
  · rw [ht, hst]
    exact h.stirring
  · intro hne
    rw [ht] at hne
    exact absurd hc hne
  · rw [ht]
    exact h.slept
  · rw [ht, hno]
    exact h.flagged
  · intro v hv
    rw [ht, hc] at hv
    cases hv
  · intro _ ha _
    rw [ht]
    exact hb ha

/-- The constructor moves, before it waits for the scheduler to sleep. -/
theorem building (h : Notes s) (hc : s.threads.ctor ≠ .await) (hd : s.threads.ctor ≠ .done)
    (hd' : s'.threads.ctor ≠ .done) (hi : s'.threads.initializing = s.threads.initializing)
    (hsr : s'.threads.schedRunning = s.threads.schedRunning)
    (hpc : ∀ u, s'.threads.pc u = s.threads.pc u ∨
      s.threads.pc u = .unborn ∧ s'.threads.pc u = .park)
    (hmtx : s'.mtx = s.mtx) (hst : s'.stirring = s.stirring) (ha : s'.await = s.await)
    (hf : ∀ u p, s.threads.pc u = .blocked p → s'.threads.running u = true →
      s'.notified u = true)
    (hw : ∀ v : Fin w, s'.threads.ctor = .blocked v.val →
      s.threads.pc v ∈ [.park, .syncInit, .initLock, .initNotify]) : Notes s' := by
  have hlock : s'.await = .lock := ha.trans (h.lock hc hd)
  have hstays : ∀ u p, p ≠ .unborn → s.threads.pc u = p → s'.threads.pc u = p := by
    intro u p hp hu
    rcases hpc u with he | ⟨he, _⟩
    · exact he.trans hu
    · exact absurd (hu.symm.trans he) hp
  refine ⟨?_, ?_, fun _ _ => hlock, ?_, ?_, ?_, ?_⟩
  · refine h.mtx.step (t := .ctor) (.keeps hmtx ?_) ?_
    · simp [holdsMtx, hlock, hc]
    · intro t ht
      cases t with
      | worker u =>
          rw [holdsMtx, holdsMtx, hst]
          rcases hpc u with he | ⟨he, he'⟩
          · rw [he]
          · rw [he, he']
            rfl
      | ctor => exact absurd rfl ht
  · intro v hv
    rw [hst] at hv
    exact ⟨hstays v _ (by simp) (h.stirring v hv).1, hd'⟩
  · intro hi'
    rw [hi] at hi'
    rw [hsr]
    rcases h.slept hi' with hs | ⟨u, hu⟩
    · exact Or.inl hs
    · exact Or.inr ⟨u, hstays u _ (by simp) hu⟩
  · intro u p hp hrun
    rcases hpc u with he | ⟨_, he⟩
    · exact hf u p (he.symm.trans hp) hrun
    · rw [he] at hp
      cases hp
  · intro v hv _
    have hmem := hw v hv
    rw [hstays v _ ?_ rfl]
    · exact hmem
    · intro hu
      rw [hu] at hmem
      simp at hmem
  · intro _ hb
    rw [hlock] at hb
    cases hb

/-- The constructor makes a step of its own. -/
theorem ctor_quiet (h : Notes s) (hr : (Handoff.machine w).Reachable s.threads)
    (hc : ctorQuiet s.threads.ctor = true) (hy : Handoff.Step s.threads .ctor x) :
    Notes { s with threads := x } := by
  have ha : s.threads.ctor ≠ .await := by
    intro he
    rw [he] at hc
    cases hc
  cases hy with
  | create hc' hk =>
      rename_i k
      refine h.building ha (by rw [hc']; simp) (by simp) rfl rfl ?_ rfl rfl rfl h.flagged ?_
      · intro u
        by_cases hu : u = ⟨k, hk⟩
        · have hb := Handoff.building_reachable hr (by rw [hc']; rfl)
          refine Or.inr ⟨?_, by simp [hu]⟩
          refine (hb.unborn u ?_).1
          rw [hc', hu]
          exact Nat.le_refl k
        · exact Or.inl (by simp [hu])
      · intro v hv
        cases hv
  | created hc' | parked hc' | startLock hc' | startUnlock hc' =>
      exact h.building ha (by rw [hc']; simp) (by simp) rfl rfl (fun _ => Or.inl rfl) rfl rfl rfl
        h.flagged (fun v hv => by cases hv)
  | lock hc' =>
      refine h.building ha ?_ (by simp) rfl rfl (fun _ => Or.inl rfl) rfl rfl rfl h.flagged
        (fun v hv => by cases hv)
      rcases hc' with hc' | hc' <;> rw [hc'] <;> simp
  | await hc' hk hrun =>
      refine h.building ha (by rw [hc']; simp) (by simp) rfl rfl (fun _ => Or.inl rfl) rfl rfl rfl
        h.flagged ?_
      intro v hv
      obtain rfl : _ = v.val := by simpa using hv
      exact not_parked hr hc' hk hrun
  | start hc' =>
      rw [hc'] at hc
      cases hc
  | done hc' => exact absurd hc' ha

/-- The constructor returns. -/
theorem done (h : Notes s) (hc : s.threads.ctor = .await) (ha : s.await = .test)
    (hs : Handoff.Step s.threads .ctor x) : Notes { s with threads := x, mtx := none } := by
  have hctor : holdsMtx s .ctor = true := by simp [holdsMtx, hc, ha]
  cases hs with
  | done =>
      refine ⟨?_, ?_, ?_, h.slept, h.flagged, ?_, ?_⟩
      · refine h.mtx.step (t := .ctor) (.gives hctor rfl (by simp [holdsMtx])) ?_
        intro t ht
        cases t with
        | worker u => rfl
        | ctor => exact absurd rfl ht
      · intro v hv
        -- a worker that is awake would hold `m_mtx`
        have hw : holdsMtx s (.worker v) = true := by
          have hv' : s.stirring = some v := hv
          simp [holdsMtx, hv']
        cases h.mtx.unique hw hctor
      · intro _ hd
        exact absurd rfl hd
      · intro v hv
        cases hv
      · intro hv
        cases hv
  | _ hc' => simp [hc] at hc'

/-- The constructor makes a step. -/
theorem ctor_step (h : Notes s) (hr : (Handoff.machine w).Reachable s.threads) {e : Event w}
    (he : e = .ctor ∨ e = .ctorSpurious) (hs : Step s e s') : Notes s' := by
  cases hs with
  | ctorQuiet hc hy => exact h.ctor_quiet hr hc (Handoff.step_of_next hy)
  | ctorResume _ hc hy =>
      cases Handoff.step_of_next hy with
      | lock _ hm =>
          exact h.building (by rw [hc]; simp) (by rw [hc]; simp) (by simp) rfl rfl
            (fun _ => Or.inl rfl) rfl rfl rfl h.flagged (fun v hv => by cases hv)
      | _ hc' => simp [hc] at hc'
  | awaitResume _ hc ha hm =>
      refine h.awaiting rfl rfl rfl hc (.takes hm rfl rfl) ?_
      intro hb
      cases hb
  | start hc hy hn =>
      cases Handoff.step_of_next hy with
      | start hc' =>
          obtain rfl := Option.some.inj hn
          rename_i v
          refine h.building (by rw [hc]; simp) (by rw [hc]; simp) (by simp) rfl rfl
            (fun _ => Or.inl rfl) (by simp) (by simp) (by simp) ?_ (fun v hv => by cases hv)
          intro u p hp hrun
          by_cases hu : u = v
          · rw [hu] at hp ⊢
            exact notified_notifyOne (by rw [hp]; rfl) (fun k => by rw [hc]; simp)
          · exact notified_of_notified (h.flagged u p hp (by simpa [hu] using hrun))
      | _ hc' => simp [hc] at hc'
  | awaitLock hc ha hm =>
      refine h.awaiting rfl rfl rfl hc (.takes hm rfl rfl) ?_
      intro hb
      cases hb
  | awaitBlock hc ha hrun =>
      refine h.awaiting rfl rfl rfl hc (.gives (by simp [ha]) rfl rfl) ?_
      intro _
      -- a scheduler that sleeps and still runs would hold `m_mtx`
      by_contra hi
      rcases h.slept ((Bool.not_eq_true _).mp hi) with hs | ⟨v, hv⟩
      · rw [hrun] at hs
        cases hs
      · have hw : holdsMtx s (.worker v) = true := by simp [holdsMtx, hv]
        have hctor : holdsMtx s .ctor = true := by simp [holdsMtx, hc, ha]
        cases h.mtx.unique hw hctor
  | done hc ha hy => exact h.done hc ha (Handoff.step_of_next hy)
  | resume he' =>
      rcases he' with ⟨⟨b, rfl⟩, _⟩ | rfl <;> rcases he with he | he <;> cases he
  | _ => rcases he with he | he <;> cases he

/-- A worker that goes on in the scheduling code is not blocked there. -/
theorem flagged_goto (h : Notes s) {v : Fin w} {q : Pc} (hq : isBlocked q = false) (u : Fin w)
    (p : Handoff.Place) (hp : (s.threads.goto v q).pc u = .blocked p)
    (hrun : s.threads.running u = true) : s.notified u = true := by
  by_cases hu : u = v
  · rw [hu, Handoff.State.goto_pc, Function.update_self] at hp
    rw [hp] at hq
    cases hq
  · rw [Handoff.State.goto_pc, Function.update_of_ne hu] at hp
    exact h.flagged u p hp hrun

/-- The scheduling code has found a worker to execute. -/
theorem prepare (h : Notes s) {v n : Fin w} (hs : Handoff.Step s.threads (.prepare v n) x) :
    Notes { s with threads := x } := by
  cases hs with
  | prepare hp hc =>
      have hother : ∀ u, u ≠ v → (s.threads.goto v .compare).pc u = s.threads.pc u :=
        fun u hu => Function.update_of_ne hu ..
      refine ⟨?_, ?_, h.lock, ?_, h.flagged_goto rfl, ?_, h.awaits⟩
      · refine h.mtx.step (t := .worker v) (.keeps rfl ?_) ?_
        · simp [holdsMtx, hp]
        · intro t ht
          refine holdsMtx_other ?_ ?_ ?_ ?_ ht
          · exact hother
          all_goals rfl
      · intro u hu
        exact absurd hc (h.stirring u hu).2
      · intro hi
        rcases h.slept hi with hs | ⟨u, hu⟩
        · exact Or.inl hs
        · have huv : u ≠ v := by
            intro he
            rw [he, hp] at hu
            cases hu
          exact Or.inr ⟨u, (hother u huv).trans hu⟩
      · intro u hcu
        rw [show s.threads.ctor = .blocked u.val from hcu] at hc
        cases hc

/-- The scheduling code goes to sleep, and notifies the constructor the first time. -/
theorem sleep (h : Notes s) {v : Fin w} (hm : s.mtx = none)
    (hs : Handoff.Step s.threads (.sleep v) x) :
    Notes
      { s with
        threads := x
        mtx := some (.worker v)
        ctorNotified := s.ctorNotified || (s.threads.initializing && s.ctorAwaits) } := by
  cases hs with
  | sleep hp =>
      have hother : ∀ u, u ≠ v → (s.threads.goto v .asleep).pc u = s.threads.pc u :=
        fun u hu => Function.update_of_ne hu ..
      refine ⟨?_, ?_, h.lock, ?_, h.flagged_goto rfl, ?_, ?_⟩
      · refine h.mtx.step (t := .worker v) (.takes hm rfl (by simp [holdsMtx])) ?_
        intro t ht
        refine holdsMtx_other ?_ ?_ ?_ ?_ ht
        · exact hother
        all_goals rfl
      · intro u hu
        have hw : holdsMtx s (.worker u) = true := by
          have hu' : s.stirring = some u := hu
          simp [holdsMtx, hu']
        rw [h.mtx.free hm] at hw
        cases hw
      · intro _
        exact Or.inr ⟨v, by simp⟩
      · intro u hcu hn
        have hn' : s.ctorNotified = false := (Bool.or_eq_false_iff.mp hn).1
        have hmem := h.ctor u hcu hn'
        have huv : u ≠ v := by
          intro he
          rw [he, hp] at hmem
          simp at hmem
        change (s.threads.goto v .asleep).pc u ∈ _
        rw [hother u huv]
        exact hmem
      · -- the constructor has been notified if it waits already
        intro hc hb hn
        obtain ⟨hn', hn''⟩ := Bool.or_eq_false_iff.mp hn
        have hc' : s.threads.ctor = .await := hc
        have hb' : s.await = .blocked := hb
        rw [h.awaits hc hb hn'] at hn''
        simp [State.ctorAwaits, hc', hb', hn'] at hn''

/-- A worker that sleeps wakes up. -/
theorem stir (h : Notes s) {v : Fin w} (hp : s.threads.pc v = .schedule)
    (hc : s.threads.ctor ≠ .done) (hm : s.mtx = none) :
    Notes { s with mtx := some (.worker v), stirring := some v } := by
  refine ⟨?_, ?_, h.lock, h.slept, h.flagged, h.ctor, h.awaits⟩
  · refine h.mtx.step (t := .worker v) (.takes hm rfl (by simp [holdsMtx])) ?_
    intro t ht
    cases t with
    | worker u =>
        have hu : v ≠ u := fun hu => ht (by rw [hu])
        -- nobody else is awake, since nobody holds `m_mtx`
        have hfree := h.mtx.free hm (.worker u)
        simp only [holdsMtx, Bool.or_eq_false_iff, decide_eq_false_iff_not] at hfree
        simp [holdsMtx, hfree.1, hfree.2, hu]
    | ctor => rfl
  · intro u hu
    obtain rfl : v = u := Option.some.inj hu
    exact ⟨hp, hc⟩

/-- It finds that there is nothing to do. -/
theorem settle (h : Notes s) {v : Fin w} (hp : s.threads.pc v = .schedule)
    (hst : s.stirring = some v) : Notes { s with mtx := none, stirring := none } := by
  refine ⟨?_, ?_, h.lock, h.slept, h.flagged, h.ctor, h.awaits⟩
  · refine h.mtx.step (t := .worker v) (.gives (by simp [holdsMtx, hst]) rfl ?_) ?_
    · simp [holdsMtx, hp]
    · intro t ht
      cases t with
      | worker u =>
          have hu : v ≠ u := fun hu => ht (by rw [hu])
          simp [holdsMtx, hst, hu]
      | ctor => rfl
  · intro v hv
    cases hv

/-- A worker makes a step, or the scheduling code decides something. -/
theorem worker_step (h : Notes s) (hr : (Handoff.machine w).Reachable s.threads) {e : Event w}
    (he : e ≠ .ctor) (he' : e ≠ .ctorSpurious) (hs : Step s e s') : Notes s' := by
  cases hs with
  | resume _ hp hy =>
      refine h.quiet hr (moves_of_step (Handoff.step_of_next hy)) rfl rfl (by rw [hp]; simp)
        (by rw [hp]; simp) (by rw [hp]; simp) (.keeps rfl (by simp [hp])) ?_ rfl
      intro u hu hn
      exact (Function.update_of_ne hu ..).trans hn
  | notify hn hy => exact h.notify hr hn (moves_of_step (Handoff.step_of_next hy))
  | asleep hp hy =>
      exact h.quiet hr (moves_of_step (Handoff.step_of_next hy)) rfl rfl (by rw [hp]; simp)
        (by rw [hp]; simp) (by rw [hp]; simp) (.gives (by simp [hp]) rfl rfl) (fun _ _ hn => hn) rfl
  | settle hst hp => exact h.settle hp hst
  | quiet hq hy =>
      rename_i v b y
      have hne : ∀ p, Wakeup.quiet p = false → s.threads.pc v ≠ p := by
        intro p hp hv
        rw [hv, hp] at hq
        cases hq
      exact h.quiet hr (moves_of_step (Handoff.step_of_next hy)) rfl rfl (hne _ rfl) (hne _ rfl)
        (hne _ rfl) (.keeps rfl (by simp [hne .asleep rfl])) (fun _ _ hn => hn) rfl
  | prepare hy => exact h.prepare (Handoff.step_of_next hy)
  | sleep hm _ hy => exact h.sleep hm (Handoff.step_of_next hy)
  | stir hp _ hc hm => exact h.stir hp hc hm
  | ctorResume he'' | awaitResume he'' =>
      rcases he'' with ⟨rfl, _⟩ | rfl
      · exact absurd rfl he
      · exact absurd rfl he'
  | _ => exact absurd rfl he

end Notes

theorem notes_reachable (h : (machine w).Reachable s) : Notes s := by
  refine Machine.Reach.invariant (I := Notes) ?_ ?_ h
  · rintro s rfl
    refine ⟨?_, ?_, fun _ _ => rfl, ?_, ?_, ?_, ?_⟩
    · intro t
      cases t <;> simp [holdsMtx, State.begin, Handoff.State.begin]
    · intro v hv
      cases hv
    · intro hi
      cases hi
    · intro v p hp
      cases hp
    · intro v hv
      cases hv
    · intro hc
      cases hc
  · intro s e s' hr _ hs ih
    have hst := step_of_next hs
    have hreach := threads_reachable hr
    by_cases he : e = .ctor ∨ e = .ctorSpurious
    · exact ih.ctor_step hreach he hst
    · exact ih.worker_step hreach (fun h => he (Or.inl h)) (fun h => he (Or.inr h)) hst

/-! ## Somebody goes on -/

/-- A wakeup for no reason. -/
def Event.isSpurious : Event w → Bool
  | .spurious _ | .stir _ | .ctorSpurious => true
  | _ => false

/-- Some thread goes on, and not for no reason. -/
def GoesOn (s : State w) : Prop := ∃ e, e.isSpurious = false ∧ (next s e).isSome = true

/-- What the constructor relies on. -/
structure Expects (x : Handoff.State w) : Prop where
  /-- It waits only for workers that exist. -/
  fits : ∀ k, x.ctor = .lock k ∨ x.ctor = .test k ∨ x.ctor = .blocked k → k < w
  /-- A worker that has parked is in the queue. -/
  queue : x.ctor.started = false → ∀ v, x.pc v ≠ .unborn → x.pc v ≠ .park → v ∈ x.idleQueue

theorem expects_reachable (h : (Handoff.machine w).Reachable x) : Expects x := by
  refine Machine.Reach.invariant (I := Expects) ?_ ?_ h
  · rintro x rfl
    refine ⟨?_, ?_⟩
    · intro k hk
      rcases hk with hk | hk | hk <;> cases hk
    · intro _ v hv
      exact absurd rfl hv
  · intro x e x' hr _ hx ih
    have hst := Handoff.step_of_next hx
    cases e with
    | worker v =>
        have hm := moves_of_step hst
        refine ⟨by rw [hm.ctor]; exact ih.fits, ?_⟩
        rw [hm.ctor]
        intro hn u hu hu'
        have hb := Handoff.building_reachable hr hn
        by_cases hp : x.pc v = .park
        · -- it puts itself in the queue
          have hx' : Handoff.workerStep x v (x.pc v) = some x' := hx
          rw [hp, Handoff.workerStep, hb.initializing] at hx'
          obtain rfl := Option.some.inj hx'
          by_cases huv : u = v
          · simp [huv]
          · simp only [Handoff.State.goto_pc, Function.update_of_ne huv] at hu hu'
            simp [ih.queue hn u hu hu']
        · have hq : x'.idleQueue = x.idleQueue := by
            cases hst with
            | park hp' => exact absurd hp' hp
            | _ => rfl
          rw [hq]
          by_cases huv : u = v
          · rw [huv]
            exact ih.queue hn v hst.born hp
          · rw [hm.others u huv] at hu hu'
            exact ih.queue hn u hu hu'
    | ctor =>
        cases hst with
        | create hc hk =>
            refine ⟨?_, ?_⟩
            · intro k hk'
              rcases hk' with hk' | hk' | hk' <;> cases hk'
              exact hk
            · intro _ u hu hu'
              by_cases huk : u = ⟨_, hk⟩
              · simp [huk] at hu'
              · simp only [Handoff.State.goto_pc, Function.update_of_ne huk] at hu hu'
                exact ih.queue (by rw [hc]; rfl) u hu hu'
        | lock hc =>
            refine ⟨?_, ?_⟩
            · intro k hk
              rcases hk with hk | hk | hk <;> cases hk
              rcases hc with hc | hc <;> exact ih.fits _ (by simp [hc])
            · intro _
              exact ih.queue (by rcases hc with hc | hc <;> rw [hc] <;> rfl)
        | await hc hk =>
            refine ⟨?_, fun _ => ih.queue (by rw [hc]; rfl)⟩
            intro k hk'
            rcases hk' with hk' | hk' | hk' <;> cases hk'
            exact hk
        | created hc | parked hc | startLock hc =>
            refine ⟨?_, fun _ => ih.queue (by rw [hc]; rfl)⟩
            intro k hk
            rcases hk with hk | hk | hk <;> cases hk
        | start hc | startUnlock hc | done hc =>
            refine ⟨?_, fun hn => by cases hn⟩
            intro k hk
            rcases hk with hk | hk | hk <;> cases hk
    | prepare v n =>
        cases hst with
        | prepare _ hc =>
            refine ⟨ih.fits, ?_⟩
            intro hn
            have hn' : x.ctor.started = false := hn
            rw [hc] at hn'
            cases hn'
    | sleep v =>
        cases hst with
        | sleep hp =>
            refine ⟨ih.fits, ?_⟩
            intro hn
            exact absurd hp ((Handoff.building_reachable hr hn).not_schedule v)

/-- A worker that is neither blocked nor in the scheduling code goes on if its thread can. -/
theorem goesOn_of_worker {v : Fin w} (hs : s.threads.pc v ≠ .schedule)
    (hb : ∀ p, s.threads.pc v ≠ .blocked p)
    (hy : (Handoff.next s.threads (.worker v)).isSome = true) : GoesOn s := by
  refine ⟨.worker v false, rfl, ?_⟩
  obtain ⟨y, hy⟩ := Option.isSome_iff_exists.mp hy
  rw [next]
  cases hp : s.threads.pc v
  case schedule => exact absurd hp hs
  case blocked p => exact absurd hp (hb p)
  case switchNotify =>
    have hy' := hy
    rw [Handoff.next, hp, Handoff.workerStep] at hy'
    obtain ⟨n, hn, _⟩ := Option.map_eq_some_iff.mp hy'
    simp [workerStep, hn, hy]
  all_goals simp [workerStep, hy]

/-- The worker needs nothing but the processor there. -/
def free : Pc → Bool
  | .user | .park | .syncInit | .initNotify | .clear _ | .test _ | .decide | .initReturn _
  | .asleep | .compare | .switchReturn => true
  | _ => false

theorem goesOn_of_free {v : Fin w} (hf : free (s.threads.pc v) = true) : GoesOn s := by
  have hne : ∀ p, free p = false → s.threads.pc v ≠ p := by
    intro p hp hv
    rw [hv, hp] at hf
    cases hf
  refine goesOn_of_worker (v := v) (hne _ rfl) (fun p => hne _ rfl) ?_
  rw [Handoff.next]
  cases hp : s.threads.pc v <;> rw [hp] at hf
  case test p =>
    simp only [Handoff.workerStep]
    split <;> rfl
  case decide =>
    simp only [Handoff.workerStep]
    split <;> rfl
  all_goals first | rfl | cases hf

/-- A worker that hands over knows whom to. -/
theorem goesOn_of_switchNotify {v : Fin w} (h : (Handoff.machine w).Reachable s.threads)
    (hp : s.threads.pc v = .switchNotify) : GoesOn s := by
  have hst : s.threads.ctor.started = true := by
    by_contra hn
    rcases (Handoff.building_reachable h ((Bool.not_eq_true _).mp hn)).cases v with hu | ⟨hm, _⟩ |
      ⟨hm, _⟩ <;> simp [hp] at *
  obtain ⟨a, ha⟩ := Handoff.active_reachable h hst
  obtain rfl : v = a := by
    by_contra hv
    rcases ha.waiting v hv with ⟨hp', _⟩ | ⟨p, hp' | hp', _⟩ <;> rw [hp] at hp' <;> cases hp'
  have hpt := ha.points
  rw [hp] at hpt
  obtain ⟨n, hn, _⟩ := hpt
  refine goesOn_of_worker (v := v) (by rw [hp]; simp) (by rw [hp]; simp) ?_
  rw [Handoff.next, hp, Handoff.workerStep, hn]
  rfl

/-- The constructor goes on if its thread can, where it waits for nothing. -/
theorem goesOn_of_ctor (hq : ctorQuiet s.threads.ctor = true)
    (hy : (Handoff.next s.threads .ctor).isSome = true) : GoesOn s := by
  refine ⟨.ctor, rfl, ?_⟩
  obtain ⟨y, hy⟩ := Option.isSome_iff_exists.mp hy
  rw [next]
  cases hc : s.threads.ctor <;> rw [hc] at hq
  case blocked | start | await => cases hq
  all_goals simp [ctorStep, hy]

/-- Who holds `m_workers_mtx` goes on. -/
theorem workersMtx_goesOn (hw : 0 < w) (h : (Handoff.machine w).Reachable s.threads) :
    s.threads.mtx = none ∨ GoesOn s := by
  cases hm : s.threads.mtx with
  | none => exact Or.inl rfl
  | some t =>
      refine Or.inr ?_
      have ht := ((Handoff.locked_reachable h) t).mpr hm
      cases t with
      | worker v =>
          rw [Thread.holds] at ht
          by_cases hp : s.threads.pc v = .switchNotify
          · exact goesOn_of_switchNotify h hp
          · refine goesOn_of_free (v := v) ?_
            cases hv : s.threads.pc v <;> rw [hv] at ht hp <;>
              first | rfl | exact absurd rfl hp | cases ht
      | ctor =>
          rw [Thread.holds] at ht
          cases hc : s.threads.ctor <;> rw [hc] at ht
          case test k =>
            have hk := (expects_reachable h).fits k (Or.inr (Or.inl hc))
            refine goesOn_of_ctor (by rw [hc]; rfl) ?_
            rw [Handoff.next, hc, Handoff.ctorStep, dif_pos hk]
            split <;> rfl
          case start =>
            -- the workers have parked, so there is one in the queue
            have hb := Handoff.building_reachable h (by rw [hc]; rfl)
            have hpark := hb.parked ⟨0, hw⟩ (by rw [hc]; exact hw)
            have hmem := (expects_reachable h).queue (by rw [hc]; rfl) ⟨0, hw⟩
              (by rcases hpark.1 with hp | hp <;> rw [hp] <;> simp)
              (by rcases hpark.1 with hp | hp <;> rw [hp] <;> simp)
            cases hq : s.threads.idleQueue with
            | nil =>
                rw [hq] at hmem
                cases hmem
            | cons v rest =>
                refine ⟨.ctor, rfl, ?_⟩
                simp [next, hc, ctorStep, Handoff.next, Handoff.ctorStep, hq]
          case startUnlock =>
            refine goesOn_of_ctor (by rw [hc]; rfl) ?_
            rw [Handoff.next, hc]
            rfl
          all_goals cases ht

/-- Who holds `m_mtx` goes on. -/
theorem mtx_goesOn (h : Notes s) : s.mtx = none ∨ GoesOn s := by
  rcases h.mtx.cases with hm | ⟨t, ht⟩
  · exact Or.inl hm
  · refine Or.inr ?_
    cases t with
    | worker v =>
        rw [holdsMtx, Bool.or_eq_true, decide_eq_true_eq, decide_eq_true_eq] at ht
        rcases ht with hp | hs
        · exact goesOn_of_free (v := v) (by rw [hp]; rfl)
        · refine ⟨.worker v false, rfl, ?_⟩
          simp [next, (h.stirring v hs).1, workerStep, hs]
    | ctor =>
        rw [holdsMtx, Bool.and_eq_true, decide_eq_true_eq, decide_eq_true_eq] at ht
        refine ⟨.ctor, rfl, ?_⟩
        rw [next, ht.1]
        simp only [ctorStep, ht.2]
        split
        · rfl
        · simp [Handoff.next, ht.1, Handoff.ctorStep, *]

/-- A blocked worker that has been notified goes on. -/
theorem goesOn_of_notified (hw : 0 < w) (h : (Handoff.machine w).Reachable s.threads) {v : Fin w}
    {p : Handoff.Place} (hp : s.threads.pc v = .blocked p) (hn : s.notified v = true) :
    GoesOn s := by
  rcases workersMtx_goesOn hw h with hm | hgo
  · refine ⟨.worker v false, rfl, ?_⟩
    simp [next, hp, workerStep, hn, resume, Handoff.next, Handoff.workerStep, hm]
  · exact hgo

/-- While the first workers are on their way to their parking places. -/
theorem goesOn_building (hw : 0 < w) (h : Notes s) (hr : (Handoff.machine w).Reachable s.threads)
    (hn : s.threads.ctor.started = false) : GoesOn s := by
  have ctor : ctorQuiet s.threads.ctor = true →
      (Handoff.next s.threads .ctor).isSome = true → GoesOn s := goesOn_of_ctor
  cases hc : s.threads.ctor <;> rw [hc] at hn ctor
  case create k =>
    refine ctor rfl ?_
    rw [Handoff.next, hc, Handoff.ctorStep]
    split <;> rfl
  case lock k =>
    rcases workersMtx_goesOn hw hr with hm | hgo
    · refine ctor rfl ?_
      rw [Handoff.next, hc, Handoff.ctorStep, if_pos hm]
      rfl
    · exact hgo
  case startLock =>
    rcases workersMtx_goesOn hw hr with hm | hgo
    · refine ctor rfl ?_
      rw [Handoff.next, hc, Handoff.ctorStep, if_pos hm]
      rfl
    · exact hgo
  case test k =>
    rcases workersMtx_goesOn hw hr with hm | hgo
    · have hctor := (Handoff.locked_reachable hr .ctor).mp (by rw [Thread.holds, hc]; rfl)
      rw [hm] at hctor
      cases hctor
    · exact hgo
  case start =>
    rcases workersMtx_goesOn hw hr with hm | hgo
    · have hctor := (Handoff.locked_reachable hr .ctor).mp (by rw [Thread.holds, hc]; rfl)
      rw [hm] at hctor
      cases hctor
    · exact hgo
  case blocked k =>
    rcases workersMtx_goesOn hw hr with hm | hgo
    · cases hno : s.ctorNotified
      · -- the worker is still on its way to where it notifies the constructor
        have hk := (expects_reachable hr).fits k (Or.inr (Or.inr hc))
        have hmem := h.ctor ⟨k, hk⟩ hc hno
        by_cases hp : s.threads.pc ⟨k, hk⟩ = .initLock
        · refine goesOn_of_worker (v := ⟨k, hk⟩) (by rw [hp]; simp) (by rw [hp]; simp) ?_
          rw [Handoff.next, hp, Handoff.workerStep, if_pos hm]
          rfl
        · refine goesOn_of_free (v := ⟨k, hk⟩) ?_
          simp only [List.mem_cons, List.not_mem_nil, or_false] at hmem
          rcases hmem with hq | hq | hq | hq
          · rw [hq]
            rfl
          · rw [hq]
            rfl
          · exact absurd hq hp
          · rw [hq]
            rfl
      · refine ⟨.ctor, rfl, ?_⟩
        simp [next, hc, ctorStep, hno, ctorResume, Handoff.next, Handoff.ctorStep, hm]
    · exact hgo
  all_goals cases hn

/-- The active worker goes on, unless it sleeps before the constructors have returned. -/
theorem goesOn_active (hw : 0 < w) (h : Notes s) (hr : (Handoff.machine w).Reachable s.threads)
    {a : Fin w} (ha : Handoff.Active s.threads a)
    (hs : s.threads.initializing = false → s.threads.ctor = .done) : GoesOn s := by
  have hctl := ha.controls
  by_cases hf : free (s.threads.pc a) = true
  · exact goesOn_of_free hf
  · cases hp : s.threads.pc a <;> rw [hp] at hf hctl
    case blocked p =>
      exact goesOn_of_notified hw hr hp (h.flagged a p hp ha.running)
    case schedule =>
      cases hi : s.threads.initializing
      · refine ⟨.prepare a a, rfl, ?_⟩
        simp [next, Handoff.next, hp, hs hi]
      · rcases mtx_goesOn h with hm | hgo
        · refine ⟨.sleep a, rfl, ?_⟩
          simp [next, Handoff.next, hp, hm, hi]
        · exact hgo
    case switchLock =>
      rcases workersMtx_goesOn hw hr with hm | hgo
      · refine goesOn_of_worker (v := a) (by rw [hp]; simp) (by rw [hp]; simp) ?_
        rw [Handoff.next, hp, Handoff.workerStep, if_pos hm]
        rfl
      · exact hgo
    case switchNotify => exact goesOn_of_switchNotify hr hp
    case unborn | initLock =>
      revert hctl
      cases s.threads.initializing <;> cases s.threads.workersStarted <;> intro hctl <;> cases hctl
    all_goals exact absurd rfl hf

/-- While the constructor waits for the scheduler to sleep. -/
theorem goesOn_await (hw : 0 < w) (h : Notes s) (hr : (Handoff.machine w).Reachable s.threads)
    (hc : s.threads.ctor = .await) : GoesOn s := by
  rcases mtx_goesOn h with hm | hgo
  · cases ha : s.await
    case lock =>
      refine ⟨.ctor, rfl, ?_⟩
      simp [next, hc, ctorStep, ha, hm]
    case test =>
      have hctor := (h.mtx .ctor).mp (by simp [holdsMtx, hc, ha])
      rw [hm] at hctor
      cases hctor
    case blocked =>
      cases hno : s.ctorNotified
      · -- the scheduler has not slept yet, and will notify the constructor when it does
        obtain ⟨a, hact⟩ := Handoff.active_reachable hr (by rw [hc]; rfl)
        refine goesOn_active hw h hr hact ?_
        intro hi
        rw [h.awaits hc ha hno] at hi
        cases hi
      · refine ⟨.ctor, rfl, ?_⟩
        simp [next, hc, ctorStep, ha, hno, ctorResume, hm]
  · exact hgo

/-- Some thread goes on. -/
theorem goesOn_reachable (hw : 0 < w) (hs : (machine w).Reachable s) : GoesOn s := by
  have h := notes_reachable hs
  have hr := threads_reachable hs
  cases hst : s.threads.ctor.started
  · exact goesOn_building hw h hr hst
  · cases hc : s.threads.ctor <;> rw [hc] at hst
    case startUnlock =>
      refine goesOn_of_ctor (by rw [hc]; rfl) ?_
      rw [Handoff.next, hc]
      rfl
    case await => exact goesOn_await hw h hr hc
    case done =>
      obtain ⟨a, ha⟩ := Handoff.active_reachable hr (by rw [hc]; rfl)
      exact goesOn_active hw h hr ha (fun _ => hc)
    all_goals cases hst

/--
**No hand-over is lost.** Whatever wakes up for no reason, in every state that the threads of a
scheduler with a worker get to, from the start of its constructor on, a worker that is blocked
although its flag is set has been notified, and so has the constructor if the worker that it
waits for has parked or the scheduler has slept; so some thread goes on that is not blocked, or
blocked and notified. In an idle scheduler that has been constructed this is the worker with the
scheduling code, which may decide to hand over or to sleep again.
-/
theorem no_handover_lost (hw : 0 < w) (hs : (machine w).Reachable s) :
    (∀ v p, s.threads.pc v = .blocked p → s.threads.running v = true → s.notified v = true) ∧
      (∀ v : Fin w, s.threads.ctor = .blocked v.val → s.threads.running v = false →
        s.ctorNotified = true) ∧
      (s.threads.ctor = .await → s.await = .blocked → s.threads.schedRunning = false →
        s.ctorNotified = true) ∧
      ∃ e t, e.isSpurious = false ∧ next s e = some t := by
  have h := notes_reachable hs
  have hr := threads_reachable hs
  refine ⟨h.flagged, ?_, ?_, ?_⟩
  · intro v hc hrun
    by_contra hn
    have hmem := h.ctor v hc ((Bool.not_eq_true _).mp hn)
    have hb := Handoff.building_reachable hr (by rw [hc]; rfl)
    rcases hb.cases v with hu | ⟨_, hset⟩ | ⟨hp | hp, _⟩
    · rw [hu] at hmem
      simp at hmem
    · rw [hrun] at hset
      cases hset
    · rw [hp] at hmem
      simp at hmem
    · rw [hp] at hmem
      simp at hmem
  · intro hc hb hsr
    by_contra hn
    have hi := h.awaits hc hb ((Bool.not_eq_true _).mp hn)
    rw [(Handoff.initialized_reachable hr).schedRunning hsr] at hi
    cases hi
  · obtain ⟨e, he, hsome⟩ := goesOn_reachable hw hs
    obtain ⟨t, ht⟩ := Option.isSome_iff_exists.mp hsome
    exact ⟨e, t, he, ht⟩

/-- The worker `v` parks, and the constructor starts it. -/
def startRun (v : Fin 1) : List (Event 1) :=
  .ctor :: List.replicate 6 (.worker v false) ++ List.replicate 5 .ctor

/-- It is blocked there, its flag is set, and it has been notified. -/
theorem no_handover_lost_run :
    ∃ s, (machine 1).Reachable s ∧ s.threads.pc 0 = .blocked .syncInit ∧
      s.threads.running 0 = true ∧ s.notified 0 = true ∧
      ∃ e t, e.isSpurious = false ∧ next s e = some t := by
  obtain ⟨s, hr, hp⟩ := Machine.exists_of_run (M := machine 1)
    (p := fun s => decide (s.threads.pc 0 = .blocked .syncInit) && s.threads.running 0)
    (s := .begin 1) (Machine.Reach.init rfl) (startRun 0) (by decide)
  rw [Bool.and_eq_true, decide_eq_true_eq] at hp
  obtain ⟨hflag, _, _, hgo⟩ := no_handover_lost (by decide) hr
  exact ⟨s, hr, hp.1, hp.2, hflag 0 _ hp.1 hp.2, hgo⟩

end Ums.Wakeup
