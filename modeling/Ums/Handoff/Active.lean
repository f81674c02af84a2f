import Ums.Handoff.Basic

/-!
# One active worker

While the scheduler is being built its workers park one after the other, each with
`m_running` false. The constructor then sets one flag, and from there on the flag is
only handed on: `context_switch` sets the flag of the next worker and clears its own
before it lets go of `m_workers_mtx`. In between two flags are set, and the mutex is
held.

`m_worker` runs ahead of the flags. The scheduling code sets it, and the flags follow
in `context_switch`.
-/

namespace Ums.Handoff

open Lib

variable {w : Nat} {s s' : State w}

/-! ## What a step can do -/

/-- The outcomes of a step. -/
inductive Step (s : State w) : Event w → State w → Prop
  | user {v} (hp : s.pc v = .user) : Step s (.worker v) (s.goto v .park)
  | park {v q} (hp : s.pc v = .park) :
      Step s (.worker v) ({ s with idleQueue := q }.goto v .syncInit)
  | syncInit {v} (hp : s.pc v = .syncInit) (hi : s.initializing = true) :
      Step s (.worker v) (s.goto v .initLock)
  | syncSkip {v} (hp : s.pc v = .syncInit) (hi : s.initializing = false) :
      Step s (.worker v) (s.goto v .schedule)
  | initLock {v} (hp : s.pc v = .initLock) (hm : s.mtx = none) :
      Step s (.worker v) ((s.setMtx (some (.worker v))).goto v .initNotify)
  | initNotify {v} (hp : s.pc v = .initNotify) :
      Step s (.worker v) ((s.setRunning v true).goto v (.clear .syncInit))
  | clear {v p} (hp : s.pc v = .clear p) :
      Step s (.worker v) ((s.setRunning v false).goto v (.test p))
  | resumeInit {v} (hp : s.pc v = .test .syncInit) (hr : s.running v = true) :
      Step s (.worker v) (s.goto v .decide)
  | resumeSwitch {v} (hp : s.pc v = .test .contextSwitch) (hr : s.running v = true) :
      Step s (.worker v) (s.goto v .switchReturn)
  | block {v p} (hp : s.pc v = .test p) (hr : s.running v = false) :
      Step s (.worker v) ((s.setMtx none).goto v (.blocked p))
  | wake {v p} (hp : s.pc v = .blocked p) (hm : s.mtx = none) :
      Step s (.worker v) ((s.setMtx (some (.worker v))).goto v (.test p))
  | decideFalse {v} (hp : s.pc v = .decide) (hw : s.workersStarted = true) :
      Step s (.worker v) (s.goto v (.initReturn false))
  | decideTrue {v} (hp : s.pc v = .decide) (hw : s.workersStarted = false) :
      Step s (.worker v)
        ({ s with workersStarted := true, told := v :: s.told }.goto v (.initReturn true))
  | initReturn {v r} (hp : s.pc v = .initReturn r) :
      Step s (.worker v) ((s.setMtx none).goto v (if r then .schedule else .user))
  | asleep {v} (hp : s.pc v = .asleep) :
      Step s (.worker v) ({ s with schedRunning := false }.goto v .schedule)
  | stays {v} (hp : s.pc v = .compare) (hw : s.worker = some v) :
      Step s (.worker v) (s.goto v .user)
  | switch {v} (hp : s.pc v = .compare) (hw : s.worker ≠ some v) :
      Step s (.worker v) (s.goto v .switchLock)
  | switchLock {v} (hp : s.pc v = .switchLock) (hm : s.mtx = none) :
      Step s (.worker v) ((s.setMtx (some (.worker v))).goto v .switchNotify)
  | switchNotify {v n} (hp : s.pc v = .switchNotify) (hw : s.worker = some n) :
      Step s (.worker v) ((s.setRunning n true).goto v (.clear .contextSwitch))
  | switchReturn {v} (hp : s.pc v = .switchReturn) :
      Step s (.worker v) ((s.setMtx none).goto v .user)
  | prepare {v n} (hp : s.pc v = .schedule) (hc : s.ctor = .done) :
      Step s (.prepare v n) ({ s with worker := some n }.goto v .compare)
  | sleep {v} (hp : s.pc v = .schedule) :
      Step s (.sleep v) ({ s with initializing := false }.goto v .asleep)
  | create {k} (hc : s.ctor = .create k) (hk : k < w) :
      Step s .ctor { s.goto ⟨k, hk⟩ .park with ctor := .lock k }
  | created {k} (hc : s.ctor = .create k) (hk : w ≤ k) : Step s .ctor { s with ctor := .startLock }
  | lock {k} (hc : s.ctor = .lock k ∨ s.ctor = .blocked k) (hm : s.mtx = none) :
      Step s .ctor { s.setMtx (some .ctor) with ctor := .test k }
  | await {k} (hc : s.ctor = .test k) (hk : k < w) (hr : s.running ⟨k, hk⟩ = true) :
      Step s .ctor { s.setMtx none with ctor := .blocked k }
  | parked {k} (hc : s.ctor = .test k) (hk : k < w) (hr : s.running ⟨k, hk⟩ = false) :
      Step s .ctor { s.setMtx none with ctor := .create (k + 1) }
  | startLock (hc : s.ctor = .startLock) (hm : s.mtx = none) :
      Step s .ctor { s.setMtx (some .ctor) with ctor := .start }
  | start {v} (hc : s.ctor = .start) :
      Step s .ctor { s.setRunning v true with worker := some v, ctor := .startUnlock }
  | startUnlock (hc : s.ctor = .startUnlock) : Step s .ctor { s.setMtx none with ctor := .await }
  | done (hc : s.ctor = .await) (hs : s.schedRunning = false) :
      Step s .ctor { s with ctor := .done }

theorem step_of_workerStep {v : Fin w} (h : workerStep s v (s.pc v) = some s') :
    Step s (.worker v) s' := by
  cases hp : s.pc v <;> rw [hp] at h <;> simp only [workerStep, reduceCtorEq] at h
  case user => cases h; exact .user hp
  case park => cases h; exact .park hp
  case syncInit =>
    cases hi : s.initializing <;> rw [hi] at h <;> cases h
    · exact .syncSkip hp hi
    · exact .syncInit hp hi
  case initLock =>
    split at h <;> cases h
    exact .initLock hp ‹_›
  case initNotify => cases h; exact .initNotify hp
  case clear p => cases h; exact .clear hp
  case test p =>
    cases hr : s.running v <;> rw [hr] at h
    · cases h
      exact .block hp hr
    · cases p <;> cases h
      · exact .resumeInit hp hr
      · exact .resumeSwitch hp hr
  case blocked p =>
    split at h <;> cases h
    exact .wake hp ‹_›
  case decide =>
    split at h <;> rename_i hw <;> cases h
    · exact .decideFalse hp hw
    · exact .decideTrue hp (by simpa using hw)
  case initReturn r => cases h; exact .initReturn hp
  case asleep => cases h; exact .asleep hp
  case compare =>
    by_cases hw : s.worker = some v
    · rw [if_pos hw] at h
      cases h
      exact .stays hp hw
    · rw [if_neg hw] at h
      cases h
      exact .switch hp hw
  case switchLock =>
    split at h <;> cases h
    exact .switchLock hp ‹_›
  case switchNotify =>
    obtain ⟨n, hw, rfl⟩ := Option.map_eq_some_iff.mp h
    exact .switchNotify hp hw
  case switchReturn => cases h; exact .switchReturn hp

theorem step_of_ctorStep (h : ctorStep s s.ctor = some s') : Step s .ctor s' := by
  cases hc : s.ctor <;> rw [hc] at h <;> simp only [ctorStep, reduceCtorEq] at h
  case create k =>
    split at h <;> rename_i hk <;> cases h
    · exact .create hc hk
    · exact .created hc (Nat.le_of_not_lt hk)
  case lock k =>
    split at h <;> cases h
    exact .lock (Or.inl hc) ‹_›
  case test k =>
    split at h
    · rename_i hk
      split at h <;> rename_i hr <;> cases h
      · exact .await hc hk hr
      · exact .parked hc hk (by simpa using hr)
    · cases h
  case blocked k =>
    split at h <;> cases h
    exact .lock (Or.inr hc) ‹_›
  case startLock =>
    split at h <;> cases h
    exact .startLock hc ‹_›
  case start =>
    obtain ⟨v, _, rfl⟩ := Option.map_eq_some_iff.mp h
    exact .start hc
  case startUnlock => cases h; exact .startUnlock hc
  case await =>
    split at h <;> rename_i hs <;> cases h
    exact .done hc (by simpa using hs)

/-- **A step does nothing but what `Step` lists.** -/
theorem step_of_next {e : Event w} (h : next s e = some s') : Step s e s' := by
  cases e with
  | worker v => exact step_of_workerStep h
  | ctor => exact step_of_ctorStep h
  | prepare v n =>
      simp only [next] at h
      split at h <;> rename_i hp <;> cases h
      exact .prepare hp.1 hp.2
  | sleep v =>
      simp only [next] at h
      split at h <;> rename_i hp <;> cases h
      exact .sleep hp

/-! ## While the scheduler is built -/

/-- The worker has parked in `sync_init`, its flag is cleared. -/
def Parked (s : State w) (v : Fin w) : Prop :=
  (s.pc v = .test .syncInit ∨ s.pc v = .blocked .syncInit) ∧ s.running v = false

/-- The worker is on its way there, its flag set as long as it is not parked. -/
def Entering (s : State w) (v : Fin w) : Prop :=
  (s.pc v ∈ [.park, .syncInit, .initLock, .initNotify, .clear .syncInit] ∧ s.running v = true) ∨
    Parked s v

/-- The workers before this one have parked. -/
def CtorPc.parked (w : Nat) : CtorPc → Nat
  | .create k | .lock k | .test k | .blocked k => k
  | _ => w

/-- The workers before this one exist. -/
def CtorPc.created (w : Nat) : CtorPc → Nat
  | .create k => k
  | .lock k | .test k | .blocked k => k + 1
  | _ => w

/-- The scheduler while its constructor has not started the first worker. -/
structure Building (s : State w) : Prop where
  /-- The flags are those it began with. -/
  initializing : s.initializing = true
  schedRunning : s.schedRunning = true
  workersStarted : s.workersStarted = false
  /-- The workers it has waited for are parked. -/
  parked : ∀ v : Fin w, v.val < s.ctor.parked w → Parked s v
  /-- One it has created and not yet waited for is on its way there. -/
  entering : ∀ v : Fin w, s.ctor.parked w ≤ v.val → v.val < s.ctor.created w → Entering s v
  /-- The others do not exist yet. -/
  unborn : ∀ v : Fin w, s.ctor.created w ≤ v.val → s.pc v = .unborn ∧ s.running v = true

/-- The step touches nothing of the other workers, and nothing of the scheduler but its queue. -/
structure Private (s s' : State w) (v : Fin w) : Prop where
  /-- The constructor is where it was. -/
  ctor : s'.ctor = s.ctor
  /-- So are the flags of the scheduler, and `m_worker`. -/
  initializing : s'.initializing = s.initializing
  schedRunning : s'.schedRunning = s.schedRunning
  workersStarted : s'.workersStarted = s.workersStarted
  worker : s'.worker = s.worker
  /-- So is every other worker. -/
  pc : ∀ u, u ≠ v → s'.pc u = s.pc u
  running : ∀ u, u ≠ v → s'.running u = s.running u

theorem private_mtx {v : Fin w} {m : Option (Thread w)} {q : List (Fin w)} :
    Private s { s with mtx := m, idleQueue := q } v :=
  ⟨rfl, rfl, rfl, rfl, rfl, fun _ _ => rfl, fun _ _ => rfl⟩

theorem private_setRunning {v : Fin w} {b : Bool} : Private s (s.setRunning v b) v :=
  ⟨rfl, rfl, rfl, rfl, rfl, fun _ _ => rfl, fun _ hu => Function.update_of_ne hu _ _⟩

theorem Private.goto {v : Fin w} (h : Private s s' v) (p : Pc) : Private s (s'.goto v p) v :=
  ⟨h.ctor, h.initializing, h.schedRunning, h.workersStarted, h.worker,
    fun u hu => (Function.update_of_ne hu _ _).trans (h.pc u hu), h.running⟩

theorem Parked.step {v : Fin w} (h : Parked s v) (hs : Step s (.worker v) s') :
    Parked s' v ∧ Private s s' v := by
  obtain ⟨hp, hr⟩ := h
  cases hs with
  | block hp' =>
      rw [hp'] at hp
      refine ⟨⟨Or.inr ?_, hr⟩, private_mtx.goto _⟩
      simpa using hp
  | wake hp' =>
      rw [hp'] at hp
      refine ⟨⟨Or.inl ?_, hr⟩, private_mtx.goto _⟩
      simpa using hp
  | resumeInit _ hr' | resumeSwitch _ hr' => rw [hr] at hr'; cases hr'
  | _ hp' => simp [hp'] at hp

theorem Entering.step {v : Fin w} (hi : s.initializing = true) (h : Entering s v)
    (hs : Step s (.worker v) s') : Entering s' v ∧ Private s s' v := by
  rcases h with ⟨hp, hr⟩ | h
  case inr =>
    obtain ⟨h1, h2⟩ := h.step hs
    exact ⟨Or.inr h1, h2⟩
  cases hs with
  | park | syncInit | initLock => exact ⟨Or.inl ⟨by simp, hr⟩, private_mtx.goto _⟩
  | initNotify =>
      exact ⟨Or.inl ⟨by simp, by simp⟩, private_setRunning.goto _⟩
  | clear hp' =>
      simp [hp'] at hp
      subst hp
      exact ⟨Or.inr ⟨Or.inl (by simp), by simp⟩, private_setRunning.goto _⟩
  | syncSkip _ hi' => rw [hi] at hi'; cases hi'
  | _ hp' => simp [hp'] at hp

/-- A worker that moves exists. -/
theorem Step.born {v : Fin w} (hs : Step s (.worker v) s') : s.pc v ≠ .unborn := by
  cases hs <;> simp [*]

namespace Building

/-- Where a worker is while the scheduler is built. -/
theorem cases (h : Building s) (v : Fin w) : s.pc v = .unborn ∨ Entering s v := by
  by_cases h1 : v.val < s.ctor.parked w
  · exact Or.inr (Or.inr (h.parked v h1))
  · by_cases h2 : v.val < s.ctor.created w
    · exact Or.inr (h.entering v (Nat.le_of_not_lt h1) h2)
    · exact Or.inl (h.unborn v (Nat.le_of_not_lt h2)).1

theorem not_schedule (h : Building s) (v : Fin w) : s.pc v ≠ .schedule := by
  intro hp
  rcases h.cases v with hu | ⟨hm, _⟩ | ⟨hm, _⟩
  · rw [hp] at hu
    cases hu
  · simp [hp] at hm
  · simp [hp] at hm

/-- The step of a worker takes it at most from its way to its parking place. -/
theorem worker_step (h : Building s) {v : Fin w} (hs : Step s (.worker v) s') : Building s' := by
  have hv : Entering s v := (h.cases v).resolve_left hs.born
  obtain ⟨hv', hp⟩ := hv.step h.initializing hs
  refine ⟨hp.initializing.trans h.initializing, hp.schedRunning.trans h.schedRunning,
    hp.workersStarted.trans h.workersStarted, ?_, ?_, ?_⟩ <;> rw [hp.ctor] <;> intro u hu
  · by_cases he : u = v
    · subst he
      exact ((h.parked u hu).step hs).1
    · rw [Parked, hp.pc u he, hp.running u he]
      exact h.parked u hu
  · by_cases he : u = v
    · subst he
      exact fun _ => hv'
    · rw [Entering, Parked, hp.pc u he, hp.running u he]
      exact h.entering u hu
  · have he : u ≠ v := by
      intro he
      subst he
      exact hs.born (h.unborn u hu).1
    rw [hp.pc u he, hp.running u he]
    exact h.unborn u hu

/-- The constructor goes on to the next worker when the one before has parked. -/
theorem ctor_step (h : Building s) (hs : Step s .ctor s') (hn : s'.ctor.started = false) :
    Building s' := by
  obtain ⟨hi, hr, hw, h1, h2, h3⟩ := h
  cases hs with
  | create hc hk =>
      rename_i k
      simp only [hc, CtorPc.parked, CtorPc.created] at h1 h2 h3
      have hne : ∀ u : Fin w, u.val ≠ k → (s.goto ⟨k, hk⟩ .park).pc u = s.pc u := fun u hu =>
        Function.update_of_ne (fun he => hu (congrArg Fin.val he)) _ _
      refine ⟨hi, hr, hw, ?_, ?_, ?_⟩ <;> intro u hu <;>
        simp only [CtorPc.parked, CtorPc.created] at hu
      · rw [Parked, hne u (by omega)]
        exact h1 u hu
      · intro hu'
        have he : u = ⟨k, hk⟩ := Fin.ext (by change u.val < k + 1 at hu'; change u.val = k; omega)
        subst he
        exact Or.inl ⟨by simp, (h3 ⟨k, hk⟩ (Nat.le_refl k)).2⟩
      · rw [hne u (by omega)]
        exact h3 u (by omega)
  | created hc hk =>
      simp only [hc, CtorPc.parked] at h1
      refine ⟨hi, hr, hw, ?_, ?_, ?_⟩ <;> intro u hu <;>
        simp only [CtorPc.parked, CtorPc.created] at hu
      · exact h1 u (by omega)
      · omega
      · omega
  | lock hc =>
      rcases hc with hc | hc <;> rw [hc] at h1 h2 h3 <;> exact ⟨hi, hr, hw, h1, h2, h3⟩
  | await hc | startLock hc =>
      rw [hc] at h1 h2 h3
      exact ⟨hi, hr, hw, h1, h2, h3⟩
  | parked hc hk hf =>
      rename_i k
      simp only [hc, CtorPc.parked, CtorPc.created] at h1 h2 h3
      refine ⟨hi, hr, hw, ?_, ?_, h3⟩ <;> intro u hu <;> simp only [CtorPc.parked] at hu
      · by_cases he : u.val < k
        · exact h1 u he
        · have hv : u = ⟨k, hk⟩ := Fin.ext (by change u.val = k; omega)
          subst hv
          -- a worker that has not parked yet still has its flag set
          rcases h2 ⟨k, hk⟩ (Nat.le_refl k) (Nat.lt_succ_self k) with ⟨_, ht⟩ | hp
          · rw [hf] at ht
            cases ht
          · exact hp
      · intro hu'
        change u.val < k + 1 at hu'
        omega
  | start | startUnlock | done => cases hn

end Building

/-- The constructor does not go back. -/
theorem Step.started {e : Event w} (hs : Step s e s') (h : s.ctor.started = true) :
    s'.ctor.started = true := by
  cases hs with
  | create hc | created hc | await hc | parked hc | startLock hc => rw [hc] at h; cases h
  | lock hc => rcases hc with hc | hc <;> rw [hc] at h <;> cases h
  | start | startUnlock | done => rfl
  | _ => exact h

/-- **Until the first worker is started, every worker is on its way to its parking place.** -/
theorem building_reachable (h : (machine w).Reachable s) :
    s.ctor.started = false → Building s := by
  refine Machine.Reach.invariant (I := fun s => s.ctor.started = false → Building s) ?_ ?_ h
  · rintro s rfl _
    refine ⟨rfl, rfl, rfl, ?_, ?_, fun _ _ => ⟨rfl, rfl⟩⟩
    · intro v hv
      exact absurd hv (Nat.not_lt_zero _)
    · intro v _ hv
      exact absurd hv (Nat.not_lt_zero _)
  · intro s e s' _ _ hs ih hn
    have hst := step_of_next hs
    have hb : Building s := ih (by
      by_contra hne
      rw [hst.started (by simpa using hne)] at hn
      cases hn)
    cases e with
    | worker v => exact hb.worker_step hst
    | ctor => exact hb.ctor_step hst hn
    | prepare v n =>
        cases hst with
        | prepare hp => exact absurd hp (hb.not_schedule v)
    | sleep v =>
        cases hst with
        | sleep hp => exact absurd hp (hb.not_schedule v)

/-! ## The mutex -/

/-- The thread holds `m_workers_mtx`, by its control point. -/
def Thread.holds (s : State w) : Thread w → Bool
  | .worker v => (s.pc v).holds
  | .ctor => s.ctor.holds

/-- The mutex is held by the thread that is between a lock and an unlock. -/
def Locked (s : State w) : Prop := ∀ t : Thread w, t.holds s = true ↔ s.mtx = some t

theorem Locked.keep (h : Locked s) (hh : ∀ t : Thread w, t.holds s' = t.holds s)
    (hm : s'.mtx = s.mtx) : Locked s' := by
  intro t
  rw [hh t, hm]
  exact h t

theorem Locked.take (h : Locked s) {t : Thread w} (hn : s.mtx = none) (ht : t.holds s' = true)
    (hh : ∀ u, u ≠ t → u.holds s' = u.holds s) (hm : s'.mtx = some t) : Locked s' := by
  intro u
  by_cases hu : u = t
  · subst hu
    exact ⟨fun _ => hm, fun _ => ht⟩
  · rw [hh u hu, h u, hn, hm]
    simp [Ne.symm hu]

theorem Locked.give (h : Locked s) {t : Thread w} (ht : t.holds s = true)
    (hf : t.holds s' = false) (hh : ∀ u, u ≠ t → u.holds s' = u.holds s) (hm : s'.mtx = none) :
    Locked s' := by
  have hs : s.mtx = some t := (h t).mp ht
  intro u
  by_cases hu : u = t
  · subst hu
    simp [hf, hm]
  · rw [hh u hu, h u, hs, hm]
    simp [Ne.symm hu]

/-- Only the worker that moves changes what it holds. -/
theorem holds_goto {v : Fin w} {p : Pc} (hc : s'.ctor = s.ctor)
    (hpc : s'.pc = Function.update s.pc v p) {t : Thread w} (ht : t ≠ .worker v) :
    t.holds s' = t.holds s := by
  cases t with
  | ctor => exact congrArg CtorPc.holds hc
  | worker u =>
      have hu : u ≠ v := fun he => ht (he ▸ rfl)
      simp only [Thread.holds, hpc, Function.update_of_ne hu]

/-- Only the constructor changes what it holds. -/
theorem holds_ctor (hpc : s'.pc = s.pc) {t : Thread w} (ht : t ≠ .ctor) :
    t.holds s' = t.holds s := by
  cases t with
  | ctor => exact absurd rfl ht
  | worker v => simp only [Thread.holds, hpc]

namespace Locked

/-- A worker moves and neither locks nor unlocks. -/
theorem goto (h : Locked s) {v : Fin w} {p : Pc} (hp : p.holds = (s.pc v).holds)
    (hc : s'.ctor = s.ctor) (hpc : s'.pc = Function.update s.pc v p) (hm : s'.mtx = s.mtx) :
    Locked s' := by
  refine h.keep ?_ hm
  intro t
  by_cases ht : t = .worker v
  · subst ht
    rw [Thread.holds, Thread.holds, hpc, Function.update_self, hp]
  · exact holds_goto hc hpc ht

/-- A worker locks. -/
theorem gotoTake (h : Locked s) {v : Fin w} {p : Pc} (hn : s.mtx = none) (hp : p.holds = true) :
    Locked ((s.setMtx (some (.worker v))).goto v p) := by
  refine h.take (t := .worker v) hn ?_ ?_ rfl
  · simp [Thread.holds, hp]
  · intro u hu
    exact holds_goto (p := p) (by rfl) (by rfl) hu

/-- A worker unlocks. -/
theorem gotoGive (h : Locked s) {v : Fin w} {p : Pc} (hs : (s.pc v).holds = true)
    (hp : p.holds = false) : Locked ((s.setMtx none).goto v p) := by
  refine h.give (t := .worker v) hs ?_ ?_ rfl
  · simp [Thread.holds, hp]
  · intro u hu
    exact holds_goto (p := p) (by rfl) (by rfl) hu

/-- No two threads hold the mutex. -/
theorem unique (h : Locked s) {t u : Thread w} (ht : t.holds s = true) (hu : u.holds s = true) :
    t = u :=
  Option.some.inj (((h t).mp ht).symm.trans ((h u).mp hu))

/-- Nobody holds a free mutex. -/
theorem free (h : Locked s) (hm : s.mtx = none) (t : Thread w) : t.holds s = false := by
  by_contra ht
  rw [Bool.not_eq_false, h t, hm] at ht
  cases ht

theorem ctor_step (h : Locked s) (hb : s.ctor.started = false → Building s)
    (hs : Step s .ctor s') : Locked s' := by
  have keep : ∀ t : State w, t.pc = s.pc → t.mtx = s.mtx → t.ctor.holds = s.ctor.holds →
      Locked t := by
    intro t hpc hm hc
    refine h.keep ?_ hm
    intro u
    cases u with
    | ctor => exact hc
    | worker v => simp only [Thread.holds, hpc]
  have give : ∀ t : State w, t.pc = s.pc → t.mtx = none → s.ctor.holds = true →
      t.ctor.holds = false → Locked t := fun t hpc hm h1 h2 =>
    h.give (t := .ctor) h1 h2 (fun u hu => holds_ctor hpc hu) hm
  have take : ∀ t : State w, t.pc = s.pc → s.mtx = none → t.mtx = some .ctor →
      t.ctor.holds = true → Locked t := fun t hpc hn hm h1 =>
    h.take (t := .ctor) hn h1 (fun u hu => holds_ctor hpc hu) hm
  cases hs with
  | create hc hk =>
      -- the new thread starts outside, as it was before it existed
      have hu := ((hb (by rw [hc]; rfl)).unborn ⟨_, hk⟩ (by rw [hc]; exact Nat.le_refl _)).1
      refine h.keep ?_ rfl
      intro t
      by_cases ht : t = .worker ⟨_, hk⟩
      · subst ht
        simp [Thread.holds, hu, Pc.holds]
      · cases t with
        | ctor => simp [Thread.holds, hc, CtorPc.holds]
        | worker v =>
            have hv : v ≠ ⟨_, hk⟩ := fun he => ht (he ▸ rfl)
            simp [Thread.holds, Function.update_of_ne hv]
  | created hc => exact keep _ rfl rfl (by rw [hc]; rfl)
  | lock hc hm => exact take _ rfl hm rfl rfl
  | startLock hc hm => exact take _ rfl hm rfl rfl
  | await hc => exact give _ rfl rfl (by rw [hc]; rfl) rfl
  | parked hc => exact give _ rfl rfl (by rw [hc]; rfl) rfl
  | start hc => exact keep _ rfl rfl (by rw [hc]; rfl)
  | startUnlock hc => exact give _ rfl rfl (by rw [hc]; rfl) rfl
  | done hc => exact keep _ rfl rfl (by rw [hc]; rfl)

theorem step {e : Event w} (h : Locked s) (hb : s.ctor.started = false → Building s)
    (hs : Step s e s') : Locked s' := by
  cases e with
  | ctor => exact h.ctor_step hb hs
  | prepare v n => cases hs with | prepare hp => exact h.goto (by rw [hp]; rfl) rfl rfl rfl
  | sleep v => cases hs with | sleep hp => exact h.goto (by rw [hp]; rfl) rfl rfl rfl
  | worker v =>
      cases hs with
      | initLock _ hm | wake _ hm | switchLock _ hm => exact h.gotoTake hm rfl
      | block hp | switchReturn hp => exact h.gotoGive (by rw [hp]; rfl) rfl
      | initReturn hp => exact h.gotoGive (by rw [hp]; rfl) (by split <;> rfl)
      | _ hp => exact h.goto (by rw [hp]; rfl) rfl rfl rfl

end Locked

theorem locked_reachable (h : (machine w).Reachable s) : Locked s := by
  refine Machine.Reach.invariant ?_ ?_ h
  · rintro s rfl t
    cases t <;> simp [Thread.holds, State.begin, Pc.holds, CtorPc.holds]
  · intro s e s' hr _ hs hl
    exact hl.step (building_reachable hr) (step_of_next hs)

/-! ## Once the first worker is started -/

/--
Where the active worker can be, given `initializing` and `m_workers_started`. As long
as the scheduler is initializing it is still in `sync_init`, or in `schedule` right
after it.
-/
def Pc.controls (initializing workersStarted : Bool) (p : Pc) : Bool :=
  match initializing, workersStarted with
  | true, false =>
    match p with
    | .test .syncInit | .blocked .syncInit | .decide => true
    | _ => false
  | true, true =>
    match p with
    | .initReturn true | .schedule => true
    | _ => false
  | false, true =>
    match p with
    | .unborn | .initLock | .initNotify | .clear _ => false
    | _ => true
  | false, false => false

/-- What `m_worker` is when the active worker `a` is at a control point. -/
def Points (worker : Option (Fin w)) (a : Fin w) : Pc → Prop
  | .compare => worker ≠ none
  | .switchLock | .switchNotify => ∃ n, worker = some n ∧ n ≠ a
  | _ => worker = some a

/-- The worker waits for its flag, or is about to clear it before it waits. -/
def Waiting (s : State w) (v : Fin w) : Prop :=
  (s.pc v = .clear .contextSwitch ∧ s.running v = true) ∨
    ∃ p, (s.pc v = .test p ∨ s.pc v = .blocked p) ∧ s.running v = false

/-- The worker `a` is active, and no other. -/
structure Active (s : State w) (a : Fin w) : Prop where
  /-- It is where an active worker can be. -/
  controls : (s.pc a).controls s.initializing s.workersStarted = true
  /-- Its flag is set. -/
  running : s.running a = true
  /-- It is `m_worker`, or about to hand over to it. -/
  points : Points s.worker a (s.pc a)
  /-- The others wait for their flags. -/
  waiting : ∀ v, v ≠ a → Waiting s v

theorem Parked.waiting {v : Fin w} (h : Parked s v) : Waiting s v := Or.inr ⟨.syncInit, h⟩

/-- Nobody but its thread brings a waiting worker further, as long as its flag is not set. -/
theorem Waiting.step {v : Fin w} (h : Waiting s v) (hs : Step s (.worker v) s') :
    Waiting s' v ∧ Private s s' v := by
  rcases h with ⟨hp, hr⟩ | ⟨p, hp, hr⟩
  · cases hs with
    | clear hp' => exact ⟨Or.inr ⟨_, Or.inl (by simp; rfl), by simp⟩, private_setRunning.goto _⟩
    | _ hp' => simp [hp'] at hp
  · cases hs with
    | block => exact ⟨Or.inr ⟨_, Or.inr (by simp; rfl), hr⟩, private_mtx.goto _⟩
    | wake => exact ⟨Or.inr ⟨_, Or.inl (by simp; rfl), hr⟩, private_mtx.goto _⟩
    | resumeInit _ hr' | resumeSwitch _ hr' => rw [hr] at hr'; cases hr'
    | _ hp' => simp [hp'] at hp

theorem Waiting.not_schedule {v : Fin w} (h : Waiting s v) : s.pc v ≠ .schedule := by
  intro hp
  rcases h with ⟨h1, _⟩ | ⟨p, h1 | h1, _⟩ <;> rw [hp] at h1 <;> cases h1

/-- A waiting worker that does not hold the mutex is blocked, and its flag is cleared. -/
theorem Waiting.blocked {v : Fin w} (h : Waiting s v) (hh : (s.pc v).holds = false) :
    (∃ p, s.pc v = .blocked p) ∧ s.running v = false := by
  rcases h with ⟨hp, _⟩ | ⟨p, hp | hp, hr⟩
  · rw [hp] at hh
    cases hh
  · rw [hp] at hh
    cases hh
  · exact ⟨⟨p, hp⟩, hr⟩

namespace Active

variable {a : Fin w}

/-- Another worker moves. -/
theorem other (h : Active s a) {v : Fin w} (hv : v ≠ a) (hs : Step s (.worker v) s') :
    Active s' a := by
  obtain ⟨hw, hp⟩ := (h.waiting v hv).step hs
  obtain ⟨h1, h2, h3, h4⟩ := h
  refine ⟨?_, ?_, ?_, ?_⟩
  · rw [hp.pc a hv.symm, hp.initializing, hp.workersStarted]
    exact h1
  · rw [hp.running a hv.symm]
    exact h2
  · rw [hp.worker, hp.pc a hv.symm]
    exact h3
  · intro u hu
    by_cases he : u = v
    · subst he
      exact hw
    · rw [Waiting, hp.pc u he, hp.running u he]
      exact h4 u hu

/-- The active worker moves on and stays active. -/
theorem moves (h : Active s a) {q : Pc} (hpc : s'.pc = Function.update s.pc a q)
    (hr : s'.running = s.running) (hq : q.controls s'.initializing s'.workersStarted = true)
    (hw : Points s'.worker a q) : Active s' a := by
  refine ⟨?_, ?_, ?_, ?_⟩
  · rw [hpc, Function.update_self]
    exact hq
  · rw [hr]
    exact h.running
  · rw [hpc, Function.update_self]
    exact hw
  · intro v hv
    rw [Waiting, hpc, hr, Function.update_of_ne hv]
    exact h.waiting v hv

/-- The same, when it changes nothing but the mutex. -/
theorem goto (h : Active s a) {p q : Pc} {m : Option (Thread w)} {l : List (Fin w)} {b : Bool}
    (hp : s.pc a = p) (hq : ∀ i b, p.controls i b = true → q.controls i b = true)
    (hw : Points s.worker a p → Points s.worker a q) :
    Active ({ s with mtx := m, idleQueue := l, schedRunning := b }.goto a q) a := by
  have hc := h.controls
  have hpt := h.points
  rw [hp] at hc hpt
  exact h.moves rfl rfl (hq _ _ hc) (hw hpt)

/-- The next worker gets the flag while the one before still has the mutex. -/
theorem handOver (h : Active s a) (hl : Locked s) (hp : s.pc a = .switchNotify) {n : Fin w}
    (hw : s.worker = some n) : Active ((s.setRunning n true).goto a (.clear .contextSwitch)) n := by
  obtain ⟨hc, hr, hpt, hwt⟩ := h
  rw [hp] at hc hpt
  obtain ⟨m, hm, hne⟩ := hpt
  obtain rfl : n = m := Option.some.inj (hw.symm.trans hm)
  -- the mutex is taken, so the next worker can only be blocked
  have hfree : (s.pc n).holds = false := by
    by_contra hh
    have := hl.unique (t := .worker n) (u := .worker a) (by simpa [Thread.holds] using hh)
      (by rw [Thread.holds, hp]; rfl)
    exact hne (Thread.worker.inj this)
  obtain ⟨⟨p, hb⟩, hf⟩ := (hwt n hne).blocked hfree
  refine ⟨?_, by simp, ?_, ?_⟩
  · simp only [State.goto_pc, Function.update_of_ne hne]
    rw [State.setRunning_pc, hb]
    have himp : ∀ i b, Pc.switchNotify.controls i b = true →
        (Pc.blocked p).controls i b = true := by
      cases p <;> decide
    exact himp _ _ hc
  · simp only [State.goto_pc, Function.update_of_ne hne]
    rw [State.setRunning_pc, hb]
    exact hw
  · intro v hv
    by_cases hva : v = a
    · subst hva
      refine Or.inl ⟨by simp, ?_⟩
      simp only [State.goto_running, State.setRunning_running, Function.update_of_ne hv, hr]
    · rw [Waiting]
      simp only [State.goto_pc, State.setRunning_pc, Function.update_of_ne hva, State.goto_running,
        State.setRunning_running, Function.update_of_ne hv]
      exact hwt v hva

/-- The active worker moves: it stays active, or it has made another one active. -/
theorem worker_step (h : Active s a) (hl : Locked s) (hs : Step s (.worker a) s') :
    ∃ b, Active s' b := by
  have hc := h.controls
  cases hs with
  | user hp => exact ⟨a, h.goto hp (by decide) id⟩
  | park hp => exact ⟨a, h.goto hp (by decide) id⟩
  | syncInit hp hi =>
      rw [hp, hi] at hc
      cases hb : s.workersStarted <;> rw [hb] at hc <;> cases hc
  | syncSkip hp => exact ⟨a, h.goto hp (by decide) id⟩
  | initLock hp | initNotify hp | clear hp =>
      rw [hp] at hc
      cases hi : s.initializing <;> cases hb : s.workersStarted <;> rw [hi, hb] at hc <;> cases hc
  | resumeInit hp => exact ⟨a, h.goto hp (by decide) id⟩
  | resumeSwitch hp => exact ⟨a, h.goto hp (by decide) id⟩
  | block hp hr =>
      rw [h.running] at hr
      cases hr
  | wake hp hm =>
      rename_i p
      exact ⟨a, h.goto hp (by cases p <;> decide) id⟩
  | decideFalse hp hb =>
      have hpt := h.points
      rw [hp, hb] at hc
      rw [hp] at hpt
      have himp : ∀ i, Pc.decide.controls i true = true →
          (Pc.initReturn false).controls i true = true := by
        decide
      refine ⟨a, h.moves rfl rfl ?_ hpt⟩
      change Pc.controls s.initializing s.workersStarted _ = true
      rw [hb]
      exact himp _ hc
  | decideTrue hp hb =>
      have hpt := h.points
      rw [hp, hb] at hc
      rw [hp] at hpt
      have himp : ∀ i, Pc.decide.controls i false = true →
          (Pc.initReturn true).controls i true = true := by
        decide
      exact ⟨a, h.moves rfl rfl (himp _ hc) hpt⟩
  | initReturn hp =>
      rename_i r
      cases r with
      | true => exact ⟨a, h.goto hp (by decide) id⟩
      | false => exact ⟨a, h.goto hp (by decide) id⟩
  | asleep hp => exact ⟨a, h.goto hp (by decide) id⟩
  | stays hp hw => exact ⟨a, h.goto hp (by decide) fun _ => hw⟩
  | switch hp hw =>
      refine ⟨a, h.goto hp (by decide) fun hn => ?_⟩
      obtain ⟨n, hn⟩ := Option.ne_none_iff_exists'.mp hn
      exact ⟨n, hn, fun he => hw (he ▸ hn)⟩
  | switchLock hp => exact ⟨a, h.goto hp (by decide) id⟩
  | switchNotify hp hw => exact ⟨_, h.handOver hl hp hw⟩
  | switchReturn hp =>
      -- `m_worker` is this worker since it was made active again
      exact ⟨a, h.goto hp (by decide) id⟩

end Active

/-- What the constructor waits for tells it that the scheduler is no longer initializing. -/
structure Initialized (s : State w) : Prop where
  /-- A worker sleeps only once it is. -/
  asleep : ∀ v, s.pc v = .asleep → s.initializing = false
  /-- The flag that the constructor waits for is cleared by a worker that sleeps. -/
  schedRunning : s.schedRunning = false → s.initializing = false
  /-- So the constructor does not return before. -/
  ctor : s.ctor = .done → s.initializing = false

theorem Initialized.worker_step {v : Fin w} (h : Initialized s) (hs : Step s (.worker v) s') :
    Initialized s' := by
  have moves : ∀ {t : State w} {q : Pc}, t.initializing = s.initializing →
      t.pc = Function.update s.pc v q → q ≠ .asleep →
      (t.schedRunning = false → s.initializing = false) →
      t.ctor = s.ctor → Initialized t := by
    intro t q hi hpc hq hr hc
    refine ⟨?_, ?_, ?_⟩ <;> rw [hi]
    · intro u hu
      by_cases he : u = v
      · subst he
        rw [hpc, Function.update_self] at hu
        exact absurd hu hq
      · rw [hpc, Function.update_of_ne he] at hu
        exact h.asleep u hu
    · exact hr
    · rw [hc]
      exact h.ctor
  cases hs with
  | asleep hp => exact moves rfl rfl nofun (fun _ => h.asleep v hp) rfl
  | initReturn =>
      refine moves rfl rfl ?_ h.schedRunning rfl
      split <;> simp
  | _ => exact moves rfl rfl nofun h.schedRunning rfl

theorem initialized_reachable (h : (machine w).Reachable s) : Initialized s := by
  refine Machine.Reach.invariant ?_ ?_ h
  · rintro s rfl
    exact ⟨fun _ hp => absurd hp Pc.noConfusion, nofun, nofun⟩
  · intro s e s' hr _ hs ih
    have hst := step_of_next hs
    cases e with
    | worker v => exact ih.worker_step hst
    | sleep v =>
        cases hst with
        | sleep => exact ⟨fun _ _ => rfl, fun _ => rfl, fun _ => rfl⟩
    | prepare v n =>
        cases hst with
        | prepare hp hc =>
            exact ⟨fun _ _ => ih.ctor hc, ih.schedRunning, ih.ctor⟩
    | ctor =>
        cases hst with
        | create hc hk =>
            refine ⟨?_, ih.schedRunning, nofun⟩
            intro u hu
            by_cases he : u = ⟨_, hk⟩
            · subst he
              simp at hu
            · rw [State.goto_pc, Function.update_of_ne he] at hu
              exact ih.asleep u hu
        | done hc hr => exact ⟨ih.asleep, ih.schedRunning, fun _ => ih.schedRunning hr⟩
        | _ => exact ⟨ih.asleep, ih.schedRunning, nofun⟩

/-- **From the start of the first worker on, some worker is the active one.** -/
theorem active_reachable (h : (machine w).Reachable s) :
    s.ctor.started = true → ∃ a, Active s a := by
  refine Machine.Reach.invariant (I := fun s => s.ctor.started = true → ∃ a, Active s a) ?_ ?_ h
  · rintro s rfl hs
    cases hs
  · intro s e s' hr _ hs ih hn
    have hst := step_of_next hs
    have hl := locked_reachable hr
    cases e with
    | ctor =>
        cases hst with
        | start hc =>
            rename_i v
            -- the constructor sets the first flag when all workers are parked
            have hb := building_reachable hr (by rw [hc]; rfl)
            have hpark : ∀ u, Parked s u := fun u => hb.parked u (by rw [hc]; exact u.isLt)
            refine ⟨v, ?_, by simp, ?_, ?_⟩
            · change Pc.controls s.initializing s.workersStarted (s.pc v) = true
              rw [hb.initializing, hb.workersStarted]
              rcases (hpark v).1 with hp | hp <;> rw [hp] <;> rfl
            · change Points (some v) v (s.pc v)
              rcases (hpark v).1 with hp | hp <;> rw [hp] <;> rfl
            · intro u hu
              have hw := (hpark u).waiting
              rw [Waiting] at hw ⊢
              simpa only [State.setRunning_pc, State.setRunning_running, Function.update_of_ne hu]
                using hw
        | startUnlock hc =>
            obtain ⟨a, ha⟩ := ih (by rw [hc]; rfl)
            exact ⟨a, ha.controls, ha.running, ha.points, ha.waiting⟩
        | done hc =>
            obtain ⟨a, ha⟩ := ih (by rw [hc]; rfl)
            exact ⟨a, ha.controls, ha.running, ha.points, ha.waiting⟩
        | _ => cases hn
    | worker v =>
        have hc : s.ctor = s'.ctor := by cases hst <;> rfl
        obtain ⟨a, ha⟩ := ih (by rw [hc]; exact hn)
        by_cases hv : v = a
        · subst hv
          exact ha.worker_step hl hst
        · exact ⟨a, ha.other hv hst⟩
    | prepare v n =>
        cases hst with
        | prepare hp hc =>
            obtain ⟨a, ha⟩ := ih (by rw [hc]; rfl)
            -- a waiting worker does not schedule, so it is the active one that prepares the next
            obtain rfl : v = a := by_contra fun hv => (ha.waiting v hv).not_schedule hp
            have hctl := ha.controls
            rw [hp, (initialized_reachable hr).ctor hc] at hctl
            refine ⟨v, ha.moves rfl rfl ?_ (Option.some_ne_none n)⟩
            change Pc.controls s.initializing s.workersStarted .compare = true
            rw [(initialized_reachable hr).ctor hc]
            revert hctl
            cases s.workersStarted <;> decide
    | sleep v =>
        cases hst with
        | sleep hp =>
            obtain ⟨a, ha⟩ := ih hn
            obtain rfl : v = a := by_contra fun hv => (ha.waiting v hv).not_schedule hp
            have hctl := ha.controls
            have hpt := ha.points
            rw [hp] at hctl hpt
            refine ⟨v, ha.moves rfl rfl ?_ hpt⟩
            change Pc.controls false s.workersStarted .asleep = true
            revert hctl
            cases s.initializing <;> cases s.workersStarted <;> decide

/-- `m_workers_started` is set when a worker is told to schedule, and never again. -/
theorem told_reachable (h : (machine w).Reachable s) :
    s.told.length = s.workersStarted.toNat := by
  refine Machine.Reach.invariant (I := fun s => s.told.length = s.workersStarted.toNat) ?_ ?_ h
  · rintro s rfl
    rfl
  · intro s e s' _ _ hs ih
    cases step_of_next hs with
    | decideTrue _ hw =>
        rw [hw] at ih
        exact congrArg Nat.succ ih
    | _ => exact ih

/--
**One worker of a scheduler is active at a time.** Once the constructor has started
the first worker, whenever `m_workers_mtx` is free exactly one worker has `m_running`
set, all the others are blocked in `Worker::wait`, and so nobody else executes
anything. It is `m_worker`, unless it has just made another worker `m_worker` and has
not locked `m_workers_mtx` for the switch yet. During initialization `sync_init` tells
one worker to schedule.
-/
theorem one_active_worker (h : (machine w).Reachable s) (hs : s.ctor.started = true)
    (hm : s.mtx = none) :
    ∃ a, (∀ v, s.running v = true ↔ v = a) ∧ (∀ v, v ≠ a → ∃ p, s.pc v = .blocked p) ∧
      (∀ v, (s.pc v).executes = true → v = a) ∧
      (s.worker = some a ∨ s.pc a = .compare ∨ s.pc a = .switchLock) ∧
      s.told.length ≤ 1 ∧ (s.initializing = false → s.told.length = 1) := by
  obtain ⟨a, ha⟩ := active_reachable h hs
  have hfree := (locked_reachable h).free hm
  have hb : ∀ v, v ≠ a → (∃ p, s.pc v = .blocked p) ∧ s.running v = false := fun v hv =>
    (ha.waiting v hv).blocked (hfree (.worker v))
  have htold := told_reachable h
  refine ⟨a, ?_, fun v hv => (hb v hv).1, ?_, ?_, ?_, ?_⟩
  · intro v
    constructor
    · intro hr
      by_contra hv
      rw [(hb v hv).2] at hr
      cases hr
    · intro hv
      rw [hv]
      exact ha.running
  · intro v hx
    by_contra hv
    obtain ⟨p, hp⟩ := (hb v hv).1
    rw [hp] at hx
    cases hx
  · have hpt := ha.points
    have hna := hfree (.worker a)
    rw [Thread.holds] at hna
    cases hp : s.pc a <;> rw [hp] at hpt hna
    case compare => exact Or.inr (Or.inl rfl)
    case switchLock => exact Or.inr (Or.inr rfl)
    case switchNotify => cases hna
    all_goals exact Or.inl hpt
  · rw [htold]
    exact Bool.toNat_le _
  · intro hi
    have hc := ha.controls
    rw [hi] at hc
    rw [htold]
    cases hw : s.workersStarted
    · rw [hw] at hc
      cases hc
    · rfl

/-! ## A run of two workers -/

/-- The constructor creates a worker, which parks. -/
def createRun (v : Fin 2) : List (Event 2) :=
  Event.ctor :: List.replicate 6 (Event.worker v) ++ List.replicate 2 Event.ctor

/-- The first worker is started and sleeps; later it makes the second one `m_worker`. -/
def prepareRun : List (Event 2) :=
  createRun 0 ++ createRun 1 ++ List.replicate 4 Event.ctor ++ List.replicate 4 (Event.worker 0) ++
    [Event.sleep 0, Event.worker 0, Event.ctor, Event.prepare 0 1]

/-- The mutex is free there, and a first worker was told to schedule. -/
theorem one_active_worker_run :
    ∃ s a, (machine 2).Reachable s ∧ s.mtx = none ∧ (∀ v, s.running v = true ↔ v = a) ∧
      (s.worker = some a ∨ s.pc a = .compare ∨ s.pc a = .switchLock) ∧ s.told.length = 1 := by
  obtain ⟨s, hr, hp⟩ := Machine.exists_of_run (M := machine 2)
    (p := fun s => s.ctor.started && decide (s.mtx = none) && !s.initializing)
    (s := .begin 2) (Machine.Reach.init rfl) prepareRun (by decide)
  simp only [Bool.and_eq_true, decide_eq_true_eq, Bool.not_eq_true'] at hp
  obtain ⟨⟨hs, hm⟩, hi⟩ := hp
  obtain ⟨a, h1, _, _, h4, _, h6⟩ := one_active_worker hr hs hm
  exact ⟨s, a, hr, hm, h1, h4, h6 hi⟩

/-- There `m_worker` is not the worker whose flag is set. -/
theorem worker_ahead_of_flag :
    ∃ s, (machine 2).Reachable s ∧ s.ctor.started = true ∧ s.mtx = none ∧
      ¬∃ a, (∀ v, s.running v = true ↔ v = a) ∧ s.worker = some a := by
  obtain ⟨s, hr, hp⟩ := Machine.exists_of_run (M := machine 2)
    (p := fun s => s.ctor.started && decide (s.mtx = none) && s.running 0 &&
      decide (s.worker = some 1))
    (s := .begin 2) (Machine.Reach.init rfl) prepareRun (by decide)
  simp only [Bool.and_eq_true, decide_eq_true_eq] at hp
  obtain ⟨⟨⟨hs, hm⟩, h0⟩, hw⟩ := hp
  refine ⟨s, hr, hs, hm, ?_⟩
  intro ⟨a, ha, hwa⟩
  have h1 : 0 = a := (ha 0).mp h0
  rw [hw, ← h1] at hwa
  cases hwa

end Ums.Handoff
