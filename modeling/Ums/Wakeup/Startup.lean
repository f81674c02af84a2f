import Ums.Wakeup.Handover
import Ums.Lib.Bins
import Mathlib.Algebra.Order.BigOperators.Group.Finset

/-!
# The constructor returns

Until it does, a worker only goes from its creation to its parking place, and the one that is
started from there into `sleep`. Every thread has so far to go; a thread that was blocked steps
back to its test when it goes on, which uses up a notification, unless it wakes up for no reason.
-/

namespace Ums.Wakeup

open Lib
open Handoff (Pc CtorPc Thread)

variable {w : Nat} {s s' : State w} {x x' : Handoff.State w}

/-! ## Where the workers are -/

/-- The worker has not left the scheduling code yet. -/
def early : Pc → Bool
  | .unborn | .park | .syncInit | .initLock | .initNotify | .clear .syncInit | .test .syncInit
  | .blocked .syncInit | .decide | .initReturn true | .schedule | .asleep => true
  | _ => false

/-- The workers while the constructor has not returned. -/
structure Starting (x : Handoff.State w) : Prop where
  /-- None has left the scheduling code. -/
  early : ∀ v, early (x.pc v) = true
  /-- After the scheduler has slept there is one that sleeps. -/
  sleeper : x.initializing = false → ∃ v, x.pc v = .schedule ∨ x.pc v = .asleep

/-- The worker that was started is the only one that `sync_init` lets go on. -/
theorem Starting.not_started (h : Starting x) (hr : (Handoff.machine w).Reachable x) {v : Fin w}
    (hp : x.pc v = .decide) : x.workersStarted = false := by
  cases hst : x.ctor.started
  · exact (Handoff.building_reachable hr hst).workersStarted
  · obtain ⟨a, ha⟩ := Handoff.active_reachable hr hst
    have hactive : ∀ u, x.pc u = .decide ∨ x.pc u = .schedule ∨ x.pc u = .asleep → u = a := by
      intro u hu
      by_contra hne
      rcases ha.waiting u hne with ⟨hq, _⟩ | ⟨p, hq | hq, _⟩ <;> simp [hq] at hu
    have hva := hactive v (Or.inl hp)
    subst hva
    cases hi : x.initializing
    · -- the scheduler has slept, so the active worker is the one that sleeps
      obtain ⟨u, hu⟩ := h.sleeper hi
      have huv := hactive u (Or.inr hu)
      rw [huv, hp] at hu
      rcases hu with hu | hu <;> cases hu
    · have hctl := ha.controls
      rw [hp, hi] at hctl
      cases hws : x.workersStarted
      · rfl
      · rw [hws] at hctl
        cases hctl

/-- What a worker does to its own control point. -/
theorem early_step {v : Fin w} (h : early (x.pc v) = true)
    (hd : x.pc v = .decide → x.workersStarted = false) (hs : Handoff.Step x (.worker v) x') :
    early (x'.pc v) = true := by
  cases hs with
  | park | syncInit | syncSkip | initLock | initNotify | resumeInit | decideTrue | asleep =>
      simp [early]
  | clear hp =>
      rename_i p
      rw [hp] at h
      cases p
      · simp [early]
      · cases h
  | block hp hr | wake hp hr =>
      rename_i p
      rw [hp] at h
      cases p
      · simp [early]
      · cases h
  | initReturn hp =>
      rename_i r
      rw [hp] at h
      cases r
      · cases h
      · simp [early]
  | decideFalse hp hw =>
      rw [hd hp] at hw
      cases hw
  | user hp | resumeSwitch hp | stays hp | switch hp | switchLock hp | switchNotify hp
  | switchReturn hp =>
      rw [hp] at h
      cases h

theorem Starting.worker_step (h : Starting x) (hr : (Handoff.machine w).Reachable x) {v : Fin w}
    (hs : Handoff.Step x (.worker v) x') : Starting x' := by
  have hm := moves_of_step hs
  constructor
  · intro u
    by_cases hu : u = v
    · rw [hu]
      exact early_step (h.early v) (h.not_started hr) hs
    · rw [hm.others u hu]
      exact h.early u
  · intro hi
    rw [hm.initializing] at hi
    obtain ⟨u, hu⟩ := h.sleeper hi
    by_cases huv : u = v
    · subst huv
      cases hs with
      | asleep => exact ⟨u, Or.inl (by simp)⟩
      | _ hp => simp [hp] at hu
    · refine ⟨u, ?_⟩
      rw [hm.others u huv]
      exact hu

theorem Starting.ctor_step (h : Starting x) (hr : (Handoff.machine w).Reachable x)
    (hs : Handoff.Step x .ctor x') : Starting x' := by
  cases hs with
  | create hc hk =>
      have hb := Handoff.building_reachable hr (by rw [hc]; rfl)
      constructor
      · intro u
        by_cases hu : u = ⟨_, hk⟩
        · rw [hu, Handoff.State.goto_pc, Function.update_self]
          rfl
        · simp only [Handoff.State.goto_pc, Function.update_of_ne hu]
          exact h.early u
      · intro hi
        rw [Handoff.State.goto_initializing, hb.initializing] at hi
        cases hi
  | _ => exact ⟨h.early, h.sleeper⟩

/-- The constructor does not go on once it has returned. -/
theorem not_done {e : Handoff.Event w} (hs : Handoff.Step x e x') (hd : x'.ctor ≠ .done) :
    x.ctor ≠ .done := by
  cases e with
  | worker v =>
      rw [← (moves_of_step hs).ctor]
      exact hd
  | prepare v n =>
      cases hs
      exact hd
  | sleep v =>
      cases hs
      exact hd
  | ctor =>
      intro hdone
      cases hs with
      | _ hc => simp [hdone] at hc

theorem starting_reachable (h : (Handoff.machine w).Reachable x) :
    x.ctor ≠ .done → Starting x := by
  refine Machine.Reach.invariant (I := fun x => x.ctor ≠ .done → Starting x) ?_ ?_ h
  · intro x hx _
    rw [show x = .begin w from hx]
    exact ⟨fun _ => rfl, fun hi => by cases hi⟩
  · intro x e x' hr _ hx ih hd
    have hs := Handoff.step_of_next hx
    have hstart := ih (not_done hs hd)
    cases e with
    | worker v => exact hstart.worker_step hr hs
    | ctor => exact hstart.ctor_step hr hs
    | prepare v n =>
        cases hs with
        | prepare _ hc => exact absurd hc hd
    | sleep v =>
        cases hs with
        | sleep hp =>
            refine ⟨?_, fun _ => ⟨v, Or.inr (by simp)⟩⟩
            intro u
            by_cases hu : u = v
            · simp [hu, early]
            · simp only [Handoff.State.goto_pc, Function.update_of_ne hu]
              exact hstart.early u

/-! ## How far the threads have to go -/

/-- How far a worker has to go until it sleeps, having parked before. -/
def rank (initializing : Bool) : Pc → Nat
  | .park => 19
  | .syncInit => 18
  | .initLock => 17
  | .initNotify => 16
  | .clear _ => 12
  | .test _ => 11
  | .blocked _ => 9
  | .decide => 8
  | .initReturn _ => 7
  | .schedule => if initializing then 6 else 0
  | .asleep => 2
  | _ => 0

/-- How far the workers have to go. -/
def walk (x : Handoff.State w) : Nat := ∑ v, rank x.initializing (x.pc v)

namespace State

/-- How far the constructor has to go; a worker that it creates has its way from there. -/
def ctorRank (s : State w) : Nat :=
  match s.threads.ctor with
  | .create k => 24 * (w - k) + 11
  | .lock k => 24 * (w - (k + 1)) + 15
  | .test k => 24 * (w - (k + 1)) + 14
  | .blocked k => 24 * (w - (k + 1)) + 12
  | .startLock => 10
  | .start => 9
  | .startUnlock => 5
  | .await =>
    match s.await with
    | .lock => 4
    | .test => 3
    | .blocked => 1
  | .done => 0

/-- Notifications that have not been used up. -/
def notes (s : State w) : Nat := ∑ v, (s.notified v).toNat + s.ctorNotified.toNat

/-- How far the threads have to go. -/
def work (s : State w) : Nat :=
  walk s.threads + 3 * s.notes + s.ctorRank + s.stirring.isSome.toNat

/-- `notify_one` notifies one thread at most. -/
theorem notes_notifyOne (s : State w) (n : Fin w) (b : Bool) :
    (s.notifyOne n b).notes ≤ s.notes + 1 := by
  rw [notifyOne]
  split
  · have hb := Bool.toNat_le true
    simp only [notes]
    omega
  · split
    · have hsum := sum_change (f := fun v => (s.notified v).toNat)
        (g := fun v => (Function.update s.notified n true v).toNat) (i := n)
        (fun u hu => by rw [Function.update_of_ne hu])
      have hb := Bool.toNat_le (Function.update s.notified n true n)
      simp only [notes]
      omega
    · exact Nat.le_succ _

end State

/-- A worker goes from one place to another, the others stay. -/
theorem walk_moves {v : Fin w} (hm : Moves x x' v) :
    walk x' + rank x.initializing (x.pc v) = walk x + rank x.initializing (x'.pc v) := by
  rw [walk, walk, hm.initializing]
  exact sum_change (f := fun u => rank x.initializing (x.pc u))
    (g := fun u => rank x.initializing (x'.pc u)) (fun u hu => by rw [hm.others u hu])

/-- A worker that is created has its way before it. -/
theorem walk_park {v : Fin w} (hpc : x'.pc = Function.update x.pc v .park)
    (hi : x'.initializing = x.initializing) : walk x' ≤ walk x + 19 := by
  have hsum := sum_change (f := fun u => rank x.initializing (x.pc u))
    (g := fun u => rank x.initializing (x'.pc u)) (i := v)
    (fun u hu => by rw [hpc, Function.update_of_ne hu])
  have hself : rank x.initializing (x'.pc v) = 19 := by
    rw [hpc, Function.update_self]
    rfl
  rw [walk, walk, hi]
  omega

theorem rank_le (p : Pc) : rank false p ≤ rank true p := by
  cases p <;> simp [rank]

theorem walk_sleep {v : Fin w} (hp : x.pc v = .schedule) (hi : x.initializing = true)
    (hpc : x'.pc = Function.update x.pc v .asleep) (hi' : x'.initializing = false) :
    walk x' + 4 ≤ walk x := by
  have hsum := sum_change (f := fun u => rank true (x.pc u))
    (g := fun u => rank true (x'.pc u)) (i := v)
    (fun u hu => by rw [hpc, Function.update_of_ne hu])
  have hself : rank true (x'.pc v) = 2 := by
    rw [hpc, Function.update_self]
    rfl
  have hself' : rank true (x.pc v) = 6 := by
    rw [hp]
    rfl
  have hle : ∑ u, rank false (x'.pc u) ≤ ∑ u, rank true (x'.pc u) :=
    Finset.sum_le_sum fun u _ => rank_le _
  rw [walk, walk, hi, hi']
  omega

/-- A worker that waits for nobody comes nearer. -/
theorem rank_falls {v : Fin w} (hs : Handoff.Step x (.worker v) x')
    (hq : quiet (x.pc v) = true) (he : early (x.pc v) = true) :
    rank x.initializing (x'.pc v) + 1 ≤ rank x.initializing (x.pc v) := by
  cases hs with
  | park hp | initLock hp | clear hp | resumeInit hp | block hp | decideFalse hp
  | decideTrue hp => simp [rank, hp]
  | syncInit hp => simp [rank, hp]
  | syncSkip hp hi => simp [rank, hp, hi]
  | initReturn hp =>
      simp only [Handoff.State.goto_pc, Function.update_self, hp]
      split
      · simp only [rank]
        split <;> omega
      · simp [rank]
  | initNotify hp | wake hp | asleep hp | switchNotify hp =>
      rw [hp] at hq
      cases hq
  | user hp | resumeSwitch hp | stays hp | switch hp | switchLock hp | switchReturn hp =>
      rw [hp] at he
      cases he

/-- A step of the constructor where nobody is notified. -/
theorem ctorRank_falls {y : Handoff.State w} (hs : Handoff.Step s.threads .ctor y)
    (hq : ctorQuiet s.threads.ctor = true) :
    walk y + State.ctorRank { s with threads := y } + 1 ≤ walk s.threads + s.ctorRank := by
  cases hs with
  | create hc hk =>
      refine Nat.le_trans (Nat.add_le_add_right (Nat.add_le_add_right
        (walk_park (x := s.threads) (v := ⟨_, hk⟩) (by rfl) (by rfl)) _) _) ?_
      simp only [State.ctorRank, hc]
      omega
  | created hc hk =>
      simp only [State.ctorRank, hc, walk]
      omega
  | lock hc hm =>
      rcases hc with hc | hc
      · simp only [State.ctorRank, hc, walk, Handoff.State.setMtx_pc,
          Handoff.State.setMtx_initializing]
        omega
      · rw [hc] at hq
        cases hq
  | await hc hk hr =>
      simp only [State.ctorRank, hc, walk, Handoff.State.setMtx_pc,
        Handoff.State.setMtx_initializing]
      omega
  | parked hc hk hr =>
      simp only [State.ctorRank, hc, walk, Handoff.State.setMtx_pc,
        Handoff.State.setMtx_initializing]
      omega
  | startLock hc hm =>
      simp only [State.ctorRank, hc, walk, Handoff.State.setMtx_pc,
        Handoff.State.setMtx_initializing]
      omega
  | startUnlock hc =>
      simp only [State.ctorRank, hc, walk]
      cases s.await <;> simp
  | start hc | done hc =>
      rw [hc] at hq
      cases hq

/-- What a step brings the threads nearer, `a`, and what it uses up, `c`, outweigh the rest. -/
theorem work_le {a b c d k : Nat}
    (hwalk : walk s'.threads + s'.ctorRank + a ≤ walk s.threads + s.ctorRank + b)
    (hnotes : s'.notes + c ≤ s.notes + d) (hstir : s'.stirring = s.stirring)
    (h : b + 3 * d + 1 ≤ a + 3 * c + k) : s'.work + 1 ≤ s.work + k := by
  rw [State.work, State.work, hstir]
  omega

/-- The step of a worker. -/
theorem walk_worker {v : Fin w} {i : Bool} {p q : Pc} (hm : Moves s.threads s'.threads v)
    (ha : s'.await = s.await) (hi : s.threads.initializing = i) (hq : s.threads.pc v = q)
    (hp : s'.threads.pc v = p) :
    walk s'.threads + s'.ctorRank + rank i q ≤ walk s.threads + s.ctorRank + rank i p := by
  have hwalk := walk_moves hm
  rw [hi, hp, hq] at hwalk
  rw [State.ctorRank, State.ctorRank, hm.ctor, ha]
  omega

/-- A notification of the worker that was notified is used up. -/
theorem notes_resume {v : Fin w} (hn : s'.notified = Function.update s.notified v false)
    (hc : s'.ctorNotified = s.ctorNotified) :
    s'.notes + (s.notified v).toNat ≤ s.notes := by
  have hsum := sum_change (f := fun u => (s.notified u).toNat)
    (g := fun u => (s'.notified u).toNat) (i := v)
    (fun u hu => by rw [hn, Function.update_of_ne hu])
  have hself : (s'.notified v).toNat = 0 := by
    rw [hn, Function.update_self]
    rfl
  rw [State.notes, State.notes, hc]
  omega

/-- So is one of the constructor. -/
theorem notes_ctorResume (hn : s'.notified = s.notified) (hc : s'.ctorNotified = false) :
    s'.notes + s.ctorNotified.toNat ≤ s.notes := by
  rw [State.notes, State.notes, hn, hc]
  exact Nat.le_refl _

theorem notes_le (hn : s'.notified = s.notified) : s'.notes ≤ s.notes + 1 := by
  have hb := Bool.toNat_le s'.ctorNotified
  rw [State.notes, State.notes, hn]
  omega

/-- The scheduler sleeps for the first time. -/
theorem walk_sleeps {v : Fin w} {y : Handoff.State w} (hi : s.threads.initializing = true)
    (hs : Handoff.Step s.threads (.sleep v) y) (hy : s'.threads = y) (ha : s'.await = s.await) :
    walk s'.threads + s'.ctorRank + 4 ≤ walk s.threads + s.ctorRank + 0 := by
  have hc : s'.threads.ctor = s.threads.ctor := by
    rw [hy]
    cases hs
    rfl
  have hwalk : walk s'.threads + 4 ≤ walk s.threads := by
    rw [hy]
    cases hs with
    | sleep hp => exact walk_sleep hp hi (by rfl) (by rfl)
  rw [State.ctorRank, State.ctorRank, hc, ha]
  omega

/-- The constructor goes on at its test of the flag. -/
theorem walk_ctorResume {k : Nat} {y : Handoff.State w} (hc : s.threads.ctor = .blocked k)
    (hs : Handoff.Step s.threads .ctor y) (hy : s'.threads = y) :
    walk s'.threads + s'.ctorRank + 0 ≤ walk s.threads + s.ctorRank + 2 := by
  cases hs with
  | lock hc' =>
      rw [hc] at hc'
      obtain rfl : k = _ := by simpa using hc'
      simp only [State.ctorRank, hy, hc, walk, Handoff.State.setMtx_pc,
        Handoff.State.setMtx_initializing]
      omega
  | _ hc' => simp [hc] at hc'

/-- The constructor starts the first worker. -/
theorem walk_start {y : Handoff.State w} (hc : s.threads.ctor = .start)
    (hs : Handoff.Step s.threads .ctor y) (hy : s'.threads = y) :
    walk s'.threads + s'.ctorRank + 4 ≤ walk s.threads + s.ctorRank + 0 := by
  cases hs with
  | start => simp [State.ctorRank, hy, hc, walk]
  | _ hc' => simp [hc] at hc'

/-- The constructor returns. -/
theorem walk_done {y : Handoff.State w} (hc : s.threads.ctor = .await) (ha : s.await = .test)
    (hs : Handoff.Step s.threads .ctor y) (hy : s'.threads = y) :
    walk s'.threads + s'.ctorRank + 3 ≤ walk s.threads + s.ctorRank + 0 := by
  cases hs with
  | done => simp [State.ctorRank, hy, hc, ha, walk]
  | _ hc' => simp [hc] at hc'

/-! ## A step -/

theorem test_of_blocked {v : Fin w} {p : Handoff.Place} (hp : x.pc v = .blocked p)
    (hs : Handoff.Step x (.worker v) x') : x'.pc v = .test p := by
  cases hs with
  | wake hq =>
      rw [hp] at hq
      cases hq
      simp
  | _ hq => simp [hp] at hq

theorem clear_of_initNotify {v : Fin w} (hp : x.pc v = .initNotify)
    (hs : Handoff.Step x (.worker v) x') : x'.pc v = .clear .syncInit := by
  cases hs with
  | initNotify => simp
  | _ hq => simp [hp] at hq

theorem schedule_of_asleep {v : Fin w} (hp : x.pc v = .asleep)
    (hs : Handoff.Step x (.worker v) x') : x'.pc v = .schedule := by
  cases hs with
  | asleep => simp
  | _ hq => simp [hp] at hq

/-- A worker that goes on uses up a notification, or wakes up for no reason. -/
theorem price_worker {v : Fin w} {e : Event w}
    (he : (∃ b, e = .worker v b) ∧ s.notified v = true ∨ e = .spurious v) :
    3 ≤ 3 * (s.notified v).toNat + if e.isSpurious then 2 + 1 else 0 := by
  rcases he with ⟨_, hn⟩ | rfl
  · rw [hn]
    exact Nat.le_add_right ..
  · exact Nat.le_add_left ..

/-- So does the constructor. -/
theorem price_ctor {e : Event w} (he : e = .ctor ∧ s.ctorNotified = true ∨ e = .ctorSpurious) :
    3 ≤ 3 * s.ctorNotified.toNat + if e.isSpurious then 2 + 1 else 0 := by
  rcases he with ⟨_, hn⟩ | rfl
  · rw [hn]
    exact Nat.le_add_right ..
  · exact Nat.le_add_left ..

/-- **Every step brings the threads nearer**; one for no reason costs something more. -/
theorem work_step {e : Event w} (hr : (Handoff.machine w).Reachable s.threads)
    (hstart : Starting s.threads) (h : Step s e s') (hd : s.threads.ctor ≠ .done) :
    s'.work + 1 ≤ s.work + if e.isSpurious then 2 + 1 else 0 := by
  cases h with
  | resume he hp hy =>
      rename_i v p y
      have hs := Handoff.step_of_next hy
      have hprice := price_worker he
      refine work_le (walk_worker (moves_of_step hs) rfl rfl hp (test_of_blocked hp hs)) (d := 0)
        (notes_resume rfl rfl) rfl ?_
      simp only [rank]
      omega
  | notify hn hy =>
      rename_i v n b y
      have hs := Handoff.step_of_next hy
      rcases hn with ⟨hp, _⟩ | ⟨hp, _⟩
      · have hpc := clear_of_initNotify hp hs
        refine work_le (walk_worker (moves_of_step hs) (s.notifyOne_await n b) rfl hp hpc)
          (c := 0) (s.notes_notifyOne n b) (s.notifyOne_stirring n b) ?_
        simp [rank]
      · -- nobody hands over as long as the constructor has not returned
        have hearly := hstart.early v
        rw [hp] at hearly
        cases hearly
  | asleep hp hy =>
      rename_i v b y
      have hs := Handoff.step_of_next hy
      have hi := (Handoff.initialized_reachable hr).asleep v hp
      refine work_le (walk_worker (moves_of_step hs) rfl hi hp (schedule_of_asleep hp hs)) (c := 0)
        (d := 0) (Nat.le_refl _) rfl ?_
      simp [rank, Event.isSpurious]
  | settle hs hp =>
      change walk s.threads + 3 * s.notes + s.ctorRank + 0 + 1 ≤
        walk s.threads + 3 * s.notes + s.ctorRank + s.stirring.isSome.toNat + 0
      rw [hs]
      exact Nat.le_refl _
  | quiet hp hy =>
      rename_i v b y
      have hs := Handoff.step_of_next hy
      have hfalls := rank_falls hs hp (hstart.early v)
      exact work_le (walk_worker (moves_of_step hs) rfl rfl rfl rfl) (c := 0) (d := 0)
        (Nat.le_refl _) rfl (by simpa [Event.isSpurious] using hfalls)
  | prepare hy =>
      cases Handoff.step_of_next hy with
      | prepare _ hc => exact absurd hc hd
  | sleep hm hi hy =>
      rename_i v y
      have hinit := hi.resolve_right hd
      exact work_le (walk_sleeps hinit (Handoff.step_of_next hy) rfl rfl) (c := 0) (d := 1)
        (notes_le rfl) rfl (Nat.le_refl _)
  | stir hp hi hc hm =>
      change walk s.threads + 3 * s.notes + s.ctorRank + 1 + 1 ≤
        walk s.threads + 3 * s.notes + s.ctorRank + s.stirring.isSome.toNat + 3
      omega
  | ctorResume he hc hy =>
      refine work_le (walk_ctorResume hc (Handoff.step_of_next hy) rfl) (d := 0)
        (notes_ctorResume rfl rfl) rfl ?_
      have hprice := price_ctor he
      omega
  | awaitResume he hc ha hm =>
      refine work_le (a := 0) (b := 2) (d := 0) ?_ (notes_ctorResume rfl rfl) rfl ?_
      · simp [State.ctorRank, hc, ha]
      · have hprice := price_ctor he
        omega
  | start hc hy hn =>
      rename_i n y
      exact work_le (walk_start hc (Handoff.step_of_next hy) rfl) (c := 0)
        (s.notes_notifyOne n false) (s.notifyOne_stirring n false) (Nat.le_refl _)
  | awaitLock hc ha hm =>
      refine work_le (a := 1) (b := 0) (c := 0) (d := 0) ?_ (Nat.le_refl _) rfl (Nat.le_refl _)
      simp [State.ctorRank, hc, ha]
  | awaitBlock hc ha hb =>
      refine work_le (a := 2) (b := 0) (c := 0) (d := 0) ?_ (Nat.le_refl _) rfl ?_
      · simp [State.ctorRank, hc, ha]
      · simp [Event.isSpurious]
  | done hc ha hy =>
      exact work_le (walk_done hc ha (Handoff.step_of_next hy) rfl) (c := 0) (d := 0)
        (Nat.le_refl _) rfl (by simp [Event.isSpurious])
  | ctorQuiet hc hy =>
      have hfalls := ctorRank_falls (Handoff.step_of_next hy) hc
      exact work_le (a := 1) (b := 0) (c := 0) (d := 0) hfalls (Nat.le_refl _) rfl (Nat.le_refl _)

theorem work_next {e : Event w} (hs : (machine w).Reachable s) (h : next s e = some s')
    (hd : s'.threads.ctor ≠ .done) :
    s.threads.ctor ≠ .done ∧ s'.work + 1 ≤ s.work + if e.isSpurious then 2 + 1 else 0 := by
  have hst := step_of_next h
  have hr := threads_reachable hs
  have hd' : s.threads.ctor ≠ .done := by
    rcases hst.threads with heq | ⟨e', hy⟩
    · rw [← heq]
      exact hd
    · exact not_done (Handoff.step_of_next hy) hd
  exact ⟨hd', work_step hr (starting_reachable hr hd') hst hd'⟩

/-- What is to be done when the constructor begins. -/
theorem work_begin (w : Nat) : (State.begin w).work = 24 * w + 11 := by
  simp [State.work, walk, State.notes, State.ctorRank, State.begin, Handoff.State.begin, rank]

/--
**The constructor returns.** As long as it has not, the threads of a scheduler with `w` workers
have taken at most `24 * w + 11` steps, and three more for each wakeup for no reason, and some
thread goes on that needs no such wakeup.
-/
theorem constructor_returns (hw : 0 < w) {es : List (Event w)}
    (hr : (machine w).run (.begin w) es = some s) (hd : s.threads.ctor ≠ .done) :
    es.length ≤ 24 * w + 11 + 3 * es.countP Event.isSpurious ∧
      ∃ e t, e.isSpurious = false ∧ next s e = some t := by
  have hreach : (machine w).Reachable (.begin w) := Machine.Reach.init rfl
  have hlen := (Machine.length_le (M := machine w) (fun s => s.threads.ctor ≠ .done) State.work
    Event.isSpurious 2 (fun _ _ _ => work_next) es hreach hr hd).2
  rw [work_begin] at hlen
  refine ⟨by omega, ?_⟩
  obtain ⟨e, he, hsome⟩ := goesOn_reachable hw (Machine.reachable_of_run hreach es hr)
  obtain ⟨t, ht⟩ := Option.isSome_iff_exists.mp hsome
  exact ⟨e, t, he, ht⟩

/-- The constructor waits for the scheduler to sleep, with a wakeup for no reason. -/
def awaitRun (v : Fin 1) : List (Event 1) :=
  startRun v ++ [.ctor, .ctor, .ctor, .ctorSpurious, .ctor]

theorem constructor_returns_run :
    ∃ s, (machine 1).run (.begin 1) (awaitRun 0) = some s ∧ s.threads.ctor = .await ∧
      (awaitRun 0).length ≤ 24 * 1 + 11 + 3 * 1 ∧
      ∃ e t, e.isSpurious = false ∧ next s e = some t := by
  obtain ⟨s, hr, hp⟩ := Machine.exists_run (M := machine 1)
    (fun s => decide (s.threads.ctor = .await)) (.begin 1) (awaitRun 0) (by decide)
  rw [decide_eq_true_eq] at hp
  obtain ⟨hlen, hgo⟩ := constructor_returns (by decide) hr (by rw [hp]; simp)
  exact ⟨s, hr, hp, hlen, hgo⟩

end Ums.Wakeup
