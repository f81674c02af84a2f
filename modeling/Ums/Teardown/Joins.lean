import Ums.Teardown.Program
import Ums.Lib.Bins

/-!
# Every worker is joined

`m_exit` is set before anybody is woken for it. The worker that sleeps finds it set and makes
itself exiting; every other worker is made exiting before its flag is set, so that it finds this
when it gets to `main_loop`, whether it was notified or woke up for no reason. Nobody
schedules or runs a task any more, no thread is left blocked, and all of this takes a bounded
number of steps.
-/

namespace Ums.Teardown

open Lib

variable {w : Nat} {s s' : State w} {a : Fin w}

/-! ## What a step can do -/

/-- The outcomes of a step. -/
inductive Step (s : State w) : Event w → State w → Prop
  | resumeSleep {v e} (he : e = .worker v ∧ s.woken = true ∨ e = .spurious v)
      (hp : s.pc v = .sleepBlocked) (hm : s.mtx = none) :
      Step s e ({ s with mtx := some (.worker v), woken := false }.goto v .sleepTest)
  | resume {v p e} (he : e = .worker v ∧ s.notified v = true ∨ e = .spurious v)
      (hp : s.pc v = .blocked p) (hm : s.workersMtx = none) :
      Step s e (({ s with workersMtx := some (.worker v) }.setNotified v false).goto v (.test p))
  | sleepTest {v} (hp : s.pc v = .sleepTest) :
      Step s (.worker v) (s.goto v (if s.exit then .wake else .sleepWait))
  | sleepWait {v} (hp : s.pc v = .sleepWait) :
      Step s (.worker v) ({ s with mtx := none }.goto v .sleepBlocked)
  | wake {v} (hp : s.pc v = .wake) :
      Step s (.worker v) ({ s with mtx := none }.goto v .shouldExit)
  | shouldExit {v} (hp : s.pc v = .shouldExit) :
      Step s (.worker v) (s.goto v (if s.exit then .exit else .astray))
  | exit {v u} (hp : s.pc v = .exit) (hu : s.worker = some u) :
      Step s (.worker v) ((s.setExiting u).goto v .compare)
  | compare {v} (hp : s.pc v = .compare) :
      Step s (.worker v) (s.goto v (if s.worker = some v then .mainLoop else .astray))
  | clear {v} (hp : s.pc v = .clear) :
      Step s (.worker v) ((s.setRunning v false).goto v (.test .contextSwitch))
  | resumeInit {v} (hp : s.pc v = .test .syncInit) (hr : s.running v = true) :
      Step s (.worker v) (s.goto v .syncExit)
  | resumeSwitch {v} (hp : s.pc v = .test .contextSwitch) (hr : s.running v = true) :
      Step s (.worker v) (s.goto v .switchReturn)
  | block {v p} (hp : s.pc v = .test p) (hr : s.running v = false) :
      Step s (.worker v) ({ s with workersMtx := none }.goto v (.blocked p))
  | syncExit {v} (hp : s.pc v = .syncExit) (hx : s.exit = true) :
      Step s (.worker v) (s.goto v (.initReturn false))
  | syncStart {v} (hp : s.pc v = .syncExit) (hx : s.exit = false) :
      Step s (.worker v) ({ s with workersStarted := true }.goto v (.initReturn !s.workersStarted))
  | initReturn {v r} (hp : s.pc v = .initReturn r) :
      Step s (.worker v) ({ s with workersMtx := none }.goto v (if r then .astray else .mainLoop))
  | switchReturn {v} (hp : s.pc v = .switchReturn) :
      Step s (.worker v) ({ s with workersMtx := none }.goto v .mainLoop)
  | mainLoop {v} (hp : s.pc v = .mainLoop) :
      Step s (.worker v) (s.goto v (if s.exiting v then .ended else .astray))
  | signalExit {rest} (hc : s.main = .signalExit rest) :
      Step s .main { s with exit := true, main := .notifyLock rest }
  | notifyLock {rest} (hc : s.main = .notifyLock rest) (hm : s.mtx = none) :
      Step s .main { s with mtx := some .main, main := .notifyUnlock rest }
  | notifyUnlock {rest} (hc : s.main = .notifyUnlock rest) :
      Step s .main { s with mtx := none, main := .notifyOne rest }
  | notifyOne {rest} (hc : s.main = .notifyOne rest) :
      Step s .main { s with woken := decide (∃ v, s.pc v = .sleepBlocked), main := .lock rest }
  | lock {v rest} (hc : s.main = .lock (v :: rest)) (hm : s.workersMtx = none) :
      Step s .main { s with workersMtx := some .main, main := .setState v rest }
  | setState {v rest} (hc : s.main = .setState v rest) :
      Step s .main { s.setExiting v with main := .notify v rest }
  | notify {v rest} (hc : s.main = .notify v rest) :
      Step s .main
        { (s.setRunning v true).setNotified v (s.pc v).isBlocked with main := .unlock v rest }
  | unlock {v rest} (hc : s.main = .unlock v rest) :
      Step s .main { s with workersMtx := none, main := .join v rest }
  | join {v rest} (hc : s.main = .join v rest) (he : s.pc v = .ended) :
      Step s .main { s with main := .lock rest }

/-- A blocked worker goes on. -/
theorem step_of_resume {v : Fin w} {e : Event w}
    (he : e = .worker v ∧ (s.pc v = .sleepBlocked → s.woken = true) ∧
      (∀ p, s.pc v = .blocked p → s.notified v = true) ∨ e = .spurious v)
    (h : resume s v (s.pc v) = some s') : Step s e s' := by
  cases hp : s.pc v <;> rw [hp] at h <;> simp only [resume, reduceCtorEq] at h
  case sleepBlocked =>
    split at h <;> cases h
    exact .resumeSleep (he.imp_left fun h => ⟨h.1, h.2.1 hp⟩) hp ‹_›
  case blocked p =>
    split at h <;> cases h
    exact .resume (he.imp_left fun h => ⟨h.1, h.2.2 p hp⟩) hp ‹_›

theorem step_of_workerStep {v : Fin w} (h : workerStep s v (s.pc v) = some s') :
    Step s (.worker v) s' := by
  cases hp : s.pc v <;> rw [hp] at h <;> simp only [workerStep, reduceCtorEq] at h
  case sleepTest => cases h; exact .sleepTest hp
  case sleepWait => cases h; exact .sleepWait hp
  case sleepBlocked =>
    split at h
    · rename_i hw
      refine step_of_resume (Or.inl ⟨rfl, fun _ => hw, fun p hq => ?_⟩) (hp ▸ h)
      rw [hp] at hq
      cases hq
    · cases h
  case wake => cases h; exact .wake hp
  case shouldExit => cases h; exact .shouldExit hp
  case exit =>
    obtain ⟨u, hu, rfl⟩ := Option.map_eq_some_iff.mp h
    exact .exit hp hu
  case compare => cases h; exact .compare hp
  case clear => cases h; exact .clear hp
  case test p =>
    cases hr : s.running v <;> rw [hr] at h
    · cases h
      exact .block hp hr
    · cases p <;> cases h
      · exact .resumeInit hp hr
      · exact .resumeSwitch hp hr
  case blocked p =>
    split at h
    · rename_i hn
      refine step_of_resume (Or.inl ⟨rfl, fun hq => ?_, fun _ _ => hn⟩) (hp ▸ h)
      rw [hp] at hq
      cases hq
    · cases h
  case syncExit =>
    split at h <;> rename_i hx <;> cases h
    · exact .syncExit hp hx
    · exact .syncStart hp (by simpa using hx)
  case initReturn r => cases h; exact .initReturn hp
  case switchReturn => cases h; exact .switchReturn hp
  case mainLoop => cases h; exact .mainLoop hp

theorem step_of_mainStep (h : mainStep s s.main = some s') : Step s .main s' := by
  cases hc : s.main <;> rw [hc] at h
  case signalExit rest => cases h; exact .signalExit hc
  case notifyLock rest =>
    rw [mainStep] at h
    split at h <;> cases h
    exact .notifyLock hc ‹_›
  case notifyUnlock rest => cases h; exact .notifyUnlock hc
  case notifyOne rest => cases h; exact .notifyOne hc
  case lock rest =>
    cases rest with
    | nil => cases h
    | cons v rest =>
        rw [mainStep] at h
        split at h <;> cases h
        exact .lock hc ‹_›
  case setState v rest => cases h; exact .setState hc
  case notify v rest => cases h; exact .notify hc
  case unlock v rest => cases h; exact .unlock hc
  case join v rest =>
    rw [mainStep] at h
    split at h <;> cases h
    exact .join hc ‹_›

/-- **A step does nothing but what `Step` lists.** -/
theorem step_of_next {e : Event w} (h : next s e = some s') : Step s e s' := by
  cases e with
  | worker v => exact step_of_workerStep h
  | spurious v => exact step_of_resume (Or.inr rfl) h
  | main => exact step_of_mainStep h

/-! ## What the destructors have done -/

namespace MainPc

/-- `~Scheduler` has set `m_exit`. -/
def signaled : MainPc w → Bool
  | .signalExit _ => false
  | _ => true

/-- `~Scheduler` has not locked `m_mtx` yet. -/
def early : MainPc w → Bool
  | .signalExit _ | .notifyLock _ => true
  | _ => false

/-- `~Scheduler` has notified the worker that sleeps. -/
def late : MainPc w → Bool
  | .signalExit _ | .notifyLock _ | .notifyUnlock _ | .notifyOne _ => false
  | _ => true

/-- The destructor of the worker has set its flag and notified it. -/
def told (v : Fin w) : MainPc w → Prop
  | .setState u rest | .notify u rest => v ∉ u :: rest
  | .signalExit rest | .notifyLock rest | .notifyUnlock rest | .notifyOne rest | .lock rest
  | .unlock _ rest | .join _ rest => v ∉ rest

/-- The workers that have not been joined yet. -/
def left : MainPc w → List (Fin w)
  | .setState u rest | .notify u rest | .unlock u rest | .join u rest => u :: rest
  | .signalExit rest | .notifyLock rest | .notifyUnlock rest | .notifyOne rest | .lock rest => rest

/-- Before `m_exit` is set, `m_mtx` has not been locked. -/
theorem early_of_not_signaled {m : MainPc w} (h : m.signaled = false) : m.early = true := by
  cases m <;> first | rfl | cases h

theorem not_late {m : MainPc w} (h : m.early = true) : ¬m.late = true := by
  intro hl
  cases m <;> simp [early, late] at h hl

end MainPc

/-- What is known of the worker that was asleep, by its control point. -/
def Sleeper (m : MainPc w) (exit exiting woken : Bool) : Pc → Prop
  | .sleepTest => True
  | .sleepWait => m.early = true
  | .sleepBlocked => m.late = true → woken = true
  | .wake | .shouldExit | .exit => exit = true
  | .compare | .mainLoop | .ended => exit = true ∧ exiting = true
  | _ => False

/-- What is known of another worker, by its control point. -/
def Waiter (m : MainPc w) (v : Fin w) (running notified : Bool) : Pc → Prop
  | .clear => ¬m.told v
  | .test _ => running = true ↔ m.told v
  | .blocked _ => (running = true ↔ m.told v) ∧ (m.told v → notified = true)
  | .syncExit | .initReturn false | .switchReturn | .mainLoop | .ended => m.told v
  | _ => False

/-- What the main thread does to the worker that was asleep. -/
theorem Sleeper.main {m m' : MainPc w} {x x' y y' z z' : Bool} {p : Pc} (h : Sleeper m x y z p)
    (hx : x = true → x' = true) (hy : y = true → y' = true)
    (hl : p = .sleepBlocked → (m.late = true → z = true) → m'.late = true → z' = true)
    (he : p = .sleepWait → m'.early = true) : Sleeper m' x' y' z' p := by
  cases p
  case sleepBlocked => exact hl rfl h
  case sleepWait => exact he rfl
  case sleepTest => trivial
  case wake | shouldExit | exit => exact hx h
  case compare | mainLoop | ended => exact ⟨hx h.1, hy h.2⟩
  all_goals exact h

/-- The main thread does nothing to a worker that it has told nothing new. -/
theorem Waiter.main {m m' : MainPc w} {v : Fin w} {r n : Bool} {p : Pc} (h : Waiter m v r n p)
    (ht : m'.told v ↔ m.told v) : Waiter m' v r n p := by
  cases p
  case clear => exact fun hm => h (ht.mp hm)
  case test => exact Iff.trans h ht.symm
  case blocked => exact ⟨h.1.trans ht.symm, fun hm => h.2 (ht.mp hm)⟩
  case initReturn b =>
    cases b
    · exact ht.mpr h
    · exact h
  case syncExit | switchReturn | mainLoop | ended => exact ht.mpr h
  all_goals exact h

/-- The thread holds `m_mtx`. -/
def Thread.holdsMtx (s : State w) : Thread w → Bool
  | .worker v => (s.pc v).holdsMtx
  | .main => s.main.holdsMtx

/-- The thread holds `m_workers_mtx`. -/
def Thread.holdsWorkers (s : State w) : Thread w → Bool
  | .worker v => (s.pc v).holdsWorkers
  | .main => s.main.holdsWorkers

/-- What holds all the way, `a` being the worker that was asleep. -/
structure Inv (s : State w) (a : Fin w) : Prop where
  /-- It is `m_worker`. -/
  worker : s.worker = some a
  /-- Some worker has been told to schedule. -/
  workersStarted : s.workersStarted = true
  /-- The owner of `m_mtx` is between a lock and an unlock. -/
  mtx : Owner s.mtx (Thread.holdsMtx s)
  /-- So is the owner of `m_workers_mtx`. -/
  workersMtx : Owner s.workersMtx (Thread.holdsWorkers s)
  /-- The worker that was asleep. -/
  sleeper : Sleeper s.main s.exit (s.exiting a) s.woken (s.pc a)
  /-- The others. -/
  waiter : ∀ v, v ≠ a → Waiter s.main v (s.running v) (s.notified v) (s.pc v)
  /-- `m_exit` is set once and for all. -/
  exit : s.main.signaled = true → s.exit = true
  /-- A worker that has been told to go on is exiting. -/
  exiting : ∀ v, s.main.told v → s.exiting v = true
  /-- It is so before it is told. -/
  marked : ∀ v rest, s.main = .notify v rest → s.exiting v = true
  /-- A worker that has been joined has ended. -/
  joined : ∀ v, v ∉ s.main.left → s.pc v = .ended
  /-- No worker is destroyed twice. -/
  nodup : s.main.left.Nodup

namespace Inv

/-- A step of the worker `v` that takes it to `p`. -/
structure Moves (s s' : State w) (v : Fin w) (p : Pc) : Prop where
  pc : s'.pc = Function.update s.pc v p
  main : s'.main = s.main
  worker : s'.worker = s.worker
  exit : s'.exit = s.exit
  running : ∀ u, u ≠ v → s'.running u = s.running u
  notified : ∀ u, u ≠ v → s'.notified u = s.notified u
  exiting : ∀ u, s.exiting u = true → s'.exiting u = true

/-- A worker moves; of it alone something is to be shown. -/
theorem moves (h : Inv s a) {v : Fin w} {p q : Pc} (hq : s.pc v = q) (hm : Moves s s' v p)
    (hs : s'.workersStarted = s.workersStarted)
    (hmtx : Passes (.worker v) s.mtx s'.mtx q.holdsMtx p.holdsMtx)
    (hworkers : Passes (.worker v) s.workersMtx s'.workersMtx q.holdsWorkers p.holdsWorkers)
    (hne : q ≠ .ended)
    (hsleeper : v = a → Sleeper s.main s.exit (s'.exiting v) s'.woken p)
    (hwaiter : v ≠ a → Waiter s.main v (s'.running v) (s'.notified v) p ∧
      s'.exiting a = s.exiting a ∧ s'.woken = s.woken) : Inv s' a := by
  have hself : s'.pc v = p := by rw [hm.pc, Function.update_self]
  have hother : ∀ u, u ≠ v → s'.pc u = s.pc u := fun u hu => by
    rw [hm.pc, Function.update_of_ne hu]
  subst hq
  refine ⟨hm.worker.trans h.worker, hs.trans h.workersStarted, ?_, ?_, ?_, ?_, ?_, ?_, ?_, ?_, ?_⟩
  · refine h.mtx.step (t := .worker v) ?_ ?_
    · rw [Thread.holdsMtx, Thread.holdsMtx, hself]
      exact hmtx
    · intro t ht
      cases t with
      | worker u =>
          have hu : u ≠ v := fun he => ht (by rw [he])
          rw [Thread.holdsMtx, Thread.holdsMtx, hother u hu]
      | main => rw [Thread.holdsMtx, Thread.holdsMtx, hm.main]
  · refine h.workersMtx.step (t := .worker v) ?_ ?_
    · rw [Thread.holdsWorkers, Thread.holdsWorkers, hself]
      exact hworkers
    · intro t ht
      cases t with
      | worker u =>
          have hu : u ≠ v := fun he => ht (by rw [he])
          rw [Thread.holdsWorkers, Thread.holdsWorkers, hother u hu]
      | main => rw [Thread.holdsWorkers, Thread.holdsWorkers, hm.main]
  · rw [hm.main, hm.exit]
    by_cases hv : v = a
    · subst hv
      rw [hself]
      exact hsleeper rfl
    · obtain ⟨_, hx, hw⟩ := hwaiter hv
      rw [hother a (Ne.symm hv), hx, hw]
      exact h.sleeper
  · intro u hu
    rw [hm.main]
    by_cases huv : u = v
    · subst huv
      rw [hself]
      exact (hwaiter hu).1
    · rw [hother u huv, hm.running u huv, hm.notified u huv]
      exact h.waiter u hu
  · rw [hm.main, hm.exit]
    exact h.exit
  · intro u hu
    rw [hm.main] at hu
    exact hm.exiting u (h.exiting u hu)
  · intro u rest hu
    rw [hm.main] at hu
    exact hm.exiting u (h.marked u rest hu)
  · intro u hu
    rw [hm.main] at hu
    have huv : u ≠ v := by
      intro he
      subst he
      exact hne (h.joined u hu)
    rw [hother u huv]
    exact h.joined u hu
  · rw [hm.main]
    exact h.nodup

theorem Moves.goto {v : Fin w} {p : Pc} : Moves s (s.goto v p) v p :=
  ⟨rfl, rfl, rfl, rfl, fun _ _ => rfl, fun _ _ => rfl, fun _ h => h⟩

/-- Only the worker that was asleep can be where no other worker can be. -/
theorem sleeper_at (h : Inv s a) {v : Fin w} {q : Pc} (hq : s.pc v = q)
    (hf : ∀ r n, ¬Waiter s.main v r n q) :
    v = a ∧ Sleeper s.main s.exit (s.exiting a) s.woken q := by
  have hv : v = a := by
    by_contra hv
    have hw := h.waiter v hv
    rw [hq] at hw
    exact hf _ _ hw
  have hpc := h.sleeper
  rw [← hv, hq, hv] at hpc
  exact ⟨hv, hpc⟩

/-- The others are where it cannot be. -/
theorem waiter_at (h : Inv s a) {v : Fin w} {q : Pc} (hq : s.pc v = q)
    (hf : ∀ x y z, ¬Sleeper s.main x y z q) :
    v ≠ a ∧ Waiter s.main v (s.running v) (s.notified v) q := by
  have hv : v ≠ a := by
    intro hv
    have hpc := h.sleeper
    rw [← hv, hq] at hpc
    exact hf _ _ _ hpc
  have hw := h.waiter v hv
  rw [hq] at hw
  exact ⟨hv, hw⟩

/-- A worker moves from where only the worker that was asleep can be. -/
theorem sleeps (h : Inv s a) {v : Fin w} {p q : Pc} (hq : s.pc v = q) (hm : Moves s s' v p)
    (hs : s'.workersStarted = s.workersStarted)
    (hmtx : Passes (.worker v) s.mtx s'.mtx q.holdsMtx p.holdsMtx)
    (hworkers : Passes (.worker v) s.workersMtx s'.workersMtx q.holdsWorkers p.holdsWorkers)
    (hf : ∀ r n, ¬Waiter s.main v r n q) (hne : q ≠ .ended)
    (hsleeper : Sleeper s.main s.exit (s.exiting a) s.woken q →
      Sleeper s.main s.exit (s'.exiting v) s'.woken p) : Inv s' a := by
  obtain ⟨hv, hpc⟩ := h.sleeper_at hq hf
  exact h.moves hq hm hs hmtx hworkers hne (fun _ => hsleeper hpc) (fun hne => absurd hv hne)

/-- A worker moves from where only the others can be. -/
theorem waits (h : Inv s a) {v : Fin w} {p q : Pc} (hq : s.pc v = q) (hm : Moves s s' v p)
    (hs : s'.workersStarted = s.workersStarted)
    (hmtx : Passes (.worker v) s.mtx s'.mtx q.holdsMtx p.holdsMtx)
    (hworkers : Passes (.worker v) s.workersMtx s'.workersMtx q.holdsWorkers p.holdsWorkers)
    (hf : ∀ x y z, ¬Sleeper s.main x y z q)
    (hx : s'.exiting = s.exiting) (hk : s'.woken = s.woken)
    (hwaiter : Waiter s.main v (s.running v) (s.notified v) q →
      Waiter s.main v (s'.running v) (s'.notified v) p) : Inv s' a := by
  obtain ⟨hv, hw⟩ := h.waiter_at hq hf
  have hne : q ≠ .ended := by
    intro he
    subst he
    exact hf true true true ⟨rfl, rfl⟩
  exact h.moves hq hm hs hmtx hworkers hne (fun he => absurd he hv)
    (fun _ => ⟨hwaiter hw, by rw [hx], hk⟩)

/-- A worker moves. -/
theorem worker_step (h : Inv s a) {e : Event w} (he : e ≠ .main) (hs : Step s e s') :
    Inv s' a := by
  cases hs with
  | resumeSleep _ hp hm =>
      exact h.sleeps hp ⟨rfl, rfl, rfl, rfl, fun _ _ => rfl, fun _ _ => rfl, fun _ hu => hu⟩ rfl
        (.takes hm rfl rfl) (.keeps rfl rfl) (fun _ _ => id) (by decide) (fun _ => trivial)
  | resume _ hp hm =>
      rename_i v p
      refine h.waits hp ⟨rfl, rfl, rfl, rfl, fun _ _ => rfl, ?_, fun _ hu => hu⟩ rfl
        (.keeps rfl rfl) (.takes hm rfl rfl) (fun _ _ _ => id) rfl rfl ?_
      · intro u hu
        simp [Function.update_of_ne hu]
      · intro hw
        exact hw.1
  | sleepTest hp =>
      cases hx : s.exit
      · -- `m_exit` is not set yet, so `notify` is still to come
        refine h.sleeps hp .goto rfl (.keeps rfl rfl) (.keeps rfl rfl) (fun _ _ => id)
          (by decide) ?_
        intro _
        refine MainPc.early_of_not_signaled ?_
        by_contra hsig
        rw [h.exit ((Bool.not_eq_false _).mp hsig)] at hx
        cases hx
      · exact h.sleeps hp .goto rfl (.keeps rfl rfl) (.keeps rfl rfl) (fun _ _ => id) (by decide)
          (fun _ => hx)
  | sleepWait hp =>
      refine h.sleeps hp ⟨rfl, rfl, rfl, rfl, fun _ _ => rfl, fun _ _ => rfl, fun _ hu => hu⟩ rfl
        (.gives rfl rfl rfl) (.keeps rfl rfl) (fun _ _ => id) (by decide) ?_
      intro hearly hlate
      exact absurd hlate (MainPc.not_late hearly)
  | wake hp =>
      exact h.sleeps hp ⟨rfl, rfl, rfl, rfl, fun _ _ => rfl, fun _ _ => rfl, fun _ hu => hu⟩ rfl
        (.gives rfl rfl rfl) (.keeps rfl rfl) (fun _ _ => id) (by decide) id
  | shouldExit hp =>
      obtain ⟨_, hx⟩ := h.sleeper_at hp (fun _ _ => id)
      rw [show s.exit = true from hx]
      exact h.sleeps hp .goto rfl (.keeps rfl rfl) (.keeps rfl rfl) (fun _ _ => id) (by decide) id
  | exit hp hu =>
      rename_i v u
      obtain ⟨rfl, hx⟩ := h.sleeper_at hp (fun _ _ => id)
      obtain rfl : u = v := Option.some.inj (hu.symm.trans h.worker)
      refine h.sleeps hp ⟨rfl, rfl, rfl, rfl, fun _ _ => rfl, fun _ _ => rfl, ?_⟩ rfl
        (.keeps rfl rfl) (.keeps rfl rfl) (fun _ _ => id) (by decide) ?_
      · intro x hx
        by_cases hxu : x = u
        · simp [hxu]
        · simpa [hxu] using hx
      · intro hx
        exact ⟨hx, by simp⟩
  | compare hp =>
      obtain ⟨rfl, hx⟩ := h.sleeper_at hp (fun _ _ => id)
      rw [if_pos h.worker]
      exact h.sleeps hp .goto rfl (.keeps rfl rfl) (.keeps rfl rfl) (fun _ _ => id) (by decide) id
  | clear hp =>
      rename_i v
      refine h.waits hp ⟨rfl, rfl, rfl, rfl, ?_, fun _ _ => rfl, fun _ hu => hu⟩ rfl
        (.keeps rfl rfl) (.keeps rfl rfl) (fun _ _ _ => id) rfl rfl ?_
      · intro u hu
        simp [Function.update_of_ne hu]
      · intro hnt
        change ¬s.main.told v at hnt
        change Function.update s.running v false v = true ↔ s.main.told v
        simpa using hnt
  | resumeInit hp hr =>
      exact h.waits hp .goto rfl (.keeps rfl rfl) (.keeps rfl rfl) (fun _ _ _ => id) rfl rfl
        (fun hw => hw.mp hr)
  | resumeSwitch hp hr =>
      exact h.waits hp .goto rfl (.keeps rfl rfl) (.keeps rfl rfl) (fun _ _ _ => id) rfl rfl
        (fun hw => hw.mp hr)
  | block hp hr =>
      refine h.waits hp ⟨rfl, rfl, rfl, rfl, fun _ _ => rfl, fun _ _ => rfl, fun _ hu => hu⟩ rfl
        (.keeps rfl rfl) (.gives rfl rfl rfl) (fun _ _ _ => id) rfl rfl ?_
      intro hw
      refine ⟨hw, ?_⟩
      intro ht
      rw [hw.mpr ht] at hr
      cases hr
  | syncExit hp hx =>
      exact h.waits hp .goto rfl (.keeps rfl rfl) (.keeps rfl rfl) (fun _ _ _ => id) rfl rfl id
  | syncStart hp hx =>
      -- some worker has been told to schedule, so this one is not
      rw [h.workersStarted]
      exact h.waits hp ⟨rfl, rfl, rfl, rfl, fun _ _ => rfl, fun _ _ => rfl, fun _ hu => hu⟩
        h.workersStarted.symm (.keeps rfl rfl) (.keeps rfl rfl) (fun _ _ _ => id) rfl rfl id
  | initReturn hp =>
      rename_i v r
      obtain ⟨_, hw⟩ := h.waiter_at hp (fun _ _ _ => id)
      cases r
      · exact h.waits hp ⟨rfl, rfl, rfl, rfl, fun _ _ => rfl, fun _ _ => rfl, fun _ hu => hu⟩ rfl
          (.keeps rfl rfl) (.gives rfl rfl rfl) (fun _ _ _ => id) rfl rfl id
      · cases hw
  | switchReturn hp =>
      exact h.waits hp ⟨rfl, rfl, rfl, rfl, fun _ _ => rfl, fun _ _ => rfl, fun _ hu => hu⟩ rfl
        (.keeps rfl rfl) (.gives rfl rfl rfl) (fun _ _ _ => id) rfl rfl id
  | mainLoop hp =>
      rename_i v
      have hx : s.exiting v = true := by
        by_cases hv : v = a
        · have hpc := h.sleeper
          rw [← hv, hp] at hpc
          exact hpc.2
        · have hw := h.waiter v hv
          rw [hp] at hw
          exact h.exiting v hw
      rw [hx]
      refine h.moves hp .goto rfl (.keeps rfl rfl) (.keeps rfl rfl) (by decide) ?_ ?_
      · intro hv
        have hpc := h.sleeper
        rw [← hv, hp] at hpc
        exact hpc
      · intro hv
        have hw := h.waiter v hv
        rw [hp] at hw
        exact ⟨hw, rfl, rfl⟩
  | _ => exact absurd rfl he

/-- The main thread moves; no worker does. -/
theorem main_moves (h : Inv s a) {m m' : MainPc w} (hm : s.main = m) (hm' : s'.main = m')
    (hpc : s'.pc = s.pc) (hw : s'.worker = s.worker) (hs : s'.workersStarted = s.workersStarted)
    (hmtx : Passes .main s.mtx s'.mtx m.holdsMtx m'.holdsMtx)
    (hworkers : Passes .main s.workersMtx s'.workersMtx m.holdsWorkers m'.holdsWorkers)
    (hexit : s'.exit = true) (hx : ∀ v, s.exiting v = true → s'.exiting v = true)
    (hlate : s.pc a = .sleepBlocked → (m.late = true → s.woken = true) → m'.late = true →
      s'.woken = true)
    (hearly : s.pc a = .sleepWait → m.early = true → m'.early = true)
    (hwaiter : ∀ v, (m'.told v ↔ m.told v) ∧ s'.running v = s.running v ∧
      s'.notified v = s.notified v ∨
        (v ≠ a → Waiter m' v (s'.running v) (s'.notified v) (s.pc v)))
    (htold : ∀ v, m'.told v → m.told v ∨ s.exiting v = true)
    (hmarked : ∀ v rest, m' = .notify v rest → s'.exiting v = true)
    (hjoined : ∀ v, v ∉ m'.left → v ∉ m.left ∨ s.pc v = .ended)
    (hnodup : m.left.Nodup → m'.left.Nodup) : Inv s' a := by
  subst hm hm'
  refine ⟨hw.trans h.worker, hs.trans h.workersStarted, ?_, ?_, ?_, ?_, fun _ => hexit, ?_,
    hmarked, ?_, hnodup h.nodup⟩
  · refine h.mtx.step (t := .main) hmtx ?_
    intro t ht
    cases t with
    | worker u => rw [Thread.holdsMtx, Thread.holdsMtx, hpc]
    | main => exact absurd rfl ht
  · refine h.workersMtx.step (t := .main) hworkers ?_
    intro t ht
    cases t with
    | worker u => rw [Thread.holdsWorkers, Thread.holdsWorkers, hpc]
    | main => exact absurd rfl ht
  · rw [hpc]
    refine h.sleeper.main (fun _ => hexit) (hx a) hlate ?_
    intro hq
    refine hearly hq ?_
    have hpc' := h.sleeper
    rw [hq] at hpc'
    exact hpc'
  · intro v hv
    rw [hpc]
    rcases hwaiter v with ⟨ht, hr, hn⟩ | hwait
    · rw [hr, hn]
      exact (h.waiter v hv).main ht
    · exact hwait hv
  · intro v hv
    rcases htold v hv with hv | hv
    · exact hx v (h.exiting v hv)
    · exact hx v hv
  · intro v hv
    rw [hpc]
    rcases hjoined v hv with hv | hv
    · exact h.joined v hv
    · exact hv

/-- A worker that is told to go on is told so while it is blocked, or when it needs no telling. -/
theorem notified (h : Inv s a) {v : Fin w} {rest : List (Fin w)} (hc : s.main = .notify v rest)
    (hv : v ≠ a) : Waiter (.unlock v rest) v (Function.update s.running v true v)
      (Function.update s.notified v (s.pc v).isBlocked v) (s.pc v) := by
  have hn : v ∉ rest := by
    have hnodup := h.nodup
    rw [hc] at hnodup
    exact (List.nodup_cons.mp hnodup).1
  have hfree : (s.pc v).holdsWorkers = false := by
    by_contra hne
    -- the main thread holds `m_workers_mtx`
    have hmain : Thread.holdsWorkers s .main = true := by
      rw [Thread.holdsWorkers, hc]
      rfl
    have hheld : Thread.holdsWorkers s (.worker v) = true := (Bool.not_eq_false _).mp hne
    cases h.workersMtx.unique hheld hmain
  have hw := h.waiter v hv
  rw [Function.update_self, Function.update_self]
  cases hp : s.pc v <;> rw [hp] at hfree hw
  case blocked p => exact ⟨iff_of_true rfl hn, fun _ => rfl⟩
  case mainLoop | ended => exact hn
  all_goals first | exact False.elim hw | cases hfree

/-- The main thread moves. -/
theorem main_step (h : Inv s a) (hs : Step s .main s') : Inv s' a := by
  have exit := h.exit
  cases hs with
  | resumeSleep he | resume he => rcases he with ⟨he, _⟩ | he <;> cases he
  | signalExit hc =>
      exact h.main_moves hc rfl rfl rfl rfl (.keeps rfl rfl) (.keeps rfl rfl) rfl (fun _ hx => hx)
        (fun _ hl => hl) (fun _ he => he) (fun _ => Or.inl ⟨Iff.rfl, rfl, rfl⟩)
        (fun _ ht => Or.inl ht) (fun _ _ he => by cases he) (fun _ hj => Or.inl hj) id
  | notifyLock hc hm =>
      rw [hc] at exit
      refine h.main_moves hc rfl rfl rfl rfl (.takes hm rfl rfl) (.keeps rfl rfl) (exit rfl)
        (fun _ hx => hx) (fun _ hl => hl) ?_ (fun _ => Or.inl ⟨Iff.rfl, rfl, rfl⟩)
        (fun _ ht => Or.inl ht) (fun _ _ he => by cases he) (fun _ hj => Or.inl hj) id
      -- a worker between its test and its wait holds `m_mtx`
      intro hq
      have hfree := h.mtx.free hm (.worker a)
      rw [Thread.holdsMtx, hq] at hfree
      cases hfree
  | notifyUnlock hc =>
      rw [hc] at exit
      exact h.main_moves hc rfl rfl rfl rfl (.gives rfl rfl rfl) (.keeps rfl rfl) (exit rfl)
        (fun _ hx => hx) (fun _ hl => hl) (fun _ he => he) (fun _ => Or.inl ⟨Iff.rfl, rfl, rfl⟩)
        (fun _ ht => Or.inl ht) (fun _ _ he => by cases he) (fun _ hj => Or.inl hj) id
  | notifyOne hc =>
      rw [hc] at exit
      refine h.main_moves hc rfl rfl rfl rfl (.keeps rfl rfl) (.keeps rfl rfl) (exit rfl)
        (fun _ hx => hx) ?_ (fun _ he => he) (fun _ => Or.inl ⟨Iff.rfl, rfl, rfl⟩)
        (fun _ ht => Or.inl ht) (fun _ _ he => by cases he) (fun _ hj => Or.inl hj) id
      intro hq _ _
      exact decide_eq_true ⟨a, hq⟩
  | lock hc hm =>
      rename_i v rest
      rw [hc] at exit
      exact h.main_moves hc rfl rfl rfl rfl (.keeps rfl rfl) (.takes hm rfl rfl) (exit rfl)
        (fun _ hx => hx) (fun _ hl => hl) (fun _ he => he) (fun _ => Or.inl ⟨Iff.rfl, rfl, rfl⟩)
        (fun _ ht => Or.inl ht) (fun _ _ he => by cases he) (fun _ hj => Or.inl hj) id
  | setState hc =>
      rename_i v rest
      rw [hc] at exit
      have hx : ∀ u, s.exiting u = true → Function.update s.exiting v true u = true := by
        intro u hu
        by_cases huv : u = v
        · simp [huv]
        · simpa [huv] using hu
      refine h.main_moves hc rfl rfl rfl rfl (.keeps rfl rfl) (.keeps rfl rfl) (exit rfl)
        hx (fun _ hl => hl) (fun _ he => he) (fun _ => Or.inl ⟨Iff.rfl, rfl, rfl⟩)
        (fun _ ht => Or.inl ht) ?_ (fun _ hj => Or.inl hj) id
      intro u rest' he
      cases he
      simp
  | notify hc =>
      rename_i v rest
      rw [hc] at exit
      refine h.main_moves hc rfl rfl rfl rfl (.keeps rfl rfl) (.keeps rfl rfl) (exit rfl)
        (fun _ hx => hx) (fun _ hl => hl) (fun _ he => he) ?_ ?_
        (fun _ _ he => by cases he) (fun _ hj => Or.inl hj) id
      · intro u
        by_cases huv : u = v
        · subst huv
          refine Or.inr ?_
          intro hu
          exact h.notified hc hu
        · refine Or.inl ⟨?_, ?_, ?_⟩
          · change u ∉ rest ↔ u ∉ v :: rest
            rw [List.mem_cons, or_iff_right huv]
          · exact Function.update_of_ne huv ..
          · exact Function.update_of_ne huv ..
      · intro u hu
        by_cases huv : u = v
        · rw [huv]
          exact Or.inr (h.marked v rest hc)
        · exact Or.inl (List.not_mem_cons_of_ne_of_not_mem huv hu)
  | unlock hc =>
      rw [hc] at exit
      exact h.main_moves hc rfl rfl rfl rfl (.keeps rfl rfl) (.gives rfl rfl rfl) (exit rfl)
        (fun _ hx => hx) (fun _ hl => hl) (fun _ he => he) (fun _ => Or.inl ⟨Iff.rfl, rfl, rfl⟩)
        (fun _ ht => Or.inl ht) (fun _ _ he => by cases he) (fun _ hj => Or.inl hj) id
  | join hc he =>
      rename_i v rest
      rw [hc] at exit
      refine h.main_moves hc rfl rfl rfl rfl (.keeps rfl rfl) (.keeps rfl rfl) (exit rfl)
        (fun _ hx => hx) (fun _ hl => hl) (fun _ he => he) (fun _ => Or.inl ⟨Iff.rfl, rfl, rfl⟩)
        (fun _ ht => Or.inl ht) (fun _ _ he => by cases he) ?_ ?_
      · intro u hu
        by_cases huv : u = v
        · exact Or.inr (huv ▸ he)
        · exact Or.inl (List.not_mem_cons_of_ne_of_not_mem huv hu)
      · exact List.Nodup.of_cons

theorem foundThread_worker {o : Option (Handoff.Thread w)} (v : Fin w) :
    o.bind foundThread = some (.worker v) ↔ o = some (.worker v) := by
  cases o with
  | none => simp
  | some t => cases t <;> simp [foundThread]

theorem foundThread_main {o : Option (Handoff.Thread w)} : o.bind foundThread ≠ some .main := by
  cases o with
  | none => simp
  | some t => cases t <;> simp [foundThread]

/-- What the destructor finds. -/
theorem begin {h : Handoff.State w} {order : List (Fin w)}
    (hr : (Handoff.machine w).Reachable h) (hc : h.ctor = .done) (ha : h.pc a = .schedule)
    (hn : order.Nodup) (ho : ∀ v, v ∈ order) : Inv (.begin h a order) a := by
  have hl := Handoff.locked_reachable hr
  obtain ⟨b, hb⟩ := Handoff.active_reachable hr (by rw [hc]; rfl)
  -- a waiting worker does not schedule
  obtain rfl : a = b := by
    by_contra hab
    exact (hb.waiting a hab).not_schedule ha
  have hpc : ∀ v, v ≠ a → (State.begin h a order).pc v = found (h.pc v) := by
    intro v hv
    simp [State.begin, hv]
  have hpa : (State.begin h a order).pc a = .sleepBlocked := by simp [State.begin]
  have hwait : ∀ v, v ≠ a → (found (h.pc v)).holdsMtx = false ∧
      (found (h.pc v)).holdsWorkers = (h.pc v).holds ∧
      Waiter (.signalExit order) v (h.running v) false (found (h.pc v)) := by
    intro v hv
    rcases hb.waiting v hv with ⟨hp, hrun⟩ | ⟨p, hp | hp, hrun⟩ <;> rw [hp]
    · exact ⟨rfl, rfl, fun ht => ht (ho v)⟩
    · rw [hrun]
      exact ⟨rfl, rfl, iff_of_false (by decide) fun ht => ht (ho v)⟩
    · rw [hrun]
      exact ⟨rfl, rfl, iff_of_false (by decide) fun ht => ht (ho v), fun ht => absurd (ho v) ht⟩
  have hctl := hb.controls
  have hpt := hb.points
  rw [ha] at hctl hpt
  refine ⟨hpt, ?_, ?_, ?_, ?_, ?_, ?_, ?_, ?_, ?_, hn⟩
  · revert hctl
    change Handoff.Pc.controls h.initializing h.workersStarted .schedule = true →
      h.workersStarted = true
    cases h.initializing <;> cases h.workersStarted <;> decide
  · intro t
    refine iff_of_false ?_ (Option.some_ne_none t).symm
    rw [Bool.not_eq_true]
    cases t with
    | worker v =>
        by_cases hv : v = a
        · rw [hv, Thread.holdsMtx, hpa]
          rfl
        · rw [Thread.holdsMtx, hpc v hv]
          exact (hwait v hv).1
    | main => rfl
  · intro t
    cases t with
    | worker v =>
        have hholds : Thread.holdsWorkers (.begin h a order) (.worker v) = (h.pc v).holds := by
          by_cases hv : v = a
          · rw [hv, Thread.holdsWorkers, hpa, ha]
            rfl
          · rw [Thread.holdsWorkers, hpc v hv]
            exact (hwait v hv).2.1
        rw [hholds]
        exact (hl (.worker v)).trans (foundThread_worker v).symm
    | main => exact iff_of_false Bool.false_ne_true foundThread_main
  · rw [hpa]
    intro hlate
    cases hlate
  · intro v hv
    rw [hpc v hv]
    exact (hwait v hv).2.2
  · intro hs
    cases hs
  · intro v hv
    exact absurd (ho v) hv
  · intro v rest he
    cases he
  · intro v hv
    exact absurd (ho v) hv

theorem step (h : Inv s a) {e : Event w} (hs : next s e = some s') : Inv s' a := by
  have hst := step_of_next hs
  by_cases he : e = .main
  · subst he
    exact h.main_step hst
  · exact h.worker_step he hst

end Inv

theorem inv_reachable (h : (machine w).Reachable s) : ∃ a, Inv s a := by
  refine Machine.Reach.invariant (I := fun s => ∃ a, Inv s a) ?_ ?_ h
  · rintro s ⟨h, a, order, hr, hc, ha, hn, ho, rfl⟩
    exact ⟨a, .begin hr hc ha hn ho⟩
  · intro s e s' _ _ hs ⟨a, ha⟩
    exact ⟨a, ha.step hs⟩

/-! ## Nobody is left blocked -/

/-- A worker needs no help there. -/
def Pc.free : Pc → Bool
  | .sleepBlocked | .blocked _ | .astray | .ended => false
  | _ => true

namespace Inv

/-- A worker that is not blocked goes on. -/
theorem goes_on (h : Inv s a) {v : Fin w} (hf : (s.pc v).free = true) :
    ∃ t, next s (.worker v) = some t := by
  rw [next]
  cases hp : s.pc v <;> rw [hp] at hf
  case sleepBlocked | blocked | astray | ended => cases hf
  case exit => exact ⟨_, by rw [workerStep, h.worker]; rfl⟩
  case test | syncExit =>
    simp only [workerStep]
    split
    · exact ⟨_, rfl⟩
    · exact ⟨_, rfl⟩
  all_goals exact ⟨_, rfl⟩

/-- Who holds `m_mtx` goes on. -/
theorem mtx_goes_on (h : Inv s a) (hm : s.main.holdsMtx = false) :
    s.mtx = none ∨ ∃ v t, next s (.worker v) = some t := by
  rcases h.mtx.cases with hn | ⟨t, ht⟩
  · exact Or.inl hn
  · cases t with
    | worker v =>
        refine Or.inr ⟨v, h.goes_on ?_⟩
        rw [Thread.holdsMtx] at ht
        cases hp : s.pc v <;> rw [hp] at ht <;> first | rfl | cases ht
    | main =>
        rw [Thread.holdsMtx, hm] at ht
        cases ht

/-- Who holds `m_workers_mtx` goes on. -/
theorem workersMtx_goes_on (h : Inv s a) (hm : s.main.holdsWorkers = false) :
    s.workersMtx = none ∨ ∃ v t, next s (.worker v) = some t := by
  rcases h.workersMtx.cases with hn | ⟨t, ht⟩
  · exact Or.inl hn
  · cases t with
    | worker v =>
        refine Or.inr ⟨v, h.goes_on ?_⟩
        rw [Thread.holdsWorkers] at ht
        cases hp : s.pc v <;> rw [hp] at ht <;> first | rfl | cases ht
    | main =>
        rw [Thread.holdsWorkers, hm] at ht
        cases ht

/-- A worker whose thread is being joined ends, or somebody else goes on. -/
theorem joined_goes_on (h : Inv s a) {v : Fin w} {rest : List (Fin w)}
    (hc : s.main = .join v rest) (hp : s.pc v ≠ .ended) : ∃ u t, next s (.worker u) = some t := by
  have hv : v ∉ rest := by
    have hnodup := h.nodup
    rw [hc] at hnodup
    exact (List.nodup_cons.mp hnodup).1
  by_cases hf : (s.pc v).free = true
  · exact ⟨v, h.goes_on hf⟩
  · by_cases hva : v = a
    · -- it has been woken by `Scheduler::notify`
      have hpc := h.sleeper
      rw [← hva, hc] at hpc
      have hb : s.pc v = .sleepBlocked := by
        cases hq : s.pc v <;> rw [hq] at hf hp hpc <;>
          first | rfl | exact absurd rfl hf | exact absurd rfl hp | exact hpc.elim
      rw [hb] at hpc
      rcases h.mtx_goes_on (by rw [hc]; rfl) with hm | hgo
      · refine ⟨v, ?_⟩
        rw [next, hb, workerStep, if_pos (hpc rfl), resume, if_pos hm]
        exact ⟨_, rfl⟩
      · exact hgo
    · -- it has been notified by its destructor
      have hw := h.waiter v hva
      rw [hc] at hw
      obtain ⟨p, hb⟩ : ∃ p, s.pc v = .blocked p := by
        cases hq : s.pc v <;> rw [hq] at hf hp hw <;>
          first | exact ⟨_, rfl⟩ | exact absurd rfl hf | exact absurd rfl hp | exact hw.elim
      rw [hb] at hw
      rcases h.workersMtx_goes_on (by rw [hc]; rfl) with hm | hgo
      · refine ⟨v, ?_⟩
        rw [next, hb, workerStep, if_pos (hw.2 hv), resume, if_pos hm]
        exact ⟨_, rfl⟩
      · exact hgo

/-- Until the main thread is through, some thread goes on that has a reason to. -/
theorem goes_on_or_done (h : Inv s a) :
    s.main = .lock [] ∨ ∃ e t, (∀ v, e ≠ .spurious v) ∧ next s e = some t := by
  have worker : (∃ v t, next s (.worker v) = some t) →
      ∃ e t, (∀ v, e ≠ .spurious v) ∧ next s e = some t := by
    rintro ⟨v, t, ht⟩
    exact ⟨.worker v, t, (fun _ he => by cases he), ht⟩
  have main : (∃ t, mainStep s s.main = some t) →
      ∃ e t, (∀ v, e ≠ .spurious v) ∧ next s e = some t := by
    rintro ⟨t, ht⟩
    exact ⟨.main, t, (fun _ he => by cases he), ht⟩
  cases hc : s.main <;> rw [hc] at main
  case notifyLock rest =>
    rcases h.mtx_goes_on (by rw [hc]; rfl) with hm | hgo
    · exact Or.inr (main ⟨_, if_pos hm⟩)
    · exact Or.inr (worker hgo)
  case lock rest =>
    cases rest with
    | nil => exact Or.inl rfl
    | cons v rest =>
        rcases h.workersMtx_goes_on (by rw [hc]; rfl) with hm | hgo
        · exact Or.inr (main ⟨_, if_pos hm⟩)
        · exact Or.inr (worker hgo)
  case join v rest =>
    by_cases hp : s.pc v = .ended
    · exact Or.inr (main ⟨_, if_pos hp⟩)
    · exact Or.inr (worker (h.joined_goes_on hc hp))
  all_goals exact Or.inr (main ⟨_, rfl⟩)

/-- Nobody goes astray. -/
theorem not_astray (h : Inv s a) (v : Fin w) : s.pc v ≠ .astray := by
  intro hp
  by_cases hv : v = a
  · have hpc := h.sleeper
    rw [← hv, hp] at hpc
    exact hpc
  · have hw := h.waiter v hv
    rw [hp] at hw
    exact hw

/-- When the main thread is through, nobody is left and nothing is locked. -/
theorem done (h : Inv s a) (hc : s.main = .lock []) :
    (∀ v, s.pc v = .ended ∧ s.exiting v = true) ∧ s.mtx = none ∧ s.workersMtx = none := by
  have hended : ∀ v, s.pc v = .ended := fun v => h.joined v (by rw [hc]; exact List.not_mem_nil)
  refine ⟨?_, ?_, ?_⟩
  · intro v
    exact ⟨hended v, h.exiting v (by rw [hc]; exact List.not_mem_nil)⟩
  · rcases h.mtx.cases with hn | ⟨t, ht⟩
    · exact hn
    · cases t <;> rw [Thread.holdsMtx] at ht
      · rw [hended] at ht
        cases ht
      · rw [hc] at ht
        cases ht
  · rcases h.workersMtx.cases with hn | ⟨t, ht⟩
    · exact hn
    · cases t <;> rw [Thread.holdsWorkers] at ht
      · rw [hended] at ht
        cases ht
      · rw [hc] at ht
        cases ht

end Inv

/--
**Nobody is left behind.** In every state that the threads of a scheduler get to after its
destructor has begun, no worker is back in the scheduling code or in a task, and unless the main
thread has joined every worker, some thread goes on without a spurious wakeup. Once it has, every
worker is exiting and has ended, and both mutexes are free.
-/
theorem nobody_left_behind (h : (machine w).Reachable s) :
    (∀ v, s.pc v ≠ .astray) ∧
      (s.main ≠ .lock [] → ∃ e t, (∀ v, e ≠ .spurious v) ∧ next s e = some t) ∧
      (s.main = .lock [] →
        (∀ v, s.pc v = .ended ∧ s.exiting v = true) ∧ s.mtx = none ∧ s.workersMtx = none) := by
  obtain ⟨a, ha⟩ := inv_reachable h
  refine ⟨ha.not_astray, ?_, ha.done⟩
  intro hc
  rcases ha.goes_on_or_done with hd | hgo
  · exact absurd hd hc
  · exact hgo

/-! ## Two workers -/

/-- The constructors run, and the worker `u` sleeps. -/
def idleRun (u v : Fin 2) : List (Handoff.Event 2) :=
  Handoff.createRun u ++ Handoff.createRun v ++ List.replicate 4 .ctor ++
    List.replicate 4 (.worker u) ++ [.sleep u, .worker u, .ctor]

/-- What the constructors leave behind. -/
def idle (u v : Fin 2) : Handoff.State 2 :=
  ((Handoff.machine 2).run (.begin 2) (idleRun u v)).getD (.begin 2)

theorem idle_reachable : (Handoff.machine 2).Reachable (idle 0 1) := by
  have hsome : ((Handoff.machine 2).run (.begin 2) (idleRun 0 1)).isSome = true := by decide
  obtain ⟨h, hrun⟩ := Option.isSome_iff_exists.mp hsome
  have hidle : idle 0 1 = h := by
    rw [idle, hrun]
    rfl
  rw [hidle]
  exact Machine.reachable_of_run (Machine.Reach.init rfl) (idleRun 0 1) hrun

theorem begin_idle : (machine 2).init (.begin (idle 0 1) 0 [0, 1]) :=
  ⟨idle 0 1, 0, [0, 1], idle_reachable, by decide, by decide, by decide, by decide, rfl⟩

/-- The main thread waits for the first worker, which has been woken. -/
theorem nobody_left_behind_run :
    ∃ s, (machine 2).Reachable s ∧ s.main = .join 0 [1] ∧
      ∃ e t, (∀ v, e ≠ .spurious v) ∧ next s e = some t := by
  obtain ⟨s, hr, hp⟩ := Machine.exists_of_run (M := machine 2)
    (p := fun s => decide (s.main = .join 0 [1])) (s := .begin (idle 0 1) 0 [0, 1])
    (Machine.Reach.init begin_idle) (List.replicate 8 .main) (by decide)
  have hc := of_decide_eq_true hp
  obtain ⟨_, hgo, _⟩ := nobody_left_behind hr
  refine ⟨s, hr, hc, hgo ?_⟩
  rw [hc]
  decide

end Ums.Teardown
