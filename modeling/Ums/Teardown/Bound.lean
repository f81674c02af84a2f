import Ums.Teardown.Joins
import Mathlib.Algebra.Order.BigOperators.Group.Finset

/-!
# The destructor takes a bounded number of steps

Every thread has only so far to go. A worker that is blocked steps back when it goes on, from its
wait to its test; when it does so because it was notified, the notification is used up.
-/

namespace Ums.Teardown

open Lib

variable {w : Nat} {s s' : State w} {a : Fin w}

/-- How far a worker has to go. -/
def Pc.rank : Pc → Nat
  | .clear => 10
  | .sleepTest | .test _ => 9
  | .sleepWait => 8
  | .sleepBlocked | .blocked _ => 7
  | .wake => 6
  | .shouldExit | .syncExit => 5
  | .exit | .initReturn _ | .switchReturn => 4
  | .compare => 3
  | .mainLoop => 1
  | .astray | .ended => 0

/-- How far the main thread has to go. -/
def MainPc.rank : MainPc w → Nat
  | .signalExit rest => 5 * rest.length + 4
  | .notifyLock rest => 5 * rest.length + 3
  | .notifyUnlock rest => 5 * rest.length + 2
  | .notifyOne rest => 5 * rest.length + 1
  | .lock rest => 5 * rest.length
  | .setState _ rest => 5 * rest.length + 4
  | .notify _ rest => 5 * rest.length + 3
  | .unlock _ rest => 5 * rest.length + 2
  | .join _ rest => 5 * rest.length + 1

namespace State

/-- How far a worker has to go, and what it may use up on its way. -/
def load (s : State w) (v : Fin w) : Nat := (s.pc v).rank + 3 * (s.notified v).toNat

/-- How far the threads have to go. -/
def work (s : State w) : Nat := ∑ v, s.load v + 3 * s.woken.toNat + 4 * s.main.rank

end State

/-- The worker `v` goes from `q` to `p`. -/
theorem work_moves {v : Fin w} {p q : Pc} (hq : s.pc v = q)
    (hpc : s'.pc = Function.update s.pc v p) (hn : ∀ u, u ≠ v → s'.notified u = s.notified u)
    (hm : s'.main = s.main) :
    s'.work + (q.rank + 3 * (s.notified v).toNat + 3 * s.woken.toNat) =
      s.work + (p.rank + 3 * (s'.notified v).toNat + 3 * s'.woken.toNat) := by
  have hother : ∀ u, u ≠ v → s'.load u = s.load u := by
    intro u hu
    rw [State.load, State.load, hpc, Function.update_of_ne hu, hn u hu]
  have hload : s.load v = q.rank + 3 * (s.notified v).toNat := by rw [State.load, hq]
  have hload' : s'.load v = p.rank + 3 * (s'.notified v).toNat := by
    rw [State.load, hpc, Function.update_self]
  have hsum := sum_change hother
  rw [State.work, State.work, hm]
  omega

/-- A worker that is not blocked has less far to go after its step. -/
theorem work_falls {v : Fin w} {p q : Pc} (hq : s.pc v = q) (hr : p.rank < q.rank)
    (hpc : s'.pc = Function.update s.pc v p) (hn : s'.notified = s.notified)
    (hk : s'.woken = s.woken) (hm : s'.main = s.main) : s'.work + 1 ≤ s.work := by
  have hw := work_moves hq hpc (fun u _ => by rw [hn]) hm
  rw [hn, hk] at hw
  omega

/-- A blocked worker goes on; a notification is used up unless it was a spurious wakeup. -/
theorem work_resumes {v : Fin w} {p q : Pc} {b : Bool} (hq : s.pc v = q) (hr : p.rank = q.rank + 2)
    (hpc : s'.pc = Function.update s.pc v p) (hn : ∀ u, u ≠ v → s'.notified u = s.notified u)
    (hm : s'.main = s.main)
    (hused : (s'.notified v).toNat + s'.woken.toNat + (if b then 0 else 1) ≤
      (s.notified v).toNat + s.woken.toNat) : s'.work + 1 ≤ s.work + if b then 2 + 1 else 0 := by
  have hw := work_moves hq hpc hn hm
  cases b
  · simp only [Bool.false_eq_true, if_false] at hused ⊢
    omega
  · simp only [if_true] at hused ⊢
    omega

/-- The main thread makes a step; it may notify one worker. -/
theorem work_main {m m' : MainPc w} (hc : s.main = m) (hm : s'.main = m')
    (hr : m'.rank + 1 = m.rank) (hused : ∑ u, s'.load u + 3 * s'.woken.toNat ≤
      ∑ u, s.load u + 3 * s.woken.toNat + 3) : s'.work + 1 ≤ s.work := by
  rw [State.work, State.work, hc, hm]
  omega

/-- A spurious wakeup. -/
def Event.isSpurious : Event w → Bool
  | .spurious _ => true
  | _ => false

/-- The step of a worker has its price; a spurious wakeup costs something more. -/
theorem work_worker {e : Event w} (h : Step s e s') (he : e ≠ .main) :
    s'.work + 1 ≤ s.work + if e.isSpurious then 2 + 1 else 0 := by
  cases h with
  | resumeSleep he hp hm =>
      refine work_resumes hp rfl rfl (fun _ _ => rfl) rfl ?_
      rcases he with ⟨rfl, hk⟩ | rfl
      · rw [hk]
        exact Nat.le_refl _
      · exact Nat.le_add_right _ _
  | resume he hp hm =>
      rename_i v p
      refine work_resumes hp rfl rfl ?_ rfl ?_
      · intro u hu
        exact Function.update_of_ne hu ..
      · simp only [State.goto_notified, State.setNotified_notified, Function.update_self,
          State.goto_woken, State.setNotified_woken, Bool.toNat_false, Nat.zero_add]
        rcases he with ⟨rfl, hk⟩ | rfl
        · rw [hk]
          exact Nat.le_of_eq (Nat.add_comm ..)
        · exact Nat.le_add_left ..
  | sleepTest hp =>
      refine work_falls hp ?_ rfl rfl rfl rfl
      cases s.exit <;> decide
  | shouldExit hp =>
      refine work_falls hp ?_ rfl rfl rfl rfl
      cases s.exit <;> decide
  | compare hp =>
      refine work_falls hp ?_ rfl rfl rfl rfl
      split <;> simp [Pc.rank]
  | initReturn hp =>
      refine work_falls hp ?_ rfl rfl rfl rfl
      split <;> simp [Pc.rank]
  | mainLoop hp =>
      refine work_falls hp ?_ rfl rfl rfl rfl
      split <;> simp [Pc.rank]
  | block hp | sleepWait hp | wake hp | exit hp | clear hp | resumeInit hp | resumeSwitch hp
  | syncExit hp | syncStart hp | switchReturn hp =>
      exact work_falls hp (by simp [Pc.rank]) rfl rfl rfl rfl
  | _ => exact absurd rfl he

/-- So has the step of the main thread. -/
theorem main_work (h : Step s .main s') : s'.work + 1 ≤ s.work := by
  cases h with
  | resumeSleep he | resume he => rcases he with ⟨he, _⟩ | he <;> cases he
  | notifyOne hc =>
      refine work_main hc rfl rfl ?_
      have hb := Bool.toNat_le (decide (∃ v, s.pc v = .sleepBlocked))
      change ∑ u, s.load u + 3 * (decide (∃ v, s.pc v = .sleepBlocked)).toNat ≤ _
      omega
  | notify hc =>
      rename_i v rest
      refine work_main hc rfl rfl ?_
      have hother : ∀ u, u ≠ v →
          State.load ((s.setRunning v true).setNotified v (s.pc v).isBlocked) u = s.load u := by
        intro u hu
        simp [State.load, hu]
      have hsum := sum_change hother
      have hb := Bool.toNat_le (s.pc v).isBlocked
      have hload : State.load ((s.setRunning v true).setNotified v (s.pc v).isBlocked) v =
          (s.pc v).rank + 3 * (s.pc v).isBlocked.toNat := by simp [State.load]
      have hload' : s.load v = (s.pc v).rank + 3 * (s.notified v).toNat := rfl
      change ∑ u, State.load ((s.setRunning v true).setNotified v (s.pc v).isBlocked) u +
        3 * s.woken.toNat ≤ _
      omega
  | signalExit hc | notifyLock hc | notifyUnlock hc | lock hc | setState hc | unlock hc | join hc =>
      exact work_main hc rfl rfl (Nat.le_add_right ..)

theorem next_work {e : Event w} (h : next s e = some s') :
    s'.work + 1 ≤ s.work + if e.isSpurious then 2 + 1 else 0 := by
  have hst := step_of_next h
  by_cases he : e = .main
  · subst he
    exact main_work hst
  · exact work_worker hst he

theorem Pc.rank_le (p : Pc) : p.rank ≤ 10 := by
  cases p <;> simp [rank]

/-- What is to be done when the destructor begins. -/
theorem work_begin {h : Handoff.State w} {order : List (Fin w)} (hn : order.Nodup) :
    (State.begin h a order).work ≤ 30 * w + 16 := by
  have hlen : order.length ≤ w := by
    have hcard := hn.length_le_card
    rwa [Fintype.card_fin] at hcard
  have hload : ∑ v, (State.begin h a order).load v ≤ 10 * w := by
    have hsum : ∑ v, (State.begin h a order).load v ≤ ∑ _ : Fin w, 10 :=
      Finset.sum_le_sum fun v _ => Pc.rank_le _
    rwa [Finset.sum_const_nat fun _ _ => rfl, Finset.card_univ, Fintype.card_fin,
      Nat.mul_comm] at hsum
  change ∑ v, (State.begin h a order).load v + 3 * 0 + 4 * (5 * order.length + 4) ≤ _
  omega

/--
**The destructor comes to an end.** From its beginning the threads of a scheduler with `w`
workers take at most `30 * w + 16` steps, and three more for each spurious wakeup. When no
thread can go on but for no reason, the main thread has joined all of them: they have ended.
-/
theorem destructor_ends {s₀ : State w} (h : (machine w).init s₀) {es : List (Event w)}
    (hr : (machine w).run s₀ es = some s) :
    es.length ≤ 30 * w + 16 + 3 * es.countP Event.isSpurious ∧
      ((∀ e, (∀ v, e ≠ .spurious v) → next s e = none) →
        s.main = .lock [] ∧ ∀ v, s.pc v = .ended) := by
  have hreach : (machine w).Reachable s₀ := Machine.Reach.init h
  have hlen := (Machine.length_le (M := machine w) (fun _ => True) State.work Event.isSpurious 2
    (fun _ _ _ _ hs _ => ⟨trivial, next_work hs⟩) es hreach hr trivial).2
  obtain ⟨hh, a, order, _, _, _, hn, _, rfl⟩ := id h
  have hbegin := work_begin (h := hh) (a := a) hn
  refine ⟨by omega, ?_⟩
  intro hstuck
  obtain ⟨_, hgo, hdone⟩ := nobody_left_behind (Machine.reachable_of_run hreach es hr)
  have hc : s.main = .lock [] := by
    by_contra hc
    obtain ⟨e, t, he, ht⟩ := hgo hc
    rw [hstuck e he] at ht
    cases ht
  exact ⟨hc, fun v => ((hdone hc).1 v).1⟩

/-- The worker `v` is destroyed after `u`, with a spurious wakeup in between. -/
def destroyRun (u v : Fin 2) : List (Event 2) :=
  List.replicate 4 .main ++ [.spurious v, .worker v] ++ List.replicate 4 .main ++
    List.replicate 7 (.worker u) ++ List.replicate 5 .main ++ List.replicate 5 (.worker v) ++
    [.main]

theorem destructor_ends_run :
    ∃ s, (machine 2).run (.begin (idle 0 1) 0 [0, 1]) (destroyRun 0 1) = some s ∧
      s.main = .lock [] ∧ (∀ v, s.pc v = .ended) ∧
      (destroyRun 0 1).length ≤ 30 * 2 + 16 + 3 * 1 := by
  obtain ⟨s, hr, hp⟩ := Machine.exists_run (M := machine 2)
    (fun s => (next s .main).isNone && (next s (.worker 0)).isNone && (next s (.worker 1)).isNone)
    (.begin (idle 0 1) 0 [0, 1]) (destroyRun 0 1) (by decide)
  simp only [Bool.and_eq_true, Option.isNone_iff_eq_none] at hp
  have hstuck : ∀ e, (∀ v, e ≠ .spurious v) → next s e = none := by
    intro e he
    cases e with
    | main => exact hp.1.1
    | spurious v => exact absurd rfl (he v)
    | worker v =>
        obtain rfl | rfl : v = 0 ∨ v = 1 := by omega
        · exact hp.1.2
        · exact hp.2
  obtain ⟨hlen, hend⟩ := destructor_ends begin_idle hr
  obtain ⟨hc, hpc⟩ := hend hstuck
  exact ⟨s, hr, hc, hpc, hlen⟩

end Ums.Teardown
