import Mathlib.Data.Fintype.EquivFin
import Mathlib.Order.Fin.Basic
import Ums.Idle.Program
import Ums.Monitor.LockOrder

/-!
# The idle and exit protocol does not deadlock

Every thread locks upwards: a `m_waiters_lock` before the `m_mtx` of a scheduler, these in
the order of `m_schedulers`, and all of them before the `m_mtx` of `Schedulers`, which
`wait_exit` therefore gives up before it calls `all_idle`.
-/

namespace Ums.Idle

open Monitor

variable {T Γ : Type} {c : Config} [DecidableEq T] [DecidableEq Γ]

theorem update_true (h : Lock c Γ → Bool) (m l : Lock c Γ) :
    Function.update h m true l = (decide (l = m) || h l) := by
  by_cases hl : l = m
  · rw [hl, Function.update_self]
    simp
  · rw [Function.update_of_ne hl]
    simp [hl]

theorem update_false (h : Lock c Γ → Bool) (m l : Lock c Γ) :
    Function.update h m false l = (!decide (l = m) && h l) := by
  by_cases hl : l = m
  · rw [hl, Function.update_self]
    simp
  · rw [Function.update_of_ne hl]
    simp [hl]

/-! ## What is held where -/

/-- To take the only lock a thread has. -/
theorem holds_lock {k k' : Ctl c Γ} {m : Lock c Γ} (hk : ∀ l, holds k l = false)
    (hk' : ∀ l, holds k' l = decide (l = m)) : holds k' = Function.update (holds k) m true := by
  funext l
  rw [update_true, hk, hk', Bool.or_false]

/-- To give it back. -/
theorem holds_unlock {k k' : Ctl c Γ} {m : Lock c Γ} (hk : ∀ l, holds k l = decide (l = m))
    (hk' : ∀ l, holds k' l = false) :
    holds k m = true ∧ holds k' = Function.update (holds k) m false := by
  refine ⟨by rw [hk, decide_eq_true rfl], ?_⟩
  funext l
  rw [update_false, hk, hk']
  simp

/-- To go on at one of several points, all of which hold the same. -/
theorem keeps_oneOf {l : List (Ctl c Γ)} {h : Lock c Γ → Bool} (hl : ∀ k ∈ l, holds k = h) :
    (oneOf l).Keeps holds h := fun k hk => hl k (of_decide_eq_true hk)

/-- `notify` takes the `m_mtx` of its scheduler, and gives it back. -/
theorem keeps_notify {j : SchedId c} (inside : NotifyPoint → Ctl c Γ) {ret : Ctl c Γ}
    {h : Lock c Γ → Bool} (hj : h (.sched j) = false)
    (hi : ∀ p, holds (inside p) = fun l => h l || p.holds j l) (hr : holds ret = h)
    (p : NotifyPoint) : (notifyCode j inside ret p).Keeps holds (holds (inside p)) := by
  cases p with
  | enter =>
      show holds (inside .set) = _
      funext l
      rw [update_true, hi, hi]
      simp [NotifyPoint.holds, Bool.or_comm]
  | set =>
      intro _ x
      rw [hi, hi]
      rfl
  | leave =>
      refine ⟨by simp [hi, NotifyPoint.holds], ?_⟩
      funext l
      rw [update_false, hi, hi]
      by_cases hl : l = .sched j
      · simp [hl, hj, NotifyPoint.holds]
      · simp [hl, NotifyPoint.holds]
  | cv =>
      intro _ x
      rw [hi, hr]
      funext l
      simp [NotifyPoint.holds]

theorem keeps_scan {v : Γ} (inside : ScanPoint c → Ctl c Γ)
    {pick : List (SchedId c) → List (SchedId c)}
    (hi : ∀ p, holds (inside p) = fun l => p.holds v l) (p : ScanPoint c) :
    (scanCode v inside pick p).Keeps holds (holds (inside p)) := by
  cases p with
  | enter => exact holds_lock (fun l => congrFun (hi .enter) l) fun l => congrFun (hi .read) l
  | read =>
      intro _ x
      rw [hi, hi]
      rfl
  | next rest =>
      cases rest with
      | nil =>
          intro _ x
          rw [hi, hi]
          rfl
      | cons j rest =>
          intro _ x
          rw [hi, hi]
          funext l
          simp [ScanPoint.holds, NotifyPoint.holds]
  | call rest j p =>
      rw [scanCode]
      refine keeps_notify (fun p => inside (.call rest j p)) (h := fun l => decide (l = .waiters v))
        (by simp) (fun p => ?_) ?_ p
      · rw [hi]
        rfl
      · rw [hi]
        rfl
  | leave => exact holds_unlock (fun l => congrFun (hi .leave) l) fun _ => rfl

theorem keeps_list {v : Γ} (inside : ListPoint → Ctl c Γ)
    {f : List (SchedId c) → List (SchedId c)}
    (hi : ∀ p, holds (inside p) = fun l => p.holds v l) (p : ListPoint) :
    (listCode v inside f p).Keeps holds (holds (inside p)) := by
  cases p with
  | enter => exact holds_lock (fun l => congrFun (hi .enter) l) fun l => congrFun (hi .change) l
  | change =>
      intro _ x
      rw [hi, hi]
      rfl
  | leave => exact holds_unlock (fun l => congrFun (hi .leave) l) fun _ => rfl

theorem keeps_sleep (i : SchedId c) (p : SleepPoint) :
    (sleepCode i p : Command c Γ).Keeps holds (holds (.sleep i p)) := by
  cases p with
  | spin => exact keeps_oneOf (by simp; exact ⟨rfl, rfl⟩)
  | enter | idleWake => exact holds_lock (fun _ => rfl) fun _ => rfl
  | timedWake timeout =>
      cases timeout with
      | false | true => exact holds_lock (fun _ => rfl) fun _ => rfl
  | test => exact keeps_oneOf (by simp; exact ⟨rfl, rfl, rfl⟩)
  | timed | timedEnd | sub | signalCv => exact fun _ _ => rfl
  | timedTest | add =>
      intro _ x
      simp only
      split <;> rfl
  | timedBlock | idleBlock | leave => exact holds_unlock (fun _ => rfl) fun _ => rfl
  | timedBlocked => exact keeps_oneOf (by simp; exact ⟨rfl, rfl⟩)
  | signalEnter =>
      -- `signal_idle` takes the lock of the schedulers on top of the scheduler's own
      show holds (.sleep i .signalSet) = _
      funext l
      rw [update_true]
      simp [holds, SleepPoint.holds, Bool.or_comm]
  | signalSet => exact fun _ _ => rfl
  | signalLeave =>
      refine ⟨by simp [holds, SleepPoint.holds], ?_⟩
      funext l
      rw [update_false]
      cases l with
      | schedulers | sched j | waiters v => simp [holds, SleepPoint.holds]
  | idleTest => exact keeps_oneOf (by simp; exact ⟨rfl, rfl⟩)
  | idleBlocked => exact keeps_oneOf (by simp; rfl)

theorem keeps_waitExit (p : ExitPoint) :
    (waitExitCode p : Command c Γ).Keeps holds (holds (.waitExit p)) := by
  cases p with
  | enter | relock | wake => exact holds_lock (fun _ => rfl) fun _ => rfl
  | release | block | leave => exact holds_unlock (fun _ => rfl) fun _ => rfl
  | predicate | count | test =>
      intro _ x
      simp only
      split <;> rfl
  | blocked => exact keeps_oneOf (by simp; rfl)
  | tasks k =>
      rw [waitExitCode]
      split
      · exact keeps_oneOf (by simp; exact ⟨rfl, rfl⟩)
      · -- no lock is held before the first one is taken
        intro _ x
        funext l
        cases l with
        | sched j => exact decide_eq_false (Nat.not_lt_zero j.val)
        | waiters | schedulers => rfl
  | lock k =>
      rw [waitExitCode]
      split
      · -- the locks of the first `k` are held, and the next one is taken
        rename_i hk
        show holds (.waitExit (.lock (k + 1))) = _
        funext l
        rw [update_true]
        cases l with
        | sched j =>
            have : j.val < k + 1 ↔ j = ⟨k, hk⟩ ∨ j.val < k := by
              rw [Fin.ext_iff]
              simp only
              omega
            simp [holds, ExitPoint.holds, this]
        | waiters | schedulers => simp [holds, ExitPoint.holds]
      · rename_i hk
        intro _ x
        funext l
        cases l with
        | sched j =>
            have hj := j.isLt
            exact (decide_eq_true (by omega : j.val < k)).symm
        | waiters | schedulers => rfl
  | state k =>
      rw [waitExitCode]
      have hall : ∀ r, holds (.waitExit (.unlock 0 r) : Ctl c Γ) = holds (.waitExit (.state k)) :=
        fun r => by
          funext l
          cases l with
          | sched j => exact decide_eq_true (Nat.zero_le j.val)
          | waiters | schedulers => rfl
      split
      · refine keeps_oneOf ?_
        simp only [List.mem_cons, List.not_mem_nil, or_false, forall_eq_or_imp, forall_eq]
        exact ⟨hall false, rfl⟩
      · exact fun _ _ => hall true
  | unlock k r =>
      rw [waitExitCode]
      split
      · -- those from `k` on are held, and the first of them is given back
        rename_i hk
        refine ⟨decide_eq_true (Nat.le_refl k), ?_⟩
        funext l
        rw [update_false]
        cases l with
        | sched j =>
            have : k + 1 ≤ j.val ↔ j ≠ ⟨k, hk⟩ ∧ k ≤ j.val := by
              rw [ne_eq, Fin.ext_iff]
              simp only
              omega
            simp [holds, ExitPoint.holds, this]
        | waiters | schedulers => simp [holds, ExitPoint.holds]
      · rename_i hk
        intro _ x
        funext l
        cases l with
        | sched j =>
            have hj := j.isLt
            exact (decide_eq_false (by omega : ¬k ≤ j.val)).symm
        | waiters | schedulers => rfl

theorem disciplined : Disciplined (code (c := c) (Γ := Γ)) holds := by
  intro k
  cases k with
  | idle =>
      intro k hk
      unfold Ctl.calls at hk
      split at hk <;> first | rfl | cases hk
  | notify j p =>
      refine keeps_notify (.notify j) (h := fun _ => false) rfl (fun p => ?_) rfl p
      funext l
      simp [holds]
  | notifyOne v p => exact keeps_scan (.notifyOne v) (fun _ => rfl) p
  | notifyAll v p => exact keeps_scan (.notifyAll v) (fun _ => rfl) p
  | addWaiter v j p =>
      rw [code, addWaiterCode]
      exact keeps_list (.addWaiter v j) (fun _ => rfl) p
  | removeWaiter v j p =>
      rw [code, removeWaiterCode]
      exact keeps_list (.removeWaiter v j) (fun _ => rfl) p
  | sleep i p => exact keeps_sleep i p
  | waitExit p => exact keeps_waitExit p

/-! ## The order -/

/-- Where a lock stands in the order. -/
def rank : Lock c Γ → Fin (c.schedulers + 2)
  | .waiters _ => ⟨0, by omega⟩
  | .sched j => ⟨j.val + 1, by have := j.isLt; omega⟩
  | .schedulers => ⟨c.schedulers + 1, by omega⟩

omit [DecidableEq Γ] in
theorem rank_sched_lt (j : SchedId c) :
    rank (.sched j : Lock c Γ) < rank (.schedulers : Lock c Γ) := by
  have hj := j.isLt
  rw [Fin.lt_def]
  simp only [rank]
  omega

omit [DecidableEq Γ] in
theorem rank_waiters_lt (v : Γ) (j : SchedId c) :
    rank (.waiters v) < rank (.sched j : Lock c Γ) := by
  rw [Fin.lt_def]
  simp only [rank]
  omega

/-- `notify` is called with locks below those of the schedulers only. -/
theorem ascends_notify {j : SchedId c} (inside : NotifyPoint → Ctl c Γ) {ret : Ctl c Γ}
    {h : Lock c Γ → Bool} (hi : ∀ l, holds (inside .enter) l = h l)
    (hj : ∀ l, h l = true → rank l < rank (.sched j : Lock c Γ)) (p : NotifyPoint) :
    (notifyCode j inside ret p).Ascends rank (holds (inside p)) := by
  cases p with
  | enter =>
      intro l hl
      rw [hi] at hl
      exact hj l hl
  | set | leave | cv => trivial

theorem ascends_scan {v : Γ} (inside : ScanPoint c → Ctl c Γ)
    {pick : List (SchedId c) → List (SchedId c)}
    (hi : ∀ p, holds (inside p) = fun l => p.holds v l) (p : ScanPoint c) :
    (scanCode v inside pick p).Ascends rank (holds (inside p)) := by
  cases p with
  | enter =>
      intro l hl
      rw [hi] at hl
      cases hl
  | read | leave => trivial
  | next rest =>
      cases rest with
      | nil | cons => trivial
  | call rest j p =>
      rw [scanCode]
      refine ascends_notify (fun p => inside (.call rest j p))
        (h := fun l => decide (l = .waiters v)) (fun l => ?_) (fun l hl => ?_) p
      · rw [hi]
        simp [ScanPoint.holds, NotifyPoint.holds]
      · rw [of_decide_eq_true hl]
        exact rank_waiters_lt v j

theorem ascends_list {v : Γ} (inside : ListPoint → Ctl c Γ)
    {f : List (SchedId c) → List (SchedId c)}
    (hi : ∀ p, holds (inside p) = fun l => p.holds v l) (p : ListPoint) :
    (listCode v inside f p).Ascends rank (holds (inside p)) := by
  cases p with
  | enter =>
      intro l hl
      rw [hi] at hl
      cases hl
  | change | leave => trivial

theorem ascends_sleep (i : SchedId c) (p : SleepPoint) :
    (sleepCode i p : Command c Γ).Ascends rank (holds (.sleep i p)) := by
  cases p with
  | signalEnter =>
      -- its own lock is below the lock of the schedulers
      intro l hl
      rw [of_decide_eq_true hl]
      exact rank_sched_lt i
  | enter | timedWake | idleWake =>
      intro l hl
      cases hl
  | _ => trivial

theorem ascends_waitExit (p : ExitPoint) :
    (waitExitCode p : Command c Γ).Ascends rank (holds (.waitExit p)) := by
  cases p with
  | enter | relock | wake =>
      -- `all_idle` is called without the lock of the schedulers
      intro l hl
      cases hl
  | lock k =>
      rw [waitExitCode]
      split
      · intro l hl
        -- only the schedulers before this one are locked
        cases l with
        | sched j =>
            have hj : j.val < k := of_decide_eq_true hl
            rw [Fin.lt_def]
            simp only [rank]
            omega
        | waiters | schedulers => cases hl
      · trivial
  | tasks k | state k =>
      rw [waitExitCode]
      split <;> trivial
  | unlock k r =>
      rw [waitExitCode]
      split <;> trivial
  | _ => trivial

/-- **Every lock is taken above all that its thread holds.** -/
theorem ascends (k : Ctl c Γ) : (code k).Ascends rank (holds k) := by
  cases k with
  | idle => trivial
  | notify j p => exact ascends_notify (.notify j) (h := fun _ => false) (fun _ => rfl) nofun p
  | notifyOne v p => exact ascends_scan (.notifyOne v) (fun _ => rfl) p
  | notifyAll v p => exact ascends_scan (.notifyAll v) (fun _ => rfl) p
  | addWaiter v j p =>
      rw [code, addWaiterCode]
      exact ascends_list (.addWaiter v j) (fun _ => rfl) p
  | removeWaiter v j p =>
      rw [code, removeWaiterCode]
      exact ascends_list (.removeWaiter v j) (fun _ => rfl) p
  | sleep i p => exact ascends_sleep i p
  | waitExit p => exact ascends_waitExit p

variable {s : State T (Lock c Γ) Empty (Data c Γ) (Ctl c Γ)}

/--
**The idle and exit protocol never deadlocks.** Whatever threads are in `wait_exit`, in
`sleep` and in `notify`, called for itself or under a `m_waiters_lock`: no set of them is
such that each is blocked on a lock held by a thread of the set.
-/
theorem idle_exit_deadlock_free (h : (machine T c Γ).Reachable s) (S : Set T) :
    ¬(locks code s).Deadlocked S :=
  not_deadlocked disciplined ascends (fun _ _ => rfl) h S

/-- Two schedulers with one worker each. -/
abbrev twoSchedulers : Config := Options.config 2 1

/-- The first scheduler. -/
abbrev first : SchedId twoSchedulers := ⟨0, by decide⟩

/-- The second scheduler. -/
abbrev second : SchedId twoSchedulers := ⟨1, by decide⟩

/--
The main thread has locked the first of two schedulers and is blocked on the second one, whose
thread holds it inside `signal_idle`; a `notify_all` is blocked on the main thread, and a
`notify_one` on that.
-/
theorem idle_exit_deadlock_free_run :
    ∃ s : State (Fin 5) (Lock twoSchedulers Unit) Empty _ _,
      (machine (Fin 5) twoSchedulers Unit).Reachable s ∧
      (∃ l, (locks code s).wants 0 l ∧ (locks code s).holds 1 l) ∧
      (∃ l, (locks code s).wants 2 l ∧ (locks code s).holds 0 l) ∧
      (∃ l, (locks code s).wants 3 l ∧ (locks code s).holds 2 l) ∧
      ¬(locks code s).Deadlocked Set.univ := by
  obtain ⟨s, hr, hp⟩ := Lib.Machine.exists_of_run
    (M := machine (Fin 5) twoSchedulers Unit)
    (p := fun s => decide (s.owner (.sched first) = some 0 ∧
      s.owner (.sched second) = some 1 ∧ s.owner (.waiters ()) = some 2 ∧
      s.ctl 0 = .waitExit (.lock 1) ∧ s.ctl 2 = .notifyAll () (.call [] first .enter) ∧
      s.ctl 3 = .notifyOne () .enter))
    (.init ⟨0, rfl⟩)
    (List.flatten [
      [.choose 4 (.sleep first .spin), .choose 4 (.sleep first .enter), .step 4,
        .choose 4 (.sleep first .add), .step 4,
        .choose 4 (.sleep first .idleBlock), .step 4,
        .choose 1 (.sleep second .spin), .choose 1 (.sleep second .enter), .step 1,
        .choose 1 (.sleep second .add)],
      List.replicate 4 (.step 1),
      [.choose 2 (.addWaiter () first .enter), .step 2, .step 2, .step 2,
        .choose 0 (.waitExit .enter)],
      List.replicate 4 (.step 0),
      [.choose 0 (.waitExit (.tasks 1)), .choose 0 (.waitExit (.tasks 2)), .step 0, .step 0,
        .choose 2 (.notifyAll () .enter), .step 2, .step 2, .step 2,
        .choose 3 (.notifyOne () .enter)]]) (by decide +kernel)
  obtain ⟨h0, h1, h2, hc0, hc2, hc3⟩ := of_decide_eq_true hp
  refine ⟨s, hr, ⟨_, ?_, h1⟩, ⟨_, ?_, h0⟩, ⟨_, ?_, h2⟩, idle_exit_deadlock_free hr Set.univ⟩
  · show (code (s.ctl 0)).locking (s.phase 0) = _
    rw [hc0]
    rfl
  · show (code (s.ctl 2)).locking (s.phase 2) = _
    rw [hc2]
    rfl
  · show (code (s.ctl 3)).locking (s.phase 3) = _
    rw [hc3]
    rfl

end Ums.Idle
