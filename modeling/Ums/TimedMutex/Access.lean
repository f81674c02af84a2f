import Ums.Monitor.Refinement
import Ums.TimedMutex.Recursive

/-!
# `Recursive_timed_mutex`, one access at a time

The program of `Ums.TimedMutex.Recursive` with `m_mtx` and `m_cv` down to their flags.
-/

namespace Ums.RecursiveTimedMutex

open Monitor

variable {T : Type} [DecidableEq T]

theorem noRelock : NoRelock (code (T := T)) holds := by
  intro c m k hc
  cases c with
  | idle h => cases hc
  | lock h p | tryLockUntil d h p =>
      cases p with
      | enter => rfl
      | wait again a => cases a <;> cases hc
      | _ => cases hc
  | tryLock h p => cases p <;> cases hc
  | unlock h p =>
      cases p with
      | enter => rfl
      | _ => cases hc

/-- Nothing but a look at the owner and the counter changes what a worker holds. -/
theorem carries : Carries (code (T := T)) Ctl.depth := by
  intro now c x k y hj hchoose hact
  cases c with
  | idle h => exact absurd rfl (hchoose _)
  | lock h p | tryLockUntil d h p =>
      cases p with
      | wait again a =>
          cases a with
          | body => cases hj with | _ hc => cases hc <;> rfl
          | _ => exact absurd rfl (hact _)
      | test => exact absurd rfl (hact _)
      | _ => cases hj with | _ hc => cases hc <;> rfl
  | tryLock h p =>
      cases p with
      | test | fail => exact absurd rfl (hact _)
      | _ => cases hj with | _ hc => cases hc <;> rfl
  | unlock h p =>
      cases p with
      | dec => exact absurd rfl (hact _)
      | _ => cases hj with | _ hc => cases hc <;> rfl

/-- The same mutex, used by the workers `T` one access at a time. -/
abbrev accessMachine (T : Type) [DecidableEq T] :
    Lib.Machine (Memory T Unit Unit (Data T) (Ctl T)) (Event T (Ctl T)) :=
  Memory.machine code (fun t => .idle { thisTid := t }) {}

/-- What `m_tid` and `m_locks_count` say of the workers. -/
structure CountFits (depth : T → Nat) (x : Data T) : Prop where
  free : x.tid = none ↔ x.locksCount = 0#32
  count : ∀ t, x.tid = some t → x.locksCount.toNat = depth t
  others : ∀ t, x.tid ≠ some t → depth t = 0
  bound : x.locksCount.toNat < 2 ^ 32 - 1

/--
**The recursive timed mutex is a reentrant lock down to the accesses** of the spinlocks:
there is no owner exactly when the counter is zero, and otherwise the counter is the number
of acquisitions of the owner minus its unlocks, nobody else has any, and it stays below its
limit. No lock of `m_mtx` throws.
-/
theorem reentrant_by_access {s : Memory T Unit Unit (Data T) (Ctl T)}
    (h : (accessMachine T).Reachable s) :
    (s.data.tid = none ↔ s.data.locksCount = 0#32) ∧
    (∀ t, s.data.tid = some t → s.data.locksCount.toNat = (s.ctl t).depth ∧
      ∀ u, u ≠ t → (s.ctl u).depth = 0) ∧
    (s.data.tid = none → ∀ u, (s.ctl u).depth = 0) ∧
    s.data.locksCount.toNat < 2 ^ 32 - 1 ∧
    ∀ t, s.point t ≠ .lock .threw := by
  have hfits := Memory.invariant (P := CountFits) disciplined noRelock (fun _ _ => rfl) carries
    (fun a ha => ?_) h
  · refine ⟨hfits.free, fun t ht => ⟨hfits.count t ht, fun u hu => hfits.others u ?_⟩,
      fun hn u => hfits.others u (by rw [hn]; nofun), hfits.bound,
      Memory.calm disciplined noRelock (fun _ _ => rfl) h⟩
    rw [ht]
    exact fun he => hu (Option.some.inj he).symm
  · have ho := owned_reachable ha
    exact ⟨ho.free, ho.count, ho.others, ho.bound⟩

/-- The owner has the lock twice, and another worker has parked. -/
theorem reentrant_by_access_run : ∃ s, (accessMachine (Fin 2)).Reachable s ∧
    s.data.locksCount.toNat = 2 ∧ (s.ctl 0).depth = 2 ∧ (s.ctl 1).depth = 0 ∧
    s.phase 1 = .parked := by
  obtain ⟨s, hr, hp⟩ := Lib.Machine.exists_of_run (M := accessMachine (Fin 2))
    (p := fun s => decide (s.data.tid = some 0 ∧ s.data.locksCount.toNat = 2 ∧
      s.phase 1 = .parked)) (.init ⟨0, rfl⟩)
    (List.flatten [
      [.choose 0 (.lock { thisTid := 0 } .enter)], List.replicate 10 (.step 0),
      [.choose 0 (.tryLock { thisTid := 0, depth := 1 } .enter)], List.replicate 8 (.step 0),
      [.choose 1 (.lock { thisTid := 1 } .enter)], List.replicate 19 (.step 1)])
    (by decide +kernel)
  obtain ⟨ht, hn, hph⟩ := of_decide_eq_true hp
  obtain ⟨hd, hother⟩ := (reentrant_by_access hr).2.1 0 ht
  exact ⟨s, hr, hn, by rw [← hd, hn], hother 1 (by decide), hph⟩

end Ums.RecursiveTimedMutex
