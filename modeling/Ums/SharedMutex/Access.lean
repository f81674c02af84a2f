import Ums.Monitor.Refinement
import Ums.SharedMutex.Exclusion

/-!
# `Shared_mutex`, one access at a time

The program of `Ums.SharedMutex.Program` with `m_mutex`, `m_gate1` and `m_gate2` down to
their flags. What its workers hold they hold for the length of their statements, so the
exclusion of readers and writers carries over.
-/

namespace Ums.SharedMutex

open Monitor SharedMutexState

theorem noRelock : NoRelock code holds := by
  intro c m k hc
  cases c with
  | idle h => cases hc
  | lock d h p =>
      cases p with
      | enter => rfl
      | gate1 _ a | gate2 a => cases a <;> cases hc
      | _ => cases hc
  | lockShared d h p =>
      cases p with
      | enter => rfl
      | gate1 _ a => cases a <;> cases hc
      | _ => cases hc
  | tryLock h p | tryLockShared h p | unlock h p | unlockShared h p =>
      cases p with
      | enter => rfl
      | _ => cases hc

/-- Nothing but a look at the state word changes what a worker holds. -/
theorem carries : Carries code fun c => (c.held, c.admitted) := by
  intro now c x k y hj hchoose hact
  cases c with
  | idle h => exact absurd rfl (hchoose _)
  | lock d h p =>
      cases p with
      | gate1 _ a | gate2 a =>
          cases a with
          | body => cases hj with | _ hc => cases hc <;> rfl
          | _ => exact absurd rfl (hact _)
      | setWrite | unsetWrite => exact absurd rfl (hact _)
      | _ => cases hj with | _ hc => cases hc <;> rfl
  | lockShared d h p =>
      cases p with
      | gate1 _ a =>
          cases a with
          | body => cases hj with | _ hc => cases hc <;> rfl
          | _ => exact absurd rfl (hact _)
      | incReaders => exact absurd rfl (hact _)
      | _ => cases hj with | _ hc => cases hc <;> rfl
  | tryLock h p | tryLockShared h p =>
      cases p with
      | test => exact absurd rfl (hact _)
      | _ => cases hj with | _ hc => cases hc <;> rfl
  | unlock h p =>
      cases p with
      | unsetWrite => exact absurd rfl (hact _)
      | _ => cases hj with | _ hc => cases hc <;> rfl
  | unlockShared h p =>
      cases p with
      | decReaders | notify => exact absurd rfl (hact _)
      | _ => cases hj with | _ hc => cases hc <;> rfl

variable {T : Type} [DecidableEq T]

/-- The same mutex, used by the workers `T` one access at a time. -/
abbrev accessMachine (T : Type) [DecidableEq T] :
    Lib.Machine (Memory T Unit Gate SharedMutexState Ctl) (Event T Ctl) :=
  Memory.machine code (fun _ => .idle {}) 0#32

/-- What the state word says of the workers. -/
structure WordFits [Fintype T] (g : T → Held × Bool) (x : SharedMutexState) : Prop where
  unique : ∀ t u, (g t).1.excl = true → (g u).1.excl = true → t = u
  alone : ∀ t u, (g t).1.excl = true → (g u).1.shared = 0
  count : (readers x).toNat = ∑ t, (g t).1.shared
  write : hasWrite x = true ↔ ∃! t, (g t).1.excl = true ∨ (g t).2 = true

/--
**Readers and writers exclude each other down to the accesses** of the spinlocks: whatever
is interleaved with whatever, one worker at most owns the mutex and nobody holds a shared
lock then, the low bits of the state word count the shared locks, its top bit is set exactly
while one worker owns the mutex or waits at the second gate, and no lock of `m_mutex`
throws.
-/
theorem exclusion_by_access [Fintype T] {s : Memory T Unit Gate SharedMutexState Ctl}
    (h : (accessMachine T).Reachable s) :
    (∀ t u, (s.ctl t).owns = true → (s.ctl u).owns = true → t = u) ∧
    (∀ t u, (s.ctl t).owns = true → (s.ctl u).shared = 0) ∧
    (readers s.data).toNat = ∑ t, (s.ctl t).shared ∧
    (hasWrite s.data = true ↔
      ∃! t, (s.ctl t).owns = true ∨ (s.ctl t).admitted = true) ∧
    ∀ t, s.point t ≠ .lock .threw := by
  have hword := Memory.invariant (P := WordFits) disciplined noRelock (fun _ _ => rfl) carries
    (fun a ha => ?_) h
  · exact ⟨hword.unique, hword.alone, hword.count, hword.write,
      Memory.calm disciplined noRelock (fun _ _ => rfl) h⟩
  · have hp := packed_reachable ha
    obtain ⟨w, hd, -⟩ := hp.packed
    have hwrites : ∀ t, (a.ctl t).writes = true ↔
        (a.ctl t).held.excl = true ∨ (a.ctl t).admitted = true := fun t => by
      rw [Ctl.writes, Bool.or_eq_true, Ctl.owns]
    refine ⟨fun t u ht hu => hp.unique t u (writes_of_owns ht) (writes_of_owns hu),
      fun t u ht => ?_, ?_, ?_⟩
    · have hle := shared_le (s := a) (t := u)
      rw [hp.alone t ht] at hle
      exact Nat.le_zero.mp hle
    · rw [hd, toNat_readers_word hp.bound]
      rfl
    · rw [hp.hasWrite]
      simp only [← hwrites]
      constructor
      · rintro ⟨t, ht⟩
        exact ⟨t, ht, fun u hu => hp.unique u t hu ht⟩
      · rintro ⟨t, ht, _⟩
        exact ⟨t, ht⟩

/-- A worker holds a shared lock and another one spins for `m_mutex`. -/
theorem exclusion_by_access_run : ∃ s, (accessMachine (Fin 2)).Reachable s ∧
    (s.ctl 0).shared = 1 ∧ s.point 1 = .lock (.plain (.timed 1 .load)) ∧
    (readers s.data).toNat = ∑ t, (s.ctl t).shared ∧ (s.ctl 1).owns = false := by
  obtain ⟨s, hr, hp⟩ := Lib.Machine.exists_of_run (M := accessMachine (Fin 2))
    (p := fun s => decide ((s.ctl 0).shared = 1 ∧
      s.point 1 = .lock (.plain (.timed 1 .load)))) (.init ⟨0, rfl⟩)
    (List.flatten [
      [.choose 0 (.lockShared none {} .enter)], List.replicate 7 (.step 0),
      [.choose 1 (.lock none {} .enter)], List.replicate 3 (.step 1)])
    (by decide +kernel)
  obtain ⟨hs, hpt⟩ := of_decide_eq_true hp
  obtain ⟨-, halone, hcount, -⟩ := exclusion_by_access hr
  refine ⟨s, hr, hs, hpt, hcount, ?_⟩
  by_contra ho
  rw [halone 1 0 (by simpa using ho)] at hs
  cases hs

end Ums.SharedMutex
