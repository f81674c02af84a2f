import Mathlib.Data.Set.Basic
import Mathlib.Order.WellFounded

/-!
# Locks taken in order

Threads hold locks and wait for locks. Where every thread waits only for a lock that
ranks above all that it holds, and ranks do not ascend for ever, no set of threads is
deadlocked: the one that waits for the highest lock waits for a thread which, being
in the set, waits for a higher one.
-/

namespace Ums.Lib

/-- Who holds which lock, and who waits for which. -/
structure Locks (T L : Type) where
  /-- The thread holds the lock. -/
  holds : T → L → Prop
  /-- The thread cannot go on without the lock. -/
  wants : T → L → Prop

namespace Locks

variable {T L α : Type} [Preorder α] {k : Locks T L} {rank : L → α}

/-- Every thread waits for a lock that ranks above those it holds. -/
def Ordered (k : Locks T L) (rank : L → α) : Prop :=
  ∀ t l m, k.wants t l → k.holds t m → rank m < rank l

/-- Each thread of the set waits for a lock that a thread of the set holds, perhaps itself. -/
def Deadlocked (k : Locks T L) (S : Set T) : Prop :=
  S.Nonempty ∧ ∀ t ∈ S, ∃ u ∈ S, ∃ l, k.wants t l ∧ k.holds u l

/-- **Ordered locks do not deadlock.** -/
theorem Ordered.not_deadlocked [WellFoundedGT α] (h : k.Ordered rank) (S : Set T) :
    ¬k.Deadlocked S := by
  rintro ⟨⟨t, ht⟩, hS⟩
  -- the ranks of the locks that one of the set waits for and another one holds
  let R : Set α := {r | ∃ l, rank l = r ∧ (∃ t ∈ S, k.wants t l) ∧ ∃ u ∈ S, k.holds u l}
  have hne : R.Nonempty := by
    obtain ⟨u, hu, l, hw, hh⟩ := hS t ht
    exact ⟨rank l, l, rfl, ⟨t, ht, hw⟩, u, hu, hh⟩
  obtain ⟨r, ⟨l, hl, _, u, hu, hh⟩, hmax⟩ := wellFounded_gt.has_min R hne
  obtain ⟨v, hv, m, hw, hh'⟩ := hS u hu
  have hlt : rank l < rank m := h u m l hw hh
  rw [hl] at hlt
  exact hmax (rank m) ⟨m, rfl, ⟨u, hu, hw⟩, v, hv, hh'⟩ hlt

end Locks

end Ums.Lib
