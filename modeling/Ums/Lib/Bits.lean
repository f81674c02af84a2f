import Mathlib.Data.BitVec
import Mathlib.Data.Finset.Sort

/-!
# Bit masks as sets

A loop that sets bits in a mask, a loop that collects the positions of set bits, and the order in
which the positions of a set come up when they are tested one after the other.
-/

namespace Ums.Lib

variable {w : Nat}

/-- A loop that sets bits has set the bits of every mask that it has added. -/
theorem getLsbD_foldl_or {α : Type} (p : α → Prop) [DecidablePred p] (f : α → BitVec w)
    (l : List α) (x : BitVec w) (j : Nat) :
    (l.foldl (fun x i => if p i then x ||| f i else x) x).getLsbD j = true ↔
      x.getLsbD j = true ∨ ∃ i ∈ l, p i ∧ (f i).getLsbD j = true := by
  induction l generalizing x with
  | nil => simp
  | cons a l ih =>
      rw [List.foldl_cons, ih]
      by_cases hp : p a
      · simp [hp, or_assoc]
      · simp [hp]

/-- A loop that collects elements has collected those that it has tested. -/
theorem mem_foldl_insert {α : Type} [DecidableEq α] (p : α → Prop) [DecidablePred p] (l : List α)
    (s : Finset α) (a : α) :
    a ∈ l.foldl (fun s i => if p i then insert i s else s) s ↔ a ∈ s ∨ a ∈ l ∧ p a := by
  induction l generalizing s with
  | nil => simp
  | cons b l ih =>
      rw [List.foldl_cons, ih]
      by_cases hp : p b
      · rw [if_pos hp, Finset.mem_insert, List.mem_cons]
        constructor
        · rintro ((rfl | hs) | ⟨hl, ha⟩)
          · exact Or.inr ⟨Or.inl rfl, hp⟩
          · exact Or.inl hs
          · exact Or.inr ⟨Or.inr hl, ha⟩
        · rintro (hs | ⟨rfl | hl, ha⟩)
          · exact Or.inl (Or.inr hs)
          · exact Or.inl (Or.inl rfl)
          · exact Or.inr ⟨hl, ha⟩
      · rw [if_neg hp, List.mem_cons]
        constructor
        · rintro (hs | ⟨hl, ha⟩)
          · exact Or.inl hs
          · exact Or.inr ⟨Or.inr hl, ha⟩
        · rintro (hs | ⟨rfl | hl, ha⟩)
          · exact Or.inl hs
          · exact absurd ha hp
          · exact Or.inr ⟨hl, ha⟩

/-- Two masks have something in common if they have a bit in common. -/
theorem and_ne_zero_iff (x y : BitVec w) :
    x &&& y ≠ 0#w ↔ ∃ j, x.getLsbD j = true ∧ y.getLsbD j = true := by
  constructor
  · intro hne
    by_contra hno
    refine hne (BitVec.eq_of_getLsbD_eq fun j _ => ?_)
    rw [BitVec.getLsbD_and, BitVec.getLsbD_zero, ← Bool.not_eq_true, Bool.and_eq_true]
    exact fun h => hno ⟨j, h⟩
  · rintro ⟨j, hx, hy⟩ h0
    have hj := congrArg (fun z => z.getLsbD j) h0
    simp [hx, hy] at hj

/-- The only bit of `1 << i`. -/
theorem getLsbD_one_shiftLeft {i j : Nat} (hi : i < w) :
    (1#w <<< i).getLsbD j = true ↔ j = i := by
  rw [BitVec.getLsbD_shiftLeft, BitVec.getLsbD_one]
  simp only [Bool.and_eq_true, decide_eq_true_eq, Bool.not_eq_true', decide_eq_false_iff_not]
  omega

/-- Testing all numbers in turn finds the elements of a set in increasing order. -/
theorem filter_range_eq_sort {n : Nat} {s : Finset Nat} (h : ∀ i ∈ s, i < n) :
    (List.range n).filter (· ∈ s) = s.sort := by
  have hset : ((List.range n).filter (· ∈ s)).toFinset = s := by
    ext i
    simp only [List.mem_toFinset, List.mem_filter, List.mem_range, decide_eq_true_eq]
    exact ⟨fun hi => hi.2, fun hi => ⟨h i hi, hi⟩⟩
  have hnodup : ((List.range n).filter (· ∈ s)).Nodup := List.nodup_range.filter _
  have hsorted : ((List.range n).filter (· ∈ s)).Pairwise (· ≤ ·) :=
    (List.pairwise_le_range).filter _
  rw [← (List.toFinset_sort (r := (· ≤ ·)) hnodup).mpr hsorted, hset]

end Ums.Lib
