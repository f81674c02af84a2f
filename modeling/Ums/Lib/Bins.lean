import Mathlib.Algebra.BigOperators.Ring.Finset
import Mathlib.Data.Fintype.BigOperators

/-!
# Items sorted into bins by a tag

A family of items each of which carries a tag, and a list for every tag. The
family is `Binned` when every item is exactly once in the list of its own tag and
in no other. Moving an item from one bin to another and changing its tag keeps
the family binned, and a sum over the items of a weight of their tags can be read
off the lengths of the lists.
-/

namespace Ums.Lib

variable {ι κ : Type}

/-- Every item is in the bin of its tag, once, and nowhere else. -/
structure Binned (tag : ι → κ) (bin : κ → List ι) : Prop where
  /-- A bin holds the items of its tag. -/
  mem : ∀ k i, i ∈ bin k ↔ tag i = k
  /-- No bin holds an item twice. -/
  nodup : ∀ k, (bin k).Nodup

namespace Binned

variable {tag : ι → κ} {bin : κ → List ι}

/-- The bins an item is in and how often, at a glance. -/
theorem count [DecidableEq ι] [DecidableEq κ] (h : Binned tag bin) (k : κ) (i : ι) :
    (bin k).count i = if tag i = k then 1 else 0 := by
  split
  · rename_i ht
    exact List.count_eq_one_of_mem (h.nodup k) ((h.mem k i).mpr ht)
  · rename_i ht
    exact List.count_eq_zero.mpr fun hm => ht ((h.mem k i).mp hm)

/--
**Moving an item.** The item leaves the bin of its old tag and joins the bin of
its new one; the other bins stay as they are.
-/
theorem move [DecidableEq ι] (h : Binned tag bin) {bin' : κ → List ι} {i : ι} {k : κ}
    (hk : tag i ≠ k) (hout : (bin (tag i)).Perm (i :: bin' (tag i)))
    (hin : (bin' k).Perm (i :: bin k))
    (hrest : ∀ k', k' ≠ tag i → k' ≠ k → bin' k' = bin k') :
    Binned (Function.update tag i k) bin' := by
  have hnd := hout.nodup_iff.mp (h.nodup (tag i))
  have hi : i ∉ bin k := fun hm => hk ((h.mem k i).mp hm)
  refine ⟨fun k' u => ?_, fun k' => ?_⟩
  · have hmem := h.mem k' u
    by_cases h1 : k' = tag i
    · subst h1
      have hp := hout.mem_iff (a := u)
      rw [List.mem_cons] at hp
      by_cases hu : u = i
      · subst hu
        rw [Function.update_self]
        exact ⟨fun hm => absurd hm (List.nodup_cons.mp hnd).1, fun he => absurd he hk.symm⟩
      · rw [Function.update_of_ne hu, ← hmem, hp]
        exact ⟨Or.inr, fun ho => ho.resolve_left hu⟩
    · by_cases h2 : k' = k
      · subst h2
        rw [hin.mem_iff, List.mem_cons]
        by_cases hu : u = i
        · subst hu; rw [Function.update_self]; simp
        · rw [Function.update_of_ne hu, ← hmem]
          exact ⟨fun ho => ho.resolve_left hu, Or.inr⟩
      · rw [hrest k' h1 h2, hmem]
        by_cases hu : u = i
        · subst hu
          rw [Function.update_self]
          exact ⟨fun he => absurd he.symm h1, fun he => absurd he.symm h2⟩
        · rw [Function.update_of_ne hu]
  · by_cases h1 : k' = tag i
    · subst h1; exact (List.nodup_cons.mp hnd).2
    · by_cases h2 : k' = k
      · subst h2; exact hin.nodup_iff.mpr (List.nodup_cons.mpr ⟨hi, h.nodup k'⟩)
      · rw [hrest k' h1 h2]; exact h.nodup k'

/-! ## Weights -/

section Weights

variable [Fintype ι] [DecidableEq κ]

/-- The length of a bin is the number of items of its tag. -/
theorem length_eq (h : Binned tag bin) (k : κ) :
    (bin k).length = (Finset.univ.filter fun i => tag i = k).card := by
  classical
  rw [← List.toFinset_card_of_nodup (h.nodup k)]
  congr 1
  ext i
  simp [h.mem]

/-- A sum over the items is a sum over the bins. -/
theorem sum_eq [Fintype κ] (h : Binned tag bin) (f : κ → Int) :
    ∑ i, f (tag i) = ∑ k, (bin k).length * f k := by
  rw [← Finset.sum_fiberwise Finset.univ tag fun i => f (tag i)]
  refine Finset.sum_congr rfl fun k _ => ?_
  rw [Finset.sum_congr rfl fun i hi => congrArg f (Finset.mem_filter.mp hi).2,
    Finset.sum_const, ← h.length_eq k, nsmul_eq_mul]

end Weights

end Binned

/-- Changing one tag changes the sum by the difference of the two weights. -/
theorem sum_update_tag [Fintype ι] [DecidableEq ι] (tag : ι → κ) (f : κ → Int) (i : ι) (k : κ) :
    ∑ j, f (Function.update tag i k j) = ∑ j, f (tag j) + (f k - f (tag i)) := by
  rw [← Finset.add_sum_erase _ _ (Finset.mem_univ i),
    ← Finset.add_sum_erase _ (fun j => f (tag j)) (Finset.mem_univ i), Function.update_self,
    Finset.sum_congr rfl fun j hj => by
      rw [Function.update_of_ne (Finset.ne_of_mem_erase hj)]]
  omega

/-- What changes for one item alone changes the sum by as much. -/
theorem sum_change [Fintype ι] [DecidableEq ι] {f g : ι → Nat} {i : ι}
    (h : ∀ j, j ≠ i → g j = f j) : ∑ j, g j + f i = ∑ j, f j + g i := by
  have hg : g = Function.update f i (g i) := by
    funext j
    by_cases hj : j = i
    · rw [hj, Function.update_self]
    · rw [Function.update_of_ne hj, h j hj]
  have hsum := sum_update_tag f (fun n : Nat => (n : Int)) i (g i)
  rw [← hg] at hsum
  push_cast [← Nat.cast_sum] at hsum
  omega

/-! ## Items that are somewhere -/

/--
`loc` says where each item is, if it is anywhere: whatever holds an item is the
place `loc` names.
-/
def Located (holds : ι → κ → Prop) (loc : ι → Option κ) : Prop := ∀ i k, holds i k ↔ loc i = some k

namespace Located

variable {holds holds' : ι → κ → Prop} {loc : ι → Option κ}

/-- An item is in one place only. -/
theorem unique (h : Located holds loc) {i : ι} {k k' : κ} (hk : holds i k) (hk' : holds i k') :
    k = k' :=
  Option.some.inj (((h i k).mp hk).symm.trans ((h i k').mp hk'))

theorem congr (h : Located holds loc) (hh : ∀ i k, holds' i k ↔ holds i k) : Located holds' loc :=
  fun i k => (hh i k).trans (h i k)

/-- An item goes from one place to another. -/
theorem move [DecidableEq ι] (h : Located holds loc) {i : ι} {k k' : κ} (hk : holds i k)
    (hh : ∀ u q, holds' u q ↔ (holds u q ∧ ¬(u = i ∧ q = k)) ∨ (u = i ∧ q = k')) :
    Located holds' (Function.update loc i (some k')) := by
  intro u q
  rw [hh]
  by_cases hu : u = i
  · subst hu
    rw [Function.update_self]
    refine ⟨?_, fun he => Or.inr ⟨rfl, (Option.some.inj he).symm⟩⟩
    rintro (⟨hq, hne⟩ | ⟨_, rfl⟩)
    · exact absurd ⟨rfl, h.unique hq hk⟩ hne
    · rfl
  · rw [Function.update_of_ne hu, ← h u q]
    refine ⟨?_, fun hq => Or.inl ⟨hq, fun he => hu he.1⟩⟩
    rintro (⟨hq, _⟩ | ⟨he, _⟩)
    · exact hq
    · exact absurd he hu

/-- An item that was nowhere turns up. -/
theorem add [DecidableEq ι] (h : Located holds loc) {i : ι} {k : κ} (hi : loc i = none)
    (hh : ∀ u q, holds' u q ↔ holds u q ∨ (u = i ∧ q = k)) :
    Located holds' (Function.update loc i (some k)) := by
  intro u q
  rw [hh]
  by_cases hu : u = i
  · subst hu
    rw [Function.update_self]
    refine ⟨?_, fun he => Or.inr ⟨rfl, (Option.some.inj he).symm⟩⟩
    rintro (hq | ⟨_, rfl⟩)
    · rw [h u q, hi] at hq
      cases hq
    · rfl
  · rw [Function.update_of_ne hu, ← h u q]
    refine ⟨?_, Or.inl⟩
    rintro (hq | ⟨he, _⟩)
    · exact hq
    · exact absurd he hu

end Located

end Ums.Lib
