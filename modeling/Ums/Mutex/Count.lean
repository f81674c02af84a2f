import Mathlib.Data.BitVec
import Mathlib.Tactic.Common

/-!
# The depth counter of the recursive mutexes

`rmtx_inc_lc` counts first and looks afterwards: it takes its increment back when the
counter has reached `max_rec_locks`. What the throwing variant throws is its result
`false` here.
-/

namespace Ums

/-- `max_rec_locks`. -/
def maxRecLocks : BitVec 32 := 0xffffffff#32

/-- `rmtx_inc_lc`: the counter afterwards, and whether it was counted up. -/
def rmtxIncLc (locksCount : BitVec 32) : BitVec 32 × Bool :=
  if locksCount + 1#32 = maxRecLocks then (locksCount + 1#32 - 1#32, false)
  else (locksCount + 1#32, true)

/-- `rmtx_dec_lc`. -/
def rmtxDecLc (locksCount : BitVec 32) : BitVec 32 := locksCount - 1#32

variable {n : BitVec 32}

theorem toNat_succ (h : n.toNat < 2 ^ 32 - 1) : (n + 1#32).toNat = n.toNat + 1 := by
  rw [BitVec.toNat_add]
  simp only [BitVec.toNat_ofNat]
  omega

/-- Below its limit the counter is counted up, and does not wrap. -/
theorem rmtxIncLc_of_lt (h : n.toNat + 1 < 2 ^ 32 - 1) : rmtxIncLc n = (n + 1#32, true) := by
  refine if_neg fun he => ?_
  have hn := congrArg BitVec.toNat he
  rw [toNat_succ (by omega)] at hn
  have hmax : maxRecLocks.toNat = 2 ^ 32 - 1 := rfl
  omega

/-- At its limit it stays as it is. -/
theorem rmtxIncLc_of_eq (h : n.toNat + 1 = 2 ^ 32 - 1) : rmtxIncLc n = (n, false) := by
  have he : n + 1#32 = maxRecLocks := by
    refine BitVec.eq_of_toNat_eq ?_
    rw [toNat_succ (by omega), h]
    rfl
  rw [rmtxIncLc, if_pos he, BitVec.add_sub_cancel]

/-- What it does when it counts up. -/
theorem rmtxIncLc_counts (hb : n.toNat < 2 ^ 32 - 1) (h : (rmtxIncLc n).2 = true) :
    n.toNat + 1 < 2 ^ 32 - 1 ∧ (rmtxIncLc n).1 = n + 1#32 := by
  by_cases hn : n.toNat + 1 < 2 ^ 32 - 1
  · exact ⟨hn, by rw [rmtxIncLc_of_lt hn]⟩
  · rw [rmtxIncLc_of_eq (by omega)] at h
    cases h

/-- What it does when it does not. -/
theorem rmtxIncLc_full (hb : n.toNat < 2 ^ 32 - 1) (h : ¬(rmtxIncLc n).2 = true) :
    n.toNat + 1 = 2 ^ 32 - 1 ∧ (rmtxIncLc n).1 = n := by
  by_cases hn : n.toNat + 1 < 2 ^ 32 - 1
  · rw [rmtxIncLc_of_lt hn] at h
    exact absurd rfl h
  · have he : n.toNat + 1 = 2 ^ 32 - 1 := by omega
    exact ⟨he, by rw [rmtxIncLc_of_eq he]⟩

/-- A counter that is not zero is counted down, and does not wrap. -/
theorem toNat_rmtxDecLc (h : 0 < n.toNat) : (rmtxDecLc n).toNat + 1 = n.toNat := by
  have hlt := n.isLt
  rw [rmtxDecLc, BitVec.toNat_sub]
  simp only [BitVec.toNat_ofNat]
  omega

theorem eq_zero_iff_toNat : n = 0#32 ↔ n.toNat = 0 := by
  constructor
  · rintro rfl
    rfl
  · intro h
    exact BitVec.eq_of_toNat_eq h

end Ums
