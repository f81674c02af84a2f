import Mathlib.Data.Nat.Bitwise
import Mathlib.Tactic.Common

/-!
# The state word of a shared mutex

`Shared_mutex_state` packs the number of readers and the write flag into one 32-bit
word, and counts readers with a raw `++` and `--` on the word. `word w r` is the word
that says `w` and `r`; as long as `r` stays below `2 ^ 31` the operations are the
ones their names promise.
-/

namespace Ums

/-- `Shared_mutex_state`. -/
abbrev SharedMutexState := BitVec 32

namespace SharedMutexState

/-- `readers_bits`. -/
def readersBits : BitVec 32 := 0x7fffffff#32

/-- `write_bits`. -/
def writeBits : BitVec 32 := 0x80000000#32

variable (s : SharedMutexState)

/-- `readers`. -/
def readers : BitVec 32 := (s &&& readersBits) >>> 0

/-- `write`. -/
def write : BitVec 32 := (s &&& writeBits) >>> 31

/-- `has_readers`. -/
def hasReaders : Bool := readers s != 0#32

/-- `inc_readers`. -/
def incReaders : SharedMutexState := s + 1#32

/-- `dec_readers`. -/
def decReaders : SharedMutexState := s - 1#32

/-- `max_readers`. -/
def maxReaders : Bool := s &&& readersBits == readersBits

/-- `has_write`. -/
def hasWrite : Bool := write s != 0#32

/-- `set_write`. -/
def setWrite : SharedMutexState := s ||| writeBits

/-- `unset_write`. -/
def unsetWrite : SharedMutexState := s &&& ~~~writeBits

/-- The largest number of readers, `2 ^ 31 - 1`. -/
def maxCount : Nat := 2 ^ 31 - 1

/-- The word for a write flag and a number of readers. -/
def word (w : Bool) (r : Nat) : SharedMutexState := BitVec.ofNat 32 ((if w then 2 ^ 31 else 0) + r)

variable {w : Bool} {r : Nat}

theorem toNat_word (h : r ≤ maxCount) : (word w r).toNat = (if w then 2 ^ 31 else 0) + r := by
  unfold maxCount at h
  rw [word, BitVec.toNat_ofNat]
  cases w <;> simp <;> omega

theorem toNat_and_readersBits (x : BitVec 32) : (x &&& readersBits).toNat = x.toNat % 2 ^ 31 := by
  have hbits : readersBits.toNat = 2 ^ 31 - 1 := rfl
  rw [BitVec.toNat_and, hbits, Nat.and_two_pow_sub_one_eq_mod]

/-- The low 31 bits are the number of readers. -/
theorem toNat_readers_word (h : r ≤ maxCount) : (readers (word w r)).toNat = r := by
  rw [readers, BitVec.toNat_ushiftRight, Nat.shiftRight_zero, toNat_and_readersBits, toNat_word h]
  unfold maxCount at h
  cases w <;> simp <;> omega

theorem hasReaders_word (h : r ≤ maxCount) : hasReaders (word w r) = decide (r ≠ 0) := by
  rw [hasReaders, Bool.eq_iff_iff, bne_iff_ne, decide_eq_true_eq]
  constructor
  · rintro hne rfl
    exact hne (BitVec.eq_of_toNat_eq (toNat_readers_word h))
  · rintro hr he
    have := toNat_readers_word (w := w) h
    rw [he] at this
    exact hr this.symm

theorem maxReaders_word (h : r ≤ maxCount) : maxReaders (word w r) = decide (r = maxCount) := by
  rw [maxReaders, Bool.eq_iff_iff, beq_iff_eq, decide_eq_true_eq, ← BitVec.toNat_inj,
    toNat_and_readersBits, toNat_word h, show readersBits.toNat = maxCount from rfl]
  unfold maxCount at *
  cases w <;> simp <;> omega

/-- The top bit is the write flag. -/
theorem hasWrite_word (h : r ≤ maxCount) : hasWrite (word w r) = w := by
  have hbit : (word w r &&& writeBits).toNat = if w then 2 ^ 31 else 0 := by
    rw [BitVec.toNat_and, toNat_word h, show writeBits.toNat = 2 ^ 31 from rfl, Nat.and_two_pow]
    unfold maxCount at h
    cases w
    · rw [Nat.testBit_lt_two_pow (by simp; omega)]
      rfl
    · rw [if_pos rfl, Nat.testBit_two_pow_add_eq, Nat.testBit_lt_two_pow (by omega)]
      rfl
  have hwrite : (write (word w r)).toNat = if w then 1 else 0 := by
    rw [write, BitVec.toNat_ushiftRight, hbit, Nat.shiftRight_eq_div_pow]
    cases w <;> rfl
  rw [hasWrite]
  cases w
  · rw [BitVec.eq_of_toNat_eq (y := 0#32) hwrite]
    rfl
  · rw [BitVec.eq_of_toNat_eq (y := 1#32) hwrite]
    rfl

/-- A reader more does not carry into the write flag. -/
theorem incReaders_word (h : r < maxCount) : incReaders (word w r) = word w (r + 1) := by
  refine BitVec.eq_of_toNat_eq ?_
  rw [incReaders, BitVec.toNat_add, toNat_word (by omega), toNat_word (by omega)]
  unfold maxCount at h
  cases w <;> simp <;> omega

/-- A reader less does not borrow from the write flag. -/
theorem decReaders_word (h : r < maxCount) : decReaders (word w (r + 1)) = word w r := by
  refine BitVec.eq_of_toNat_eq ?_
  rw [decReaders, BitVec.toNat_sub, toNat_word (by omega), toNat_word (by omega)]
  unfold maxCount at h
  cases w <;> simp <;> omega

theorem unsetWrite_word (h : r ≤ maxCount) : unsetWrite (word w r) = word false r := by
  refine BitVec.eq_of_toNat_eq ?_
  rw [unsetWrite, show ~~~writeBits = readersBits from by decide, toNat_and_readersBits,
    toNat_word h, toNat_word h]
  unfold maxCount at h
  cases w <;> simp <;> omega

theorem setWrite_word (h : r ≤ maxCount) : setWrite (word w r) = word true r := by
  refine BitVec.eq_of_toNat_eq ?_
  rw [setWrite, BitVec.toNat_or, toNat_word h, toNat_word h,
    show writeBits.toNat = 2 ^ 31 from rfl, if_pos rfl]
  have hlt : r < 2 ^ 31 := by
    unfold maxCount at h
    omega
  have hor : 2 ^ 31 + r = 2 ^ 31 ||| r := by
    have := Nat.two_pow_add_eq_or_of_lt hlt 1
    rwa [Nat.mul_one] at this
  cases w
  · rw [if_neg (by simp), Nat.zero_add, hor, Nat.or_comm]
  · rw [if_pos rfl, hor, Nat.or_comm, ← Nat.or_assoc, Nat.or_self]

end SharedMutexState

end Ums
