import Mathlib.Data.Nat.Bitwise

/-!
# Bit fields of natural numbers

Packing fields with `|||` and `<<<` is addition when the fields do not overlap,
and a mask of contiguous ones is a remainder or a rounding down.
-/

namespace PipelineTunnel.Bits

/-- A field placed above all bits of `low` is added to it. -/
theorem or_shiftLeft {low k : Nat} (h : low < 2 ^ k) (high : Nat) :
    low ||| high <<< k = low + high * 2 ^ k := by
  rw [Nat.shiftLeft_eq, Nat.or_comm, Nat.mul_comm, ← Nat.two_pow_add_eq_or_of_lt h,
    Nat.add_comm]

/-- A field placed below a shifted one is added to it. -/
theorem shiftLeft_or {low k : Nat} (h : low < 2 ^ k) (high : Nat) :
    high <<< k ||| low = high * 2 ^ k + low := by
  rw [Nat.or_comm, or_shiftLeft h, Nat.add_comm]

/-- Masking out the low `k` bits of a number below `2 ^ n` rounds it down. -/
theorem and_highMask {x k n : Nat} (hkn : k ≤ n) (h : x < 2 ^ n) :
    x &&& ((2 ^ (n - k) - 1) * 2 ^ k) = x / 2 ^ k * 2 ^ k := by
  apply Nat.eq_of_testBit_eq
  intro i
  rw [Nat.testBit_and, Nat.testBit_mul_two_pow, Nat.testBit_mul_two_pow,
    Nat.testBit_two_pow_sub_one]
  by_cases hi : k ≤ i
  · rw [Nat.testBit_div_two_pow, Nat.sub_add_cancel hi]
    by_cases hin : i < n
    · simp only [hi, decide_true, Bool.true_and]
      rw [decide_eq_true (by omega), Bool.and_true]
    · have hbit : x.testBit i = false :=
        Nat.testBit_lt_two_pow (lt_of_lt_of_le h (Nat.pow_le_pow_right (by decide) (by omega)))
      simp [hbit]
  · simp [hi]

end PipelineTunnel.Bits
