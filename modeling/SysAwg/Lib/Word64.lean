/-
64-bit words as numbers.

Arithmetic on limbs keeps its values far below the word size, so that every sum and
product is the one of the numbers.  The lemmas here move a word operation to the numbers,
each under the bound that makes it exact; a shift, a mask and a disjoint union of bits are
quotient, remainder and sum.
-/
import Mathlib.Data.Nat.Basic
import Mathlib.Tactic.NormNum

namespace Word64

theorem toNat_add {a b : UInt64} (h : a.toNat + b.toNat < 2 ^ 64) :
    (a + b).toNat = a.toNat + b.toNat := by
  rw [UInt64.toNat_add]
  exact Nat.mod_eq_of_lt h

theorem toNat_mul {a b : UInt64} (h : a.toNat * b.toNat < 2 ^ 64) :
    (a * b).toNat = a.toNat * b.toNat := by
  rw [UInt64.toNat_mul]
  exact Nat.mod_eq_of_lt h

theorem toNat_shr {s : UInt64} {k : Nat} (a : UInt64) (hs : s.toNat = k) (hk : k < 64) :
    (a >>> s).toNat = a.toNat / 2 ^ k := by
  rw [UInt64.toNat_shiftRight, hs, Nat.mod_eq_of_lt hk, Nat.shiftRight_eq_div_pow]

theorem toNat_shl {a s : UInt64} {k : Nat} (hs : s.toNat = k) (hk : k < 64)
    (h : a.toNat * 2 ^ k < 2 ^ 64) : (a <<< s).toNat = a.toNat * 2 ^ k := by
  rw [UInt64.toNat_shiftLeft, hs, Nat.mod_eq_of_lt hk, Nat.shiftLeft_eq]
  exact Nat.mod_eq_of_lt h

/-- The low `k` bits. -/
theorem toNat_mask {s : UInt64} {k : Nat} (a : UInt64) (hs : s.toNat = 2 ^ k - 1) :
    (a &&& s).toNat = a.toNat % 2 ^ k := by
  rw [UInt64.toNat_and, hs, Nat.and_two_pow_sub_one_eq_mod]

/-- What is put above the lower part is added. -/
theorem toNat_or_shl {a b s : UInt64} {k : Nat} (hs : s.toNat = k) (hk : k < 64)
    (ha : a.toNat < 2 ^ k) (hb : b.toNat * 2 ^ k < 2 ^ 64) :
    (a ||| b <<< s).toNat = a.toNat + b.toNat * 2 ^ k := by
  rw [UInt64.toNat_or, toNat_shl hs hk hb, Nat.or_comm, Nat.mul_comm,
    ← Nat.two_pow_add_eq_or_of_lt ha, Nat.add_comm]

end Word64
