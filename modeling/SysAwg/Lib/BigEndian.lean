/-
Byte strings in the order of their bytes.

Strings of one length are ordered as the numbers they spell, high byte first.  So a
comparison of encoded words, field after field, is a comparison of numbers, and the first
field in which two encodings differ decides it.
-/
import SysAwg.Lib.Bytes
import Mathlib.Tactic.Ring

namespace Bytes

/-- The number that a byte string spells, high byte first. -/
def bigEndian : Bytes → Nat
  | [] => 0
  | c :: b => c.toNat * 256 ^ b.length + bigEndian b

theorem bigEndian_lt (b : Bytes) : bigEndian b < 256 ^ b.length := by
  induction b with
  | nil => exact Nat.one_pos
  | cons c b ih =>
      have hc : c.toNat < 256 := c.toNat_lt
      rw [bigEndian, List.length_cons, Nat.pow_succ]
      calc c.toNat * 256 ^ b.length + bigEndian b
          < c.toNat * 256 ^ b.length + 256 ^ b.length := by omega
        _ = (c.toNat + 1) * 256 ^ b.length := by ring
        _ ≤ 256 * 256 ^ b.length := Nat.mul_le_mul_right _ hc
        _ = 256 ^ b.length * 256 := Nat.mul_comm _ _

/-- The first part decides, and after it the second. -/
theorem digits_lt_iff {x y r s n : Nat} (hr : r < n) (hs : s < n) :
    x * n + r < y * n + s ↔ x < y ∨ x = y ∧ r < s := by
  rcases Nat.lt_trichotomy x y with hxy | rfl | hxy
  · have hstep : x * n + n ≤ y * n := by
      rw [← Nat.succ_mul]
      exact Nat.mul_le_mul_right n hxy
    omega
  · omega
  · have hstep : y * n + n ≤ x * n := by
      rw [← Nat.succ_mul]
      exact Nat.mul_le_mul_right n hxy
    omega

/-- **Strings of one length are ordered as the numbers they spell.** -/
theorem lt_iff_bigEndian {a b : Bytes} (h : a.length = b.length) :
    a < b ↔ bigEndian a < bigEndian b := by
  induction a generalizing b with
  | nil =>
      obtain rfl := List.length_eq_zero_iff.mp h.symm
      simp [bigEndian]
  | cons x a ih =>
      cases b with
      | nil => cases h
      | cons y b =>
          have hlen : a.length = b.length := Nat.succ.inj h
          rw [List.cons_lt_cons_iff, ih hlen, bigEndian, bigEndian, hlen,
            digits_lt_iff (hlen ▸ bigEndian_lt a) (bigEndian_lt b), UInt8.lt_iff_toNat_lt,
            ← UInt8.toNat_inj]

theorem bigEndian_append (a b : Bytes) :
    bigEndian (a ++ b) = bigEndian a * 256 ^ b.length + bigEndian b := by
  induction a with
  | nil => simp [bigEndian]
  | cons c a ih =>
      rw [List.cons_append, bigEndian, ih, bigEndian, List.length_append, Nat.pow_add]
      ring

/-- The low `n` bytes of a word, high byte first. -/
theorem bigEndian_leBytes (n : Nat) (v : UInt64) :
    bigEndian (leBytes n v).reverse = v.toNat % 256 ^ n := by
  induction n generalizing v with
  | zero => simp [leBytes, bigEndian, Nat.mod_one]
  | succ n ih =>
      rw [leBytes, List.reverse_cons, bigEndian_append, ih]
      have hshift : (v >>> 8).toNat = v.toNat / 256 := by
        simp [UInt64.toNat_shiftRight, Nat.shiftRight_eq_div_pow]
      have hlow : bigEndian [v.toUInt8] = v.toNat % 256 := by
        simp [bigEndian]
      rw [hshift, hlow, List.length_singleton, Nat.pow_one, Nat.pow_succ', Nat.mod_mul]
      ring

/-- The four bytes of a 32-bit word, high byte first. -/
theorem bigEndian_le32 (v : UInt32) : bigEndian (le32 v).reverse = v.toNat := by
  have hv : v.toNat < 4294967296 := v.toNat_lt
  have h8 : (v >>> 8).toUInt8.toNat = v.toNat / 256 % 256 := by
    simp [Nat.shiftRight_eq_div_pow]
  have h16 : (v >>> 16).toUInt8.toNat = v.toNat / 65536 % 256 := by
    simp [Nat.shiftRight_eq_div_pow]
  have h24 : (v >>> 24).toUInt8.toNat = v.toNat / 16777216 % 256 := by
    simp [Nat.shiftRight_eq_div_pow]
  have h0 : v.toUInt8.toNat = v.toNat % 256 := UInt32.toNat_toUInt8 v
  simp only [le32, List.reverse_cons, List.reverse_nil, List.nil_append, List.cons_append,
    bigEndian, List.length_cons, List.length_nil, h0, h8, h16, h24]
  omega

end Bytes
