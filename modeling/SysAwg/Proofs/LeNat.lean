/-
The number a byte string spells.

The authenticator, the hash and the field arithmetic read their inputs as little-endian
numbers, in words of different widths that overlap byte boundaries.  Reading a part of a
string is a quotient and a remainder of the whole number, and a string of known length is
known by its number; with these two every such reading is arithmetic.
-/
import SysAwg.Standard
import Mathlib.Data.Nat.Digits.Defs

namespace SysAwg.Standard

/-- Forcing a number does not change what is done with it. -/
theorem force_eq {α : Type} (n : Nat) (k : Nat → α) : force n k = k n := by
  cases n with
  | zero => rfl
  | succ n => rfl

theorem leNat_eq_ofDigits (b : Bytes) : leNat b = Nat.ofDigits 256 (b.map UInt8.toNat) := by
  induction b with
  | nil => rfl
  | cons x xs ih => rw [leNat, List.map_cons, Nat.ofDigits_cons, ih]

private theorem digit_lt (b : Bytes) : ∀ d ∈ b.map UInt8.toNat, d < 256 := by
  intro d hd
  obtain ⟨x, -, rfl⟩ := List.mem_map.mp hd
  exact x.toNat_lt

@[simp] theorem leNat_append (a b : Bytes) :
    leNat (a ++ b) = leNat a + 256 ^ a.length * leNat b := by
  simp only [leNat_eq_ofDigits, List.map_append, Nat.ofDigits_append, List.length_map]

theorem leNat_lt (b : Bytes) : leNat b < 256 ^ b.length := by
  have h := Nat.ofDigits_lt_base_pow_length (by omega) (digit_lt b)
  rwa [List.length_map, ← leNat_eq_ofDigits] at h

theorem leNat_drop (b : Bytes) (n : Nat) : leNat (b.drop n) = leNat b / 256 ^ n := by
  rw [leNat_eq_ofDigits, leNat_eq_ofDigits,
    Nat.ofDigits_div_pow_eq_ofDigits_drop n (by omega) _ (digit_lt b), List.map_drop]

theorem leNat_take (b : Bytes) (n : Nat) : leNat (b.take n) = leNat b % 256 ^ n := by
  rw [leNat_eq_ofDigits, leNat_eq_ofDigits,
    Nat.ofDigits_mod_pow_eq_ofDigits_take n (by omega) _ (digit_lt b), List.map_take]

@[simp] theorem leNat_replicate_zero (n : Nat) : leNat (List.replicate n 0) = 0 := by
  induction n with
  | zero => rfl
  | succ n ih => simp [List.replicate_succ, leNat, ih]

/-- Strings of one length with the same number are the same. -/
theorem leNat_inj {a b : Bytes} (hlen : a.length = b.length) (h : leNat a = leNat b) : a = b := by
  rw [leNat_eq_ofDigits, leNat_eq_ofDigits] at h
  have hmap := Nat.ofDigits_inj_of_len_eq (by omega) (by simpa using hlen) (digit_lt a) (digit_lt b) h
  exact List.map_injective_iff.mpr (fun _ _ => UInt8.toNat_inj.mp) hmap

/-- One byte of the number. -/
theorem getD_toNat (b : Bytes) (i : Nat) : (b.getD i 0).toNat = leNat b / 256 ^ i % 256 := by
  rw [← leNat_drop]
  rcases h : b.drop i with _ | ⟨x, xs⟩
  · have hlen := List.drop_eq_nil_iff.mp h
    simp [leNat, List.getD_eq_getElem?_getD, List.getElem?_eq_none hlen]
  · have hx : b[i]? = some x := by
      rw [← List.head?_drop, h]
      rfl
    simp only [List.getD_eq_getElem?_getD, hx, leNat, Option.getD_some]
    have := x.toNat_lt
    omega

/-- Four bytes in a row. -/
theorem four_bytes (b : Bytes) (off : Nat) :
    (b.getD off 0).toNat + 256 * (b.getD (off + 1) 0).toNat + 65536 * (b.getD (off + 2) 0).toNat +
      16777216 * (b.getD (off + 3) 0).toNat = leNat b / 256 ^ off % 2 ^ 32 := by
  simp only [getD_toNat, Nat.pow_add, ← Nat.div_div_eq_div_mul]
  omega

theorem leNat_natBytes (n v : Nat) : leNat (natBytes n v).toList = v % 256 ^ n := by
  have hlist : ∀ n v, (natBytes n v).toList
      = (List.range n).map fun i => UInt8.ofNat (v >>> (8 * i)) := by
    intro n v
    apply List.ext_getElem
    · simp
    · intro i _ _
      simp [natBytes]
  rw [hlist]
  clear hlist
  induction n generalizing v with
  | zero => simp [leNat, Nat.mod_one]
  | succ n ih =>
      have hstep : (List.range n).map ((fun i => UInt8.ofNat (v >>> (8 * i))) ∘ Nat.succ)
          = (List.range n).map fun i => UInt8.ofNat ((v / 256) >>> (8 * i)) := by
        apply List.map_congr_left
        intro i _
        rw [Function.comp_apply, Nat.shiftRight_eq_div_pow, Nat.shiftRight_eq_div_pow,
          Nat.div_div_eq_div_mul, Nat.mul_succ, Nat.add_comm (8 * i), Nat.pow_add]
      rw [List.range_succ_eq_map, List.map_cons, List.map_map, hstep, leNat, ih]
      rw [Nat.pow_succ, Nat.mul_comm (256 ^ n), Nat.mod_mul]
      simp

/-- A string is the bytes of its number. -/
theorem toList_natBytes {b : Bytes} {n v : Nat} (hlen : b.length = n) (h : leNat b = v % 256 ^ n) :
    (natBytes n v).toList = b :=
  leNat_inj (by simpa using hlen.symm) (by rw [leNat_natBytes, h])

end SysAwg.Standard
