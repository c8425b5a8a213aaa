/-
32-bit words and the numbers that pack them.

The protocol's model of a primitive carries its state as one number, the code as an array
of words.  Reading a word of the number, storing the words as bytes, and combining two
states word by word all agree.
-/
import SysAwg.Proofs.LeNat
import Mathlib.Tactic.IntervalCases

namespace SysAwg.Standard

theorem toNat_plus (a b : UInt32) : (a + b).toNat = (a.toNat + b.toNat) % 4294967296 :=
  UInt32.toNat_add a b

theorem toNat_plus3 (a b c : UInt32) :
    (a + b + c).toNat = (a.toNat + b.toNat + c.toNat) % 4294967296 := by
  rw [toNat_plus, toNat_plus, Nat.mod_add_mod]

/-- A vector of sixteen words, word by word. -/
theorem exists_words (v : Vector UInt32 16) :
    ∃ v0 v1 v2 v3 v4 v5 v6 v7 v8 v9 v10 v11 v12 v13 v14 v15,
      v = #v[v0, v1, v2, v3, v4, v5, v6, v7, v8, v9, v10, v11, v12, v13, v14, v15] := by
  refine ⟨v[0], v[1], v[2], v[3], v[4], v[5], v[6], v[7], v[8], v[9], v[10], v[11], v[12], v[13],
    v[14], v[15], ?_⟩
  apply Vector.ext
  intro i hi
  interval_cases i <;> rfl

/-! ### Words as bytes -/

theorem leNat_le32 (w : UInt32) : leNat (Bytes.le32 w) = w.toNat := by
  have hbyte : ∀ x : UInt32, x.toUInt8.toNat = x.toNat % 256 := fun x => UInt32.toNat_toUInt8 x
  have hshr : ∀ (s : UInt32) (k : Nat), s.toNat = k → k < 32 →
      (w >>> s).toNat = w.toNat / 2 ^ k := by
    intro s k hs hk
    rw [UInt32.toNat_shiftRight, hs, Nat.mod_eq_of_lt hk, Nat.shiftRight_eq_div_pow]
  have hlt := w.toNat_lt
  simp only [Bytes.le32, leNat, hbyte, hshr 8 8 rfl (by omega), hshr 16 16 rfl (by omega),
    hshr 24 24 rfl (by omega)]
  omega

theorem packWords_cons (w : UInt32) (ws : List UInt32) :
    Standard.packWords ((w :: ws).map UInt32.toNat)
      = w.toNat + 2 ^ 32 * Standard.packWords (ws.map UInt32.toNat) := by
  rw [List.map_cons]
  show w.toNat + _ <<< 32 = _
  rw [Nat.shiftLeft_eq, Nat.mul_comm]

/-- Words stored one after the other spell the packed words. -/
theorem leNat_words (ws : List UInt32) :
    leNat (ws.flatMap Bytes.le32) = Standard.packWords (ws.map UInt32.toNat) := by
  induction ws with
  | nil => rfl
  | cons w ws ih =>
      have happend : leNat ((w :: ws).flatMap Bytes.le32)
          = leNat (Bytes.le32 w) + 256 ^ 4 * leNat (ws.flatMap Bytes.le32) := by
        rw [List.flatMap_cons]
        exact Standard.leNat_append _ _
      rw [happend, packWords_cons, leNat_le32, ih]
      omega

theorem length_words (ws : List UInt32) : (ws.flatMap Bytes.le32).length = 4 * ws.length := by
  induction ws with
  | nil => rfl
  | cons w ws ih =>
      rw [List.flatMap_cons, List.length_append, ih, Bytes.length_le32, List.length_cons]
      omega

/-- A word read from bytes. -/
theorem word32_toNat (b : Bytes) (off : Nat) :
    (Bytes.word32 b off).toNat = leNat b / 256 ^ off % 2 ^ 32 := by
  rw [← four_bytes b off, Bytes.word32]
  generalize b.getD off 0 = x0
  generalize b.getD (off + 1) 0 = x1
  generalize b.getD (off + 2) 0 = x2
  generalize b.getD (off + 3) 0 = x3
  have h0 := x0.toNat_lt
  have h1 := x1.toNat_lt
  have h2 := x2.toNat_lt
  have h3 := x3.toNat_lt
  have e1 := Bytes.toNat_shiftLeft_or x1.toUInt32 x0.toUInt32 (show 8 < 32 by omega) h0
  rw [UInt32.or_comm, UInt8.toNat_toUInt32, UInt8.toNat_toUInt32] at e1
  have e2 := Bytes.toNat_shiftLeft_or x2.toUInt32 (x0.toUInt32 ||| x1.toUInt32 <<< UInt32.ofNat 8)
    (show 16 < 32 by omega) (by omega)
  rw [UInt32.or_comm, e1, UInt8.toNat_toUInt32] at e2
  have e3 := Bytes.toNat_shiftLeft_or x3.toUInt32
    (x0.toUInt32 ||| x1.toUInt32 <<< UInt32.ofNat 8 ||| x2.toUInt32 <<< UInt32.ofNat 16)
    (show 24 < 32 by omega) (by omega)
  rw [UInt32.or_comm, e2, UInt8.toNat_toUInt32] at e3
  refine Eq.trans e3 ?_
  omega

theorem word_low (w : UInt32) (p : Nat) : word (w.toNat + 2 ^ 32 * p) 0 = w.toNat := by
  have hlt := w.toNat_lt
  rw [word, Nat.mul_zero, Nat.shiftRight_zero]
  omega

theorem word_high (w : UInt32) (p i : Nat) :
    word (w.toNat + 2 ^ 32 * p) (i + 1) = word p i := by
  have hlt := w.toNat_lt
  have hone : (w.toNat + 2 ^ 32 * p) / 2 ^ 32 = p := by omega
  rw [word, Nat.mul_succ, Nat.add_comm (32 * i), Nat.shiftRight_add,
    Nat.shiftRight_eq_div_pow _ 32, hone, word]

/-- Word `i` of packed words. -/
theorem word_packWords (ws : List UInt32) (i : Nat) :
    word (packWords (ws.map UInt32.toNat)) i = (ws.getD i 0).toNat := by
  induction ws generalizing i with
  | nil =>
      show word 0 i = 0
      rw [word, Nat.zero_shiftRight]
  | cons w ws ih =>
      rw [packWords_cons]
      cases i with
      | zero => exact word_low w _
      | succ i =>
          rw [word_high, List.getD_cons_succ]
          exact ih i

/-- Exclusive or goes word by word. -/
theorem packWords_xor (a b : List UInt32) (h : a.length = b.length) :
    packWords (a.map UInt32.toNat) ^^^ packWords (b.map UInt32.toNat)
      = packWords ((List.zipWith (· ^^^ ·) a b).map UInt32.toNat) := by
  induction a generalizing b with
  | nil => cases b with
    | nil => rfl
    | cons y b => simp at h
  | cons x a ih => cases b with
    | nil => simp at h
    | cons y b =>
        have hx := x.toNat_lt
        have hy := y.toNat_lt
        rw [List.zipWith_cons_cons, packWords_cons, packWords_cons, packWords_cons,
          ← ih b (by simpa using h), UInt32.toNat_xor]
        generalize packWords (a.map UInt32.toNat) = p
        generalize packWords (b.map UInt32.toNat) = q
        -- quotient and remainder by 2^32 on both sides
        have hquot : ((x.toNat + 2 ^ 32 * p) ^^^ (y.toNat + 2 ^ 32 * q)) / 2 ^ 32 = p ^^^ q := by
          rw [← Nat.shiftRight_eq_div_pow, Nat.shiftRight_xor_distrib, Nat.shiftRight_eq_div_pow,
            Nat.shiftRight_eq_div_pow]
          congr 1 <;> omega
        have hrem : ((x.toNat + 2 ^ 32 * p) ^^^ (y.toNat + 2 ^ 32 * q)) % 2 ^ 32
            = x.toNat ^^^ y.toNat := by
          rw [Nat.xor_mod_two_pow]
          congr 1 <;> omega
        omega

end SysAwg.Standard
