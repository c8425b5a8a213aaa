/-
Limb arithmetic on the authenticator computes the authenticator.

The code keeps `h` in five limbs that are only partially carried, so a number has many
representations.  `Limbs.value` reads the number off, `Limbs.Small` says how far a limb can
exceed 26 bits between two blocks, and each stage of `poly1305_blocks` and
`poly1305_finish` is one lemma: what it does to the value modulo 2^130 - 5, and which bound
it leaves.  No sum or product in between reaches 2^64, which is what makes the word
arithmetic exact.
-/
import SysAwg.Poly1305
import SysAwg.Lib.Word64
import SysAwg.Proofs.LeNat

namespace SysAwg.Poly1305

open SysAwg.Standard (leNat)

/-- The number five limbs spell. -/
def Limbs.value (h : Limbs) : Nat :=
  h.l0.toNat + 2 ^ 26 * h.l1.toNat + 2 ^ 52 * h.l2.toNat + 2 ^ 78 * h.l3.toNat +
    2 ^ 104 * h.l4.toNat

/-- No limb reaches `b`. -/
structure Limbs.Below (h : Limbs) (b : Nat) : Prop where
  l0 : h.l0.toNat < b
  l1 : h.l1.toNat < b
  l2 : h.l2.toNat < b
  l3 : h.l3.toNat < b
  l4 : h.l4.toNat < b

/-- What holds of `h` between two blocks: only `h1` can exceed 26 bits, and not by much. -/
structure Limbs.Small (h : Limbs) : Prop where
  l0 : h.l0.toNat < 2 ^ 26
  l1 : h.l1.toNat < 2 ^ 26 + 2 ^ 10
  l2 : h.l2.toNat < 2 ^ 26
  l3 : h.l3.toNat < 2 ^ 26
  l4 : h.l4.toNat < 2 ^ 26

/-- The prime. -/
def p1305 : Nat := 2 ^ 130 - 5

theorem shr26 (a : UInt64) : (a >>> 26).toNat = a.toNat / 2 ^ 26 :=
  Word64.toNat_shr a rfl (by omega)

theorem mask26 (a : UInt64) : (a &&& 0x3ffffff).toNat = a.toNat % 2 ^ 26 :=
  Word64.toNat_mask a rfl

/-! ### Reading bytes into limbs

Four words overlap the five limbs of a block, each limb being 26 bits of one of them.  A
shift and a mask of a word are a quotient and a remainder of the number that the block
spells.
-/

theorem u8to32_toNat (b : Bytes) (off : Nat) :
    (u8to32 b off).toNat = leNat b / 256 ^ off % 2 ^ 32 := by
  rw [← Standard.four_bytes b off, u8to32]
  generalize b.getD off 0 = x0
  generalize b.getD (off + 1) 0 = x1
  generalize b.getD (off + 2) 0 = x2
  generalize b.getD (off + 3) 0 = x3
  have h0 := x0.toNat_lt
  have h1 := x1.toNat_lt
  have h2 := x2.toNat_lt
  have h3 := x3.toNat_lt
  have e1 : (x0.toUInt64 ||| x1.toUInt64 <<< 8).toNat = x0.toNat + x1.toNat * 2 ^ 8 :=
    Word64.toNat_or_shl rfl (by omega) h0 (by rw [UInt8.toNat_toUInt64]; omega)
  have e2 : (x0.toUInt64 ||| x1.toUInt64 <<< 8 ||| x2.toUInt64 <<< 16).toNat
      = x0.toNat + x1.toNat * 2 ^ 8 + x2.toNat * 2 ^ 16 := by
    rw [← e1]
    exact Word64.toNat_or_shl rfl (by omega) (by omega) (by rw [UInt8.toNat_toUInt64]; omega)
  have e3 : (x0.toUInt64 ||| x1.toUInt64 <<< 8 ||| x2.toUInt64 <<< 16 ||| x3.toUInt64 <<< 24).toNat
      = x0.toNat + x1.toNat * 2 ^ 8 + x2.toNat * 2 ^ 16 + x3.toNat * 2 ^ 24 := by
    rw [← e2]
    exact Word64.toNat_or_shl rfl (by omega) (by omega) (by rw [UInt8.toNat_toUInt64]; omega)
  rw [e3]
  omega

/-- The 26 bits of a block that limb `i` takes, for the four words that are masked. -/
theorem limb_of_word (b : Bytes) {off j i : Nat} {s : UInt64} (hs : s.toNat = j)
    (hi : 8 * off + j = 26 * i) (hj : j ≤ 6) :
    ((u8to32 b off >>> s) &&& 0x3ffffff).toNat = leNat b / 2 ^ (26 * i) % 2 ^ 26 := by
  have hsplit : leNat b / 2 ^ (26 * i) = leNat b / 256 ^ off / 2 ^ j := by
    rw [Nat.div_div_eq_div_mul, ← hi, Nat.pow_add, Nat.pow_mul]
  rw [mask26, Word64.toNat_shr _ hs (by omega), u8to32_toNat, hsplit]
  generalize leNat b / 256 ^ off = x
  interval_cases j <;> omega

theorem top_of_word (b : Bytes) : (u8to32 b 12 >>> 8).toNat = leNat b / 2 ^ 104 % 2 ^ 24 := by
  have hshift : (u8to32 b 12 >>> 8).toNat = (u8to32 b 12).toNat / 2 ^ 8 :=
    Word64.toNat_shr _ rfl (by omega)
  rw [hshift, u8to32_toNat]
  omega

/-- The value of the limbs a block is cut into. -/
theorem block_limbs (n : Nat) :
    n % 2 ^ 26 + 2 ^ 26 * (n / 2 ^ 26 % 2 ^ 26) + 2 ^ 52 * (n / 2 ^ 52 % 2 ^ 26) +
      2 ^ 78 * (n / 2 ^ 78 % 2 ^ 26) + 2 ^ 104 * (n / 2 ^ 104 % 2 ^ 24) = n % 2 ^ 128 := by
  omega

/-! ### `poly1305_blocks`

Three functions make up a block, and each has an equation and a bound.  The bounds fit
together: the accumulator with a block added stays little over 2^27, the products below
2^58, and a carried product is small again.
-/

/-- The bit above a block: 2^128 for a full one, none for the padded last one. -/
def IsHibit (hibit : UInt64) : Prop := hibit = 0 ∨ hibit = (1 : UInt64) <<< 24

theorem IsHibit.le {hibit : UInt64} (h : IsHibit hibit) : hibit.toNat ≤ 2 ^ 24 := by
  rcases h with rfl | rfl <;> decide

theorem toNat_or_hibit {hibit : UInt64} (h : IsHibit hibit) {a : UInt64} (ha : a.toNat < 2 ^ 24) :
    (a ||| hibit).toNat = a.toNat + hibit.toNat := by
  rcases h with rfl | rfl
  · simp
  · have hshl : ((1 : UInt64) <<< 24).toNat = 1 * 2 ^ 24 := by decide
    have hor : (a ||| (1 : UInt64) <<< 24).toNat = a.toNat + 1 * 2 ^ 24 :=
      Word64.toNat_or_shl rfl (by omega) ha (by decide)
    rw [hor, hshl]

/-- `h += m[i]` adds the block, with its top bit. -/
theorem addBlock_spec {h : Limbs} (hh : h.Small) {hibit : UInt64} (hbit : IsHibit hibit)
    {m : Bytes} (hm : m.length = 16) :
    (addBlock hibit h m).value = h.value + leNat m + 2 ^ 104 * hibit.toNat ∧
      (addBlock hibit h m).Below (2 ^ 27 + 2 ^ 10) := by
  obtain ⟨b0, b1, b2, b3, b4⟩ := hh
  have hlt : leNat m < 2 ^ 128 := by
    have := Standard.leNat_lt m
    rwa [hm] at this
  have hle := hbit.le
  have e0 : (u8to32 m 0 &&& 0x3ffffff).toNat = leNat m % 2 ^ 26 := by
    rw [mask26, u8to32_toNat]
    omega
  have e1 : ((u8to32 m 3 >>> 2) &&& 0x3ffffff).toNat = leNat m / 2 ^ 26 % 2 ^ 26 :=
    @limb_of_word m 3 2 1 2 rfl rfl (by omega)
  have e2 : ((u8to32 m 6 >>> 4) &&& 0x3ffffff).toNat = leNat m / 2 ^ 52 % 2 ^ 26 :=
    @limb_of_word m 6 4 2 4 rfl rfl (by omega)
  have e3 : ((u8to32 m 9 >>> 6) &&& 0x3ffffff).toNat = leNat m / 2 ^ 78 % 2 ^ 26 :=
    @limb_of_word m 9 6 3 6 rfl rfl (by omega)
  have e4 : ((u8to32 m 12 >>> 8) ||| hibit).toNat
      = leNat m / 2 ^ 104 % 2 ^ 24 + hibit.toNat := by
    rw [toNat_or_hibit hbit (by rw [top_of_word]; omega), top_of_word]
  have a0 := Word64.toNat_add (a := h.l0) (b := u8to32 m 0 &&& 0x3ffffff) (by omega)
  have a1 := Word64.toNat_add (a := h.l1) (b := (u8to32 m 3 >>> 2) &&& 0x3ffffff) (by omega)
  have a2 := Word64.toNat_add (a := h.l2) (b := (u8to32 m 6 >>> 4) &&& 0x3ffffff) (by omega)
  have a3 := Word64.toNat_add (a := h.l3) (b := (u8to32 m 9 >>> 6) &&& 0x3ffffff) (by omega)
  have a4 := Word64.toNat_add (a := h.l4) (b := (u8to32 m 12 >>> 8) ||| hibit) (by omega)
  constructor
  · have hcut := block_limbs (leNat m)
    simp only [Limbs.value, addBlock, a0, a1, a2, a3, a4, e0, e1, e2, e3, e4]
    omega
  · constructor <;> simp only [addBlock] <;> omega

/-- A sum of five products of limbs is exact. -/
theorem toNat_dot {a0 a1 a2 a3 a4 c0 c1 c2 c3 c4 : UInt64} {A C : Nat}
    (h0 : a0.toNat ≤ A) (h1 : a1.toNat ≤ A) (h2 : a2.toNat ≤ A) (h3 : a3.toNat ≤ A)
    (h4 : a4.toNat ≤ A) (k0 : c0.toNat ≤ C) (k1 : c1.toNat ≤ C) (k2 : c2.toNat ≤ C)
    (k3 : c3.toNat ≤ C) (k4 : c4.toNat ≤ C) (hfit : 5 * (A * C) < 2 ^ 64) :
    (a0 * c0 + a1 * c1 + a2 * c2 + a3 * c3 + a4 * c4).toNat
        = a0.toNat * c0.toNat + a1.toNat * c1.toNat + a2.toNat * c2.toNat + a3.toNat * c3.toNat +
          a4.toNat * c4.toNat ∧
      (a0 * c0 + a1 * c1 + a2 * c2 + a3 * c3 + a4 * c4).toNat ≤ 5 * (A * C) := by
  have p0 := Nat.mul_le_mul h0 k0
  have p1 := Nat.mul_le_mul h1 k1
  have p2 := Nat.mul_le_mul h2 k2
  have p3 := Nat.mul_le_mul h3 k3
  have p4 := Nat.mul_le_mul h4 k4
  have hexact : (a0 * c0 + a1 * c1 + a2 * c2 + a3 * c3 + a4 * c4).toNat
      = a0.toNat * c0.toNat + a1.toNat * c1.toNat + a2.toNat * c2.toNat + a3.toNat * c3.toNat +
        a4.toNat * c4.toNat := by
    simp only [UInt64.toNat_add, UInt64.toNat_mul, Nat.mod_add_mod, Nat.add_mod_mod]
    apply Nat.mod_eq_of_lt
    omega
  constructor
  · exact hexact
  · rw [hexact]
    omega

theorem toNat_times5 {a : UInt64} (h : a.toNat < 2 ^ 26) : (a * 5).toNat = a.toNat * 5 :=
  Word64.toNat_mul (show a.toNat * 5 < 2 ^ 64 by omega)

/-- The products are exact, and spell the product up to a multiple of the prime. -/
theorem mulR_spec {r h : Limbs} (hr : r.Below (2 ^ 26)) (hh : h.Below (2 ^ 27 + 2 ^ 10)) :
    (∃ k, h.value * r.value = (mulR r h).value + p1305 * k) ∧ (mulR r h).Below (2 ^ 58) := by
  obtain ⟨a0, a1, a2, a3, a4⟩ := hh
  obtain ⟨b0, b1, b2, b3, b4⟩ := hr
  have s1 := toNat_times5 b1
  have s2 := toNat_times5 b2
  have s3 := toNat_times5 b3
  have s4 := toNat_times5 b4
  have hfit : 5 * ((2 ^ 27 + 2 ^ 10) * (5 * 2 ^ 26)) < 2 ^ 58 := by norm_num
  have d0 := @toNat_dot h.l0 h.l1 h.l2 h.l3 h.l4 r.l0 (r.l4 * 5) (r.l3 * 5) (r.l2 * 5) (r.l1 * 5)
    (2 ^ 27 + 2 ^ 10) (5 * 2 ^ 26) (by omega) (by omega) (by omega) (by omega) (by omega) (by omega)
    (by omega) (by omega) (by omega) (by omega) (by omega)
  have d1 := @toNat_dot h.l0 h.l1 h.l2 h.l3 h.l4 r.l1 r.l0 (r.l4 * 5) (r.l3 * 5) (r.l2 * 5)
    (2 ^ 27 + 2 ^ 10) (5 * 2 ^ 26) (by omega) (by omega) (by omega) (by omega) (by omega) (by omega)
    (by omega) (by omega) (by omega) (by omega) (by omega)
  have d2 := @toNat_dot h.l0 h.l1 h.l2 h.l3 h.l4 r.l2 r.l1 r.l0 (r.l4 * 5) (r.l3 * 5)
    (2 ^ 27 + 2 ^ 10) (5 * 2 ^ 26) (by omega) (by omega) (by omega) (by omega) (by omega) (by omega)
    (by omega) (by omega) (by omega) (by omega) (by omega)
  have d3 := @toNat_dot h.l0 h.l1 h.l2 h.l3 h.l4 r.l3 r.l2 r.l1 r.l0 (r.l4 * 5)
    (2 ^ 27 + 2 ^ 10) (5 * 2 ^ 26) (by omega) (by omega) (by omega) (by omega) (by omega) (by omega)
    (by omega) (by omega) (by omega) (by omega) (by omega)
  have d4 := @toNat_dot h.l0 h.l1 h.l2 h.l3 h.l4 r.l4 r.l3 r.l2 r.l1 r.l0
    (2 ^ 27 + 2 ^ 10) (5 * 2 ^ 26) (by omega) (by omega) (by omega) (by omega) (by omega) (by omega)
    (by omega) (by omega) (by omega) (by omega) (by omega)
  constructor
  · -- the products that belong above 2^130 were multiplied by five instead
    refine ⟨h.l1.toNat * r.l4.toNat + h.l2.toNat * r.l3.toNat + h.l3.toNat * r.l2.toNat +
      h.l4.toNat * r.l1.toNat + 2 ^ 26 * (h.l2.toNat * r.l4.toNat + h.l3.toNat * r.l3.toNat +
      h.l4.toNat * r.l2.toNat) + 2 ^ 52 * (h.l3.toNat * r.l4.toNat + h.l4.toNat * r.l3.toNat) +
      2 ^ 78 * (h.l4.toNat * r.l4.toNat), ?_⟩
    simp only [Limbs.value, mulR, d0.1, d1.1, d2.1, d3.1, d4.1, s1, s2, s3, s4, p1305]
    norm_num
    ring
  · exact ⟨Nat.lt_of_le_of_lt d0.2 hfit, Nat.lt_of_le_of_lt d1.2 hfit,
      Nat.lt_of_le_of_lt d2.2 hfit, Nat.lt_of_le_of_lt d3.2 hfit, Nat.lt_of_le_of_lt d4.2 hfit⟩

theorem toNat_carry {a b : UInt64} (ha : a.toNat < 2 ^ 58) (hb : b.toNat < 2 ^ 59) :
    (a + (b >>> 26)).toNat = a.toNat + b.toNat / 2 ^ 26 := by
  rw [← shr26]
  exact Word64.toNat_add (by rw [shr26]; omega)

/-- The carry out of the top limb comes back five times. -/
theorem toNat_carry5 {a b : UInt64} (ha : a.toNat < 2 ^ 26) (hb : b.toNat < 2 ^ 59) :
    (a + (b >>> 26) * 5).toNat = a.toNat + b.toNat / 2 ^ 26 * 5 := by
  have hmul : ((b >>> 26) * 5).toNat = b.toNat / 2 ^ 26 * 5 := by
    rw [← shr26]
    exact Word64.toNat_mul (show (b >>> 26).toNat * 5 < 2 ^ 64 by rw [shr26]; omega)
  rw [← hmul]
  exact Word64.toNat_add (by rw [hmul]; omega)

/-- Carrying changes the value by a multiple of the prime. -/
theorem partialReduce_spec {d : Limbs} (hd : d.Below (2 ^ 58)) :
    (∃ k, d.value = (partialReduce d).value + p1305 * k) ∧ (partialReduce d).Small := by
  obtain ⟨b0, b1, b2, b3, b4⟩ := hd
  have e1 := toNat_carry b1 (show d.l0.toNat < 2 ^ 59 by omega)
  have e2 := toNat_carry b2 (show (d.l1 + (d.l0 >>> 26)).toNat < 2 ^ 59 by omega)
  set d1 := d.l1 + (d.l0 >>> 26) with hd1
  have e3 := toNat_carry b3 (show (d.l2 + (d1 >>> 26)).toNat < 2 ^ 59 by omega)
  set d2 := d.l2 + (d1 >>> 26) with hd2
  have e4 := toNat_carry b4 (show (d.l3 + (d2 >>> 26)).toNat < 2 ^ 59 by omega)
  set d3 := d.l3 + (d2 >>> 26) with hd3
  set d4 := d.l4 + (d3 >>> 26) with hd4
  have m0 := mask26 d.l0
  have e0 := @toNat_carry5 (d.l0 &&& 0x3ffffff) d4 (by omega) (by omega)
  set h0 := (d.l0 &&& (0x3ffffff : UInt64)) + (d4 >>> 26) * 5 with hh0
  have m1 := mask26 d1
  have e5 := @toNat_carry (d1 &&& 0x3ffffff) h0 (by omega) (by omega)
  have hval : partialReduce d = ⟨h0 &&& 0x3ffffff, (d1 &&& (0x3ffffff : UInt64)) + (h0 >>> 26),
      d2 &&& 0x3ffffff, d3 &&& 0x3ffffff, d4 &&& 0x3ffffff⟩ := rfl
  rw [hval]
  constructor
  · refine ⟨d4.toNat / 2 ^ 26, ?_⟩
    simp only [Limbs.value, mask26, e5, p1305]
    omega
  · constructor <;> simp only [mask26, e5] <;> omega

/-- **One block.**  The value moves as the block says modulo the prime, and stays small. -/
theorem block_spec {r h : Limbs} (hr : r.Below (2 ^ 26)) (hh : h.Small) {hibit : UInt64}
    (hbit : IsHibit hibit) {m : Bytes} (hm : m.length = 16) :
    (partialReduce (mulR r (addBlock hibit h m))).value % p1305
        = (h.value + leNat m + 2 ^ 104 * hibit.toNat) * r.value % p1305 ∧
      (partialReduce (mulR r (addBlock hibit h m))).Small := by
  obtain ⟨hadd, hbelow⟩ := addBlock_spec hh hbit hm
  obtain ⟨⟨k, hmul⟩, hwide⟩ := mulR_spec hr hbelow
  obtain ⟨⟨j, hcarry⟩, hsmall⟩ := partialReduce_spec hwide
  refine ⟨?_, hsmall⟩
  rw [← hadd, hmul, hcarry, Nat.add_assoc, ← Nat.mul_add, Nat.add_mul_mod_self_left]

/-! ### `poly1305_finish`

The number is carried twice, compared with the prime by a subtraction whose sign is read off
the top limb, and cut into words of 32 bits.  Each function again has an equation and a
bound.
-/

/-- After the second carry every limb has 26 bits: a carry out of the top leaves `h1` tiny. -/
theorem fullyCarry_spec {h : Limbs} (hh : h.Small) :
    (∃ k, h.value = (fullyCarry h).value + p1305 * k) ∧ (fullyCarry h).Below (2 ^ 26) := by
  obtain ⟨b0, b1, b2, b3, b4⟩ := hh
  have e2 := @toNat_carry h.l2 h.l1 (by omega) (by omega)
  set h2 := h.l2 + (h.l1 >>> 26) with hh2
  have e3 := @toNat_carry h.l3 h2 (by omega) (by omega)
  set h3 := h.l3 + (h2 >>> 26) with hh3
  have e4 := @toNat_carry h.l4 h3 (by omega) (by omega)
  set h4 := h.l4 + (h3 >>> 26) with hh4
  have e0 := @toNat_carry5 h.l0 h4 (by omega) (by omega)
  set h0 := h.l0 + (h4 >>> 26) * 5 with hh0
  have m1 := mask26 h.l1
  have e1 := @toNat_carry (h.l1 &&& 0x3ffffff) h0 (by omega) (by omega)
  have hval : fullyCarry h = ⟨h0 &&& 0x3ffffff, (h.l1 &&& (0x3ffffff : UInt64)) + (h0 >>> 26),
      h2 &&& 0x3ffffff, h3 &&& 0x3ffffff, h4 &&& 0x3ffffff⟩ := rfl
  rw [hval]
  constructor
  · refine ⟨h4.toNat / 2 ^ 26, ?_⟩
    simp only [Limbs.value, mask26, e1, p1305]
    omega
  · constructor <;> simp only [mask26, e1] <;> omega

/-- The mask is all ones when `g4` did not go below zero. -/
theorem selectReduced_eq_right (h : Limbs) {g : Limbs} (hg : g.l4.toNat < 2 ^ 63) :
    selectReduced h g = g := by
  have hshr : (g.l4 >>> 63).toNat = g.l4.toNat / 2 ^ 63 := Word64.toNat_shr g.l4 rfl (by omega)
  have hzero : g.l4 >>> 63 = 0 := UInt64.toNat_inj.mp (show _ = 0 by omega)
  have hmask : (0 : UInt64) - 1 = -1 := by decide
  simp [selectReduced, hzero, hmask]

/-- The mask is zero when `g4` wrapped, so the smaller number is kept. -/
theorem selectReduced_eq_left {h g : Limbs} (hg : 2 ^ 63 ≤ g.l4.toNat) : selectReduced h g = h := by
  have hlt := g.l4.toNat_lt
  have hshr : (g.l4 >>> 63).toNat = g.l4.toNat / 2 ^ 63 := Word64.toNat_shr g.l4 rfl (by omega)
  have hone : g.l4 >>> 63 = 1 := UInt64.toNat_inj.mp (show _ = 1 by omega)
  simp [selectReduced, hone]

/-- Reduced below the prime: `h` if it is, and `h - p` if not. -/
theorem selectReduced_spec {h : Limbs} (hh : h.Below (2 ^ 26)) :
    (selectReduced h (minusP h)).value = h.value % p1305 ∧
      (selectReduced h (minusP h)).Below (2 ^ 26) := by
  have hbelow := hh
  obtain ⟨b0, b1, b2, b3, b4⟩ := hh
  have e0 : (h.l0 + 5).toNat = h.l0.toNat + 5 := Word64.toNat_add (show h.l0.toNat + 5 < _ by omega)
  set g0 := h.l0 + 5 with hg0
  have e1 := @toNat_carry h.l1 g0 (by omega) (by omega)
  set g1 := h.l1 + (g0 >>> 26) with hg1
  have e2 := @toNat_carry h.l2 g1 (by omega) (by omega)
  set g2 := h.l2 + (g1 >>> 26) with hg2
  have e3 := @toNat_carry h.l3 g2 (by omega) (by omega)
  set g3 := h.l3 + (g2 >>> 26) with hg3
  have e4 := @toNat_carry h.l4 g3 (by omega) (by omega)
  set t4 := h.l4 + (g3 >>> 26) with ht4
  have hg : minusP h = ⟨g0 &&& 0x3ffffff, g1 &&& 0x3ffffff, g2 &&& 0x3ffffff, g3 &&& 0x3ffffff,
      t4 - ((1 : UInt64) <<< 26)⟩ := rfl
  have hone : ((1 : UInt64) <<< 26).toNat = 2 ^ 26 := by decide
  have htop : (t4 - ((1 : UInt64) <<< 26)).toNat = (2 ^ 64 - 2 ^ 26 + t4.toNat) % 2 ^ 64 := by
    rw [UInt64.toNat_sub, hone]
  rw [hg]
  by_cases hge : 2 ^ 26 ≤ t4.toNat
  · have hzero : (t4 - ((1 : UInt64) <<< 26)).toNat = 0 := by omega
    rw [selectReduced_eq_right h (by show (t4 - ((1 : UInt64) <<< 26)).toNat < _; omega)]
    clear htop
    constructor
    · have hdiff : h.value = (⟨g0 &&& 0x3ffffff, g1 &&& 0x3ffffff, g2 &&& 0x3ffffff,
          g3 &&& 0x3ffffff, t4 - ((1 : UInt64) <<< 26)⟩ : Limbs).value + p1305 := by
        simp only [Limbs.value, mask26, hzero, p1305]
        omega
      have hlt : h.value < p1305 + p1305 := by
        simp only [Limbs.value, p1305]
        omega
      rw [hdiff, Nat.add_mod_right]
      exact (Nat.mod_eq_of_lt (by omega)).symm
    · constructor <;> simp only [mask26, hzero] <;> omega
  · rw [selectReduced_eq_left (by show _ ≤ (t4 - ((1 : UInt64) <<< 26)).toNat; omega)]
    refine ⟨?_, hbelow⟩
    simp only [Limbs.value, p1305]
    omega

/-- The number four words spell, each cut to 32 bits. -/
def Pad.value (w : Pad) : Nat :=
  w.p0.toNat % 2 ^ 32 + 2 ^ 32 * (w.p1.toNat % 2 ^ 32) + 2 ^ 64 * (w.p2.toNat % 2 ^ 32) +
    2 ^ 96 * (w.p3.toNat % 2 ^ 32)

structure Pad.Fits (w : Pad) : Prop where
  p0 : w.p0.toNat < 2 ^ 32
  p1 : w.p1.toNat < 2 ^ 32
  p2 : w.p2.toNat < 2 ^ 32
  p3 : w.p3.toNat < 2 ^ 32

/-- One packed word: the rest of a limb below the low bits of the next. -/
theorem toNat_packed {a b s t : UInt64} {j k : Nat} (hs : s.toNat = j) (ht : t.toNat = k)
    (hjk : j + k = 26) (ha : a.toNat < 2 ^ 26) (hb : b.toNat < 2 ^ 26) :
    (((a >>> s) ||| (b <<< t)) &&& 0xffffffff).toNat
      = (a.toNat / 2 ^ j + b.toNat * 2 ^ k) % 2 ^ 32 := by
  have hpow : 2 ^ j * 2 ^ k = 2 ^ 26 := by rw [← Nat.pow_add, hjk]
  have hshr := Word64.toNat_shr a hs (by omega)
  have hlow : (a >>> s).toNat < 2 ^ k := by
    rw [hshr, Nat.div_lt_iff_lt_mul (Nat.two_pow_pos j), Nat.mul_comm, hpow]
    exact ha
  have hk : 2 ^ k ≤ 2 ^ 26 := Nat.pow_le_pow_right (by omega) (by omega)
  have hhigh : b.toNat * 2 ^ k < 2 ^ 64 := by
    calc b.toNat * 2 ^ k ≤ 2 ^ 26 * 2 ^ 26 := Nat.mul_le_mul (Nat.le_of_lt hb) hk
      _ < 2 ^ 64 := by norm_num
  rw [Word64.toNat_mask _ (show (0xffffffff : UInt64).toNat = 2 ^ 32 - 1 from rfl),
    Word64.toNat_or_shl ht (by omega) hlow hhigh, hshr]

/-- The words are the low 128 bits of the limbs. -/
theorem packWords_spec {h : Limbs} (hh : h.Below (2 ^ 26)) :
    (packWords h).value = h.value % 2 ^ 128 ∧ (packWords h).Fits := by
  obtain ⟨b0, b1, b2, b3, b4⟩ := hh
  have w0 : (packWords h).p0.toNat = (h.l0.toNat + h.l1.toNat * 2 ^ 26) % 2 ^ 32 := by
    have hzero : h.l0 >>> 0 = h.l0 := by simp
    have := @toNat_packed h.l0 h.l1 0 26 0 26 rfl rfl rfl b0 b1
    rwa [hzero, Nat.pow_zero, Nat.div_one] at this
  have w1 : (packWords h).p1.toNat = (h.l1.toNat / 2 ^ 6 + h.l2.toNat * 2 ^ 20) % 2 ^ 32 :=
    toNat_packed rfl rfl rfl b1 b2
  have w2 : (packWords h).p2.toNat = (h.l2.toNat / 2 ^ 12 + h.l3.toNat * 2 ^ 14) % 2 ^ 32 :=
    toNat_packed rfl rfl rfl b2 b3
  have w3 : (packWords h).p3.toNat = (h.l3.toNat / 2 ^ 18 + h.l4.toNat * 2 ^ 8) % 2 ^ 32 :=
    toNat_packed rfl rfl rfl b3 b4
  constructor
  · simp only [Pad.value, Limbs.value, w0, w1, w2, w3]
    omega
  · constructor <;> omega

/-- The sum of the words and the pad, modulo 2^128. -/
theorem addPad_spec {w pad : Pad} (hw : w.Fits) (hp : pad.Fits) :
    (addPad w pad).value = (w.value + pad.value) % 2 ^ 128 := by
  obtain ⟨a0, a1, a2, a3⟩ := hw
  obtain ⟨b0, b1, b2, b3⟩ := hp
  have hcarry : ∀ {a b f : UInt64}, a.toNat < 2 ^ 32 → b.toNat < 2 ^ 32 → f.toNat < 2 ^ 34 →
      (a + b + (f >>> 32)).toNat = a.toNat + b.toNat + f.toNat / 2 ^ 32 := by
    intro a b f ha hb hf
    have hshr : (f >>> 32).toNat = f.toNat / 2 ^ 32 := Word64.toNat_shr f rfl (by omega)
    have hab := Word64.toNat_add (a := a) (b := b) (by omega)
    rw [Word64.toNat_add (by omega), hab, hshr]
  have f0 := Word64.toNat_add (a := w.p0) (b := pad.p0) (by omega)
  have f1 := @hcarry w.p1 pad.p1 (w.p0 + pad.p0) a1 b1 (by omega)
  set x1 := w.p1 + pad.p1 + ((w.p0 + pad.p0) >>> 32) with hx1
  have f2 := @hcarry w.p2 pad.p2 x1 a2 b2 (by omega)
  set x2 := w.p2 + pad.p2 + (x1 >>> 32) with hx2
  have f3 := @hcarry w.p3 pad.p3 x2 a3 b3 (by omega)
  have hval : addPad w pad = ⟨w.p0 + pad.p0, x1, x2, w.p3 + pad.p3 + (x2 >>> 32)⟩ := rfl
  rw [hval]
  simp only [Pad.value, f0, f1, f2, f3]
  omega

@[simp] theorem length_u32to8 (v : UInt64) : (u32to8 v).length = 4 := rfl

theorem leNat_u32to8 (v : UInt64) : leNat (u32to8 v) = v.toNat % 2 ^ 32 := by
  have hbyte : ∀ x : UInt64, x.toUInt8.toNat = x.toNat % 256 := fun x => UInt64.toNat_toUInt8 x
  have h8 : (v >>> 8).toNat = v.toNat / 2 ^ 8 := Word64.toNat_shr v rfl (by omega)
  have h16 : (v >>> 16).toNat = v.toNat / 2 ^ 16 := Word64.toNat_shr v rfl (by omega)
  have h24 : (v >>> 24).toNat = v.toNat / 2 ^ 24 := Word64.toNat_shr v rfl (by omega)
  simp only [u32to8, leNat, hbyte, h8, h16, h24]
  omega

theorem leNat_mac (f : Pad) :
    leNat (u32to8 f.p0 ++ u32to8 f.p1 ++ u32to8 f.p2 ++ u32to8 f.p3) = f.value := by
  simp only [Standard.leNat_append, leNat_u32to8, List.length_append, length_u32to8, Pad.value]
  omega

/-! ### `poly1305_init` -/

/-- The mask of the key's first half. -/
def clampMask : Nat := 0x0ffffffc0ffffffc0ffffffc0fffffff

/-- A limb of a masked number is the masked limb. -/
theorem limb_and (n : Nat) {i m : Nat} (hm : clampMask / 2 ^ (26 * i) % 2 ^ 26 = m) :
    (n &&& clampMask) / 2 ^ (26 * i) % 2 ^ 26 = n / 2 ^ (26 * i) % 2 ^ 26 &&& m := by
  rw [← Nat.shiftRight_eq_div_pow, Nat.shiftRight_and_distrib, Nat.and_mod_two_pow,
    Nat.shiftRight_eq_div_pow, Nat.shiftRight_eq_div_pow, hm]

/-- Bits the mask does not have do not matter. -/
theorem and_low {x m k : Nat} (hm : m < 2 ^ k) : x % 2 ^ k &&& m = x &&& m := by
  have h := @Nat.and_mod_two_pow x m k
  rw [Nat.mod_eq_of_lt hm] at h
  rw [← h]
  exact Nat.mod_eq_of_lt (Nat.lt_of_le_of_lt Nat.and_le_right hm)

/-- One limb of the key. -/
theorem key_limb (b : Bytes) {off j i m : Nat} {s t : UInt64} (hs : s.toNat = j) (ht : t.toNat = m)
    (hi : 8 * off + j = 26 * i) (hj : j ≤ 8) (hlt : m < 2 ^ 24 ∨ m < 2 ^ 26 ∧ j ≤ 6)
    (hm : clampMask / 2 ^ (26 * i) % 2 ^ 26 = m) :
    ((u8to32 b off >>> s) &&& t).toNat = (leNat b &&& clampMask) / 2 ^ (26 * i) % 2 ^ 26 := by
  have hsplit : leNat b / 2 ^ (26 * i) = leNat b / 256 ^ off / 2 ^ j := by
    rw [Nat.div_div_eq_div_mul, ← hi, Nat.pow_add, Nat.pow_mul]
  have hword : leNat b / 256 ^ off % 2 ^ 32 / 2 ^ j = leNat b / 256 ^ off / 2 ^ j % 2 ^ (32 - j) := by
    have hpow : 2 ^ 32 = 2 ^ j * 2 ^ (32 - j) := by rw [← Nat.pow_add, Nat.add_sub_cancel' (by omega)]
    rw [hpow, Nat.mod_mul_right_div_self]
  have hbound : m < 2 ^ (32 - j) := by
    rcases hlt with h | ⟨h, hj6⟩
    · exact Nat.lt_of_lt_of_le h (Nat.pow_le_pow_right (by omega) (by omega))
    · exact Nat.lt_of_lt_of_le h (Nat.pow_le_pow_right (by omega) (by omega))
  have hbound' : m < 2 ^ 26 := by omega
  rw [limb_and _ hm, and_low hbound', UInt64.toNat_and, ht, Word64.toNat_shr _ hs (by omega),
    u8to32_toNat, hword, and_low hbound, hsplit]

/-- The key's two halves are in the context. -/
theorem poly1305Init_spec (st : State) (key : Key) :
    (poly1305Init st key).r.value = leNat (key.toList.take 16) &&& clampMask ∧
      (poly1305Init st key).r.Below (2 ^ 26) ∧
      (poly1305Init st key).pad.value = leNat (key.toList.drop 16) ∧
      (poly1305Init st key).pad.Fits := by
  set k := key.toList with hk
  have hlen : k.length = 32 := by simp [hk]
  have hlt := Standard.leNat_lt k
  rw [hlen] at hlt
  have hzero : u8to32 k 0 >>> 0 = u8to32 k 0 := by simp
  have e0 : (u8to32 k 0 &&& 0x3ffffff).toNat = (leNat k &&& clampMask) / 2 ^ (26 * 0) % 2 ^ 26 := by
    rw [← hzero]
    exact @key_limb k 0 0 0 _ 0 _ rfl rfl rfl (by omega) (by decide) (by decide)
  have e1 : ((u8to32 k 3 >>> 2) &&& 0x3ffff03).toNat
      = (leNat k &&& clampMask) / 2 ^ (26 * 1) % 2 ^ 26 :=
    key_limb k rfl rfl rfl (by decide) (by decide) (by decide)
  have e2 : ((u8to32 k 6 >>> 4) &&& 0x3ffc0ff).toNat
      = (leNat k &&& clampMask) / 2 ^ (26 * 2) % 2 ^ 26 :=
    key_limb k rfl rfl rfl (by decide) (by decide) (by decide)
  have e3 : ((u8to32 k 9 >>> 6) &&& 0x3f03fff).toNat
      = (leNat k &&& clampMask) / 2 ^ (26 * 3) % 2 ^ 26 :=
    key_limb k rfl rfl rfl (by decide) (by decide) (by decide)
  have e4 : ((u8to32 k 12 >>> 8) &&& 0x00fffff).toNat
      = (leNat k &&& clampMask) / 2 ^ (26 * 4) % 2 ^ 26 :=
    key_limb k rfl rfl rfl (by decide) (by decide) (by decide)
  have hclamp : leNat (k.take 16) &&& clampMask = leNat k &&& clampMask := by
    rw [Standard.leNat_take]
    exact @and_low _ _ 128 (by decide)
  have hsmall : leNat k &&& clampMask < 2 ^ 124 :=
    Nat.lt_of_le_of_lt Nat.and_le_right (by decide)
  have w0 := u8to32_toNat k 16
  have w1 := u8to32_toNat k 20
  have w2 := u8to32_toNat k 24
  have w3 := u8to32_toNat k 28
  refine ⟨?_, ?_, ?_, ?_⟩
  · rw [hclamp]
    simp only [Limbs.value, poly1305Init, ← hk, e0, e1, e2, e3, e4]
    omega
  · constructor <;> simp only [poly1305Init, ← hk, e0, e1, e2, e3, e4] <;> omega
  · rw [Standard.leNat_drop]
    simp only [Pad.value, poly1305Init, ← hk, w0, w1, w2, w3]
    omega
  · constructor <;> simp only [poly1305Init, ← hk, w0, w1, w2, w3] <;> omega

end SysAwg.Poly1305
