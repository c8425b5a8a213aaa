/-
What `x25519` computes.

The code works on limbs that are reduced when needed, swaps by mask and divides through a
fixed chain of products; the protocol's model works on residues, swaps by a decision and
divides by a power.  Both are the same ladder over the field, the code's by reading its
limbs as an element and the model's by casting its residues.  What is left is then one
fraction, and the least residue of it is unique.
-/
import SysAwg.Proofs.FieldLimbs
import SysAwg.Proofs.Words32
import SysAwg.Lib.Montgomery

namespace SysAwg.X25519

open Limbs (value)
open Standard (prime leNat)
open Montgomery (Pair rung climb)

/-! ### The ladder on limbs

The elements of the ladder stand for two fractions.  The two halves of a step are followed
in the letters of the source, up to the points where an element is used for something else.
-/

/-- The limbs stand for the points of a ladder. -/
structure Xs.Reads (xs : Xs) (s : Pair (ZMod prime)) : Prop where
  x2 : xs.x2.el = s.x2
  z2 : xs.z2.el = s.z2
  x3 : xs.x3.el = s.x3
  z3 : xs.z3.el = s.z3
  tight2 : xs.z2.Tight
  tight3 : xs.z3.Tight

theorem Fe.Tight.room {x : Fe} (h : x.Tight) : x.val + 38 ≤ 2 ^ 256 := by
  rw [Fe.Tight] at h
  omega

theorem el_mul1 (out a : Fe) : (mul1 out a).el = out.el * a.el ∧ (mul1 out a).Tight := by
  obtain ⟨hel, htight⟩ := el_mul a out
  exact ⟨by rw [mul1, hel, mul_comm], htight⟩

theorem el_a24 (x : Fe) : (mulBy x a24).el = x.el * 121665 ∧ (mulBy x a24).Tight := by
  obtain ⟨hel, htight⟩ := el_mulBy x (b := a24) (by decide)
  exact ⟨by rw [hel]; rfl, htight⟩

/-- What the first part of a step leaves, in the letters of the source. -/
structure Xs.Half (xs : Xs) (a b da cb : ZMod prime) : Prop where
  x2 : xs.x2.el = a * a - b * b
  z2 : xs.z2.el = (a * a - b * b) * 121665 + a * a
  x3 : xs.x3.el = da + cb
  z3 : xs.z3.el = da - cb
  t1 : xs.t1.el = a * a
  tight2 : xs.x2.Tight

theorem Xs.Reads.part1 {xs : Xs} {s : Pair (ZMod prime)} (h : xs.Reads s) :
    (ladderPart1 xs).Half (s.x2 + s.z2) (s.x2 - s.z2) ((s.x3 - s.z3) * (s.x2 + s.z2))
      ((s.x3 + s.z3) * (s.x2 - s.z2)) := by
  obtain ⟨ha, -⟩ := el_add xs.x2 xs.z2
  obtain ⟨hb, -⟩ := el_sub xs.x2 xs.z2 h.tight2.room
  obtain ⟨hc, -⟩ := el_add xs.x3 xs.z3
  obtain ⟨hd, -⟩ := el_sub xs.x3 xs.z3 h.tight3.room
  rw [h.x2, h.z2] at ha hb
  rw [h.x3, h.z3] at hc hd
  obtain ⟨hda, -⟩ := el_mul1 (sub xs.x3 xs.z3) (add xs.x2 xs.z2)
  obtain ⟨hcb, hcbt⟩ := el_mul1 (add xs.x3 xs.z3) (sub xs.x2 xs.z2)
  obtain ⟨haa, -⟩ := el_mul1 (add xs.x2 xs.z2) (add xs.x2 xs.z2)
  obtain ⟨hbb, hbbt⟩ := el_mul1 (sub xs.x2 xs.z2) (sub xs.x2 xs.z2)
  rw [ha] at haa hda
  rw [hb] at hbb hcb
  rw [hd] at hda
  rw [hc] at hcb
  obtain ⟨hx3, -⟩ := el_add (mul1 (sub xs.x3 xs.z3) (add xs.x2 xs.z2))
    (mul1 (add xs.x3 xs.z3) (sub xs.x2 xs.z2))
  obtain ⟨hz3, -⟩ := el_sub (mul1 (sub xs.x3 xs.z3) (add xs.x2 xs.z2)) _ hcbt.room
  obtain ⟨he, het⟩ := el_sub (mul1 (add xs.x2 xs.z2) (add xs.x2 xs.z2)) _ hbbt.room
  obtain ⟨hmul, -⟩ := el_a24 (sub (mul1 (add xs.x2 xs.z2) (add xs.x2 xs.z2))
    (mul1 (sub xs.x2 xs.z2) (sub xs.x2 xs.z2)))
  obtain ⟨hz2, -⟩ := el_add (mulBy (sub (mul1 (add xs.x2 xs.z2) (add xs.x2 xs.z2))
    (mul1 (sub xs.x2 xs.z2) (sub xs.x2 xs.z2))) a24) (mul1 (add xs.x2 xs.z2) (add xs.x2 xs.z2))
  rw [haa, hbb] at he
  rw [he] at hmul
  exact ⟨he, hz2.trans (by rw [hmul, haa]), hx3.trans (by rw [hda, hcb]),
    hz3.trans (by rw [hda, hcb]), haa, het⟩

/-- Both parts of a step are one rung. -/
theorem Xs.Reads.rung {xs : Xs} {s : Pair (ZMod prime)} (h : xs.Reads s) (x1 : Fe) :
    (ladderPart2 (ladderPart1 xs) x1).Reads (Montgomery.rung 121665 x1.el s) := by
  have hhalf := h.part1
  generalize ladderPart1 xs = ys at hhalf
  obtain ⟨hz3, -⟩ := el_mul1 ys.z3 ys.z3
  obtain ⟨hz3', hz3t⟩ := el_mul1 (mul1 ys.z3 ys.z3) x1
  obtain ⟨hx3, -⟩ := el_mul1 ys.x3 ys.x3
  obtain ⟨hz2, hz2t⟩ := el_mul1 ys.z2 ys.x2
  obtain ⟨hbb, -⟩ := el_sub ys.t1 ys.x2 hhalf.tight2.room
  obtain ⟨hx2, -⟩ := el_mul1 (sub ys.t1 ys.x2) ys.t1
  refine ⟨hx2.trans ?_, hz2.trans ?_, hx3.trans ?_, hz3'.trans ?_, hz2t, hz3t⟩
  · rw [hbb, hhalf.t1, hhalf.x2]
    simp only [Montgomery.rung]
    ring
  · rw [hhalf.z2, hhalf.x2]
    simp only [Montgomery.rung]
    ring
  · rw [hhalf.x3]
    simp only [Montgomery.rung]
  · rw [hz3, hhalf.z3]
    simp only [Montgomery.rung]
    ring

/-- A swap by mask is a swap by decision. -/
theorem Xs.Reads.condswap {xs : Xs} {s : Pair (ZMod prime)} (h : xs.Reads s) (swap : Bool) :
    (xs.condswap (mask swap)).Reads (s.swapIf swap) := by
  rw [Xs.condswap, condswap_mask, condswap_mask]
  cases swap with
  | false => exact h
  | true => exact ⟨h.x3, h.z3, h.x2, h.z2, h.tight3, h.tight2⟩

theorem mask_xor (a b : Bool) : mask a ^^^ mask b = mask (b != a) := by
  cases a <;> cases b <;> rfl

/-- The whole loop, and the swap after it. -/
theorem coreLoop_reads (scalar : Bytes) (x1 : Fe) {bits : Nat → Bool} (n : Nat) (swap : Bool)
    {xs : Xs} {s : Pair (ZMod prime)} (hbits : ∀ i < n, doswapOf scalar i = mask (bits i))
    (h : xs.Reads s) :
    ((coreLoop scalar x1 n (mask swap) xs).1.condswap (coreLoop scalar x1 n (mask swap) xs).2).Reads
      (climb 121665 x1.el bits n swap s) := by
  induction n generalizing swap xs s with
  | zero => exact h.condswap swap
  | succ n ih =>
      have hbit := hbits n (Nat.lt_succ_self n)
      have hswap := h.condswap (bits n != swap)
      rw [coreLoop, hbit, mask_xor]
      exact ih _ (fun i hi => hbits i (Nat.lt_succ_of_lt hi)) (hswap.rung x1)

/-! ### The clamped scalar

The bytes of the scalar are clamped as they are read, one bit at a time, and the number they
spell is clamped in the model.  Both set and clear the same bits.
-/

/-- The number `x25519` multiplies with. -/
def clamped (scalar : Bytes) : Nat :=
  leNat scalar - leNat scalar % 8 - leNat scalar >>> 254 <<< 254 + 2 ^ 254

/-- Bits 0 to 2 and 255 go, bit 254 is set, the others stay. -/
theorem testBit_clamped (scalar : Bytes) {i : Nat} (hi : i < 256) :
    (clamped scalar).testBit i
      = (i == 254 || (decide (3 ≤ i) && decide (i < 254) && (leNat scalar).testBit i)) := by
  have hform : clamped scalar = 2 ^ 254 + leNat scalar / 2 ^ 3 % 2 ^ 251 * 2 ^ 3 := by
    rw [clamped, Nat.shiftRight_eq_div_pow, Nat.shiftLeft_eq]
    omega
  have hlow : ∀ j, (leNat scalar / 2 ^ 3 % 2 ^ 251 * 2 ^ 3).testBit j
      = (decide (3 ≤ j) && decide (j < 254) && (leNat scalar).testBit j) := by
    intro j
    rw [Nat.testBit_mul_two_pow, Nat.testBit_mod_two_pow, Nat.testBit_div_two_pow]
    by_cases hj : 3 ≤ j
    · have hdec : decide (j - 3 < 251) = decide (j < 254) := decide_eq_decide.mpr (by omega)
      rw [hdec, Nat.sub_add_cancel hj, Bool.and_assoc]
    · simp [hj]
  rw [hform]
  rcases Nat.lt_trichotomy i 254 with h | rfl | h
  · rw [Nat.testBit_two_pow_add_gt h, hlow]
    simp [Nat.ne_of_lt h]
  · rw [Nat.testBit_two_pow_add_eq, hlow]
    simp
  · obtain rfl : i = 255 := by omega
    have hbound : 2 ^ 254 + leNat scalar / 2 ^ 3 % 2 ^ 251 * 2 ^ 3 < 2 ^ 255 := by omega
    rw [Nat.testBit_lt_two_pow hbound]
    simp

/-- A bit of the number is a bit of one byte. -/
theorem testBit_byte (scalar : Bytes) (i : Nat) :
    (scalar.getD (i / 8) 0).toNat.testBit (i % 8) = (leNat scalar).testBit i := by
  have h256 : 256 ^ (i / 8) = 2 ^ (8 * (i / 8)) := by rw [Nat.pow_mul]
  have hmod : i % 8 < 8 := Nat.mod_lt _ (by omega)
  rw [Standard.getD_toNat, h256, show 256 = 2 ^ 8 from rfl, Nat.testBit_mod_two_pow,
    Nat.testBit_div_two_pow, Nat.mod_add_div]
  simp [hmod]

theorem testBit_clampedByte (scalar : Bytes) {i : Nat} (hi : i < 256) :
    (clampedByte scalar i).toNat.testBit (i % 8)
      = (i == 254 || (decide (3 ≤ i) && decide (i < 254) && (leNat scalar).testBit i)) := by
  have hmod : i % 8 < 8 := Nat.mod_lt _ (by omega)
  have hbyte := testBit_byte scalar i
  have hdiv := Nat.mod_add_div i 8
  rw [clampedByte]
  generalize scalar.getD (i / 8) 0 = b at hbyte
  by_cases hfirst : i / 8 = 0
  · have h7 : ((~~~7 : UInt8).toNat).testBit (i % 8) = decide (3 ≤ i) := by
      have hi8 : i < 8 := by omega
      interval_cases i <;> rfl
    have hne : (i == 254) = false := by
      rw [beq_eq_false_iff_ne]
      omega
    have hlt : decide (i < 254) = true := decide_eq_true (by omega)
    rw [if_pos hfirst, UInt8.toNat_and, Nat.testBit_and, h7, hbyte, hne, hlt, Bool.and_true,
      Bool.false_or, Bool.and_comm]
  · rw [if_neg hfirst]
    have hge : decide (3 ≤ i) = true := decide_eq_true (by omega)
    by_cases hlast : i / 8 = 31
    · have h7f : ((0x7F : UInt8).toNat).testBit (i % 8) = decide (i < 255) := by
        have hi8 : 248 ≤ i := by omega
        interval_cases i <;> rfl
      have h40 : ((0x40 : UInt8).toNat).testBit (i % 8) = (i == 254) := by
        have hi8 : 248 ≤ i := by omega
        interval_cases i <;> rfl
      rw [if_pos hlast, UInt8.toNat_or, UInt8.toNat_and, Nat.testBit_or, Nat.testBit_and, h7f, h40,
        hbyte, hge]
      by_cases h254 : i = 254
      · simp [h254]
      · have hdec : decide (i < 255) = decide (i < 254) := decide_eq_decide.mpr (by omega)
        rw [hdec, Bool.true_and, Bool.and_comm, Bool.or_comm]
    · have hne : (i == 254) = false := by
        rw [beq_eq_false_iff_ne]
        omega
      have hlt : decide (i < 254) = true := decide_eq_true (by omega)
      rw [if_neg hlast, hbyte, hge, hne, hlt, Bool.true_and, Bool.true_and, Bool.false_or]

theorem doswap_mask (b : UInt8) {j : Nat} (hj : j < 8) :
    0 - ((b >>> UInt8.ofNat j) &&& 1).toUInt32 = mask (b.toNat.testBit j) := by
  have hbit : ((b >>> UInt8.ofNat j) &&& 1).toNat = b.toNat / 2 ^ j % 2 := by
    rw [UInt8.toNat_and, UInt8.toNat_shiftRight, UInt8.toNat_ofNat_of_lt' (show j < 256 by omega),
      Nat.mod_eq_of_lt hj, Nat.shiftRight_eq_div_pow]
    exact Nat.and_two_pow_sub_one_eq_mod _ 1
  rw [Nat.testBit_eq_decide_div_mod_eq, ← hbit]
  rcases Nat.mod_two_eq_zero_or_one (b.toNat / 2 ^ j) with h | h
  · have hzero : (b >>> UInt8.ofNat j) &&& 1 = 0 := UInt8.toNat_inj.mp (hbit.trans h)
    rw [hzero]
    rfl
  · have hone : (b >>> UInt8.ofNat j) &&& 1 = 1 := UInt8.toNat_inj.mp (hbit.trans h)
    rw [hone]
    rfl

/-- The mask of every round is a bit of the clamped number. -/
theorem doswapOf_clamped (scalar : Bytes) {i : Nat} (hi : i < 256) :
    doswapOf scalar i = mask ((clamped scalar).testBit i) := by
  rw [doswapOf, doswap_mask _ (Nat.mod_lt _ (by omega)), testBit_clampedByte scalar hi,
    testBit_clamped scalar hi]

/-! ### The division

The chain is run twice: on elements, and on what is known of them, which are exponents.
The second run is a computation on small numbers, and it says what the first one leaves.
-/

/-- What is known of a register: the powers of `x` and `z` it is the product of. -/
abbrev Known := Option (Nat × Nat)

def Known.mul : Known → Known → Known
  | some a, some b => some (a.1 + b.1, a.2 + b.2)
  | _, _ => none

/-- The element is what is known of it. -/
def Fe.Is (x z : ZMod prime) (r : Fe) (k : Known) : Prop :=
  ∀ e, k = some e → r.el = x ^ e.1 * z ^ e.2

theorem Fe.Is.mul {x z : ZMod prime} {r s : Fe} {k l : Known} (hr : r.Is x z k) (hs : s.Is x z l) :
    (X25519.mul r s).Is x z (k.mul l) := by
  intro e he
  cases k with
  | none => simp [Known.mul] at he
  | some a => cases l with
    | none => simp [Known.mul] at he
    | some b =>
        obtain rfl : (a.1 + b.1, a.2 + b.2) = e := Option.some.inj he
        rw [(el_mul r s).1, hr a rfl, hs b rfl]
        ring

/-- The chain on what is known. -/
def knownSquarings (a : Nat) : Nat → List Known × Nat → List Known × Nat
  | 0, st => st
  | n + 1, st =>
    let k := st.1.getD st.2 none
    knownSquarings a n (st.1.set a (k.mul k), a)

def knownStep (st : List Known × Nat) (s : Nat × Nat × Nat) : List Known × Nat :=
  let st := knownSquarings s.1 s.2.2 st
  (st.1.set s.1 ((st.1.getD s.2.1 none).mul (st.1.getD s.1 none)), st.2)

structure Follows (x z : ZMod prime) (st : List Fe × Nat) (known : List Known × Nat) : Prop where
  length : st.1.length = known.1.length
  prev : st.2 = known.2
  regs : ∀ i, (st.1.getD i (Fe.small 0)).Is x z (known.1.getD i none)

theorem Follows.set {x z : ZMod prime} {st : List Fe × Nat} {known : List Known × Nat}
    (h : Follows x z st known) (a prev : Nat) {r : Fe} {k : Known} (hr : r.Is x z k) :
    Follows x z (st.1.set a r, prev) (known.1.set a k, prev) := by
  refine ⟨by simp [h.length], rfl, ?_⟩
  intro i
  simp only [List.getD_eq_getElem?_getD, List.getElem?_set, ← h.length]
  by_cases hi : a = i
  · by_cases hlen : a < st.1.length
    · simpa [hi, hi ▸ hlen] using hr
    · intro e he
      simp [hi, hi ▸ hlen] at he
  · simpa [hi, List.getD_eq_getElem?_getD] using h.regs i

theorem Follows.squarings {x z : ZMod prime} {st : List Fe × Nat} {known : List Known × Nat}
    (h : Follows x z st known) (a n : Nat) :
    Follows x z (X25519.squarings a n st) (knownSquarings a n known) := by
  induction n generalizing st known with
  | zero => exact h
  | succ n ih =>
      have hprev := h.regs known.2
      rw [X25519.squarings, knownSquarings, h.prev]
      exact ih (h.set a a (hprev.mul hprev))

theorem Follows.step {x z : ZMod prime} {st : List Fe × Nat} {known : List Known × Nat}
    (h : Follows x z st known) (s : Nat × Nat × Nat) :
    Follows x z (powerStep st s) (knownStep known s) := by
  have hsq := h.squarings s.1 s.2.2
  rw [powerStep, knownStep, hsq.prev]
  exact hsq.set _ _ ((hsq.regs s.2.1).mul (hsq.regs s.1))

theorem Follows.run {x z : ZMod prime} (steps : List (Nat × Nat × Nat)) {st : List Fe × Nat}
    {known : List Known × Nat} (h : Follows x z st known) :
    Follows x z (steps.foldl powerStep st) (steps.foldl knownStep known) := by
  induction steps generalizing st known with
  | nil => exact h
  | cons s rest ih => exact ih (h.step s)

/-- The chain leaves `x` alone and raises `z` to `p - 2`. -/
theorem known_end :
    let known := (steps.foldl knownStep ([some (1, 0), some (0, 1), none, none, none], 1)).1
    known.getD 0 none = some (1, 0) ∧ known.getD 3 none = some (0, prime - 2) := by
  decide +kernel

/-! ### The model's ladder -/

/-- The residues stand for the points of a ladder. -/
structure Casts (r : Pair Nat) (s : Pair (ZMod prime)) : Prop where
  x2 : (r.x2 : ZMod prime) = s.x2
  z2 : (r.z2 : ZMod prime) = s.z2
  x3 : (r.x3 : ZMod prime) = s.x3
  z3 : (r.z3 : ZMod prime) = s.z3
  lt2 : r.z2 < prime
  lt3 : r.z3 < prime

theorem prime_pos : 0 < prime := by
  rw [prime]
  omega

theorem cast_mod (n : Nat) : ((n % prime : Nat) : ZMod prime) = n := ZMod.natCast_mod n prime

/-- Subtraction by adding the rest to the prime. -/
theorem cast_sub {n : Nat} (h : n < prime) : ((prime - n : Nat) : ZMod prime) = -(n : ZMod prime) := by
  rw [Nat.cast_sub (Nat.le_of_lt h), ZMod.natCast_self, zero_sub]

/-- A rung on residues, as the model has it. -/
def residueRung (x1 : Nat) (r : Pair Nat) : Pair Nat :=
  let a := (r.x2 + r.z2) % prime
  let b := (r.x2 + (prime - r.z2)) % prime
  let da := (r.x3 + (prime - r.z3)) * a % prime
  let cb := (r.x3 + r.z3) * b % prime
  let aa := a * a % prime
  let bb := b * b % prime
  let e := (aa + (prime - bb)) % prime
  ⟨aa * bb % prime, e * (e * 121665 + aa) % prime, (da + cb) * (da + cb) % prime,
    x1 * (da + (prime - cb)) % prime * (da + (prime - cb)) % prime⟩

theorem Casts.rung {r : Pair Nat} {s : Pair (ZMod prime)} (h : Casts r s) (x1 : Nat) :
    Casts (residueRung x1 r) (Montgomery.rung 121665 x1 s) := by
  have hmod : ∀ n, n % prime < prime := fun n => Nat.mod_lt n prime_pos
  have hneg : ∀ n : Nat, ((prime - n % prime : Nat) : ZMod prime) = -(n : ZMod prime) := by
    intro n
    rw [cast_sub (hmod n), cast_mod]
  refine ⟨?_, ?_, ?_, ?_, hmod _, hmod _⟩
  all_goals
    simp only [residueRung, Montgomery.rung, cast_mod, hneg, Nat.cast_add, Nat.cast_mul,
      Nat.cast_ofNat, cast_sub h.lt2, cast_sub h.lt3, h.x2, h.z2, h.x3, h.z3]
    ring

/-- One round, the continuation aside. -/
theorem ladder_succ (scalar x1 n : Nat) (swap : Bool) (r : Pair Nat) (k : Nat → Nat → Nat) :
    let r' := residueRung x1 (r.swapIf (scalar.testBit n != swap))
    Standard.ladder scalar x1 (n + 1) swap r.x2 r.z2 r.x3 r.z3 k
      = Standard.ladder scalar x1 n (scalar.testBit n) r'.x2 r'.z2 r'.x3 r'.z3 k := by
  intro r'
  simp only [Standard.ladder, Standard.force_eq, r', Pair.swapIf, residueRung]
  cases scalar.testBit n != swap with
  | false => rfl
  | true => rfl

theorem ladder_casts (scalar x1 : Nat) (k : Nat → Nat → Nat) (n : Nat) (swap : Bool)
    {r : Pair Nat} {s : Pair (ZMod prime)} (h : Casts r s) :
    ∃ r', Standard.ladder scalar x1 n swap r.x2 r.z2 r.x3 r.z3 k = k r'.x2 r'.z2 ∧
      Casts r' (climb 121665 x1 scalar.testBit n swap s) := by
  have hswap : ∀ {r : Pair Nat} {s : Pair (ZMod prime)} (swap : Bool), Casts r s →
      Casts (r.swapIf swap) (s.swapIf swap) := by
    intro r s swap h
    cases swap with
    | false => exact h
    | true => exact ⟨h.x3, h.z3, h.x2, h.z2, h.lt3, h.lt2⟩
  induction n generalizing swap r s with
  | zero =>
      refine ⟨r.swapIf swap, ?_, hswap swap h⟩
      cases swap with
      | false => rfl
      | true => rfl
  | succ n ih =>
      rw [ladder_succ]
      exact ih _ ((hswap _ h).rung x1)

/-! ### Division, and the result

Both sides end with the same fraction, one by the chain of products, the other by a power.
Where the denominator is zero both give zero.
-/

theorem powMod_cast (fuel b e acc : Nat) (h : e < 2 ^ fuel) :
    ((Standard.powMod fuel b e acc : Nat) : ZMod prime) = acc * (b : ZMod prime) ^ e := by
  induction fuel generalizing b e acc with
  | zero =>
      obtain rfl : e = 0 := by simpa using h
      rw [pow_zero, mul_one]
      rfl
  | succ fuel ih =>
      rw [Standard.powMod, Standard.force_eq, Standard.force_eq, ih _ _ _ (by omega), cast_mod,
        Nat.cast_mul, ← pow_two, ← pow_mul]
      rcases Nat.mod_two_eq_zero_or_one e with heven | hodd
      · rw [if_neg (by omega), show 2 * (e / 2) = e by omega]
      · rw [if_pos hodd, cast_mod, Nat.cast_mul, mul_assoc, ← pow_succ',
          show 2 * (e / 2) + 1 = e by omega]

def quotient (s : Pair (ZMod prime)) : ZMod prime := s.x2 * s.z2 ^ (prime - 2)

def summit (scalar base : Bytes) : Pair (ZMod prime) :=
  climb 121665 ((leNat base : Nat) : ZMod prime) (clamped scalar).testBit 256 false
    (Pair.start ((leNat base : Nat) : ZMod prime))

/-- What the model computes. -/
theorem quotient_residue (scalar base : Key) :
    ∃ out < prime, Standard.x25519 scalar base = Standard.natBytes 32 out ∧
      (out : ZMod prime) = quotient (summit scalar.toList base.toList) := by
  have hstart : Casts ⟨1, 0, leNat base.toList % prime, 1⟩
      (Pair.start ((leNat base.toList : Nat) : ZMod prime)) := by
    refine ⟨Nat.cast_one, Nat.cast_zero, cast_mod _, Nat.cast_one, prime_pos, ?_⟩
    show 1 < prime
    rw [prime]
    omega
  obtain ⟨r, hr, hcasts⟩ := ladder_casts (clamped scalar.toList) (leNat base.toList % prime)
    (fun x z => x * Standard.powMod 255 z (prime - 2) 1 % prime) 256 false hstart
  rw [cast_mod] at hcasts
  refine ⟨r.x2 * Standard.powMod 255 r.z2 (prime - 2) 1 % prime, Nat.mod_lt _ prime_pos, ?_, ?_⟩
  · rw [Standard.x25519]
    simp only [Standard.force_eq]
    exact congrArg _ hr
  · have hexp : prime - 2 < 2 ^ 255 := by
      rw [prime]
      omega
    rw [cast_mod, Nat.cast_mul, powMod_cast _ _ _ _ hexp, hcasts.x2, hcasts.z2, Nat.cast_one, one_mul]
    rfl

theorem val_swapin {base : Bytes} (h : base.length = 32) : (swapin base).val = leNat base := by
  have hwords : ∀ n, value ((List.range n).map fun i => Bytes.word32 base (4 * i))
      = leNat base % 2 ^ (32 * n) := by
    intro n
    induction n with
    | zero => rw [Nat.mul_zero, Nat.pow_zero, Nat.mod_one]; rfl
    | succ n ih =>
        have hpow : (256 : Nat) ^ (4 * n) = 2 ^ (32 * n) := by
          rw [show (256 : Nat) = 2 ^ 8 from rfl, ← Nat.pow_mul]
          congr 1
          omega
        rw [List.range_succ, List.map_append, Limbs.value_append, ih, List.map_singleton,
          Limbs.value_cons, Limbs.value_nil, Nat.mul_zero, Nat.add_zero, Standard.word32_toNat, hpow,
          List.length_map, List.length_range, Nat.mul_succ, Nat.pow_add, Nat.mod_mul]
  have hlt := Standard.leNat_lt base
  rw [h] at hlt
  exact (hwords 8).trans (Nat.mod_eq_of_lt hlt)

theorem leNat_swapout (x : Fe) : leNat (swapout x) = x.val := by
  have hpack : ∀ xs : List UInt32, Standard.packWords (xs.map UInt32.toNat) = value xs := by
    intro xs
    induction xs with
    | nil => rfl
    | cons w ws ih => rw [Standard.packWords_cons, ih, Limbs.value_cons]
  rw [swapout, Standard.leNat_words, hpack]
  rfl

/-- The element the code divides out. -/
def divided (t1 : Fe) (scalar base : Bytes) : Fe :=
  let xs := x25519Core t1 scalar base
  let r := steps.foldl powerStep ([xs.x2, xs.z2, xs.x3, xs.z3, xs.t1], 1)
  mul1 (r.1.getD 0 (Fe.small 0)) (r.1.getD 3 (Fe.small 0))

theorem el_divided (t1 : Fe) (scalar : Bytes) {base : Bytes} (hbase : base.length = 32) :
    (divided t1 scalar base).el = quotient (summit scalar base) ∧ (divided t1 scalar base).Tight := by
  have hx1 : (swapin base).el = ((leNat base : Nat) : ZMod prime) := by rw [Fe.el, val_swapin hbase]
  have hsmall : ∀ n : UInt32, (Fe.small n).val = n.toNat := fun n => Nat.add_zero n.toNat
  have htight : ∀ n : UInt32, (Fe.small n).Tight := by
    intro n
    have hn := n.toNat_lt
    rw [Fe.Tight, hsmall]
    omega
  have hstart : (Xs.mk (Fe.small 1) (Fe.small 0) (swapin base) (Fe.small 1) t1).Reads
      (Pair.start ((leNat base : Nat) : ZMod prime)) :=
    ⟨Nat.cast_one, Nat.cast_zero, hx1, Nat.cast_one, htight 0, htight 1⟩
  have hcore := coreLoop_reads scalar (swapin base) 256 false
    (fun i hi => doswapOf_clamped scalar hi) hstart
  rw [hx1] at hcore
  have hfollow : Follows (summit scalar base).x2 (summit scalar base).z2
      ([(x25519Core t1 scalar base).x2, (x25519Core t1 scalar base).z2,
        (x25519Core t1 scalar base).x3, (x25519Core t1 scalar base).z3,
        (x25519Core t1 scalar base).t1], 1) ([some (1, 0), some (0, 1), none, none, none], 1) := by
    refine ⟨rfl, rfl, ?_⟩
    intro i e he
    rcases i with _ | _ | i
    · obtain rfl : (1, 0) = e := Option.some.inj he
      rw [pow_one, pow_zero, mul_one]
      exact hcore.x2
    · obtain rfl : (0, 1) = e := Option.some.inj he
      rw [pow_one, pow_zero, one_mul]
      exact hcore.z2
    · have hrest : ([none, none, none] : List Known).getD i none = none := by
        rcases i with _ | _ | _ | i <;> rfl
      exact absurd (hrest.symm.trans he) (Option.some_ne_none e).symm
  have hend := hfollow.run steps
  obtain ⟨hx, hz⟩ := known_end
  have h0 := hend.regs 0 _ hx
  have h3 := hend.regs 3 _ hz
  obtain ⟨hel, hout⟩ := el_mul1 ((steps.foldl powerStep _).1.getD 0 (Fe.small 0))
    ((steps.foldl powerStep _).1.getD 3 (Fe.small 0))
  refine ⟨hel.trans ?_, hout⟩
  rw [h0, h3, pow_one, pow_zero, mul_one, pow_zero, one_mul, quotient]

theorem natBytes_eq_zero {out : Nat} (h : out < 256 ^ 32) :
    Standard.natBytes 32 out = Key.zero ↔ out = 0 := by
  have hkey : leNat Key.zero.toList = 0 := by
    rw [Key.zero, Vector.toList_replicate]
    exact Standard.leNat_replicate_zero 32
  constructor
  · intro hbytes
    have hnum := Standard.leNat_natBytes 32 out
    rw [hbytes, hkey, Nat.mod_eq_of_lt h] at hnum
    exact hnum.symm
  · intro hout
    rw [← Vector.toList_inj]
    exact Standard.toList_natBytes (by simp) (by rw [hkey, hout, Nat.zero_mod])

/-- What is stored, and what is returned. -/
theorem x25519_stores (t1 : Fe) (scalar base : Key) :
    x25519 t1 scalar.toList base.toList
      = ((Standard.x25519 scalar base).toList,
        if Standard.x25519 scalar base = Key.zero then -1 else 0) := by
  obtain ⟨hel, htight⟩ := el_divided t1 scalar.toList (show base.toList.length = 32 by simp)
  obtain ⟨out, hout, hmodel, hcast⟩ := quotient_residue scalar base
  obtain ⟨hval, hmask⟩ := canon_spec htight
  have hsame : (divided t1 scalar.toList base.toList).val % prime = out := by
    rw [Fe.el, ← hcast] at hel
    exact ((ZMod.natCast_eq_natCast_iff' _ _ _).mp hel).trans (Nat.mod_eq_of_lt hout)
  rw [hsame] at hval hmask
  have hlt : out < 256 ^ 32 := by
    rw [prime] at hout
    omega
  have hbytes : (Standard.natBytes 32 out).toList
      = swapout (canon (divided t1 scalar.toList base.toList)).1 := by
    refine Standard.toList_natBytes ?_ ?_
    · rw [swapout, Standard.length_words, Fe.size]
    · rw [leNat_swapout, hval, Nat.mod_eq_of_lt hlt]
  have hret : (if (canon (divided t1 scalar.toList base.toList)).2 = 0xFFFFFFFF then (-1 : Int)
      else ((canon (divided t1 scalar.toList base.toList)).2.toNat : Int))
      = if Standard.x25519 scalar base = Key.zero then -1 else 0 := by
    rw [hmodel, if_congr (natBytes_eq_zero hlt) rfl rfl, hmask]
    by_cases h : out = 0
    · simp [h]
    · simp [h]
  refine Prod.ext ?_ hret
  show swapout _ = (Standard.x25519 scalar base).toList
  rw [hmodel, hbytes]
  rfl

/-- **`x25519` is the model's.**  The limb code, whatever was on the stack, stores the bytes the
protocol's model takes for the primitive's output, and returns -1 just where the model's caller
sees a failure. -/
theorem x25519_computes (t1 : Fe) (scalar base : Key) :
    x25519 t1 scalar.toList base.toList
      = ((standardPrimitives.x25519 scalar base).toList,
        if (SysAwg.x25519 standardPrimitives scalar base).isNone then -1 else 0) := by
  rw [x25519_stores, SysAwg.x25519]
  by_cases h : Standard.x25519 scalar base = Key.zero
  · have hnone : standardPrimitives.x25519 scalar base = Key.zero := h
    simp only [hnone, h, if_true, Option.isNone_none]
  · have hsome : standardPrimitives.x25519 scalar base ≠ Key.zero := h
    simp only [hsome, h, if_false, Option.isNone_some, Bool.false_eq_true]
    rfl

end SysAwg.X25519
