/-
Numbers in 32-bit limbs, and carry chains over them.

Multiple-precision code walks over limbs from the low end, each step storing one limb and
handing a carry to the next.  Addition, subtraction and a row of a multiplication differ
only in the step.  `chain` is that walk for any step, and `chain_value` its arithmetic: if
one step stores the low part of carry plus input and keeps the rest as the carry, the whole
walk stores the low part of the sum.  Carries are integers, so that a borrow is one too.
-/
import Mathlib.Data.Int.Basic
import Mathlib.Tactic.Ring
import Mathlib.Tactic.LinearCombination

namespace Limbs

/-- The number limbs spell, low limb first. -/
def value : List UInt32 → Nat
  | [] => 0
  | x :: xs => x.toNat + 2 ^ 32 * value xs

@[simp] theorem value_nil : value [] = 0 := rfl

theorem value_cons (x : UInt32) (xs : List UInt32) :
    value (x :: xs) = x.toNat + 2 ^ 32 * value xs := rfl

theorem value_lt (xs : List UInt32) : value xs < 2 ^ (32 * xs.length) := by
  induction xs with
  | nil => simp
  | cons x xs ih =>
      have hx := x.toNat_lt
      have hpow : 2 ^ (32 * (xs.length + 1)) = 2 ^ 32 * 2 ^ (32 * xs.length) := by
        rw [Nat.mul_succ, Nat.pow_add, Nat.mul_comm]
      rw [value_cons, List.length_cons, hpow]
      omega

theorem value_append (xs ys : List UInt32) :
    value (xs ++ ys) = value xs + 2 ^ (32 * xs.length) * value ys := by
  induction xs with
  | nil => simp
  | cons x xs ih =>
      have hpow : 2 ^ (32 * (xs.length + 1)) = 2 ^ 32 * 2 ^ (32 * xs.length) := by
        rw [Nat.mul_succ, Nat.pow_add, Nat.mul_comm]
      rw [List.cons_append, value_cons, value_cons, ih, List.length_cons, hpow]
      ring

@[simp] theorem value_replicate_zero (n : Nat) : value (List.replicate n 0) = 0 := by
  induction n with
  | zero => rfl
  | succ n ih => rw [List.replicate_succ, value_cons, ih, UInt32.toNat_zero, Nat.mul_zero]

/-! ### Carry chains

The walk of an addition carries a bit, that of a subtraction a borrow, that of a
multiplication a whole limb.  What makes each of them right is one equation about one step,
under a bound on its carry that the step keeps.
-/

variable {ι κ : Type}

/-- Walk over the inputs: the limbs stored, and the carry out. -/
def chain (step : κ → ι → UInt32 × κ) : κ → List ι → List UInt32 × κ
  | c, [] => ([], c)
  | c, i :: is =>
    let r := step c i
    let rest := chain step r.2 is
    (r.1 :: rest.1, rest.2)

/-- The inputs' own number: each weighs what the step adds for it. -/
def weigh (w : ι → Int) : List ι → Int
  | [] => 0
  | i :: is => w i + 2 ^ 32 * weigh w is

@[simp] theorem chain_nil (step : κ → ι → UInt32 × κ) (c : κ) : chain step c [] = ([], c) := rfl

theorem chain_cons (step : κ → ι → UInt32 × κ) (c : κ) (i : ι) (is : List ι) :
    chain step c (i :: is)
      = ((step c i).1 :: (chain step (step c i).2 is).1, (chain step (step c i).2 is).2) := rfl

@[simp] theorem length_chain (step : κ → ι → UInt32 × κ) (c : κ) (is : List ι) :
    (chain step c is).1.length = is.length := by
  induction is generalizing c with
  | nil => rfl
  | cons i is ih => rw [chain_cons, List.length_cons, List.length_cons, ih]

/-- What a step does to the numbers: the stored limb and the new carry make up the old
carry and the input. -/
def Carries (step : κ → ι → UInt32 × κ) (Inv : κ → Prop) (v : κ → Int) (w : ι → Int) : Prop :=
  ∀ c i, Inv c → Inv (step c i).2 ∧ ((step c i).1.toNat : Int) + 2 ^ 32 * v (step c i).2 = v c + w i

/-- **The arithmetic of a chain.** -/
theorem chain_value {step : κ → ι → UInt32 × κ} {Inv : κ → Prop} {v : κ → Int} {w : ι → Int}
    (h : Carries step Inv v w) {c : κ} (hc : Inv c) (is : List ι) :
    Inv (chain step c is).2 ∧
      (value (chain step c is).1 : Int) + 2 ^ (32 * is.length) * v (chain step c is).2
        = v c + weigh w is := by
  induction is generalizing c with
  | nil => exact ⟨hc, by simp [weigh]⟩
  | cons i is ih =>
      obtain ⟨hinv, hstep⟩ := h c i hc
      obtain ⟨hinv', hrest⟩ := ih hinv
      refine ⟨hinv', ?_⟩
      have hpow : (2 : Int) ^ (32 * (is.length + 1)) = 2 ^ 32 * 2 ^ (32 * is.length) := by
        rw [Nat.mul_succ, pow_add, mul_comm]
      rw [chain_cons, value_cons, List.length_cons, hpow, weigh]
      push_cast
      linear_combination hstep + 2 ^ 32 * hrest

theorem weigh_toNat (xs : List UInt32) : weigh (fun x => (x.toNat : Int)) xs = value xs := by
  induction xs with
  | nil => rfl
  | cons x xs ih =>
      rw [weigh, ih, value_cons]
      push_cast
      rfl

theorem weigh_zip (a b : Int) {xs ys : List UInt32} (h : xs.length = ys.length) :
    weigh (fun p : UInt32 × UInt32 => a * p.1.toNat + b * p.2.toNat) (xs.zip ys)
      = a * value xs + b * value ys := by
  induction xs generalizing ys with
  | nil =>
      have hnil : ys = [] := List.length_eq_zero_iff.mp h.symm
      rw [hnil]
      simp [weigh]
  | cons x xs ih => cases ys with
    | nil => simp at h
    | cons y ys =>
        rw [List.zip_cons_cons, weigh, ih (by simpa using h), value_cons, value_cons]
        push_cast
        ring

end Limbs
