/-
Computations that may do something undefined.

C leaves a program that overflows an `int` or touches a byte outside its buffer without
any meaning at all.  A `Checked` computation stops at the first such operation, so that
"it never happens" is a statement about its result: the computation is `Safe`.  The
lemmas below turn that statement, one operation at a time, into arithmetic.
-/
import Mathlib.Logic.Basic
import Mathlib.Tactic.Common

/-- An operation without a meaning. -/
inductive Fault
  | overflow
  | outOfBounds
  | zeroDivisor
  deriving DecidableEq, Repr

/-- A computation that stops at the first fault. -/
abbrev Checked (α : Type) := Except Fault α

namespace Checked

variable {α β : Type}

def intMin : Int := -2147483648

def intMax : Int := 2147483647

/-- The result of an addition or a subtraction of `int`s. -/
def int (v : Int) : Checked Int := if intMin ≤ v ∧ v ≤ intMax then .ok v else .error .overflow

/-- `len` bytes at `off` of a buffer of `cap` bytes are read or written. -/
def span (cap off len : Int) : Checked Unit :=
  if 0 ≤ off ∧ 0 ≤ len ∧ off + len ≤ cap then .ok () else .error .outOfBounds

/-- The remainder of an unsigned number. -/
def mod (a b : Nat) : Checked Nat := if b = 0 then .error .zeroDivisor else .ok (a % b)

/-- No fault is met. -/
def Safe (c : Checked α) : Prop := ∃ a, c = .ok a

@[simp] theorem safe_ok (a : α) : Safe (.ok a : Checked α) := ⟨a, rfl⟩

@[simp] theorem safe_pure (a : α) : Safe (pure a : Checked α) := ⟨a, rfl⟩

@[simp] theorem ok_bind (a : α) (k : α → Checked β) : (Except.ok a >>= k) = k a := rfl

theorem int_eq {v : Int} (h : intMin ≤ v ∧ v ≤ intMax) : int v = .ok v := if_pos h

theorem span_eq {cap off len : Int} (h : 0 ≤ off ∧ 0 ≤ len ∧ off + len ≤ cap) :
    span cap off len = .ok () := if_pos h

theorem mod_eq {a b : Nat} (h : 0 < b) : mod a b = .ok (a % b) := if_neg (by omega)

/-- A checked sum goes on with its value, if it has one. -/
@[simp] theorem safe_int_bind (v : Int) (k : Int → Checked β) :
    Safe (int v >>= k) ↔ (intMin ≤ v ∧ v ≤ intMax) ∧ Safe (k v) := by
  by_cases h : intMin ≤ v ∧ v ≤ intMax
  · rw [int_eq h]
    exact (and_iff_right h).symm
  · have hfault : int v = .error .overflow := if_neg h
    rw [hfault]
    refine ⟨?_, fun hk => absurd hk.1 h⟩
    rintro ⟨a, ha⟩
    cases ha

/-- A checked access goes on if it stays inside. -/
@[simp] theorem safe_span_bind (cap off len : Int) (k : Unit → Checked β) :
    Safe (span cap off len >>= k) ↔ (0 ≤ off ∧ 0 ≤ len ∧ off + len ≤ cap) ∧ Safe (k ()) := by
  by_cases h : 0 ≤ off ∧ 0 ≤ len ∧ off + len ≤ cap
  · rw [span_eq h]
    exact (and_iff_right h).symm
  · have hfault : span cap off len = .error .outOfBounds := if_neg h
    rw [hfault]
    refine ⟨?_, fun hk => absurd hk.1 h⟩
    rintro ⟨a, ha⟩
    cases ha

/-- A test that may return early is safe if what runs otherwise is. -/
theorem safe_unless {p : Prop} [Decidable p] {a : α} {k : Checked α} (h : ¬ p → Safe k) :
    Safe (if p then .ok a else k) := by
  split
  · exact safe_ok a
  · rename_i hp
    exact h hp

/-- A loop that may be over is safe if its next round is. -/
theorem safe_while {p : Prop} [Decidable p] {a : α} {k : Checked α} (h : p → Safe k) :
    Safe (if p then k else .ok a) := by
  split
  · rename_i hp
    exact h hp
  · exact safe_ok a

theorem ok_int_bind {v : Int} {k : Int → Checked β} {b : β} (h : (int v >>= k) = .ok b) :
    k v = .ok b := by
  have hsafe : Safe (int v >>= k) := ⟨b, h⟩
  rw [int_eq ((safe_int_bind v k).mp hsafe).1] at h
  exact h

theorem ok_int {v b : Int} (h : int v = .ok b) : v = b := by
  unfold int at h
  split at h
  · cases h
    rfl
  · cases h

theorem ok_mod_bind {m n : Nat} {k : Nat → Checked β} {b : β} (h : (mod m n >>= k) = .ok b) :
    k (m % n) = .ok b := by
  unfold mod at h
  split at h
  · cases h
  · exact h

theorem ok_span_bind {cap off len : Int} {k : Unit → Checked β} {b : β}
    (h : (span cap off len >>= k) = .ok b) : k () = .ok b := by
  have hsafe : Safe (span cap off len >>= k) := ⟨b, h⟩
  rw [span_eq ((safe_span_bind cap off len k).mp hsafe).1] at h
  exact h

end Checked
