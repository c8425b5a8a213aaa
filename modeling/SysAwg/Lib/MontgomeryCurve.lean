/-
What the Montgomery ladder computes.

The fractions of a ladder are abscissas of points of `y² = x³ + A x² + x`, with no
denominator for the point at infinity.  One rung doubles the first point and adds the two,
which are a fixed point apart; both are identities between abscissas, checked in every
case in which the group law is one.  Climbing the bits of a scalar then multiplies the
fixed point by it.
-/
import Mathlib.AlgebraicGeometry.EllipticCurve.Affine.Point
import Mathlib.Tactic.LinearCombination
import Mathlib.Tactic.FieldSimp
import SysAwg.Lib.Montgomery

namespace Montgomery

open WeierstrassCurve

variable {F : Type} [Field F]

/-- The curve `y² = x³ + A x² + x`, by the constant `c` with `A = 4 c + 2` that a rung
multiplies by. -/
def curve (c : F) : Affine F := ⟨0, 4 * c + 2, 0, 1, 0⟩

/-- The fraction `x / z` is the abscissa of a point. -/
def Stands {c : F} (P : (curve c).Point) (x z : F) : Prop :=
  match P with
  | .zero => z = 0 ∧ x ≠ 0
  | .some u _ _ => z ≠ 0 ∧ x = u * z

variable {c : F}

theorem curve_equation {x y : F} (h : (curve c).Nonsingular x y) :
    y ^ 2 = x ^ 3 + (4 * c + 2) * x ^ 2 + x := by
  have heq := (Affine.equation_iff _ _).mp h.1
  simp only [curve] at heq
  linear_combination heq

theorem curve_negY (x y : F) : (curve c).negY x y = -y := by
  simp [Affine.negY, curve]

theorem curve_addX (x₁ x₂ l : F) : (curve c).addX x₁ x₂ l = l ^ 2 - (4 * c + 2) - x₁ - x₂ := by
  simp [Affine.addX, curve]

theorem four_ne (h2 : (2 : F) ≠ 0) : (4 : F) ≠ 0 := by
  have hsq : (2 : F) * 2 = 4 := by norm_num
  rw [← hsq]
  exact mul_ne_zero h2 h2

theorem ne_negY {y : F} (x : F) (h2 : (2 : F) ≠ 0) (hy : y ≠ 0) : y ≠ (curve c).negY x y := by
  rw [curve_negY]
  intro heq
  have hzero : 2 * y = 0 := by linear_combination heq
  exact hy ((mul_eq_zero.mp hzero).resolve_left h2)

/-- A point of order two has its abscissa away from `1` and `-1`, where the curve would have
to be singular. -/
theorem sq_ne_one_of_order_two {x : F} (h : (curve c).Nonsingular x 0) (h2 : (2 : F) ≠ 0)
    (hc : c ≠ 0) (hc' : c + 1 ≠ 0) : x ^ 2 - 1 ≠ 0 := by
  have hcurve := curve_equation h
  intro hx
  have hfactor : (x - 1) * (x + 1) = 0 := by linear_combination hx
  rcases mul_eq_zero.mp hfactor with hone | hone
  · obtain rfl : x = 1 := by linear_combination hone
    have hzero : 4 * (c + 1) = 0 := by linear_combination -hcurve
    exact mul_ne_zero (four_ne h2) hc' hzero
  · obtain rfl : x = -1 := by linear_combination hone
    have hzero : 4 * c = 0 := by linear_combination -hcurve
    exact mul_ne_zero (four_ne h2) hc hzero

/-! ### Doubling

Doubling multiplies the slope away: where the ordinate is zero the point has order two,
and the denominator comes out as zero, as it should.
-/

variable [DecidableEq F]

/-- The abscissa of a double, without its denominator. -/
theorem double_addX {x y : F} (h : (curve c).Nonsingular x y) (h2 : (2 : F) ≠ 0) (hy : y ≠ 0) :
    (curve c).addX x x ((curve c).slope x x y y) * (4 * y ^ 2) = (x ^ 2 - 1) ^ 2 := by
  have hcurve := curve_equation h
  have hslope : (curve c).slope x x y y = (3 * x ^ 2 + 2 * (4 * c + 2) * x + 1) / (2 * y) := by
    rw [Affine.slope_of_Y_ne rfl (ne_negY x h2 hy), curve_negY]
    simp only [curve]
    congr 1
    · ring
    · ring
  rw [hslope, curve_addX]
  field_simp
  linear_combination (-(16 * (4 * c + 2)) - 32 * x) * hcurve

/-- **Doubling** is right for every point, also where the double is infinity. -/
theorem Stands.double {P : (curve c).Point} {x z : F} (h : Stands P x z) (h2 : (2 : F) ≠ 0)
    (hc : c ≠ 0) (hc' : c + 1 ≠ 0) :
    Stands (P + P) ((x + z) * (x + z) * ((x - z) * (x - z)))
      (((x + z) * (x + z) - (x - z) * (x - z)) *
        (((x + z) * (x + z) - (x - z) * (x - z)) * c + (x + z) * (x + z))) := by
  cases P with
  | zero =>
      obtain ⟨rfl, hx⟩ := h
      refine ⟨by ring, ?_⟩
      simpa using hx
  | some u v hu =>
      obtain ⟨hz, rfl⟩ := h
      have hcurve := curve_equation hu
      have hnum : (u * z + z) * (u * z + z) * ((u * z - z) * (u * z - z))
          = (u ^ 2 - 1) ^ 2 * z ^ 4 := by ring
      have hden : ((u * z + z) * (u * z + z) - (u * z - z) * (u * z - z)) *
          (((u * z + z) * (u * z + z) - (u * z - z) * (u * z - z)) * c +
            (u * z + z) * (u * z + z)) = 4 * v ^ 2 * z ^ 4 := by
        linear_combination (-(4 * z ^ 4)) * hcurve
      have hz4 : z ^ 4 ≠ 0 := pow_ne_zero 4 hz
      rw [hnum, hden]
      by_cases hv : v = 0
      · subst hv
        rw [Affine.Point.add_self_of_Y_eq (by rw [curve_negY, neg_zero])]
        exact ⟨by ring, mul_ne_zero (pow_ne_zero 2 (sq_ne_one_of_order_two hu h2 hc hc')) hz4⟩
      · rw [Affine.Point.add_self_of_Y_ne (ne_negY u h2 hv)]
        refine ⟨mul_ne_zero (mul_ne_zero (four_ne h2) (pow_ne_zero 2 hv)) hz4, ?_⟩
        rw [← double_addX hu h2 hv]
        ring

theorem origin_add_self {y : F} (h : (curve c).Nonsingular 0 y) :
    Affine.Point.some 0 y h + Affine.Point.some 0 y h = 0 := by
  have hcurve := curve_equation h
  have hy : y = 0 := pow_eq_zero_iff two_ne_zero |>.mp (by linear_combination hcurve)
  exact Affine.Point.add_self_of_Y_eq (by rw [curve_negY, hy, neg_zero])

/-! ### Adding two points a known distance apart

The sum of two points alone needs their ordinates.  Multiplied by the abscissa of their
difference it does not, which is why the ladder keeps its two points a fixed distance apart.
Each of the two may be infinity or equal the other's opposite, and these cases are gone
through one by one.
-/

theorem chord_addX {x₁ x₂ y₁ y₂ : F} (h₁ : y₁ ^ 2 = x₁ ^ 3 + (4 * c + 2) * x₁ ^ 2 + x₁)
    (h₂ : y₂ ^ 2 = x₂ ^ 3 + (4 * c + 2) * x₂ ^ 2 + x₂) (hx : x₁ ≠ x₂) :
    (curve c).addX x₁ x₂ ((curve c).slope x₁ x₂ y₁ y₂) * (x₁ - x₂) ^ 2
      = (x₁ + x₂) * (1 + x₁ * x₂) + 2 * (4 * c + 2) * (x₁ * x₂) - 2 * (y₁ * y₂) := by
  have hne : x₁ - x₂ ≠ 0 := sub_ne_zero.mpr hx
  rw [Affine.slope_of_X_ne hx, curve_addX]
  field_simp
  linear_combination h₁ + h₂

/-- Sum and difference have abscissas with a product free of the ordinates. -/
theorem sum_mul_difference {x₁ x₂ y₁ y₂ : F} (h₁ : y₁ ^ 2 = x₁ ^ 3 + (4 * c + 2) * x₁ ^ 2 + x₁)
    (h₂ : y₂ ^ 2 = x₂ ^ 3 + (4 * c + 2) * x₂ ^ 2 + x₂) (hx : x₁ ≠ x₂) :
    (curve c).addX x₁ x₂ ((curve c).slope x₁ x₂ y₁ y₂) *
        (curve c).addX x₂ x₁ ((curve c).slope x₂ x₁ y₂ (-y₁)) * (x₁ - x₂) ^ 2
      = (x₁ * x₂ - 1) ^ 2 := by
  have hsum := chord_addX (c := c) h₁ h₂ hx
  have hneg : (-y₁) ^ 2 = x₁ ^ 3 + (4 * c + 2) * x₁ ^ 2 + x₁ := by linear_combination h₁
  have hdiff := chord_addX (c := c) h₂ hneg hx.symm
  have hne : (x₁ - x₂) ^ 2 ≠ 0 := pow_ne_zero 2 (sub_ne_zero.mpr hx)
  refine mul_right_cancel₀ hne ?_
  set X := (curve c).addX x₁ x₂ ((curve c).slope x₁ x₂ y₁ y₂)
  set Y := (curve c).addX x₂ x₁ ((curve c).slope x₂ x₁ y₂ (-y₁))
  have hprod : X * (x₁ - x₂) ^ 2 * (Y * (x₂ - x₁) ^ 2)
      = ((x₁ + x₂) * (1 + x₁ * x₂) + 2 * (4 * c + 2) * (x₁ * x₂)) ^ 2 - 4 * (y₁ ^ 2 * y₂ ^ 2) := by
    rw [hsum, hdiff]
    ring
  rw [h₁, h₂] at hprod
  linear_combination hprod

/-- **Differential addition** is right for any two points a finite point off the origin
apart. -/
theorem Stands.add {P Q : (curve c).Point} {x2 z2 x3 z3 x1 y1 : F} (hP : Stands P x2 z2)
    (hQ : Stands Q x3 z3) {h1 : (curve c).Nonsingular x1 y1} (hdiff : Q - P = .some x1 y1 h1)
    (hx1 : x1 ≠ 0) (h2 : (2 : F) ≠ 0) :
    Stands (P + Q)
      (((x3 - z3) * (x2 + z2) + (x3 + z3) * (x2 - z2)) *
        ((x3 - z3) * (x2 + z2) + (x3 + z3) * (x2 - z2)))
      (x1 * ((x3 - z3) * (x2 + z2) - (x3 + z3) * (x2 - z2)) *
        ((x3 - z3) * (x2 + z2) - (x3 + z3) * (x2 - z2))) := by
  have hnum : ((x3 - z3) * (x2 + z2) + (x3 + z3) * (x2 - z2)) *
      ((x3 - z3) * (x2 + z2) + (x3 + z3) * (x2 - z2)) = 4 * (x2 * x3 - z2 * z3) ^ 2 := by ring
  have hden : x1 * ((x3 - z3) * (x2 + z2) - (x3 + z3) * (x2 - z2)) *
      ((x3 - z3) * (x2 + z2) - (x3 + z3) * (x2 - z2)) = x1 * (4 * (x2 * z3 - x3 * z2) ^ 2) := by
    ring
  have h4 := four_ne h2
  rw [hnum, hden]
  cases P with
  | zero =>
      -- the first point is infinity: the other one is the distance itself
      obtain ⟨rfl, hx2⟩ := hP
      change Q - 0 = _ at hdiff
      rw [sub_zero] at hdiff
      subst hdiff
      obtain ⟨hz3, rfl⟩ := hQ
      change Stands (0 + _) _ _
      rw [zero_add]
      refine ⟨?_, by ring⟩
      have hprod : x2 * z3 - x1 * z3 * 0 ≠ 0 := by simpa using ⟨hx2, hz3⟩
      exact mul_ne_zero hx1 (mul_ne_zero h4 (pow_ne_zero 2 hprod))
  | some u v hu =>
      obtain ⟨hz2, rfl⟩ := hP
      cases Q with
      | zero =>
          obtain ⟨rfl, hx3⟩ := hQ
          change 0 - _ = _ at hdiff
          rw [zero_sub, Affine.Point.neg_some] at hdiff
          obtain ⟨rfl, -⟩ := Affine.Point.some.inj hdiff
          change Stands (_ + 0) _ _
          rw [add_zero]
          refine ⟨?_, by ring⟩
          have hprod : u * z2 * 0 - x3 * z2 ≠ 0 := by simpa using ⟨hx3, hz2⟩
          exact mul_ne_zero hx1 (mul_ne_zero h4 (pow_ne_zero 2 hprod))
      | some u' v' hu' =>
          obtain ⟨hz3, rfl⟩ := hQ
          have hzz : z2 * z3 ≠ 0 := mul_ne_zero hz2 hz3
          by_cases huu : u = u'
          · -- opposite points: the sum is infinity, the distance a double
            subst huu
            have hcase : Affine.Point.some u v hu = .some u v' hu' ∨
                Affine.Point.some u v hu = -.some u v' hu' := Affine.Point.X_eq_iff.mp rfl
            rcases hcase with hsame | hopp
            · rw [hsame, sub_self] at hdiff
              exact absurd hdiff.symm (Affine.Point.some_ne_zero h1)
            · rw [hopp, neg_add_cancel]
              refine ⟨by ring, ?_⟩
              have hdouble : Affine.Point.some u v' hu' + .some u v' hu' = .some x1 y1 h1 := by
                rw [← hdiff, hopp, sub_neg_eq_add]
              have hv' : v' ≠ 0 := by
                rintro rfl
                rw [Affine.Point.add_self_of_Y_eq (by rw [curve_negY, neg_zero])] at hdouble
                exact Affine.Point.some_ne_zero h1 hdouble.symm
              rw [Affine.Point.add_self_of_Y_ne (ne_negY u h2 hv')] at hdouble
              obtain ⟨hx, -⟩ := Affine.Point.some.inj hdouble
              have habscissa := double_addX hu' h2 hv'
              rw [hx] at habscissa
              have hsq : u ^ 2 - 1 ≠ 0 := by
                intro hzero
                rw [hzero, zero_pow two_ne_zero] at habscissa
                exact mul_ne_zero hx1 (mul_ne_zero h4 (pow_ne_zero 2 hv')) habscissa
              have hform : u * z2 * (u * z3) - z2 * z3 = (u ^ 2 - 1) * (z2 * z3) := by ring
              rw [hform]
              exact mul_ne_zero h4 (pow_ne_zero 2 (mul_ne_zero hsq hzz))
          · -- a proper chord
            have hcurve := curve_equation hu
            have hcurve' := curve_equation hu'
            rw [sub_eq_add_neg, Affine.Point.neg_some, Affine.Point.add_of_X_ne (Ne.symm huu)]
              at hdiff
            obtain ⟨hx, -⟩ := Affine.Point.some.inj hdiff
            rw [curve_negY] at hx
            have hprod := sum_mul_difference hcurve hcurve' huu
            rw [hx] at hprod
            rw [Affine.Point.add_of_X_ne huu]
            have hden' : u * z2 * z3 - u' * z3 * z2 = (u - u') * (z2 * z3) := by ring
            refine ⟨?_, ?_⟩
            · rw [hden']
              exact mul_ne_zero hx1 (mul_ne_zero h4
                (pow_ne_zero 2 (mul_ne_zero (sub_ne_zero.mpr huu) hzz)))
            · linear_combination (-(4 * (z2 * z3) ^ 2)) * hprod

/-! ### The ladder

The invariant is that the two fractions stand for some point and for that point plus `D`.
A swap turns it into the same with `-D`, and a rung on either side brings in the next bit.
-/

/-- The fractions of a ladder stand for a point and for that point moved on by `D`. -/
structure Ahead (D Q : (curve c).Point) (s : Pair F) : Prop where
  first : Stands Q s.x2 s.z2
  second : Stands (Q + D) s.x3 s.z3

/-- The same two points the other way round are the opposite distance apart. -/
theorem Ahead.swap {D Q : (curve c).Point} {s : Pair F} (h : Ahead D Q s) :
    Ahead (-D) (Q + D) (s.swapIf true) := by
  refine ⟨h.second, ?_⟩
  rw [add_neg_cancel_right]
  exact h.first

/-- A rung doubles the first point. -/
theorem Ahead.rung {Q : (curve c).Point} {s : Pair F} {x1 y1 : F}
    {h1 : (curve c).Nonsingular x1 y1} (h : Ahead (.some x1 y1 h1) Q s) (hx1 : x1 ≠ 0)
    (h2 : (2 : F) ≠ 0) (hc : c ≠ 0) (hc' : c + 1 ≠ 0) :
    Ahead (.some x1 y1 h1) (Q + Q) (rung c x1 s) := by
  refine ⟨h.first.double h2 hc hc', ?_⟩
  rw [add_assoc]
  exact h.first.add h.second (add_sub_cancel_left Q _) hx1 h2

/-- One bit of the scalar: the first point is doubled, and moved on by `D` if the bit is
set. -/
theorem Ahead.bit {Q : (curve c).Point} {s : Pair F} {x1 y1 : F}
    {h1 : (curve c).Nonsingular x1 y1} {swap : Bool} (b : Bool)
    (h : Ahead (.some x1 y1 h1) Q (s.swapIf swap)) (hx1 : x1 ≠ 0)
    (h2 : (2 : F) ≠ 0) (hc : c ≠ 0) (hc' : c + 1 ≠ 0) :
    Ahead (.some x1 y1 h1) (Q + Q + (if b then .some x1 y1 h1 else 0))
      ((Montgomery.rung c x1 (s.swapIf (b != swap))).swapIf b) := by
  cases b with
  | false =>
      have hr := h.rung hx1 h2 hc hc'
      rw [if_neg Bool.false_ne_true, add_zero]
      simpa [Pair.swapIf] using hr
  | true =>
      have hpair : (s.swapIf swap).swapIf true = s.swapIf (true != swap) := by
        cases swap with
        | false => rfl
        | true => rfl
      have hr := h.swap
      rw [hpair, Affine.Point.neg_some] at hr
      have hback := (hr.rung hx1 h2 hc hc').swap
      rw [← Affine.Point.neg_some, neg_neg] at hback
      rw [if_pos rfl]
      have hsum : Q + Affine.Point.some x1 y1 h1 + (Q + .some x1 y1 h1) + -.some x1 y1 h1
          = Q + Q + .some x1 y1 h1 := by abel
      rwa [hsum] at hback

/-- **The ladder multiplies**: from the top bits of a scalar times `D` to the scalar times
`D`. -/
theorem Ahead.climb {x1 y1 : F} {h1 : (curve c).Nonsingular x1 y1} (hx1 : x1 ≠ 0)
    (h2 : (2 : F) ≠ 0) (hc : c ≠ 0) (hc' : c + 1 ≠ 0) (scalar : Nat) {n : Nat} {swap : Bool}
    {s : Pair F}
    (h : Ahead (.some x1 y1 h1) ((scalar / 2 ^ n) • Affine.Point.some x1 y1 h1) (s.swapIf swap)) :
    Ahead (.some x1 y1 h1) (scalar • Affine.Point.some x1 y1 h1)
      (climb c x1 scalar.testBit n swap s) := by
  induction n generalizing swap s with
  | zero =>
      rw [pow_zero, Nat.div_one] at h
      exact h
  | succ n ih =>
      rw [Montgomery.climb]
      refine ih ?_
      have hbit := h.bit (scalar.testBit n) hx1 h2 hc hc'
      have hstep : scalar / 2 ^ n = scalar / 2 ^ (n + 1) + scalar / 2 ^ (n + 1) +
          (if scalar.testBit n then 1 else 0) := by
        rw [Nat.testBit_eq_decide_div_mod_eq, Nat.pow_succ, ← Nat.div_div_eq_div_mul]
        by_cases hodd : scalar / 2 ^ n % 2 = 1
        · rw [if_pos (by simpa using hodd)]
          omega
        · rw [if_neg (by simpa using hodd)]
          omega
      rw [hstep, add_nsmul, add_nsmul]
      cases hb : scalar.testBit n with
      | false =>
          rw [hb, if_neg Bool.false_ne_true] at hbit
          rw [if_neg Bool.false_ne_true, zero_nsmul]
          exact hbit
      | true =>
          rw [hb, if_pos rfl] at hbit
          rw [if_pos rfl, one_nsmul]
          exact hbit

theorem stands_climb {x1 y1 : F} {h1 : (curve c).Nonsingular x1 y1} (hx1 : x1 ≠ 0)
    (h2 : (2 : F) ≠ 0) (hc : c ≠ 0) (hc' : c + 1 ≠ 0) {scalar n : Nat} (hn : scalar < 2 ^ n) :
    Stands (scalar • Affine.Point.some x1 y1 h1)
      (climb c x1 scalar.testBit n false (Pair.start x1)).x2
      (climb c x1 scalar.testBit n false (Pair.start x1)).z2 := by
  refine (Ahead.climb hx1 h2 hc hc' scalar ?_).first
  rw [Nat.div_eq_of_lt hn, zero_nsmul]
  refine ⟨⟨rfl, one_ne_zero⟩, ?_⟩
  rw [zero_add]
  exact ⟨one_ne_zero, (mul_one x1).symm⟩

end Montgomery
