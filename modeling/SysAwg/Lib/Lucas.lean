/-
Primes by Lucas's test.

A number is prime if some base has order one less than it, and that order is confirmed by
the prime factors of one less.  A certificate lists numbers with such a base and those
factors, each factor being a number further down the list, so that checking it is nothing
but arithmetic.
-/
import Mathlib.NumberTheory.LucasPrimality

namespace Lucas

/-- `b ^ e` modulo `m`, over the lowest `n` bits of `e`. -/
def powMod (m : Nat) : (n b e : Nat) → Nat
  | 0, _, _ => 1 % m
  | n + 1, b, e =>
    if e % 2 = 1 then b * powMod m n (b * b % m) (e / 2) % m
    else powMod m n (b * b % m) (e / 2)

theorem powMod_eq (m n b e : Nat) (he : e < 2 ^ n) : powMod m n b e = b ^ e % m := by
  induction n generalizing b e with
  | zero =>
      obtain rfl : e = 0 := by omega
      rw [powMod, pow_zero]
  | succ n ih =>
      have hhalf : e / 2 < 2 ^ n := by
        rw [pow_succ] at he
        omega
      have hsq : (b * b % m) ^ (e / 2) ≡ b ^ (2 * (e / 2)) [MOD m] := by
        rw [pow_mul, sq]
        exact (Nat.mod_modEq _ _).pow _
      rw [powMod, ih _ _ hhalf]
      by_cases hodd : e % 2 = 1
      · have hsucc : 2 * (e / 2) + 1 = e := by omega
        rw [if_pos hodd, Nat.mul_mod, Nat.mod_mod, ← Nat.mul_mod]
        have hmul : b * (b * b % m) ^ (e / 2) ≡ b * b ^ (2 * (e / 2)) [MOD m] := hsq.mul_left b
        rw [hmul, ← pow_succ', hsucc]
      · have heven : 2 * (e / 2) = e := by omega
        rw [if_neg hodd, hsq, heven]

/-- A number, a base, and the prime factors of one less with their multiplicities. -/
structure Witness where
  n : Nat
  base : Nat
  factors : List Nat

def Witness.power (w : Witness) (e : Nat) : Nat := powMod w.n (w.n.log2 + 1) w.base e

/-- The base has order `n - 1`. -/
def Witness.holds (w : Witness) : Bool :=
  w.factors.foldl (· * ·) 1 + 1 == w.n && w.power (w.n - 1) == 1 &&
    w.factors.all fun q => w.power ((w.n - 1) / q) != 1

/-- Every witness holds, and its factors are further down the list. -/
def certified : List Witness → Bool
  | [] => true
  | w :: ws =>
    decide (1 < w.n) && w.holds && w.factors.all (fun q => ws.any fun v => v.n == q) &&
      certified ws

theorem pow_eq_one_iff {n : Nat} (hn : 1 < n) (b e : Nat) :
    (b : ZMod n) ^ e = 1 ↔ b ^ e % n = 1 := by
  rw [← Nat.cast_pow, ← Nat.cast_one, ZMod.natCast_eq_natCast_iff', Nat.mod_eq_of_lt hn]

theorem Witness.power_eq (w : Witness) {e : Nat} (he : e ≤ w.n) : w.power e = w.base ^ e % w.n :=
  powMod_eq _ _ _ _ (lt_of_le_of_lt he Nat.lt_log2_self)

/-- A witness proves its number prime once its factors are. -/
theorem Witness.prime {w : Witness} (hn : 1 < w.n) (h : w.holds = true)
    (hfactors : ∀ q ∈ w.factors, q.Prime) : w.n.Prime := by
  simp only [Witness.holds, Bool.and_eq_true, beq_iff_eq, List.all_eq_true, bne_iff_ne] at h
  obtain ⟨⟨hprod, hone⟩, hne⟩ := h
  have hprod' : w.factors.prod = w.n - 1 := by
    rw [List.prod_eq_foldl]
    omega
  refine lucas_primality w.n w.base ?_ ?_
  · rw [pow_eq_one_iff hn, ← w.power_eq (Nat.sub_le _ _)]
    exact hone
  · intro q hq hdvd
    rw [← hprod'] at hdvd
    obtain ⟨p, hp, hqp⟩ := (Prime.dvd_prod_iff hq.prime).mp hdvd
    obtain rfl : q = p := (Nat.prime_dvd_prime_iff_eq hq (hfactors p hp)).mp hqp
    have hle : (w.n - 1) / q ≤ w.n := (Nat.div_le_self _ _).trans (Nat.sub_le _ _)
    rw [ne_eq, pow_eq_one_iff hn, ← w.power_eq hle]
    exact hne q hp

/-- **A certificate** proves every number on it prime. -/
theorem certified_prime {ws : List Witness} (h : certified ws = true) :
    ∀ w ∈ ws, w.n.Prime := by
  induction ws with
  | nil =>
      intro w hw
      exact absurd hw List.not_mem_nil
  | cons v ws ih =>
      rw [certified] at h
      simp only [Bool.and_eq_true, decide_eq_true_eq] at h
      obtain ⟨⟨⟨hn, hholds⟩, hfactors⟩, hrest⟩ := h
      intro w hw
      rcases List.mem_cons.mp hw with rfl | hmem
      · refine Witness.prime hn hholds ?_
        intro q hq
        obtain ⟨u, hu, huq⟩ := List.any_eq_true.mp (List.all_eq_true.mp hfactors q hq)
        rw [← beq_iff_eq.mp huq]
        exact ih hrest u hu
      · exact ih hrest w hmem

end Lucas
