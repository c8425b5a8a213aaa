/-
One's-complement sums of 16-bit words.

The sum of an internet checksum adds words and brings the carry back in at the low end, so
it knows its operand modulo 65535, and apart from that only whether it is zero.  An
ordinary sum that is folded afterwards is the same number.  So a word that completes the
ordinary sum to a multiple of 65535 completes the one's-complement sum to all ones.
-/
import SysAwg.Lib.Bytes

namespace Bytes

/-- The 16-bit words of a byte string, high byte first; an odd last byte is a high half. -/
def words16 : Bytes → List Nat
  | a :: b :: rest => (a.toNat * 256 + b.toNat) :: words16 rest
  | [a] => [a.toNat * 256]
  | [] => []

/-- Their ordinary sum. -/
def wordSum (b : Bytes) : Nat := (words16 b).sum

/-- The sum of two words, with the carry brought back. -/
def onesAdd (x y : Nat) : Nat := (x + y) % 65536 + (x + y) / 65536

/-- The one's-complement sum of a byte string. -/
def onesSum (b : Bytes) : Nat := (words16 b).foldl onesAdd 0

/-- `n` with its carries brought back. -/
structure Folds (n v : Nat) : Prop where
  small : v < 65536
  residue : v % 65535 = n % 65535
  zero : v = 0 → n = 0

namespace Folds

theorem of_lt {n : Nat} (h : n < 65536) : Folds n n := ⟨h, rfl, id⟩

/-- A sum that is a multiple of 65535, and not zero, folds to all ones. -/
theorem all_ones {n v : Nat} (h : Folds n v) (hpos : 0 < n) (hmod : n % 65535 = 0) : v = 65535 := by
  have hsmall := h.small
  have hres := h.residue
  have hzero : v ≠ 0 := fun hv => by
    have := h.zero hv
    omega
  omega

/-- What is left to all ones completes a sum, and so does all ones if nothing is left. -/
theorem complete {n v w : Nat} (h : Folds n v) (hw : w = 65535 - v ∨ v = 65535 ∧ w = 65535) :
    (n + w) % 65535 = 0 := by
  have hsmall := h.small
  have hres := h.residue
  omega

/-- A word is added to a sum by adding it with its carry brought back. -/
theorem add {n v w : Nat} (h : Folds n v) (hw : w < 65536) : Folds (n + w) (onesAdd v w) := by
  obtain ⟨hsmall, hres, hzero⟩ := h
  refine ⟨?_, ?_, ?_⟩
  · unfold onesAdd
    omega
  · unfold onesAdd
    omega
  · unfold onesAdd
    intro hsum
    have hv : v = 0 := by omega
    have hn := hzero hv
    omega

/-- One round of bringing carries back. -/
theorem carry {n v : Nat} (h : Folds (n % 65536 + n / 65536) v) : Folds n v := by
  obtain ⟨hsmall, hres, hzero⟩ := h
  refine ⟨hsmall, ?_, ?_⟩
  · rw [hres]
    omega
  · intro hv
    have hn := hzero hv
    omega

end Folds

theorem words16_lt (b : Bytes) : ∀ w ∈ words16 b, w < 65536 := by
  fun_induction words16 b with
  | case1 a b rest ih =>
    have ha := a.toNat_lt
    have hb := b.toNat_lt
    intro w hw
    rcases List.mem_cons.mp hw with rfl | hw
    · omega
    · exact ih w hw
  | case2 a =>
    have ha := a.toNat_lt
    intro w hw
    rw [List.mem_singleton.mp hw]
    omega
  | case3 =>
    intro w hw
    cases hw

theorem folds_foldl (ws : List Nat) : ∀ {n v : Nat}, Folds n v → (∀ w ∈ ws, w < 65536) →
    Folds (n + ws.sum) (ws.foldl onesAdd v) := by
  induction ws with
  | nil =>
    intro n v h _
    exact h
  | cons w ws ih =>
    intro n v h hws
    rw [List.sum_cons, ← Nat.add_assoc]
    exact ih (h.add (hws w (List.mem_cons_self ..))) fun x hx => hws x (List.mem_cons_of_mem _ hx)

/-- **The one's-complement sum is the ordinary sum with its carries brought back.** -/
theorem folds_onesSum (b : Bytes) : Folds (wordSum b) (onesSum b) := by
  have h := folds_foldl (words16 b) (Folds.of_lt (show 0 < 65536 by omega)) (words16_lt b)
  rw [Nat.zero_add] at h
  exact h

/-! ### Parts -/

theorem words16_append (a b : Bytes) (ha : a.length % 2 = 0) :
    words16 (a ++ b) = words16 a ++ words16 b := by
  fun_induction words16 a with
  | case1 x y rest ih =>
    simp only [List.length_cons] at ha
    rw [List.cons_append, List.cons_append, words16, ih (by omega)]
    rfl
  | case2 x =>
    rw [List.length_singleton] at ha
    omega
  | case3 => rfl

theorem wordSum_append (a b : Bytes) (ha : a.length % 2 = 0) :
    wordSum (a ++ b) = wordSum a + wordSum b := by
  rw [wordSum, words16_append a b ha, List.sum_append]
  rfl

/-- Words are at most 65535, and half as many as the bytes. -/
theorem wordSum_le (b : Bytes) : 2 * wordSum b ≤ 65535 * (b.length + 1) := by
  unfold wordSum
  fun_induction words16 b with
  | case1 x y rest ih =>
    have hx := x.toNat_lt
    have hy := y.toNat_lt
    simp only [List.sum_cons, List.length_cons]
    omega
  | case2 x =>
    have hx := x.toNat_lt
    simp only [List.sum_cons, List.sum_nil, List.length_cons, List.length_nil]
    omega
  | case3 =>
    simp only [List.sum_nil, List.length_nil]
    omega

end Bytes
