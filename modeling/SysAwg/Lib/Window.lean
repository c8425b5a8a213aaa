/-
A sliding window over counters.

A receiver that must not take the same counter twice cannot remember every counter
it took.  It remembers the highest and one bit for each of the `w` counters up to
it, and refuses whatever lies further back.  `Window.Tracks` says what such a state
knows about the set of counters taken, and the lemmas below say that offering a
counter keeps it: a counter is taken exactly when it is new and not too old.
-/
import Mathlib.Data.BitVec
import Mathlib.Data.Set.Insert

/-- The highest counter taken, and bit `i` for the counter `i` below it. -/
structure Window (w : Nat) where
  max : Nat
  bits : BitVec w

namespace Window

variable {w : Nat}

def empty : Window w := ⟨0, 0⟩

/-- Offer a counter: the window after taking it, or nothing if it is refused. -/
def offer (win : Window w) (c : Nat) : Option (Window w) :=
  if win.max < c then some ⟨c, win.bits <<< (c - win.max) ||| BitVec.twoPow w 0⟩
  else if w ≤ win.max - c then none
  else if win.bits.getLsbD (win.max - c) then none
  else some ⟨win.max, win.bits ||| BitVec.twoPow w (win.max - c)⟩

/-- What the window knows of the counters taken so far. -/
structure Tracks (win : Window w) (taken : Set Nat) : Prop where
  /-- No counter above the highest was taken. -/
  le_max : ∀ c ∈ taken, c ≤ win.max
  /-- A bit within reach says whether its counter was taken. -/
  bit_iff : ∀ i, i < w → i ≤ win.max → (win.bits.getLsbD i = true ↔ win.max - i ∈ taken)

theorem empty_tracks : (empty : Window w).Tracks ∅ where
  le_max := by
    intro c hc
    exact absurd hc (Set.notMem_empty c)
  bit_iff := by
    intro i _ _
    simp [empty]

theorem max_of_offer {win win' : Window w} {c : Nat} (h : win.offer c = some win') :
    win'.max = Max.max win.max c := by
  unfold offer at h
  split at h
  · rename_i habove
    rw [← Option.some.inj h]
    show c = Max.max win.max c
    omega
  · split at h
    · cases h
    · split at h
      · cases h
      · rw [← Option.some.inj h]
        show win.max = Max.max win.max c
        omega

/-- **A counter is taken exactly when it is new and within reach.** -/
theorem Tracks.offer_isSome_iff {win : Window w} {taken : Set Nat} (h : win.Tracks taken)
    (hw : 0 < w) (c : Nat) : (win.offer c).isSome ↔ c ∉ taken ∧ win.max < c + w := by
  unfold offer
  by_cases habove : win.max < c
  · have hnew : c ∉ taken := fun hc => absurd (h.le_max c hc) (by omega)
    simp [habove, hnew]
    omega
  · by_cases hold : w ≤ win.max - c
    · simp only [habove, hold, if_true, if_false, Option.isSome_none, Bool.false_eq_true,
        false_iff]
      omega
    · have hbit := h.bit_iff (win.max - c) (by omega) (by omega)
      rw [show win.max - (win.max - c) = c by omega] at hbit
      by_cases hset : win.bits.getLsbD (win.max - c) = true
      · simp [habove, hold, hset, hbit.mp hset]
      · have hnew : c ∉ taken := fun hc => hset (hbit.mpr hc)
        simp [habove, hold, hset, hnew]
        omega

/-- **Taking a counter adds it to what the window knows**, and nothing else. -/
theorem Tracks.offer {win win' : Window w} {taken : Set Nat} (h : win.Tracks taken) {c : Nat}
    (hoffer : win.offer c = some win') : win'.Tracks (insert c taken) := by
  unfold Window.offer at hoffer
  by_cases habove : win.max < c
  · -- The window moves up: bit `i` is now the counter `i` below `c`.
    simp only [habove, if_true, Option.some.injEq] at hoffer
    subst hoffer
    refine ⟨?_, ?_⟩
    · intro d hd
      rcases Set.mem_insert_iff.mp hd with rfl | hd
      · exact le_rfl
      · exact (h.le_max d hd).trans habove.le
    · intro i hi hle
      simp only at hle ⊢
      rw [Set.mem_insert_iff, BitVec.getLsbD_or, BitVec.getLsbD_shiftLeft, BitVec.getLsbD_twoPow]
      rcases Nat.eq_zero_or_pos i with rfl | hpos
      · simp [hi]
      · have hne : c - i ≠ c := by omega
        by_cases hfar : i < c - win.max
        · -- counters between the old highest and the new one were never taken
          have hnew : c - i ∉ taken := fun hd => absurd (h.le_max _ hd) (by omega)
          simp [hfar, hne, hnew]
          omega
        · have hold := h.bit_iff (i - (c - win.max)) (by omega) (by omega)
          rw [show win.max - (i - (c - win.max)) = c - i by omega] at hold
          simp only [hi, hfar, decide_true, decide_false, Bool.not_false, Bool.true_and, hne,
            false_or]
          rw [← hold]
          simp
          omega
  · by_cases hold : w ≤ win.max - c
    · simp [habove, hold] at hoffer
    · by_cases hset : win.bits.getLsbD (win.max - c) = true
      · simp [habove, hold, hset] at hoffer
      · -- The window stays: one more bit is set.
        simp only [habove, hold, hset, if_false, Option.some.injEq, Bool.false_eq_true] at hoffer
        subst hoffer
        refine ⟨?_, ?_⟩
        · intro d hd
          rcases Set.mem_insert_iff.mp hd with rfl | hd
          · simp only
            omega
          · exact h.le_max d hd
        · intro i hi hle
          simp only at hle ⊢
          rw [Set.mem_insert_iff, BitVec.getLsbD_or, BitVec.getLsbD_twoPow, Bool.or_eq_true,
            h.bit_iff i hi hle]
          have hsame : (win.max - i = c) ↔ (win.max - c = i) := by omega
          have hin : win.max - c < w := by omega
          simp [hsame, hin, or_comm]

/-- A counter that is taken was not taken before, and is known from then on. -/
theorem Tracks.taken {win win' : Window w} {taken : Set Nat} (h : win.Tracks taken) (hw : 0 < w)
    {c : Nat} (hoffer : win.offer c = some win') :
    c ∉ taken ∧ win'.Tracks (insert c taken) := by
  refine ⟨?_, h.offer hoffer⟩
  have hsome : (win.offer c).isSome := by
    rw [hoffer]
    rfl
  exact ((h.offer_isSome_iff hw c).mp hsome).1

end Window
