/-
Messages taken in blocks.

A hash or an authenticator takes its message block by block, but is handed it in pieces
that end anywhere.  What does not fill a block is kept until more comes.  `Held` says what
such a state knows of the message so far: some blocks went through the step function, and
the rest of the message is what is kept.

Pieces are pushed onto the rest and blocks flushed from its front, in whatever order the
program does it; both keep `Held`, so how the message was cut never matters.
-/
import Mathlib.Data.List.Basic
import Mathlib.Tactic.Ring

namespace Blocks

variable {α σ τ : Type} {f : σ → List α → σ} {n : Nat}

/-- The first `k` blocks of `n` items, one by one. -/
def feed (f : σ → List α → σ) (n : Nat) : Nat → σ → List α → σ
  | 0, s, _ => s
  | k + 1, s, xs => feed f n k (f s (xs.take n)) (xs.drop n)

theorem feed_append (f : σ → List α → σ) (n : Nat) {k : Nat} (s : σ) {xs : List α} (ys : List α)
    (h : k * n ≤ xs.length) : feed f n k s (xs ++ ys) = feed f n k s xs := by
  induction k generalizing s xs with
  | zero => rfl
  | succ k ih =>
      have hn : n ≤ xs.length := by
        rw [Nat.succ_mul] at h
        omega
      have hdrop : k * n ≤ (xs.drop n).length := by
        rw [Nat.succ_mul] at h
        rw [List.length_drop]
        omega
      rw [feed, feed, List.take_append_of_le_length hn, List.drop_append_of_le_length hn, ih _ hdrop]

theorem feed_take (f : σ → List α → σ) (n : Nat) {k : Nat} (s : σ) (xs : List α)
    (h : k * n ≤ xs.length) : feed f n k s (xs.take (k * n)) = feed f n k s xs := by
  have hlen : k * n ≤ (xs.take (k * n)).length := by
    rw [List.length_take]
    omega
  rw [← feed_append f n s (xs.drop (k * n)) hlen, List.take_append_drop]

theorem feed_add (f : σ → List α → σ) (n j k : Nat) (s : σ) (xs : List α) :
    feed f n (j + k) s xs = feed f n k (feed f n j s xs) (xs.drop (j * n)) := by
  induction j generalizing s xs with
  | zero => simp [feed]
  | succ j ih =>
      rw [Nat.succ_add, feed, feed, ih, List.drop_drop, Nat.succ_mul, Nat.add_comm n]

/-- Two step functions that agree block by block through a relation agree on every
number of blocks. -/
theorem feed_rel {g : τ → List α → τ} {R : σ → τ → Prop}
    (step : ∀ s t b, b.length = n → R s t → R (f s b) (g t b)) {k : Nat} {s : σ} {t : τ}
    {xs : List α} (hk : k * n ≤ xs.length) (h : R s t) : R (feed f n k s xs) (feed g n k t xs) := by
  induction k generalizing s t xs with
  | zero => exact h
  | succ k ih =>
      rw [Nat.succ_mul] at hk
      have hblock : (xs.take n).length = n := by
        rw [List.length_take]
        omega
      have hdrop : k * n ≤ (xs.drop n).length := by
        rw [List.length_drop]
        omega
      exact ih hdrop (step s t _ hblock h)

/-- Some blocks of `msg` went through `f`, starting from `s₀`, and `rest` is what is left. -/
structure Held (f : σ → List α → σ) (n : Nat) (s₀ : σ) (msg : List α) (s : σ) (rest : List α) :
    Prop where
  fed : ∃ k, k * n ≤ msg.length ∧ s = feed f n k s₀ msg ∧ rest = msg.drop (k * n)

namespace Held

variable {s₀ s : σ} {msg rest : List α}

theorem start : Held f n s₀ [] s₀ [] where
  fed := ⟨0, by simp, rfl, by simp⟩

/-- More of the message arrives. -/
theorem push (h : Held f n s₀ msg s rest) (ys : List α) :
    Held f n s₀ (msg ++ ys) s (rest ++ ys) := by
  obtain ⟨k, hk, hs, hrest⟩ := h.fed
  refine ⟨⟨k, ?_, ?_, ?_⟩⟩
  · rw [List.length_append]
    omega
  · rw [hs, feed_append f n s₀ ys hk]
  · rw [hrest, List.drop_append_of_le_length hk]

/-- Some blocks at the front of the rest are taken. -/
theorem flush (h : Held f n s₀ msg s rest) {j : Nat} (hj : j * n ≤ rest.length) :
    Held f n s₀ msg (feed f n j s rest) (rest.drop (j * n)) := by
  obtain ⟨k, hk, hs, hrest⟩ := h.fed
  rw [hrest, List.length_drop] at hj
  refine ⟨⟨k + j, ?_, ?_, ?_⟩⟩
  · rw [Nat.add_mul]
    omega
  · rw [feed_add, hs, hrest]
  · rw [hrest, List.drop_drop, Nat.add_mul]

/-- One block is taken, and it is the whole rest. -/
theorem flush_one (h : Held f n s₀ msg s rest) (hn : rest.length = n) :
    Held f n s₀ msg (f s rest) [] := by
  have hone := h.flush (show 1 * n ≤ rest.length by omega)
  simpa [feed, List.take_of_length_le (Nat.le_of_eq hn), List.drop_of_length_le (Nat.le_of_eq hn)]
    using hone

/-- How many blocks were taken is known from the lengths. -/
theorem count (h : Held f n s₀ msg s rest) :
    ∃ k, msg.length = k * n + rest.length ∧ s = feed f n k s₀ msg ∧ rest = msg.drop (k * n) := by
  obtain ⟨k, hk, hs, hrest⟩ := h.fed
  refine ⟨k, ?_, hs, hrest⟩
  rw [hrest, List.length_drop]
  omega

end Held

end Blocks
