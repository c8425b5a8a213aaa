/-
Lists as sequences of pieces.

`List.splitOn` cuts a list at every occurrence of a separator.  Here is what a map does to
the pieces, and when the pieces of one list are the last pieces of another: the list is
the end of the other, and what stands before it is nothing or ends with the separator.
-/
import Mathlib.Tactic.Common

namespace Split

variable {α : Type} [DecidableEq α] {sep : α}

theorem splitOn_cons_self (l : List α) : (sep :: l).splitOn sep = [] :: l.splitOn sep := by
  rw [List.splitOn_cons_eq_if_modifyHead, if_pos (beq_self_eq_true sep)]

theorem splitOn_cons_ne {a : α} (h : a ≠ sep) (l : List α) :
    (a :: l).splitOn sep = (l.splitOn sep).modifyHead (List.cons a) := by
  rw [List.splitOn_cons_eq_if_modifyHead, if_neg]
  rw [beq_iff_eq]
  exact h

/-- A map that keeps the separator, and makes no new one, works on the pieces. -/
theorem splitOn_map {f : α → α} (hf : ∀ a, f a = sep ↔ a = sep) (l : List α) :
    (l.map f).splitOn sep = (l.splitOn sep).map (List.map f) := by
  induction l with
  | nil => rfl
  | cons a l ih =>
      rw [List.map_cons]
      by_cases ha : a = sep
      · rw [(hf a).mpr ha, ha, splitOn_cons_self, splitOn_cons_self, ih]
        rfl
      · rw [splitOn_cons_ne (fun h => ha ((hf a).mp h)), splitOn_cons_ne ha, ih]
        cases hpieces : l.splitOn sep with
        | nil => exact absurd hpieces (List.splitOn_ne_nil sep l)
        | cons p ps => rfl

omit [DecidableEq α] in
/-- Two sequences of pieces joined are their texts with a separator between. -/
theorem intercalate_append {xs ys : List (List α)} (hys : ys ≠ []) :
    ∀ x, [sep].intercalate (x :: xs ++ ys)
      = [sep].intercalate (x :: xs) ++ sep :: [sep].intercalate ys := by
  induction xs with
  | nil =>
      intro x
      rw [List.intercalate_singleton, List.cons_append, List.nil_append,
        List.intercalate_cons_of_ne_nil hys, List.append_assoc]
      rfl
  | cons x' xs ih =>
      intro x
      rw [List.cons_append, List.intercalate_cons_of_ne_nil (by simp), ih x',
        List.intercalate_cons_cons]
      simp only [List.append_assoc]

/-- **The last pieces of a list are those of an end of it that starts a piece.** -/
theorem splitOn_suffix_iff {d t : List α} :
    d.splitOn sep <:+ t.splitOn sep ↔ t = d ∨ ∃ before, t = before ++ sep :: d := by
  constructor
  · rintro ⟨pieces, hpieces⟩
    have ht : [sep].intercalate (pieces ++ d.splitOn sep) = t := by
      rw [hpieces, List.intercalate_splitOn]
    cases pieces with
    | nil =>
        rw [List.nil_append, List.intercalate_splitOn] at ht
        exact .inl ht.symm
    | cons x xs =>
        rw [intercalate_append (List.splitOn_ne_nil sep d), List.intercalate_splitOn] at ht
        exact .inr ⟨_, ht.symm⟩
  · rintro (rfl | ⟨before, rfl⟩)
    · exact List.suffix_refl _
    · rw [List.splitOn_append_cons_self]
      exact List.suffix_append _ _

end Split
