/-
What a history says since it last started over, and what holds at its steps.

A history is a list of entries, newest first.  An entry may end what came before it (a
connection takes over a slot, a counter is reset), and an entry may contribute values of
some kind.  `since` collects what was contributed from the last such point on, oldest
first, so that it can be compared with a queue or a buffer.
-/
import Mathlib.Data.List.Basic

namespace History

variable {ε α : Type} {reset : ε → Bool} {f : ε → List α}

/-- The contributions since the last reset. -/
def since (reset : ε → Bool) (f : ε → List α) : List ε → List α
  | [] => []
  | e :: rest => if reset e then [] else since reset f rest ++ f e

@[simp] theorem since_nil : since reset f [] = [] := rfl

theorem since_cons_reset {e : ε} (h : reset e = true) (t : List ε) :
    since reset f (e :: t) = [] := by
  rw [since, if_pos h]

theorem since_cons {e : ε} (h : reset e = false) (t : List ε) :
    since reset f (e :: t) = since reset f t ++ f e := by
  rw [since, if_neg (by simp [h])]

/-- Entries that neither reset nor contribute leave no trace. -/
theorem since_quiet {new : List ε} (h : ∀ e ∈ new, reset e = false ∧ f e = []) (t : List ε) :
    since reset f (new ++ t) = since reset f t := by
  induction new with
  | nil => rfl
  | cons e rest ih =>
      obtain ⟨hreset, hf⟩ := h e (by simp)
      rw [List.cons_append, since_cons hreset, hf, List.append_nil]
      exact ih fun x hx => h x (by simp [hx])

/-- Properties of the past at every entry: what holds of the new entries and of the old
history holds of all. -/
theorem suffix_cases {x : ε} {older new t : List ε} (h : x :: older <:+ new ++ t)
    (hnew : x ∉ new) : x :: older <:+ t := by
  induction new with
  | nil => exact h
  | cons e rest ih =>
      rw [List.cons_append, List.suffix_cons_iff] at h
      rcases h with heq | h
      · exact absurd (List.cons.inj heq).1 fun hx => hnew (by simp [hx])
      · exact ih h fun hx => hnew (by simp [hx])

/-- Something holds at every step of a sequence: at the first, and at every later one. -/
theorem splits_cons {Q : List ε → ε → Prop} {first : ε} {l : List ε} :
    (∀ before e after, first :: l = before ++ e :: after → Q before e) ↔
      Q [] first ∧ ∀ before e after, l = before ++ e :: after → Q (first :: before) e := by
  constructor
  · intro h
    refine ⟨h [] first l rfl, ?_⟩
    intro before e after hl
    exact h (first :: before) e after (by rw [hl]; rfl)
  · rintro ⟨hfirst, hlater⟩ before e after hl
    rcases before with _ | ⟨x, before⟩
    · obtain ⟨rfl, -⟩ := List.cons.inj hl
      exact hfirst
    · obtain ⟨rfl, hrest⟩ := List.cons.inj hl
      exact hlater before e after hrest

theorem splits_nil {Q : List ε → ε → Prop} :
    ∀ before e after, [] = before ++ e :: after → Q before e := by
  intro before e after hl
  simp at hl

end History
