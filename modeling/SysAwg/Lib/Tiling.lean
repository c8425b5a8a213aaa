/-
A stretch of memory cut into tiles.

An allocator cuts its memory into tiles that follow one another, each with a header in
front that tells where the next one starts, where the one before starts and whether it is
held.  `Linked` says that the headers found in a memory tell of a list of tiles.  The
lemmas say what such a list has at an address and what becomes of it when the headers of
a few neighbours are written anew.
-/
import Mathlib.Data.List.Chain
import Mathlib.Tactic.Common

namespace Tiling

/-- One tile: all it takes, and whoever holds it. -/
structure Tile (β : Type) where
  size : Nat
  owner : Option β

/-- What a header tells. -/
structure Node where
  next : Nat
  prev : Nat
  used : Bool

variable {β : Type}

/-- What tiles take together. -/
def width : List (Tile β) → Nat
  | [] => 0
  | t :: ts => t.size + width ts

@[simp] theorem width_nil : width ([] : List (Tile β)) = 0 := rfl

@[simp] theorem width_cons (t : Tile β) (ts : List (Tile β)) :
    width (t :: ts) = t.size + width ts := rfl

@[simp] theorem width_append (xs ys : List (Tile β)) :
    width (xs ++ ys) = width xs + width ys := by
  induction xs with
  | nil => simp
  | cons x xs ih => simp [ih, Nat.add_assoc]

theorem size_le_width {t : Tile β} {ts : List (Tile β)} (ht : t ∈ ts) : t.size ≤ width ts := by
  obtain ⟨ls, rs, rfl⟩ := List.append_of_mem ht
  rw [width_append, width_cons]
  omega

theorem mul_length_le_width {k : Nat} {ts : List (Tile β)} (hsize : ∀ t ∈ ts, k ≤ t.size) :
    k * ts.length ≤ width ts := by
  induction ts with
  | nil => exact Nat.le_refl 0
  | cons t ts ih =>
      have hrest := ih fun u hu => hsize u (List.mem_cons_of_mem t hu)
      have hhead := hsize t List.mem_cons_self
      rw [List.length_cons, width_cons, Nat.mul_succ]
      omega

/-! ### Addresses

Everything an allocator remembers by address is a function of the tiles and of where the
first one starts: the headers it may meet, who holds what, and the first tile it may hand
out.
-/

/-- Where the tiles start, the first one at `a`. -/
def starts : Nat → List (Tile β) → List Nat
  | _, [] => []
  | a, t :: ts => a :: starts (a + t.size) ts

/-- A start has a whole tile behind it. -/
theorem mem_starts {k a x : Nat} {ts : List (Tile β)} (hsize : ∀ t ∈ ts, k ≤ t.size)
    (hx : x ∈ starts a ts) : a ≤ x ∧ x + k ≤ a + width ts := by
  induction ts generalizing a with
  | nil => exact absurd hx List.not_mem_nil
  | cons t ts ih =>
      have hhead := hsize t List.mem_cons_self
      rw [width_cons]
      rcases List.mem_cons.mp hx with rfl | hx
      · omega
      · have hrest := ih (fun u hu => hsize u (List.mem_cons_of_mem t hu)) hx
        omega

/-- Where the last tile starts, or `p` without one. -/
def lastStart (p : Nat) : Nat → List (Tile β) → Nat
  | _, [] => p
  | a, t :: ts => lastStart a (a + t.size) ts

@[simp] theorem lastStart_snoc (p a : Nat) (ts : List (Tile β)) (t : Tile β) :
    lastStart p a (ts ++ [t]) = a + width ts := by
  induction ts generalizing p a with
  | nil => rfl
  | cons u ts ih =>
      rw [List.cons_append, lastStart, ih, width_cons]
      omega

/-- What is held, each with where its tile starts. -/
def owners : Nat → List (Tile β) → List (Nat × β)
  | _, [] => []
  | a, t :: ts => t.owner.toList.map (a, ·) ++ owners (a + t.size) ts

theorem owners_append (a : Nat) (xs ys : List (Tile β)) :
    owners a (xs ++ ys) = owners a xs ++ owners (a + width xs) ys := by
  induction xs generalizing a with
  | nil => rfl
  | cons x xs ih =>
      simp only [List.cons_append, owners, ih, width_cons, List.append_assoc, Nat.add_assoc]

theorem owners_held (a s : Nat) (b : β) (ts : List (Tile β)) :
    owners a (⟨s, some b⟩ :: ts) = (a, b) :: owners (a + s) ts := rfl

theorem owners_free (a s : Nat) (ts : List (Tile β)) :
    owners a (⟨s, none⟩ :: ts) = owners (a + s) ts := rfl

theorem owners_of_free {a : Nat} {xs : List (Tile β)} (hfree : ∀ t ∈ xs, t.owner = none)
    (ys : List (Tile β)) : owners a (xs ++ ys) = owners (a + width xs) ys := by
  induction xs generalizing a with
  | nil => rfl
  | cons x xs ih =>
      rw [List.cons_append, owners, hfree x List.mem_cons_self,
        ih fun t ht => hfree t (List.mem_cons_of_mem x ht), width_cons, Nat.add_assoc]
      rfl

/-- What is held is held by a tile. -/
theorem exists_split_of_owner {a x : Nat} {b : β} {ts : List (Tile β)}
    (h : (x, b) ∈ owners a ts) :
    ∃ ls s rs, ts = ls ++ ⟨s, some b⟩ :: rs ∧ x = a + width ls := by
  induction ts generalizing a with
  | nil => exact absurd h List.not_mem_nil
  | cons t ts ih =>
      rcases List.mem_append.mp h with h | h
      · obtain ⟨c, hc, heq⟩ := List.mem_map.mp h
        obtain ⟨rfl, rfl⟩ := Prod.mk.inj heq
        have howner : t.owner = some c := Option.mem_toList.mp hc
        exact ⟨[], t.size, ts, by rw [← howner]; rfl, rfl⟩
      · obtain ⟨ls, s, rs, rfl, rfl⟩ := ih h
        exact ⟨t :: ls, s, rs, rfl, by rw [width_cons, Nat.add_assoc]⟩

/-- What the tiles somebody holds take together. -/
def heldWidth : List (Tile β) → Nat
  | [] => 0
  | t :: ts => (if t.owner.isSome then t.size else 0) + heldWidth ts

@[simp] theorem heldWidth_nil : heldWidth ([] : List (Tile β)) = 0 := rfl

@[simp] theorem heldWidth_held (s : Nat) (b : β) (ts : List (Tile β)) :
    heldWidth (⟨s, some b⟩ :: ts) = s + heldWidth ts := rfl

@[simp] theorem heldWidth_free (s : Nat) (ts : List (Tile β)) :
    heldWidth (⟨s, none⟩ :: ts) = heldWidth ts := Nat.zero_add _

@[simp] theorem heldWidth_append (xs ys : List (Tile β)) :
    heldWidth (xs ++ ys) = heldWidth xs + heldWidth ys := by
  induction xs with
  | nil => simp
  | cons x xs ih => simp only [List.cons_append, heldWidth, ih, Nat.add_assoc]

theorem heldWidth_of_free {ts : List (Tile β)} (hfree : ∀ t ∈ ts, t.owner = none) :
    heldWidth ts = 0 := by
  induction ts with
  | nil => rfl
  | cons t ts ih =>
      rw [heldWidth, hfree t List.mem_cons_self, ih fun u hu => hfree u (List.mem_cons_of_mem t hu)]
      rfl

theorem heldWidth_le (ts : List (Tile β)) : heldWidth ts ≤ width ts := by
  induction ts with
  | nil => exact Nat.le_refl 0
  | cons t ts ih =>
      rw [heldWidth, width_cons]
      split
      · omega
      · omega

/-- Where the first tile that nobody holds starts, or the end. -/
def firstFree : Nat → List (Tile β) → Nat
  | a, [] => a
  | a, t :: ts => if t.owner.isNone then a else firstFree (a + t.size) ts

theorem firstFree_free (a s : Nat) (ts : List (Tile β)) : firstFree a (⟨s, none⟩ :: ts) = a := rfl

theorem firstFree_held (a s : Nat) (b : β) (ts : List (Tile β)) :
    firstFree a (⟨s, some b⟩ :: ts) = firstFree (a + s) ts := rfl

theorem le_firstFree (a : Nat) (ts : List (Tile β)) :
    a ≤ firstFree a ts ∧ firstFree a ts ≤ a + width ts := by
  induction ts generalizing a with
  | nil => exact ⟨Nat.le_refl a, Nat.le_refl a⟩
  | cons t ts ih =>
      have hrest := ih (a + t.size)
      rw [firstFree, width_cons]
      split
      · omega
      · omega

/-- What lies behind a free tile does not matter. -/
theorem firstFree_before (a s : Nat) (xs ys : List (Tile β)) :
    firstFree a (xs ++ ⟨s, none⟩ :: ys) = firstFree a xs := by
  induction xs generalizing a with
  | nil => rfl
  | cons x xs ih => simp only [List.cons_append, firstFree, ih]

theorem firstFree_held_congr (a s : Nat) (b c : β) (xs ys : List (Tile β)) :
    firstFree a (xs ++ ⟨s, some b⟩ :: ys) = firstFree a (xs ++ ⟨s, some c⟩ :: ys) := by
  induction xs generalizing a with
  | nil => rfl
  | cons x xs ih => simp only [List.cons_append, firstFree, ih]

/-- Everything before the first free tile is held. -/
theorem exists_split_firstFree (a : Nat) (ts : List (Tile β)) :
    ∃ ls rs, ts = ls ++ rs ∧ (∀ t ∈ ls, t.owner.isSome) ∧ firstFree a ts = a + width ls := by
  induction ts generalizing a with
  | nil => exact ⟨[], [], rfl, by simp, rfl⟩
  | cons t ts ih =>
      by_cases hfree : t.owner.isNone
      · exact ⟨[], t :: ts, rfl, by simp, if_pos hfree⟩
      · obtain ⟨ls, rs, rfl, hheld, hat⟩ := ih (a + t.size)
        refine ⟨t :: ls, rs, rfl, ?_, ?_⟩
        · intro u hu
          rcases List.mem_cons.mp hu with rfl | hu
          · exact Option.isSome_iff_ne_none.mpr (by simpa using hfree)
          · exact hheld u hu
        · rw [firstFree, if_neg hfree, hat, width_cons, Nat.add_assoc]

/-- The first free tile is among the first ones, or the rest has it. -/
theorem firstFree_append (a : Nat) (xs ys : List (Tile β)) (hpos : ∀ t ∈ xs, 0 < t.size) :
    (firstFree a xs < a + width xs ∧ firstFree a (xs ++ ys) = firstFree a xs) ∨
      ((∀ t ∈ xs, t.owner.isSome) ∧ firstFree a xs = a + width xs ∧
        firstFree a (xs ++ ys) = firstFree (a + width xs) ys) := by
  induction xs generalizing a with
  | nil => exact Or.inr ⟨fun t ht => absurd ht List.not_mem_nil, rfl, rfl⟩
  | cons t xs ih =>
      have hrest := ih (a + t.size) fun u hu => hpos u (List.mem_cons_of_mem t hu)
      have hhead := hpos t List.mem_cons_self
      rw [List.cons_append, firstFree, firstFree, width_cons, ← Nat.add_assoc]
      by_cases hfree : t.owner.isNone
      · rw [if_pos hfree, if_pos hfree]
        exact Or.inl ⟨by omega, rfl⟩
      · rw [if_neg hfree, if_neg hfree]
        rcases hrest with hrest | ⟨hheld, hrest⟩
        · exact Or.inl hrest
        · refine Or.inr ⟨?_, hrest⟩
          intro u hu
          rcases List.mem_cons.mp hu with rfl | hu
          · exact Option.isSome_iff_ne_none.mpr (by simpa using hfree)
          · exact hheld u hu

/-! ### Headers

A header is known by the list alone, so a change to the memory is described as a change to
the list.  What has to be shown of the memory is only which headers were written, and that
the others stayed.
-/

/-- The headers found in memory tell of these tiles: the first starts at `a` and points
back to `p`. -/
def Linked (nodes : Nat → Node) : Nat → Nat → List (Tile β) → Prop
  | _, _, [] => True
  | p, a, t :: ts => nodes a = ⟨a + t.size, p, t.owner.isSome⟩ ∧ Linked nodes a (a + t.size) ts

variable {nodes nodes' : Nat → Node}

theorem linked_append (p a : Nat) (xs ys : List (Tile β)) :
    Linked nodes p a (xs ++ ys) ↔
      Linked nodes p a xs ∧ Linked nodes (lastStart p a xs) (a + width xs) ys := by
  induction xs generalizing p a with
  | nil => simp [Linked, lastStart]
  | cons x xs ih =>
      rw [List.cons_append, Linked, Linked, ih, lastStart, width_cons, ← Nat.add_assoc, and_assoc]

theorem Linked.node {p a : Nat} {ls rs : List (Tile β)} {t : Tile β}
    (h : Linked nodes p a (ls ++ t :: rs)) :
    nodes (a + width ls) = ⟨a + width ls + t.size, lastStart p a ls, t.owner.isSome⟩ :=
  ((linked_append p a ls (t :: rs)).mp h).2.1

/-- Only the headers matter. -/
theorem Linked.congr {p a : Nat} {ts : List (Tile β)} (h : Linked nodes p a ts)
    (hsame : ∀ x ∈ starts a ts, nodes' x = nodes x) : Linked nodes' p a ts := by
  induction ts generalizing p a with
  | nil => trivial
  | cons t ts ih =>
      refine ⟨(hsame a List.mem_cons_self).trans h.1, ?_⟩
      exact ih h.2 fun x hx => hsame x (List.mem_cons_of_mem a hx)

/-- **New headers for a few neighbours**: the tiles before keep theirs, and of those after only
the first changes, in what it points back to. -/
theorem Linked.replace {k p a : Nat} {ls mid mid' rs : List (Tile β)}
    (h : Linked nodes p a (ls ++ (mid ++ rs))) (hwidth : width mid' = width mid)
    (hsize : ∀ t ∈ ls ++ rs, k ≤ t.size)
    (hbefore : ∀ x, x + k ≤ a + width ls → nodes' x = nodes x)
    (hmid : Linked nodes' (lastStart p a ls) (a + width ls) mid')
    (hnext : rs ≠ [] → nodes' (a + width ls + width mid) =
      { nodes (a + width ls + width mid) with
        prev := lastStart (lastStart p a ls) (a + width ls) mid' })
    (hafter : ∀ x, a + width ls + width mid + k ≤ x → nodes' x = nodes x) :
    Linked nodes' p a (ls ++ (mid' ++ rs)) := by
  obtain ⟨hls, hrest⟩ := (linked_append p a ls (mid ++ rs)).mp h
  have hrs := ((linked_append _ _ mid rs).mp hrest).2
  refine (linked_append p a ls (mid' ++ rs)).mpr ⟨?_, (linked_append _ _ mid' rs).mpr ⟨hmid, ?_⟩⟩
  · refine hls.congr fun x hx => hbefore x ?_
    exact (mem_starts (fun t ht => hsize t (List.mem_append_left rs ht)) hx).2
  · rw [hwidth]
    cases rs with
    | nil => trivial
    | cons t rs =>
        have hhead := hsize t (List.mem_append_right ls List.mem_cons_self)
        refine ⟨?_, hrs.2.congr fun x hx => hafter x ?_⟩
        · rw [hnext (List.cons_ne_nil t rs), hrs.1]
        · have hstart := (mem_starts (k := 0) (fun u _ => Nat.zero_le u.size) hx).1
          omega

/-! ### Neighbours -/

/-- No two tiles that nobody holds lie side by side. -/
def Tidy (ts : List (Tile β)) : Prop :=
  ts.IsChain fun t u => t.owner.isSome ∨ u.owner.isSome

/-- A tile that is held may lie anywhere. -/
theorem tidy_held {ls rs : List (Tile β)} {s : Nat} {b : β} :
    Tidy (ls ++ ⟨s, some b⟩ :: rs) ↔ Tidy ls ∧ Tidy rs := by
  simp [Tidy, List.isChain_append, List.isChain_cons]

theorem tidy_free_cons {rs : List (Tile β)} {s : Nat} :
    Tidy (⟨s, none⟩ :: rs) ↔ Tidy rs ∧ ∀ t ∈ rs.head?, t.owner.isSome := by
  simp only [Tidy, List.isChain_cons]
  constructor
  · rintro ⟨hhead, hrs⟩
    exact ⟨hrs, fun t ht => by simpa using hhead t ht⟩
  · rintro ⟨hrs, hhead⟩
    exact ⟨fun t ht => Or.inr (hhead t ht), hrs⟩

/-- One that is not lies between two that are. -/
theorem tidy_free {ls rs : List (Tile β)} {s : Nat} :
    Tidy (ls ++ ⟨s, none⟩ :: rs) ↔ Tidy ls ∧ Tidy rs ∧
      (∀ t ∈ ls.getLast?, t.owner.isSome) ∧ ∀ t ∈ rs.head?, t.owner.isSome := by
  simp only [Tidy, List.isChain_append, List.isChain_cons]
  constructor
  · rintro ⟨hls, ⟨hhead, hrs⟩, hlast⟩
    exact ⟨hls, hrs, fun t ht => by simpa using hlast t ht ⟨s, none⟩ rfl,
      fun t ht => by simpa using hhead t ht⟩
  · rintro ⟨hls, hrs, hlast, hhead⟩
    refine ⟨hls, ⟨fun t ht => Or.inr (hhead t ht), hrs⟩, fun t ht u hu => Or.inl (hlast t ht)⟩

end Tiling
