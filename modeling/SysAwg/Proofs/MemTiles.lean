/-
The heap of the network stack is cut into tiles.

Every change `mem.c` makes to its headers is one of three: a tile changes hands, two
neighbours become one, or a boundary is drawn anew behind a tile.  Each is shown here on the
bytes, once, and the calls are then followed tile by tile.
-/
import SysAwg.Lib.Tiling
import SysAwg.Mem

namespace SysAwg.Mem

open Tiling

@[simp] theorem memAlignment_eq : memAlignment = 4 := rfl

@[simp] theorem memSizeAligned_eq : memSizeAligned = 49152 := rfl

@[simp] theorem ramEnd_eq : ramEnd = 49152 := rfl

@[simp] theorem minSizeAligned_eq : minSizeAligned = 12 := rfl

@[simp] theorem sizeofStructMem_eq : sizeofStructMem = 8 := rfl

/-! ### Bytes

A header is five bytes, and the heap is a function from addresses to bytes.  Writes to
different fields do not meet as long as the fields do not overlap.
-/

theorem get16_set16 (ram : Ram) (i : Nat) {v : Nat} (hv : v < 65536) :
    (ram.set16 i v).get16 i = v := by
  have hne : i ≠ i + 1 := by omega
  simp only [Ram.get16, Ram.set16, Function.update_self, Function.update_of_ne hne,
    UInt8.toNat_ofNat']
  omega

theorem set16_apart (ram : Ram) {i j : Nat} (v : Nat) (h : j < i ∨ i + 2 ≤ j) :
    ram.set16 i v j = ram j := by
  rw [Ram.set16, Function.update_of_ne (by omega), Function.update_of_ne (by omega)]

theorem get16_set16_apart (ram : Ram) {i j : Nat} (v : Nat) (h : j + 2 ≤ i ∨ i + 2 ≤ j) :
    (ram.set16 i v).get16 j = ram.get16 j := by
  rw [Ram.get16, Ram.get16, set16_apart ram v (by omega), set16_apart ram v (by omega)]

theorem setNext_apart (ram : Ram) {x i : Nat} (v : Nat) (h : i < x ∨ x + 8 ≤ i) :
    ram.setNext x v i = ram i := set16_apart ram v (by omega)

theorem setPrev_apart (ram : Ram) {x i : Nat} (v : Nat) (h : i < x ∨ x + 8 ≤ i) :
    ram.setPrev x v i = ram i := set16_apart ram v (by omega)

theorem setUsed_apart (ram : Ram) {x i : Nat} (v : UInt8) (h : i < x ∨ x + 8 ≤ i) :
    ram.setUsed x v i = ram i := Function.update_of_ne (by omega) _ _

theorem linkBack_apart (ram : Ram) {x i : Nat} (v : Nat) (h : i < x ∨ x + 8 ≤ i) :
    linkBack ram x v i = ram i := by
  rw [linkBack]
  split
  · exact setPrev_apart ram v h
  · rfl

theorem cutOff_apart (ram : Ram) {x y i : Nat} (v : Nat) (hx : i < x ∨ x + 8 ≤ i)
    (hy : i < y ∨ y + 8 ≤ i) : cutOff ram x y v i = ram i := by
  rw [cutOff, setNext_apart _ _ hx, setPrev_apart _ _ hy, setNext_apart _ _ hy,
    setUsed_apart _ _ hy]

/-! ### Headers -/

/-- The header at an address. -/
def Ram.node (ram : Ram) (x : Nat) : Node := ⟨ram.next x, ram.prev x, ram.used x != 0⟩

theorem node_setNext (ram : Ram) (x : Nat) {v : Nat} (hv : v < 65536) :
    (ram.setNext x v).node x = { ram.node x with next := v } := by
  simp only [Ram.node, Ram.next, Ram.prev, Ram.used, Ram.setNext, get16_set16 ram x hv]
  rw [get16_set16_apart ram v (by omega), set16_apart ram v (by omega)]

theorem node_setNext_apart (ram : Ram) {x y : Nat} (v : Nat) (h : x + 8 ≤ y ∨ y + 8 ≤ x) :
    (ram.setNext x v).node y = ram.node y := by
  simp only [Ram.node, Ram.next, Ram.prev, Ram.used, Ram.setNext]
  rw [get16_set16_apart ram v (by omega), get16_set16_apart ram v (by omega),
    set16_apart ram v (by omega)]

theorem node_setPrev (ram : Ram) (x : Nat) {v : Nat} (hv : v < 65536) :
    (ram.setPrev x v).node x = { ram.node x with prev := v } := by
  simp only [Ram.node, Ram.next, Ram.prev, Ram.used, Ram.setPrev, get16_set16 ram _ hv]
  rw [get16_set16_apart ram v (by omega), set16_apart ram v (by omega)]

theorem node_setPrev_apart (ram : Ram) {x y : Nat} (v : Nat) (h : x + 8 ≤ y ∨ y + 8 ≤ x) :
    (ram.setPrev x v).node y = ram.node y := by
  simp only [Ram.node, Ram.next, Ram.prev, Ram.used, Ram.setPrev]
  rw [get16_set16_apart ram v (by omega), get16_set16_apart ram v (by omega),
    set16_apart ram v (by omega)]

theorem get16_setUsed (ram : Ram) {x j : Nat} (v : UInt8) (h : j + 2 ≤ x + 4 ∨ x + 5 ≤ j) :
    (ram.setUsed x v).get16 j = ram.get16 j := by
  rw [Ram.get16, Ram.get16, Ram.setUsed, Function.update_of_ne (by omega),
    Function.update_of_ne (by omega)]

theorem node_setUsed (ram : Ram) (x : Nat) (v : UInt8) :
    (ram.setUsed x v).node x = { ram.node x with used := v != 0 } := by
  simp only [Ram.node, Ram.next, Ram.prev, Ram.used]
  rw [get16_setUsed ram v (by omega), get16_setUsed ram v (by omega), Ram.setUsed,
    Function.update_self]

theorem node_setUsed_apart (ram : Ram) {x y : Nat} (v : UInt8) (h : x + 8 ≤ y ∨ y + 8 ≤ x) :
    (ram.setUsed x v).node y = ram.node y := by
  simp only [Ram.node, Ram.next, Ram.prev, Ram.used]
  rw [get16_setUsed ram v (by omega), get16_setUsed ram v (by omega), Ram.setUsed,
    Function.update_of_ne (by omega)]

theorem node_linkBack (ram : Ram) (x : Nat) {v : Nat} (hv : v < 65536) :
    (linkBack ram x v).node x =
      if x ≠ 49152 then { ram.node x with prev := v } else ram.node x := by
  rw [linkBack, memSizeAligned_eq]
  split
  · exact node_setPrev ram x hv
  · rfl

theorem node_linkBack_apart (ram : Ram) {x y : Nat} (v : Nat) (h : x + 8 ≤ y ∨ y + 8 ≤ x) :
    (linkBack ram x v).node y = ram.node y := by
  rw [linkBack]
  split
  · exact node_setPrev_apart ram v h
  · rfl

/-! ### Tiles

Here the two are put together: the tiles say where headers lie and how far they are apart,
so a write to one of them is no write to another.
-/

/-- The memory is cut into these tiles. -/
structure Laid (ram : Ram) (ts : List (Tile Nat)) : Prop where
  linked : Linked ram.node 0 0 ts
  closed : ram.node 49152 = ⟨49152, 49152, true⟩
  width_eq : width ts = 49152
  sizes : ∀ t ∈ ts, 20 ≤ t.size ∧ t.size % 4 = 0

variable {ram ram' : Ram} {ls mid mid' rs : List (Tile Nat)}

/-- Where a tile lies. -/
theorem Laid.fits (mid : List (Tile Nat)) (h : Laid ram (ls ++ (mid ++ rs))) :
    width ls + width mid + width rs = 49152 := by
  have hwidth := h.width_eq
  rw [width_append, width_append] at hwidth
  omega

/-- **New headers for a few neighbours.** -/
theorem Laid.replace (mid mid' : List (Tile Nat)) (h : Laid ram (ls ++ (mid ++ rs))) (hwidth : width mid' = width mid)
    (hsizes : ∀ t ∈ mid', 20 ≤ t.size ∧ t.size % 4 = 0)
    (hbefore : ∀ x, x + 8 ≤ width ls → ram'.node x = ram.node x)
    (hmid : Linked ram'.node (lastStart 0 0 ls) (width ls) mid')
    (hnext : ram'.node (width ls + width mid) = if width ls + width mid ≠ 49152 then
      { ram.node (width ls + width mid) with
        prev := lastStart (lastStart 0 0 ls) (width ls) mid' }
      else ram.node (width ls + width mid))
    (hafter : ∀ x, width ls + width mid + 8 ≤ x → ram'.node x = ram.node x) :
    Laid ram' (ls ++ (mid' ++ rs)) := by
  have hfits := h.fits _
  have hold : ∀ t ∈ ls ++ rs, 20 ≤ t.size ∧ t.size % 4 = 0 := by
    intro t ht
    refine h.sizes t ?_
    simp only [List.mem_append] at ht ⊢
    tauto
  have hroom : rs ≠ [] → 20 ≤ width rs := by
    intro hne
    cases rs with
    | nil => exact absurd rfl hne
    | cons t rs =>
        have hhead := (hold t (List.mem_append_right ls List.mem_cons_self)).1
        rw [width_cons]
        omega
  refine ⟨?_, ?_, ?_, ?_⟩
  · refine h.linked.replace (k := 8) hwidth (fun t ht => ?_) ?_ ?_ ?_ ?_
    · have hsize := (hold t ht).1
      omega
    · simpa only [Nat.zero_add] using hbefore
    · simpa only [Nat.zero_add] using hmid
    · intro hne
      have hwide := hroom hne
      simp only [Nat.zero_add]
      rw [hnext, if_pos (by omega)]
    · simpa only [Nat.zero_add] using hafter
  · rw [← h.closed]
    by_cases hend : width ls + width mid = 49152
    · rw [← hend, hnext, if_neg (by omega)]
    · refine hafter _ ?_
      have hne : rs ≠ [] := by
        intro hnil
        rw [hnil, width_nil] at hfits
        omega
      have hwide := hroom hne
      omega
  · rw [width_append, width_append, hwidth]
    omega
  · intro t ht
    simp only [List.mem_append] at ht
    rcases ht with ht | ht | ht
    · exact hold t (List.mem_append_left rs ht)
    · exact hsizes t ht
    · exact hold t (List.mem_append_right ls ht)

/-- The same tiles, seen from the next one. -/
theorem Laid.shift {t u : Tile Nat} (h : Laid ram (ls ++ t :: u :: rs)) :
    Laid ram ((ls ++ [t]) ++ u :: rs) := by
  simpa using h

/-- The header of a tile. -/
theorem Laid.node {t : Tile Nat} (h : Laid ram (ls ++ t :: rs)) :
    ram.node (width ls) = ⟨width ls + t.size, lastStart 0 0 ls, t.owner.isSome⟩ := by
  have hnode := h.linked.node
  simpa only [Nat.zero_add] using hnode

theorem Laid.next_eq {t : Tile Nat} (h : Laid ram (ls ++ t :: rs)) :
    ram.next (width ls) = width ls + t.size := congrArg Node.next h.node

theorem Laid.prev_eq {t : Tile Nat} (h : Laid ram (ls ++ t :: rs)) :
    ram.prev (width ls) = lastStart 0 0 ls := congrArg Node.prev h.node

theorem used_eq_zero_iff {x : Nat} {b : Bool} (h : (ram.node x).used = b) :
    ram.used x = 0 ↔ b = false := by
  rw [← h, Ram.node, bne_eq_false_iff_eq]

theorem Laid.used_iff {t : Tile Nat} (h : Laid ram (ls ++ t :: rs)) :
    ram.used (width ls) = 0 ↔ t.owner = none := by
  rw [used_eq_zero_iff (congrArg Node.used h.node), Option.isSome_eq_false_iff,
    Option.isNone_iff_eq_none]

/-- What lies behind a few neighbours points back to the last of them. -/
theorem Laid.prev_after (mid : List (Tile Nat)) (h : Laid ram (ls ++ (mid ++ rs)))
    (hne : width ls + width mid ≠ 49152) :
    (ram.node (width ls + width mid)).prev = lastStart (lastStart 0 0 ls) (width ls) mid := by
  have hfits := h.fits _
  have hrest := ((linked_append _ _ ls (mid ++ rs)).mp h.linked).2
  have hrs := ((linked_append _ _ mid rs).mp hrest).2
  cases rs with
  | nil =>
      rw [width_nil] at hfits
      omega
  | cons u rs =>
      have hnode := hrs.1
      simp only [Nat.zero_add] at hnode
      rw [hnode]

theorem width_mod {ts : List (Tile Nat)} (h : ∀ t ∈ ts, 20 ≤ t.size ∧ t.size % 4 = 0) :
    width ts % 4 = 0 := by
  induction ts with
  | nil => rfl
  | cons t ts ih =>
      have hrest := ih fun u hu => h u (List.mem_cons_of_mem t hu)
      have hhead := (h t List.mem_cons_self).2
      rw [width_cons]
      omega

/-- **A tile changes hands.** -/
theorem Laid.setUsed {t : Tile Nat} {v : UInt8} {o : Option Nat}
    (h : Laid ram (ls ++ t :: rs)) (ho : o.isSome = (v != 0)) :
    Laid (ram.setUsed (width ls) v) (ls ++ ⟨t.size, o⟩ :: rs) := by
  have hsize := h.sizes t (List.mem_append_right ls List.mem_cons_self)
  have hnode := h.node
  refine Laid.replace [t] [⟨t.size, o⟩] h rfl ?_ ?_ ?_ ?_ ?_
  · intro u hu
    rw [List.mem_singleton.mp hu]
    exact hsize
  · intro x hx
    exact node_setUsed_apart ram v (by omega)
  · refine ⟨?_, trivial⟩
    rw [node_setUsed, hnode, ho]
  · rw [node_setUsed_apart ram v (by simp only [width_cons, width_nil]; omega)]
    split
    · rename_i hne
      rw [show lastStart (lastStart 0 0 ls) (width ls) [⟨t.size, o⟩]
          = lastStart (lastStart 0 0 ls) (width ls) [t] from rfl, ← h.prev_after [t] hne]
    · rfl
  · intro x hx
    simp only [width_cons, width_nil] at hx
    exact node_setUsed_apart ram v (by omega)

/-- What `absorb` writes. -/
theorem Laid.absorb_eq {s t : Nat} {o o' : Option Nat}
    (h : Laid ram (ls ++ ⟨s, o⟩ :: ⟨t, o'⟩ :: rs)) :
    absorb ram (width ls) (width ls + s) =
      linkBack (ram.setNext (width ls) (width ls + s + t)) (width ls + s + t) (width ls) := by
  have hs := h.sizes ⟨s, o⟩ (by simp)
  have hfits := h.fits [⟨s, o⟩, ⟨t, o'⟩]
  have hsecond := h.shift.node
  simp only [width_append, width_cons, width_nil, Nat.add_zero] at hs hfits hsecond
  have hkept : (ram.setNext (width ls) (width ls + s + t)).node (width ls + s)
      = ram.node (width ls + s) := node_setNext_apart _ _ (by omega)
  have hold : ram.next (width ls + s) = width ls + s + t := congrArg Node.next hsecond
  have hnew : (ram.setNext (width ls) (width ls + s + t)).next (width ls + s) = width ls + s + t :=
    congrArg Node.next (hkept.trans hsecond)
  simp only [Mem.absorb, hold, hnew, memToPtr]
  rw [Nat.mod_eq_of_lt (by omega)]

/-- **Two neighbours become one.** -/
theorem Laid.absorb {s t : Nat} {o o' : Option Nat}
    (h : Laid ram (ls ++ ⟨s, o⟩ :: ⟨t, o'⟩ :: rs)) :
    Laid (absorb ram (width ls) (width ls + s)) (ls ++ ⟨s + t, o⟩ :: rs) := by
  have hs := h.sizes ⟨s, o⟩ (by simp)
  have ht := h.sizes ⟨t, o'⟩ (by simp)
  have hfits := h.fits [⟨s, o⟩, ⟨t, o'⟩]
  simp only [width_cons, width_nil] at hs ht hfits
  have hnode := h.node
  rw [h.absorb_eq]
  refine Laid.replace [⟨s, o⟩, ⟨t, o'⟩] [⟨s + t, o⟩] h ?_ ?_ ?_ ?_ ?_ ?_
  · simp only [width_cons, width_nil]
    omega
  · intro u hu
    rw [List.mem_singleton.mp hu]
    show 20 ≤ s + t ∧ (s + t) % 4 = 0
    omega
  · intro x hx
    rw [node_linkBack_apart _ _ (by omega), node_setNext_apart _ _ (by omega)]
  · refine ⟨?_, trivial⟩
    rw [node_linkBack_apart _ _ (by omega), node_setNext _ _ (by omega), hnode]
    simp only [Nat.add_assoc]
  · rw [show width ls + width [(⟨s, o⟩ : Tile Nat), ⟨t, o'⟩] = width ls + s + t by
      simp only [width_cons, width_nil]; omega]
    rw [node_linkBack _ _ (by omega), node_setNext_apart _ _ (by omega)]
    rfl
  · intro x hx
    simp only [width_cons, width_nil] at hx
    rw [node_linkBack_apart _ _ (by omega), node_setNext_apart _ _ (by omega)]

/-- **A boundary is drawn anew**: a tile ends after `k` bytes, and what is left of it and of the
neighbours taken along is free. -/
theorem Laid.cutOff {t : Tile Nat} {k : Nat} (h : Laid ram (ls ++ (t :: mid ++ rs)))
    (hk : 20 ≤ k) (hmod : k % 4 = 0) (hroom : k + 20 ≤ width (t :: mid)) :
    Laid (linkBack (cutOff ram (width ls) (width ls + k) (width ls + width (t :: mid)))
        (width ls + width (t :: mid)) (width ls + k))
      (ls ++ ⟨k, t.owner⟩ :: ⟨width (t :: mid) - k, none⟩ :: rs) := by
  have hwidth : width (t :: mid) % 4 = 0 := by
    refine width_mod fun u hu => h.sizes u ?_
    exact List.mem_append_right ls (List.mem_append_left rs hu)
  have hnode := Laid.node (show Laid ram (ls ++ t :: (mid ++ rs)) from h)
  have hfits := h.fits _
  generalize hw : width (t :: mid) = w at *
  refine Laid.replace (t :: mid) [⟨k, t.owner⟩, ⟨w - k, none⟩] h ?_ ?_ ?_ ?_ ?_ ?_
  · simp only [width_cons, width_nil] at hw ⊢
    omega
  · intro u hu
    simp only [List.mem_cons, List.not_mem_nil, or_false] at hu
    rcases hu with rfl | rfl
    · exact ⟨hk, hmod⟩
    · show 20 ≤ w - k ∧ (w - k) % 4 = 0
      omega
  · intro x hx
    simp (disch := omega) only [Mem.cutOff, node_linkBack_apart, node_setNext_apart,
      node_setPrev_apart, node_setUsed_apart]
  · refine ⟨?_, ?_, trivial⟩
    · simp (disch := omega) only [Mem.cutOff, node_linkBack_apart, node_setNext, node_setNext_apart,
        node_setPrev_apart, node_setUsed_apart, hnode]
    · simp (disch := omega) only [Mem.cutOff, node_linkBack_apart, node_setNext, node_setNext_apart,
        node_setPrev, node_setUsed]
      simp only [Option.isSome_none]
      rw [show width ls + k + (w - k) = width ls + w by omega]
      rfl
  · rw [hw, node_linkBack _ _ (by omega)]
    simp (disch := omega) only [Mem.cutOff, node_setNext_apart, node_setPrev_apart,
      node_setUsed_apart]
    rfl
  · intro x hx
    rw [hw] at hx
    simp (disch := omega) only [Mem.cutOff, node_linkBack_apart, node_setNext_apart,
      node_setPrev_apart, node_setUsed_apart]

end SysAwg.Mem
