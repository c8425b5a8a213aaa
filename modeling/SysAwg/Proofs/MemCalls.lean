/-
What each call of the heap does to its tiles.

`Holds` ties a heap to its tiles: the headers tell of them, no two free ones are
neighbours, `lfree` is the first free one and `used` counts the others.  Each call keeps
it; the lemmas say for which tiles, and which bytes the call may have written.

A call writes several headers one after the other, and in between the heap is not quite in
order.  So a call is taken apart at the points where its headers tell of some list of
tiles again, and each part is one of the changes that `MemTiles` knows.  The sums of
`used` and the place of `lfree` are followed along, because both are functions of the
tiles.  A last clause of every lemma says which bytes were not written: those that owners
asked for.
-/
import SysAwg.Proofs.MemTiles

namespace SysAwg.Mem

open Tiling

def pad (n : Nat) : Nat := max minSizeAligned (memAlignSize n)

theorem pad_spec (n : Nat) : 12 ≤ pad n ∧ n ≤ pad n ∧ pad n % 4 = 0 ∧
    (pad n = 12 ∨ pad n ≤ n + 3) := by
  rw [pad, memAlignSize, minSizeAligned_eq, memAlignment_eq]
  omega

theorem paddedSize_eq {n : Nat} (hn : n < 65536) :
    paddedSize n = if n ≤ 49152 then some (pad n) else none := by
  have halign : memAlignSize n = (n + 3) / 4 * 4 := rfl
  by_cases hfit : n ≤ 49152
  · have hsize : (if memAlignSize n % 2 ^ 16 < minSizeAligned then minSizeAligned
        else memAlignSize n % 2 ^ 16) = pad n := by
      rw [Nat.mod_eq_of_lt (by omega), pad, minSizeAligned_eq]
      split
      · omega
      · omega
    have hpad : ¬(memSizeAligned < pad n ∨ pad n < n) := by
      rw [pad, minSizeAligned_eq, memSizeAligned_eq]
      omega
    rw [if_pos hfit]
    simp only [paddedSize, hsize]
    exact if_neg hpad
  · rw [if_neg hfit]
    refine if_pos ?_
    rw [memSizeAligned_eq, minSizeAligned_eq]
    split
    · omega
    · omega

/-- A tile is no larger than the size it was taken for asks. -/
def Snug (size n : Nat) : Prop := n + 8 ≤ size ∧ size < pad n + 28

/-- The heap is these tiles, but for the order in which the free ones may lie. -/
structure Sound (h : Heap) (ts : List (Tile Nat)) : Prop where
  laid : Laid h.ram ts
  lowest : h.lfree = firstFree 0 ts
  snug : ∀ t ∈ ts, ∀ n ∈ t.owner, Snug t.size n
  used_eq : h.used.toNat = heldWidth ts
  illegal_eq : h.illegal = 0

/-- The heap is these tiles. -/
structure Holds (h : Heap) (ts : List (Tile Nat)) : Prop extends Sound h ts where
  tidy : Tidy ts

variable {h : Heap} {ls rs mid : List (Tile Nat)} {s : Nat}

/-! ### Putting back

First the tile is marked as free, which may leave two free ones side by side, then it is
joined to the one behind and to the one before.  `Sound` is what holds in between:
everything but that no two free tiles are neighbours.
-/

theorem Sound.lowest_le (hs : Sound h (ls ++ ⟨s, none⟩ :: rs)) : h.lfree ≤ width ls := by
  have hfirst := (le_firstFree 0 ls).2
  rw [hs.lowest, firstFree_before]
  omega

/-- Two free neighbours become one; everything but the headers was right already. -/
theorem Sound.merge {t : Nat} (hs : Sound h (ls ++ ⟨s, none⟩ :: ⟨t, none⟩ :: rs)) :
    Sound { h with ram := absorb h.ram (width ls) (width ls + s) }
      (ls ++ ⟨s + t, none⟩ :: rs) where
  laid := hs.laid.absorb
  lowest := by rw [firstFree_before]; exact hs.lowest.trans (firstFree_before ..)
  snug := by
    intro u hu n hn
    rcases List.mem_append.mp hu with hu | hu
    · exact hs.snug u (List.mem_append_left _ hu) n hn
    · rcases List.mem_cons.mp hu with rfl | hu
      · exact absurd hn (Option.not_mem_none n)
      · exact hs.snug u (by simp [hu]) n hn
  used_eq := by simpa using hs.used_eq
  illegal_eq := hs.illegal_eq

theorem Sound.merge_apart {t i : Nat} (hs : Sound h (ls ++ ⟨s, none⟩ :: ⟨t, none⟩ :: rs))
    (hi : i < width ls ∨ width ls + (s + t) + 8 ≤ i) :
    absorb h.ram (width ls) (width ls + s) i = h.ram i := by
  rw [hs.laid.absorb_eq, linkBack_apart _ _ (by omega), setNext_apart _ _ (by omega)]

theorem Sound.plugForward (hs : Sound h (ls ++ ⟨s, none⟩ :: rs)) (htidy : Tidy rs) :
    ∃ s' rs', Sound (plugForward h (width ls)) (ls ++ ⟨s', none⟩ :: rs') ∧ Tidy rs' ∧
      (∀ u ∈ rs'.head?, u.owner.isSome) ∧
      owners (width ls + s') rs' = owners (width ls + s) rs ∧
      ∀ i, i < width ls ∨ width ls + s' + 8 ≤ i →
        (plugForward h (width ls)).ram i = h.ram i := by
  have hnext := hs.laid.next_eq
  have hfits := hs.laid.fits [⟨s, none⟩]
  have hsize := (hs.laid.sizes ⟨s, none⟩ (by simp)).1
  simp only [width_cons, width_nil] at hnext hfits hsize
  cases rs with
  | nil =>
      have hstop : Mem.plugForward h (width ls) = h := by
        simp only [Mem.plugForward, hnext]
        refine if_neg fun hcond => hcond.2.2 ?_
        rw [ramEnd_eq]
        simp only [width_nil] at hfits
        omega
      rw [hstop]
      exact ⟨s, [], hs, htidy, by simp, rfl, fun i _ => rfl⟩
  | cons t rs =>
      have hthere := hs.laid.shift.used_iff
      have htsize := (hs.laid.sizes t (by simp)).1
      simp only [width_append, width_cons, width_nil, Nat.add_zero] at hthere hfits
      obtain ⟨t, o⟩ := t
      cases o with
      | some n =>
          have hstop : Mem.plugForward h (width ls) = h := by
            simp only [Mem.plugForward, hnext]
            exact if_neg fun hcond => absurd (hthere.mp hcond.2.1) (Option.some_ne_none n)
          rw [hstop]
          exact ⟨s, _, hs, htidy, by simp, rfl, fun i _ => rfl⟩
      | none =>
          have hlow := hs.lowest_le
          have hgo : Mem.plugForward h (width ls)
              = { h with ram := absorb h.ram (width ls) (width ls + s) } := by
            simp only [Mem.plugForward, hnext]
            rw [if_pos ⟨by omega, hthere.mpr rfl, by rw [ramEnd_eq]; omega⟩, if_neg (by omega)]
          rw [hgo]
          obtain ⟨hrs, hhead⟩ := tidy_free_cons.mp htidy
          refine ⟨s + t, rs, hs.merge, hrs, hhead, ?_, fun i hi => hs.merge_apart hi⟩
          rw [owners_free, Nat.add_assoc]

theorem Sound.plugBackward (hs : Sound h (ls ++ ⟨s, none⟩ :: rs)) (htidy : Tidy ls) :
    ∃ ls' s', Sound (plugBackward h (width ls)) (ls' ++ ⟨s', none⟩ :: rs) ∧ Tidy ls' ∧
      (∀ u ∈ ls'.getLast?, u.owner.isSome) ∧ owners 0 ls' = owners 0 ls ∧
      width ls' + s' = width ls + s ∧ width ls' ≤ width ls ∧
      ∀ i, i < width ls' ∨ width ls' + s' + 8 ≤ i →
        (plugBackward h (width ls)).ram i = h.ram i := by
  have hprev := hs.laid.prev_eq
  rcases List.eq_nil_or_concat' ls with rfl | ⟨ls, ⟨p, o⟩, rfl⟩
  · have hstop : Mem.plugBackward h (width ([] : List (Tile Nat))) = h := by
      simp only [Mem.plugBackward, hprev]
      exact if_neg fun hcond => hcond.1 rfl
    rw [hstop]
    exact ⟨[], s, hs, htidy, by simp, rfl, rfl, Nat.le_refl _, fun i _ => rfl⟩
  · have hs' : Sound h (ls ++ ⟨p, o⟩ :: ⟨s, none⟩ :: rs) := by simpa using hs
    have hthere := hs'.laid.used_iff
    have hpsize : 20 ≤ p := (hs'.laid.sizes ⟨p, o⟩ (by simp)).1
    rw [lastStart_snoc, Nat.zero_add] at hprev
    simp only [width_append, width_cons, width_nil, Nat.add_zero] at hprev ⊢
    cases o with
    | some n =>
        have hstop : Mem.plugBackward h (width ls + p) = h := by
          simp only [Mem.plugBackward, hprev]
          exact if_neg fun hcond => absurd (hthere.mp hcond.2) (Option.some_ne_none n)
        rw [hstop]
        exact ⟨ls ++ [⟨p, some n⟩], s, hs, htidy, by simp, rfl, by simp, by simp, fun i _ => rfl⟩
    | none =>
        have hlow := hs'.lowest_le
        have hgo : Mem.plugBackward h (width ls + p)
            = { h with ram := absorb h.ram (width ls) (width ls + p) } := by
          simp only [Mem.plugBackward, hprev]
          rw [if_pos ⟨by omega, hthere.mpr rfl⟩, if_neg (by omega)]
        rw [hgo]
        obtain ⟨hls, -, hlast, -⟩ := tidy_free.mp htidy
        refine ⟨ls, p + s, hs'.merge, hls, hlast, ?_, by omega, by omega, fun i hi => hs'.merge_apart hi⟩
        rw [owners_append]
        exact (List.append_nil _).symm

/-- Of a tile that is held, both neighbours know. -/
theorem Laid.linkValid {ram : Ram} {t : Tile Nat} (h : Laid ram (ls ++ t :: rs)) :
    memLinkValid ram (width ls) = true := by
  have hfits := h.fits [t]
  simp only [width_cons, width_nil, Nat.add_zero] at hfits
  have hidx : memToPtr (width ls) = width ls := Nat.mod_eq_of_lt (by omega)
  have hbehind : width ls + t.size = 49152 ∨ ram.prev (width ls + t.size) = width ls := by
    cases rs with
    | nil =>
        rw [width_nil] at hfits
        exact Or.inl (by omega)
    | cons u rs =>
        have hprev := h.shift.prev_eq
        rw [lastStart_snoc] at hprev
        simp only [width_append, width_cons, width_nil, Nat.add_zero, Nat.zero_add] at hprev
        exact Or.inr hprev
  have hbefore : lastStart 0 0 ls ≤ 49152 ∧
      (lastStart 0 0 ls = width ls ∨ ram.next (lastStart 0 0 ls) = width ls) := by
    rcases List.eq_nil_or_concat' ls with rfl | ⟨ls, p, rfl⟩
    · exact ⟨Nat.zero_le _, Or.inl rfl⟩
    · have hnext := Laid.next_eq (show Laid ram (ls ++ p :: t :: rs) by simpa using h)
      rw [lastStart_snoc, Nat.zero_add]
      simp only [width_append, width_cons, width_nil, Nat.add_zero] at hfits ⊢
      exact ⟨by omega, Or.inr hnext⟩
  obtain ⟨hlow, hbefore⟩ := hbefore
  simp only [memLinkValid, h.next_eq, h.prev_eq, hidx, memSizeAligned_eq, ramEnd_eq]
  have hnot : decide (49152 < width ls + t.size) = false := decide_eq_false (by omega)
  have hnot' : decide (49152 < lastStart 0 0 ls) = false := decide_eq_false (by omega)
  rw [hnot, hnot']
  rcases hbehind with hbehind | hbehind
  · rcases hbefore with hbefore | hbefore
    · simp [hbehind, hbefore]
    · simp [hbehind, hbefore]
  · rcases hbefore with hbefore | hbefore
    · simp [hbehind, hbefore]
    · simp [hbehind, hbefore]

/-- No byte that an owner asked for is written. -/
def Spared (ram ram' : Ram) (os : List (Nat × Nat)) : Prop :=
  ∀ o ∈ os, ∀ i, o.1 + 8 ≤ i → i < o.1 + 8 + o.2 → ram' i = ram i

theorem mem_owners {a x m : Nat} {ts : List (Tile Nat)}
    (hsnug : ∀ t ∈ ts, ∀ n ∈ t.owner, Snug t.size n) (hx : (x, m) ∈ owners a ts) :
    a ≤ x ∧ x + 8 + m ≤ a + width ts := by
  obtain ⟨ls, s, rs, rfl, rfl⟩ := exists_split_of_owner hx
  have hsize := (hsnug ⟨s, some m⟩ (by simp) m rfl).1
  simp only [width_append, width_cons] at hsize ⊢
  omega

/-- A write between two lists of tiles spares the owners in both. -/
theorem spared_outside {ram ram' : Ram} {w : Nat}
    (hls : ∀ t ∈ ls, ∀ n ∈ t.owner, Snug t.size n) (hrs : ∀ t ∈ rs, ∀ n ∈ t.owner, Snug t.size n)
    (hframe : ∀ i, i < width ls ∨ width ls + w + 8 ≤ i → ram' i = ram i) :
    Spared ram ram' (owners 0 ls) ∧ Spared ram ram' (owners (width ls + w) rs) := by
  refine ⟨fun o ho i hlo hhi => hframe i ?_, fun o ho i hlo hhi => hframe i ?_⟩
  · have hin := (mem_owners hls ho).2
    omega
  · have hin := (mem_owners hrs ho).1
    omega

theorem toNat_sub_ofNat {u : UInt16} {a : Nat} (ha : a ≤ u.toNat) :
    (u - UInt16.ofNat a).toNat = u.toNat - a := by
  have hlt := u.toNat_lt
  have hcast : (UInt16.ofNat a).toNat = a :=
    UInt16.toNat_ofNat_of_lt' (show a < 65536 by omega)
  rw [UInt16.toNat_sub_of_le _ _ (UInt16.le_iff_toNat_le.mpr (by omega)), hcast]

theorem toNat_add_ofNat {u : UInt16} {a : Nat} (ha : u.toNat + a < 65536) :
    (u + UInt16.ofNat a).toNat = u.toNat + a := by
  have hcast : (UInt16.ofNat a).toNat = a :=
    UInt16.toNat_ofNat_of_lt' (show a < 65536 by omega)
  rw [UInt16.toNat_add, hcast]
  exact Nat.mod_eq_of_lt ha

/-- A tile that was held is free, and its neighbours are not looked at yet. -/
theorem Sound.markFree {n : Nat} (hs : Sound h (ls ++ ⟨s, some n⟩ :: rs)) :
    Sound (markFree h (width ls)) (ls ++ ⟨s, none⟩ :: rs) := by
  have hlaid : Laid (h.ram.setUsed (width ls) 0) (ls ++ ⟨s, none⟩ :: rs) :=
    hs.laid.setUsed (v := 0) (o := none) rfl
  have hnext : (h.ram.setUsed (width ls) 0).next (width ls) = width ls + s := hlaid.next_eq
  have hheld := heldWidth_le (ls ++ ⟨s, some n⟩ :: rs)
  rw [hs.laid.width_eq] at hheld
  refine ⟨hlaid, ?_, ?_, ?_, hs.illegal_eq⟩
  · -- `lfree` comes down to this tile, or is one before it
    rw [firstFree_before]
    have hlow := hs.lowest
    show (if width ls < h.lfree then width ls else h.lfree) = firstFree 0 ls
    rcases firstFree_append 0 ls (⟨s, some n⟩ :: rs) fun t ht => by
        have hsize := (hs.laid.sizes t (List.mem_append_left _ ht)).1
        omega with ⟨hbefore, heq⟩ | ⟨-, hat, heq⟩
    · rw [if_neg (by omega)]
      omega
    · have hfar := (le_firstFree (0 + width ls + s) rs).1
      have hsize := (hs.laid.sizes ⟨s, some n⟩ (by simp)).1
      rw [firstFree_held] at heq
      simp only at hsize
      rw [if_pos (by omega)]
      omega
  · intro t ht m hm
    refine hs.snug t ?_ m hm
    simp only [List.mem_append, List.mem_cons] at ht ⊢
    rcases ht with ht | rfl | ht
    · exact Or.inl ht
    · exact absurd hm (Option.not_mem_none m)
    · exact Or.inr (Or.inr ht)
  · show (h.used - (UInt16.ofNat (Ram.next _ (width ls)) - UInt16.ofNat (width ls))).toNat = _
    have hused := hs.used_eq
    simp only [heldWidth_append, heldWidth_held, heldWidth_free] at hused hheld ⊢
    rw [hnext, ← UInt16.ofNat_sub (Nat.le_add_right _ _), Nat.add_sub_cancel_left,
      toNat_sub_ofNat (by omega)]
    omega

/-- **Putting back** a block leaves the others as they are. -/
theorem Holds.free {n : Nat} (hh : Holds h (ls ++ ⟨s, some n⟩ :: rs)) :
    ∃ ts, Holds (memFree h (some ((width ls + 8 : Nat) : Int))) ts ∧
      owners 0 ts = owners 0 ls ++ owners (width ls + s) rs ∧
      Spared h.ram (memFree h (some ((width ls + 8 : Nat) : Int))).ram (owners 0 ts) := by
  have hsize := hh.laid.sizes ⟨s, some n⟩ (by simp)
  have hmod := width_mod fun t ht => hh.laid.sizes t (List.mem_append_left _ ht)
  have hfits := hh.laid.fits [⟨s, some n⟩]
  simp only [width_cons, width_nil] at hsize hfits
  have hcall : memFree h (some ((width ls + 8 : Nat) : Int))
      = plugHoles (Mem.markFree h (width ls)) (width ls) := by
    have haligned : ¬((width ls + 8 : Nat) : Int) % memAlignment ≠ 0 := by
      rw [memAlignment_eq]
      omega
    have hinside : ¬(((width ls + 8 : Nat) : Int) - sizeofStructMem < 0 ∨
        (ramEnd : Int) < ((width ls + 8 : Nat) : Int) + minSizeAligned) := by
      rw [sizeofStructMem_eq, ramEnd_eq, minSizeAligned_eq]
      omega
    have hmem : (((width ls + 8 : Nat) : Int) - sizeofStructMem).toNat = width ls := by
      rw [sizeofStructMem_eq]
      omega
    have hused : h.ram.used (width ls) ≠ 0 := fun hzero =>
      absurd (hh.laid.used_iff.mp hzero) (Option.some_ne_none n)
    simp only [memFree, hmem]
    rw [if_neg haligned, if_neg hinside, if_neg hused, hh.laid.linkValid]
    rfl
  obtain ⟨hls, hrs⟩ := tidy_held.mp hh.tidy
  have hmark := hh.toSound.markFree
  obtain ⟨s₁, rs', hone, hrs', hhead, hown, hframe⟩ := hmark.plugForward hrs
  obtain ⟨ls', s₂, htwo, hls', hlast, hown', hw, hle, hframe'⟩ := hone.plugBackward hls
  rw [hcall]
  refine ⟨ls' ++ ⟨s₂, none⟩ :: rs', ⟨htwo, tidy_free.mpr ⟨hls', hrs', hlast, hhead⟩⟩, ?_, ?_⟩
  · rw [owners_append, owners_free, hown', Nat.zero_add, hw, hown]
  · have hsame : ∀ i, i < width ls' ∨ width ls' + s₂ + 8 ≤ i →
        (plugHoles (Mem.markFree h (width ls)) (width ls)).ram i = h.ram i := by
      intro i hi
      refine (hframe' i hi).trans ((hframe i (by omega)).trans ?_)
      exact setUsed_apart _ _ (by omega)
    have hafter : ∀ t ∈ rs', ∀ m ∈ t.owner, Snug t.size m := fun t ht =>
      htwo.snug t (by simp [ht])
    obtain ⟨hbefore, hbehind⟩ := spared_outside
      (fun t ht => htwo.snug t (List.mem_append_left _ ht)) hafter hsame
    rw [owners_append, owners_free, Nat.zero_add]
    exact List.forall_mem_append.mpr ⟨hbefore, hbehind⟩

/-! ### Taking out

The search stops at a free tile that is large enough.  The tile is held from then on, as a
whole or its front part, and where it was the first free one the next has to be found.
-/

variable {ram : Ram} {p a : Nat} {ts : List (Tile Nat)}

theorem userSize_eq {x t : Nat} (hnext : ram.next x = x + t) (ht : 8 ≤ t) (hx : x + t ≤ 49152) :
    userSize ram x = t - 8 := by
  rw [userSize, hnext, sizeofStructMem_eq]
  omega

/-- The search stops at the first free tile that is large enough, or at the end. -/
theorem scan_spec (size : Nat) (hlinked : Linked ram.node p a ts)
    (hsizes : ∀ t ∈ ts, 20 ≤ t.size) (hwidth : a + width ts = 49152) {fuel : Nat}
    (hfuel : ts.length < fuel) :
    (scan ram size fuel a = some none ∧ ∀ t ∈ ts, t.owner = none → t.size < size + 8) ∨
      ∃ ls s rs, ts = ls ++ ⟨s, none⟩ :: rs ∧ size + 8 ≤ s ∧
        scan ram size fuel a = some (some (a + width ls)) := by
  induction ts generalizing p a fuel with
  | nil =>
      obtain ⟨fuel, rfl⟩ := Nat.exists_eq_succ_of_ne_zero (show fuel ≠ 0 by omega)
      rw [width_nil] at hwidth
      rw [scan, memSizeAligned_eq, if_neg (by omega)]
      exact Or.inl ⟨rfl, fun t ht => absurd ht List.not_mem_nil⟩
  | cons t ts ih =>
      obtain ⟨fuel, rfl⟩ := Nat.exists_eq_succ_of_ne_zero (show fuel ≠ 0 by omega)
      have hhead := hsizes t List.mem_cons_self
      rw [width_cons] at hwidth
      rw [List.length_cons] at hfuel
      have hnext : ram.next a = a + t.size := congrArg Node.next hlinked.1
      have hused := used_eq_zero_iff (congrArg Node.used hlinked.1)
      rw [scan, memSizeAligned_eq]
      by_cases hroom : a < 49152 - size
      · rw [if_pos hroom, userSize_eq hnext (by omega) (by omega)]
        by_cases hfound : ram.used a = 0 ∧ size ≤ t.size - 8
        · rw [if_pos hfound]
          have hnone : t.owner = none := by
            rw [← Option.isNone_iff_eq_none, ← Option.isSome_eq_false_iff]
            exact hused.mp hfound.1
          refine Or.inr ⟨[], t.size, ts, ?_, by omega, rfl⟩
          rw [← hnone]
          rfl
        · rw [if_neg hfound, hnext]
          have hsmall : t.owner = none → t.size < size + 8 := by
            intro hnone
            have hzero : ram.used a = 0 := by
              rw [hused, hnone]
              rfl
            have hshort : ¬size ≤ t.size - 8 := fun hfit => hfound ⟨hzero, hfit⟩
            omega
          rcases ih hlinked.2 (fun u hu => hsizes u (List.mem_cons_of_mem t hu)) (by omega)
            (by omega : ts.length < fuel) with ⟨hnot, hall⟩ | ⟨ls, s, rs, rfl, hfit, hat⟩
          · refine Or.inl ⟨hnot, fun u hu => ?_⟩
            rcases List.mem_cons.mp hu with rfl | hu
            · exact hsmall
            · exact hall u hu
          · refine Or.inr ⟨t :: ls, s, rs, rfl, hfit, ?_⟩
            rw [hat, width_cons, Nat.add_assoc]
      · -- whatever lies here or behind is not longer than what is left
        rw [if_neg hroom]
        refine Or.inl ⟨rfl, fun u hu _ => ?_⟩
        have hlong := size_le_width hu
        rw [width_cons] at hlong
        omega

/-- The search for a free tile finds the first one. -/
theorem nextFree_spec (hlinked : Linked ram.node p a ts)
    (hsizes : ∀ t ∈ ts, 20 ≤ t.size) (hwidth : a + width ts = 49152) {fuel : Nat}
    (hfuel : ts.length < fuel) : nextFree ram fuel a = some (firstFree a ts) := by
  induction ts generalizing p a fuel with
  | nil =>
      obtain ⟨fuel, rfl⟩ := Nat.exists_eq_succ_of_ne_zero (show fuel ≠ 0 by omega)
      rw [width_nil, Nat.add_zero] at hwidth
      rw [nextFree, ramEnd_eq, if_neg fun hcond => hcond.2 hwidth, firstFree]
  | cons t ts ih =>
      obtain ⟨fuel, rfl⟩ := Nat.exists_eq_succ_of_ne_zero (show fuel ≠ 0 by omega)
      have hhead := hsizes t List.mem_cons_self
      rw [width_cons] at hwidth
      rw [List.length_cons] at hfuel
      have hnext : ram.next a = a + t.size := congrArg Node.next hlinked.1
      have hused := used_eq_zero_iff (congrArg Node.used hlinked.1)
      rw [nextFree, ramEnd_eq, firstFree]
      by_cases hfree : t.owner.isNone
      · have hzero : ram.used a = 0 := hused.mpr (Option.isSome_eq_false_iff.mpr hfree)
        rw [if_pos hfree, if_neg fun hcond => hcond.1 hzero]
      · have hnot : ram.used a ≠ 0 := fun hzero =>
          hfree (Option.isSome_eq_false_iff.mp (hused.mp hzero))
        rw [if_neg hfree, if_pos ⟨hnot, by omega⟩, hnext]
        exact ih hlinked.2 (fun u hu => hsizes u (List.mem_cons_of_mem t hu)) (by omega) (by omega)

/-- More headers than fit are never met. -/
theorem Laid.length_lt (hl : Laid ram (ls ++ ts)) : ts.length < searchFuel := by
  have hsizes : ∀ t ∈ ts, 20 ≤ t.size := fun t ht =>
    (hl.sizes t (List.mem_append_right ls ht)).1
  have hlength := mul_length_le_width hsizes
  have hwidth := hl.width_eq
  rw [width_append] at hwidth
  rw [searchFuel, memSizeAligned_eq]
  omega

/-- The tiles a free one of `s` bytes becomes when somebody asks for `n`. -/
def parted (s n : Nat) : List (Tile Nat) :=
  if pad n + 28 ≤ s then [⟨pad n + 8, some n⟩, ⟨s - (pad n + 8), none⟩] else [⟨s, some n⟩]

theorem owners_parted (a s n : Nat) (rs : List (Tile Nat)) :
    owners a (parted s n ++ rs) = (a, n) :: owners (a + s) rs := by
  rw [parted]
  split
  · simp only [List.cons_append, List.nil_append, owners_held, owners_free]
    rw [show a + (pad n + 8) + (s - (pad n + 8)) = a + s by omega]
  · rfl

theorem linkBack_setUsed (ram : Ram) {x y : Nat} (v : UInt8) (w : Nat) (h : x + 8 ≤ y) :
    linkBack (ram.setUsed x v) y w = (linkBack ram y w).setUsed x v := by
  rw [linkBack, linkBack]
  split
  · simp only [Ram.setPrev, Ram.set16, Ram.setUsed]
    rw [Function.update_comm (show x + 4 ≠ y + 2 by omega),
      Function.update_comm (show x + 4 ≠ y + 2 + 1 by omega)]
  · rfl

/-- The headers after a free tile was taken, all of it or a part. -/
theorem Sound.markUsed {n : Nat} (hs : Sound h (ls ++ ⟨s, none⟩ :: rs)) (hfit : pad n + 8 ≤ s) :
    Laid (markUsed h (pad n) (width ls)).ram (ls ++ (parted s n ++ rs)) ∧
      (markUsed h (pad n) (width ls)).used.toNat = heldWidth (ls ++ (parted s n ++ rs)) ∧
      (∀ t ∈ parted s n, ∀ m ∈ t.owner, Snug t.size m) ∧
      ∀ i, i < width ls ∨ (width ls + 8 ≤ i ∧ i < width ls + 8 + n) ∨ width ls + s + 8 ≤ i →
        (markUsed h (pad n) (width ls)).ram i = h.ram i := by
  have hpad := pad_spec n
  have hnext := hs.laid.next_eq
  have hsize := hs.laid.sizes ⟨s, none⟩ (by simp)
  have hfits := hs.laid.fits [⟨s, none⟩]
  have hused := hs.used_eq
  have hheld := heldWidth_le ls
  have hheld' := heldWidth_le rs
  simp only [width_cons, width_nil, heldWidth_append, heldWidth_free] at hnext hsize hfits hused
  have hroom : userSize h.ram (width ls) = s - 8 := userSize_eq hnext (by omega) (by omega)
  by_cases hsplit : pad n + 28 ≤ s
  · have hcut := Laid.cutOff (show Laid h.ram (ls ++ (⟨s, none⟩ :: [] ++ rs)) from hs.laid)
      (show 20 ≤ pad n + 8 by omega) (by omega) (by simp only [width_cons, width_nil]; omega)
    simp only [width_cons, width_nil, Nat.add_zero] at hcut
    have hlaid := hcut.setUsed (v := 1) (o := some n) rfl
    have hptr2 : (width ls + 8 + pad n) % 2 ^ 16 = width ls + (pad n + 8) := by omega
    have hmark : Mem.markUsed h (pad n) (width ls) = { h with
        ram := (linkBack (cutOff h.ram (width ls) (width ls + (pad n + 8)) (width ls + s))
          (width ls + s) (width ls + (pad n + 8))).setUsed (width ls) 1 }.incUsed
            (UInt16.ofNat (pad n + 8)) := by
      rw [← linkBack_setUsed _ _ _ (show width ls + 8 ≤ width ls + s by omega)]
      simp only [Mem.markUsed, hroom, sizeofStructMem_eq, minSizeAligned_eq, hnext, hptr2]
      exact if_pos (by omega)
    rw [hmark, parted, if_pos hsplit]
    refine ⟨hlaid, ?_, ?_, ?_⟩
    · show (h.used + UInt16.ofNat (pad n + 8)).toNat = _
      rw [toNat_add_ofNat (by omega)]
      simp only [heldWidth_append, List.cons_append, List.nil_append, heldWidth_held,
        heldWidth_free]
      omega
    · intro t ht m hm
      simp only [List.mem_cons, List.not_mem_nil, or_false] at ht
      rcases ht with rfl | rfl
      · obtain rfl := Option.mem_some_iff.mp hm
        exact ⟨by show n + 8 ≤ pad n + 8; omega, by show pad n + 8 < pad n + 28; omega⟩
      · exact absurd hm (Option.not_mem_none m)
    · intro i hi
      show (linkBack _ _ _).setUsed _ _ i = _
      rw [setUsed_apart _ _ (by omega), linkBack_apart _ _ (by omega),
        cutOff_apart _ _ (by omega) (by omega)]
  · have hlaid := hs.laid.setUsed (v := 1) (o := some n) rfl
    have hidx : memToPtr (width ls) = width ls := Nat.mod_eq_of_lt (by omega)
    have hmark : Mem.markUsed h (pad n) (width ls) = { h with
        ram := h.ram.setUsed (width ls) 1 }.incUsed
          (UInt16.ofNat (width ls + s) - UInt16.ofNat (width ls)) := by
      simp only [Mem.markUsed, hroom, sizeofStructMem_eq, minSizeAligned_eq, hnext, hidx]
      exact if_neg (by omega)
    rw [hmark, parted, if_neg hsplit]
    refine ⟨hlaid, ?_, ?_, ?_⟩
    · show (h.used + (UInt16.ofNat (width ls + s) - UInt16.ofNat (width ls))).toNat = _
      rw [← UInt16.ofNat_sub (Nat.le_add_right _ _), Nat.add_sub_cancel_left,
        toNat_add_ofNat (by omega)]
      simp only [heldWidth_append, List.cons_append, List.nil_append, heldWidth_held]
      omega
    · intro t ht m hm
      rw [List.mem_singleton.mp ht] at hm ⊢
      obtain rfl := Option.mem_some_iff.mp hm
      exact ⟨by show n + 8 ≤ s; omega, by show s < pad n + 28; omega⟩
    · intro i hi
      exact setUsed_apart _ _ (by omega)

theorem markUsed_kept (h : Heap) (size mem : Nat) :
    (markUsed h size mem).lfree = h.lfree ∧ (markUsed h size mem).illegal = h.illegal := by
  rw [markUsed]
  split
  · exact ⟨rfl, rfl⟩
  · exact ⟨rfl, rfl⟩

/-- `lfree` moves to the first free tile. -/
theorem moveLfree_spec (hl : Laid h.ram (ls ++ ts)) (hlow : h.lfree = firstFree 0 ls) :
    ∃ h', moveLfree h (width ls) = some h' ∧ h'.lfree = firstFree 0 (ls ++ ts) ∧
      h'.ram = h.ram ∧ h'.used = h.used ∧ h'.illegal = h.illegal := by
  have hwidth := hl.width_eq
  rw [width_append] at hwidth
  rw [moveLfree]
  rcases firstFree_append 0 ls ts fun t ht => by
      have hsize := (hl.sizes t (List.mem_append_left _ ht)).1
      omega with ⟨hbefore, heq⟩ | ⟨-, hat, heq⟩
  · rw [if_neg (by omega), heq]
    exact ⟨h, rfl, hlow, rfl, rfl, rfl⟩
  · have hsearch := nextFree_spec ((linked_append 0 0 ls ts).mp hl.linked).2
      (fun t ht => (hl.sizes t (List.mem_append_right ls ht)).1) (by omega) hl.length_lt
    rw [if_pos (by omega), hlow, hat, hsearch, heq]
    exact ⟨_, rfl, rfl, rfl, rfl, rfl⟩

theorem tidy_parted {n : Nat} (htidy : Tidy (ls ++ ⟨s, none⟩ :: rs)) :
    Tidy (ls ++ (parted s n ++ rs)) := by
  obtain ⟨hls, hrs, -, hhead⟩ := tidy_free.mp htidy
  rw [parted]
  split
  · exact tidy_held.mpr ⟨hls, tidy_free_cons.mpr ⟨hrs, hhead⟩⟩
  · exact tidy_held.mpr ⟨hls, hrs⟩

/-- Taking a tile writes only into headers. -/
theorem spared_taken {ram ram' : Ram} {n : Nat}
    (hsnug : ∀ t ∈ ls ++ ⟨s, none⟩ :: rs, ∀ m ∈ t.owner, Snug t.size m)
    (hframe : ∀ i, i < width ls ∨ (width ls + 8 ≤ i ∧ i < width ls + 8 + n) ∨
      width ls + s + 8 ≤ i → ram' i = ram i) :
    Spared ram ram' (owners 0 (ls ++ (parted s n ++ rs))) := by
  have hbefore : ∀ t ∈ ls, ∀ m ∈ t.owner, Snug t.size m := fun t ht =>
    hsnug t (List.mem_append_left _ ht)
  have hbehind : ∀ t ∈ rs, ∀ m ∈ t.owner, Snug t.size m := fun t ht => hsnug t (by simp [ht])
  have hout : ∀ i, i < width ls ∨ width ls + s + 8 ≤ i → ram' i = ram i := fun i hi =>
    hframe i (hi.imp_right Or.inr)
  obtain ⟨hone, htwo⟩ := spared_outside hbefore hbehind hout
  have hself : Spared ram ram' [(width ls, n)] := by
    intro o ho i hlo hhi
    rw [List.mem_singleton.mp ho] at hlo hhi
    exact hframe i (Or.inr (Or.inl ⟨hlo, hhi⟩))
  rw [owners_append, owners_parted, Nat.zero_add]
  intro o ho
  rcases List.mem_append.mp ho with ho | ho
  · exact hone o ho
  · rcases List.mem_cons.mp ho with rfl | ho
    · exact hself _ List.mem_cons_self
    · exact htwo o ho

/-- A free tile that is large enough is taken. -/
theorem Holds.take {n : Nat} (hh : Holds h (ls ++ ⟨s, none⟩ :: rs)) (hfit : pad n + 8 ≤ s) :
    ∃ h', moveLfree (markUsed h (pad n) (width ls)) (width ls) = some h' ∧
      Holds h' (ls ++ (parted s n ++ rs)) ∧
      Spared h.ram h'.ram (owners 0 (ls ++ (parted s n ++ rs))) := by
  obtain ⟨hlaid, hused, hsnug, hframe⟩ := hh.toSound.markUsed hfit
  obtain ⟨hlfree, hillegal⟩ := markUsed_kept h (pad n) (width ls)
  have hlow : h.lfree = firstFree 0 ls := hh.lowest.trans (firstFree_before ..)
  obtain ⟨h', hmove, hlow', hram, hused', hillegal'⟩ := moveLfree_spec hlaid (hlfree.trans hlow)
  rw [← hram] at hlaid hframe
  rw [← hused'] at hused
  refine ⟨h', hmove, ⟨⟨hlaid, hlow', ?_, hused, ?_⟩, tidy_parted hh.tidy⟩,
    spared_taken hh.snug hframe⟩
  · intro t ht
    simp only [List.mem_append] at ht
    rcases ht with ht | ht | ht
    · exact hh.snug t (List.mem_append_left _ ht)
    · exact hsnug t ht
    · exact hh.snug t (by simp [ht])
  · rw [hillegal', hillegal]
    exact hh.illegal_eq

/-- **Taking out** a block: none is large enough, or one is taken and the others stay as they
are. -/
theorem Holds.malloc {n : Nat} (hh : Holds h ts) (hn : n < 65536) :
    (∃ h', memMalloc h n = some (h', none) ∧ Holds h' ts ∧ h'.ram = h.ram ∧
        (n = 0 ∨ 49152 < n ∨ ∀ t ∈ ts, t.owner = none → t.size < pad n + 8)) ∨
      ∃ h' x ts', memMalloc h n = some (h', some ((x + 8 : Nat) : Int)) ∧ Holds h' ts' ∧
        (owners 0 ts').Perm ((x, n) :: owners 0 ts) ∧ Spared h.ram h'.ram (owners 0 ts') ∧
        0 < n ∧ ∃ t ∈ ts, t.owner = none ∧ pad n + 8 ≤ t.size := by
  rw [memMalloc]
  by_cases hzero : n = 0
  · rw [if_pos hzero]
    exact Or.inl ⟨h, rfl, hh, rfl, Or.inl hzero⟩
  rw [if_neg hzero, paddedSize_eq hn]
  by_cases hbig : n ≤ 49152
  · -- the search starts at the first free tile, or at the end
    obtain ⟨ls, rs, rfl, hheld, hat⟩ := exists_split_firstFree 0 ts
    have hwidth := hh.laid.width_eq
    rw [width_append] at hwidth
    have hstart : memToPtr h.lfree = width ls := by
      rw [hh.lowest, hat, memToPtr, Nat.zero_add]
      exact Nat.mod_eq_of_lt (by omega)
    have hlinked := ((linked_append 0 0 ls rs).mp hh.laid.linked).2
    rw [Nat.zero_add] at hlinked
    simp only [if_pos hbig, hstart]
    have hsearch := scan_spec (pad n) hlinked
      (fun t ht => (hh.laid.sizes t (List.mem_append_right ls ht)).1) (by omega) hh.laid.length_lt
    rcases hsearch with ⟨hnot, hall⟩ | ⟨ls', s, rs', rfl, hfit, hfound⟩
    · rw [hnot]
      refine Or.inl ⟨_, rfl, ⟨⟨hh.laid, hh.lowest, hh.snug, hh.used_eq, hh.illegal_eq⟩, hh.tidy⟩,
        rfl, Or.inr (Or.inr fun t ht hnone => ?_)⟩
      rcases List.mem_append.mp ht with ht | ht
      · exact absurd hnone (Option.isSome_iff_ne_none.mp (hheld t ht))
      · exact hall t ht hnone
    · rw [hfound, ← width_append]
      rw [← List.append_assoc] at hh ⊢
      generalize ls ++ ls' = xs at hh ⊢
      obtain ⟨h', htake, hh', hspared⟩ := hh.take hfit
      refine Or.inr ⟨h', width xs, _, ?_, hh', ?_, hspared, by omega, ⟨s, none⟩, by simp, rfl, hfit⟩
      · simp only [htake]
        rfl
      · rw [owners_append, owners_parted, owners_append 0 xs (⟨s, none⟩ :: rs'), owners_free,
          Nat.zero_add]
        exact List.perm_middle
  · rw [if_neg hbig]
    exact Or.inl ⟨h, rfl, hh, rfl, Or.inr (Or.inl (by omega))⟩

/-! ### Cutting short

A block that is cut short keeps its front.  What follows was free before, and then its start
moves down, or it was held, and then a new free tile comes between, if there is room for
one.
-/

/-- Only whether a tile is held is written down, not for how much. -/
theorem Laid.rename {m n : Nat} (hl : Laid ram (ls ++ ⟨s, some m⟩ :: rs)) :
    Laid ram (ls ++ ⟨s, some n⟩ :: rs) := by
  have hlinked := (linked_append 0 0 ls _).mp hl.linked
  have hwidth := hl.width_eq
  have hsizes := hl.sizes
  refine ⟨(linked_append 0 0 ls _).mpr ⟨hlinked.1, hlinked.2⟩, hl.closed, ?_, fun t ht => ?_⟩
  · rw [← hwidth]
    simp only [width_append, width_cons]
  · rcases List.mem_append.mp ht with ht | ht
    · exact hsizes t (List.mem_append_left _ ht)
    · rcases List.mem_cons.mp ht with rfl | ht
      · exact hsizes ⟨s, some m⟩ (by simp)
      · exact hsizes t (by simp [ht])

theorem head_free_or_held (rs : List (Tile Nat)) :
    (∃ t rs', rs = ⟨t, none⟩ :: rs') ∨ ∀ u ∈ rs.head?, u.owner.isSome := by
  rcases rs with _ | ⟨⟨t, _ | n⟩, rs⟩
  · exact Or.inr (by simp)
  · exact Or.inl ⟨t, rs, rfl⟩
  · exact Or.inr (by simp)

theorem Laid.used_behind {t : Tile Nat} (hl : Laid ram (ls ++ t :: rs))
    (hhead : ∀ u ∈ rs.head?, u.owner.isSome) : ram.used (width ls + t.size) ≠ 0 := by
  intro hzero
  cases rs with
  | nil =>
      have hwidth := hl.width_eq
      simp only [width_append, width_cons, width_nil, Nat.add_zero] at hwidth
      rw [hwidth] at hzero
      exact absurd ((used_eq_zero_iff (congrArg Node.used hl.closed)).mp hzero) (by decide)
  | cons u rs =>
      have hused := hl.shift.used_iff
      simp only [width_append, width_cons, width_nil, Nat.add_zero] at hused
      have hheld := hhead u rfl
      rw [hused.mp hzero] at hheld
      exact absurd hheld (by decide)

/-- The heap after a block was given another size, without a change to the headers. -/
theorem Holds.rename {m n : Nat} (hh : Holds h (ls ++ ⟨s, some m⟩ :: rs)) (hsnug : Snug s n) :
    Holds h (ls ++ ⟨s, some n⟩ :: rs) where
  laid := hh.laid.rename
  lowest := hh.lowest.trans (firstFree_held_congr ..)
  snug := by
    intro t ht k hk
    rcases List.mem_append.mp ht with ht | ht
    · exact hh.snug t (List.mem_append_left _ ht) k hk
    · rcases List.mem_cons.mp ht with rfl | ht
      · obtain rfl := Option.mem_some_iff.mp hk
        exact hsnug
      · exact hh.snug t (by simp [ht]) k hk
  used_eq := by simpa using hh.used_eq
  illegal_eq := hh.illegal_eq
  tidy := tidy_held.mpr (tidy_held.mp hh.tidy)

/-- The first tile nobody holds, once a tile ends earlier. -/
theorem firstFree_cut {k w n : Nat} (hpos : ∀ t ∈ ls, 0 < t.size) :
    firstFree 0 (ls ++ ⟨k, some n⟩ :: ⟨w, none⟩ :: rs) =
      if firstFree 0 ls < width ls then firstFree 0 ls else width ls + k := by
  rcases firstFree_append 0 ls (⟨k, some n⟩ :: ⟨w, none⟩ :: rs) hpos with
    ⟨hbefore, heq⟩ | ⟨-, hat, heq⟩
  · rw [heq, if_pos (by omega)]
  · rw [heq, if_neg (by omega), firstFree_held, firstFree_free, Nat.zero_add]

/-- A block ends earlier, and what is left of it joins the free tiles behind it. -/
theorem Holds.shorten {m n lowest : Nat} (hh : Holds h (ls ++ (⟨s, some m⟩ :: mid ++ rs)))
    (hfree : ∀ t ∈ mid, t.owner = none) (hhead : ∀ u ∈ rs.head?, u.owner.isSome)
    (hroom : pad n + 28 ≤ s + width mid) (hless : pad n + 8 < s)
    (hlowest : lowest = if firstFree 0 ls < width ls then h.lfree else width ls + (pad n + 8)) :
    ∃ ts, Holds
        ({ h with
          ram := linkBack (cutOff h.ram (width ls) (width ls + (pad n + 8))
            (width ls + (s + width mid))) (width ls + (s + width mid)) (width ls + (pad n + 8))
          lfree := lowest }.decUsed (UInt16.ofNat (s - 8) - UInt16.ofNat (pad n))) ts ∧
      owners 0 ts = owners 0 ls ++ (width ls, n) :: owners (width ls + s) (mid ++ rs) ∧
      Spared h.ram
        (linkBack (cutOff h.ram (width ls) (width ls + (pad n + 8))
          (width ls + (s + width mid))) (width ls + (s + width mid)) (width ls + (pad n + 8)))
        (owners 0 ts) := by
  have hpad := pad_spec n
  have hpos : ∀ t ∈ ls, 0 < t.size := fun t ht => by
    have hsize := (hh.laid.sizes t (List.mem_append_left _ ht)).1
    omega
  have hlaid := (Laid.rename (n := n) (show Laid h.ram (ls ++ ⟨s, some m⟩ :: (mid ++ rs)) from
    hh.laid))
  have hcut := Laid.cutOff (show Laid h.ram (ls ++ (⟨s, some n⟩ :: mid ++ rs)) from
    hlaid) (show 20 ≤ pad n + 8 by omega) (by omega) (by rw [width_cons]; omega)
  rw [width_cons] at hcut
  have hbefore : ∀ t ∈ ls, ∀ k ∈ t.owner, Snug t.size k := fun t ht =>
    hh.snug t (List.mem_append_left _ ht)
  have hbehind : ∀ t ∈ rs, ∀ k ∈ t.owner, Snug t.size k := fun t ht =>
    hh.snug t (by simp [ht])
  have hfreed := owners_of_free (a := width ls + s) hfree rs
  have htidy : Tidy (ls ++ ⟨s, some m⟩ :: (mid ++ rs)) := hh.tidy
  obtain ⟨hls, hmidrs⟩ := tidy_held.mp htidy
  have hrs : Tidy rs := (List.isChain_append.mp hmidrs).2.1
  refine ⟨_, ⟨⟨hcut, ?_, ?_, ?_, hh.illegal_eq⟩, ?_⟩, ?_, ?_⟩
  · show lowest = _
    rw [hlowest, firstFree_cut hpos]
    split
    · rename_i hlt
      rcases firstFree_append 0 ls (⟨s, some m⟩ :: (mid ++ rs)) hpos with ⟨-, heq⟩ | ⟨-, hat, -⟩
      · exact hh.lowest.trans heq
      · omega
    · rfl
  · intro t ht k hk
    simp only [List.mem_append, List.mem_cons] at ht
    rcases ht with ht | rfl | rfl | ht
    · exact hbefore t ht k hk
    · obtain rfl := Option.mem_some_iff.mp hk
      exact ⟨by show n + 8 ≤ pad n + 8; omega, by show pad n + 8 < pad n + 28; omega⟩
    · exact absurd hk (Option.not_mem_none k)
    · exact hbehind t ht k hk
  · have hused := hh.used_eq
    have hheld := heldWidth_of_free hfree
    show (h.used - (UInt16.ofNat (s - 8) - UInt16.ofNat (pad n))).toNat = _
    simp only [List.cons_append, heldWidth_append, heldWidth_held, heldWidth_free, hheld]
      at hused ⊢
    rw [← UInt16.ofNat_sub (by omega), toNat_sub_ofNat (by omega)]
    omega
  · exact tidy_held.mpr ⟨hls, tidy_free_cons.mpr ⟨hrs, hhead⟩⟩
  · rw [owners_append, owners_held, owners_free, hfreed, Nat.zero_add,
      show width ls + (pad n + 8) + (s + width mid - (pad n + 8)) = width ls + s + width mid by
        omega]
  · have hframe : ∀ i, i < width ls ∨ (width ls + 8 ≤ i ∧ i < width ls + 8 + n) ∨
        width ls + (s + width mid) + 8 ≤ i →
        linkBack (cutOff h.ram (width ls) (width ls + (pad n + 8)) (width ls + (s + width mid)))
          (width ls + (s + width mid)) (width ls + (pad n + 8)) i = h.ram i := by
      intro i hi
      rw [linkBack_apart _ _ (by omega), cutOff_apart _ _ (by omega) (by omega)]
    obtain ⟨hone, htwo⟩ := spared_outside (w := s + width mid) hbefore hbehind fun i hi =>
      hframe i (by omega)
    rw [owners_append, owners_held, owners_free, Nat.zero_add,
      show width ls + (pad n + 8) + (s + width mid - (pad n + 8)) = width ls + (s + width mid) by
        omega]
    refine List.forall_mem_append.mpr ⟨hone, List.forall_mem_cons.mpr ⟨fun i hlo hhi => ?_, htwo⟩⟩
    exact hframe i (by omega)

theorem Sound.pos {t : Tile Nat} (hs : Sound h (ls ++ t :: rs)) : ∀ u ∈ ls, 0 < u.size := by
  intro u hu
  have hsize := (hs.laid.sizes u (List.mem_append_left _ hu)).1
  omega

/-- `lfree` moves along with the free tile behind a block, if it is that one. -/
theorem Sound.lowest_moves {m t x : Nat}
    (hs : Sound h (ls ++ ⟨s, some m⟩ :: ⟨t, none⟩ :: rs)) :
    (if h.lfree = width ls + s then x else h.lfree)
      = if firstFree 0 ls < width ls then h.lfree else x := by
  have hlowest := hs.lowest
  have hsize : 20 ≤ s := (hs.laid.sizes ⟨s, some m⟩ (by simp)).1
  rcases firstFree_append 0 ls (⟨s, some m⟩ :: ⟨t, none⟩ :: rs) hs.pos with
    ⟨hbefore, heq⟩ | ⟨-, hat, heq⟩
  · rw [if_neg (by omega), if_pos (by omega)]
  · rw [firstFree_held, firstFree_free] at heq
    rw [if_pos (by omega), if_neg (by omega)]

/-- `lfree` comes down to what is cut off a block, if nothing before it is free. -/
theorem Sound.lowest_comes_down {m x : Nat} (hs : Sound h (ls ++ ⟨s, some m⟩ :: rs))
    (hlo : width ls < x) (hhi : x < width ls + s) :
    (if x < h.lfree then x else h.lfree)
      = if firstFree 0 ls < width ls then h.lfree else x := by
  have hlowest := hs.lowest
  rcases firstFree_append 0 ls (⟨s, some m⟩ :: rs) hs.pos with ⟨hbefore, heq⟩ | ⟨-, hat, heq⟩
  · rw [if_neg (by omega), if_pos (by omega)]
  · have hfar := (le_firstFree (0 + width ls + s) rs).1
    rw [firstFree_held] at heq
    rw [if_pos (by omega), if_neg (by omega)]

/-- **Cutting short** a block leaves the others as they are, and of itself what is kept. -/
theorem Holds.trim {m n : Nat} (hh : Holds h (ls ++ ⟨s, some m⟩ :: rs)) (hn : n < 65536) :
    memTrim h (some ((width ls + 8 : Nat) : Int)) n = (h, none) ∨
      ∃ h' ts, memTrim h (some ((width ls + 8 : Nat) : Int)) n
          = (h', some ((width ls + 8 : Nat) : Int)) ∧ Holds h' ts ∧
        owners 0 ts = owners 0 ls ++ (width ls, n) :: owners (width ls + s) rs ∧
        Spared h.ram h'.ram (owners 0 ts) := by
  have hpad := pad_spec n
  have hsize := hh.laid.sizes ⟨s, some m⟩ (by simp)
  have hfits := hh.laid.fits [⟨s, some m⟩]
  have hnext := hh.laid.next_eq
  simp only [width_cons, width_nil] at hsize hfits hnext
  have hmem : (((width ls + 8 : Nat) : Int) - 8).toNat = width ls := by omega
  have hidx : memToPtr (width ls) = width ls := Nat.mod_eq_of_lt (by omega)
  have hsame : ∀ {k}, Snug s k → Holds h (ls ++ ⟨s, some k⟩ :: rs) ∧
      owners 0 (ls ++ ⟨s, some k⟩ :: rs) = owners 0 ls ++ (width ls, k) :: owners (width ls + s) rs ∧
      Spared h.ram h.ram (owners 0 (ls ++ ⟨s, some k⟩ :: rs)) := by
    intro k hk
    refine ⟨hh.rename hk, ?_, fun o _ i _ _ => rfl⟩
    rw [owners_append, owners_held, Nat.zero_add]
  by_cases hbig : n ≤ 49152
  · have hroom : (width ls + s + 2 ^ 17 - width ls - 8) % 2 ^ 16 = s - 8 := by omega
    simp only [memTrim, paddedSize_eq hn, if_pos hbig, sizeofStructMem_eq, ramEnd_eq,
      minSizeAligned_eq, Nat.cast_ofNat, hmem, hidx, hnext, hroom]
    rw [if_neg (by omega)]
    by_cases hgrow : s - 8 < pad n
    · rw [if_pos hgrow]
      exact Or.inl rfl
    rw [if_neg hgrow]
    have hptr2 : (width ls + 8 + pad n) % 2 ^ 16 = width ls + (pad n + 8) := by omega
    right
    by_cases hequal : pad n = s - 8
    · rw [if_pos hequal]
      exact ⟨h, _, rfl, hsame ⟨by omega, by omega⟩⟩
    rw [if_neg hequal, hptr2]
    rcases head_free_or_held rs with ⟨t, rs, rfl⟩ | hhead
    · -- what follows is free and moves down
      have hshift := (hh.laid.shift).next_eq
      have hfree : h.ram.used (width ls + s) = 0 := by
        have hused := (hh.laid.shift).used_iff
        simpa using hused
      have hhead := (tidy_free_cons.mp (tidy_held.mp hh.tidy).2).2
      simp only [width_append, width_cons, width_nil, Nat.add_zero] at hshift
      have hw : width ls + (s + width [(⟨t, none⟩ : Tile Nat)]) = width ls + s + t := by
        simp only [width_cons, width_nil]
        omega
      have htsize := (hh.laid.sizes ⟨t, none⟩ (by simp)).1
      have hlow : (if h.lfree = width ls + s then width ls + (pad n + 8) else h.lfree)
          = if firstFree 0 ls < width ls then h.lfree else width ls + (pad n + 8) :=
        hh.lowest_moves
      obtain ⟨ts, hts, hown, hspared⟩ := Holds.shorten
        (show Holds h (ls ++ (⟨s, some m⟩ :: [⟨t, none⟩] ++ rs)) from hh)
        (fun u hu => by rw [List.mem_singleton.mp hu]) hhead
        (by simp only [width_cons, width_nil]; simp only at htsize; omega) (by omega) hlow
      rw [hw] at hts hspared
      rw [if_pos hfree, hshift]
      exact ⟨_, ts, rfl, hts, hown, hspared⟩
    · -- what follows is held, or is the end
      have hused : h.ram.used (width ls + s) ≠ 0 := hh.laid.used_behind hhead
      rw [if_neg hused]
      by_cases hcut : pad n + 8 + 12 ≤ s - 8
      · have hlow : (if width ls + (pad n + 8) < h.lfree then width ls + (pad n + 8) else h.lfree)
            = if firstFree 0 ls < width ls then h.lfree else width ls + (pad n + 8) :=
          hh.lowest_comes_down (by omega) (by omega)
        obtain ⟨ts, hts, hown, hspared⟩ := Holds.shorten
          (show Holds h (ls ++ (⟨s, some m⟩ :: [] ++ rs)) from hh)
          (fun u hu => absurd hu List.not_mem_nil) hhead
          (by simp only [width_nil]; omega) (by omega) hlow
        rw [width_nil, Nat.add_zero] at hts hspared
        rw [if_pos hcut]
        exact ⟨_, ts, rfl, hts, hown, hspared⟩
      · rw [if_neg hcut]
        exact ⟨h, _, rfl, hsame ⟨by omega, by omega⟩⟩
  · simp only [memTrim, paddedSize_eq hn, if_neg hbig]
    exact Or.inl trivial

end SysAwg.Mem
