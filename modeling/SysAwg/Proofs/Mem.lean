/-
What the callers of the heap may rely on.

In every state that calls and writes can reach, the heap is cut into tiles of which exactly
those are held that its callers have.  So what they have lies inside the heap, aligned and
apart, no call changes a byte of it, and a call for memory fails only where no free block is
large enough.

States are reached by calls and by the callers' own writes.  `Use.Inv` pairs the blocks
callers have with the held tiles, and each call keeps it by the one lemma that says what
the call does to tiles; a write keeps it because nobody's header lies in anybody's block.
What is stated about reachable states is then read off the tiles: where blocks lie, how
far they are apart, and how large the free space between them is, since no two free tiles
are neighbours.
-/
import SysAwg.Proofs.MemCalls

namespace SysAwg.Mem

open Tiling

variable {h : Heap} {u v : Use} {ts : List (Tile Nat)} {a : Nat}

/-! ### Where owners lie

Owners lie in tiles, and tiles follow each other.  So two owners are apart because their
tiles are, and a header is in nobody's bytes because every tile begins with its own.
-/

/-- No header lies in what somebody asked for. -/
theorem starts_clear {x : Nat} {o : Nat × Nat} (hsnug : ∀ t ∈ ts, ∀ n ∈ t.owner, Snug t.size n)
    (hx : x ∈ starts a ts) (ho : o ∈ owners a ts) : x ≤ o.1 ∨ o.1 + 8 + o.2 ≤ x := by
  induction ts generalizing a with
  | nil => exact absurd hx List.not_mem_nil
  | cons t ts ih =>
      have hrest : ∀ u ∈ ts, ∀ n ∈ u.owner, Snug u.size n := fun u hu =>
        hsnug u (List.mem_cons_of_mem t hu)
      rcases List.mem_append.mp ho with ho | ho
      · obtain ⟨n, hn, rfl⟩ := List.mem_map.mp ho
        have hsize := (hsnug t List.mem_cons_self n (Option.mem_toList.mp hn)).1
        rcases List.mem_cons.mp hx with rfl | hx
        · exact Or.inl (Nat.le_refl _)
        · have hstart := (mem_starts (k := 0) (fun u _ => Nat.zero_le u.size) hx).1
          exact Or.inr (by show a + 8 + n ≤ x; omega)
      · rcases List.mem_cons.mp hx with rfl | hx
        · have hin := (mem_owners hrest ho).1
          exact Or.inl (by omega)
        · exact ih hrest hx ho

theorem owners_apart (hsnug : ∀ t ∈ ts, ∀ n ∈ t.owner, Snug t.size n) :
    (owners a ts).Pairwise fun o q => o.1 + 8 + o.2 ≤ q.1 := by
  induction ts generalizing a with
  | nil => exact List.Pairwise.nil
  | cons t ts ih =>
      have hrest : ∀ u ∈ ts, ∀ n ∈ u.owner, Snug u.size n := fun u hu =>
        hsnug u (List.mem_cons_of_mem t hu)
      refine List.pairwise_append.mpr ⟨?_, ih hrest, ?_⟩
      · cases t.owner with
        | none => exact List.Pairwise.nil
        | some n => exact List.pairwise_singleton _ _
      · intro o ho q hq
        obtain ⟨n, hn, rfl⟩ := List.mem_map.mp ho
        have hsize := (hsnug t List.mem_cons_self n (Option.mem_toList.mp hn)).1
        have hin := (mem_owners hrest hq).1
        show a + 8 + n ≤ q.1
        omega

theorem node_congr {ram ram' : Ram} {x : Nat} (hsame : ∀ i, x ≤ i → i < x + 8 → ram' i = ram i) :
    ram'.node x = ram.node x := by
  simp only [Ram.node, Ram.next, Ram.prev, Ram.used, Ram.get16]
  rw [hsame x (by omega) (by omega), hsame (x + 1) (by omega) (by omega),
    hsame (x + 2) (by omega) (by omega), hsame (x + 2 + 1) (by omega) (by omega),
    hsame (x + 4) (by omega) (by omega)]

/-- Writing into what somebody asked for leaves the heap as it is. -/
theorem Holds.write {ram : Ram} (hh : Holds h ts)
    (hsame : ∀ i, (∀ o ∈ owners 0 ts, i < o.1 + 8 ∨ o.1 + 8 + o.2 ≤ i) → ram i = h.ram i) :
    Holds { h with ram := ram } ts := by
  refine ⟨⟨⟨?_, ?_, hh.laid.width_eq, hh.laid.sizes⟩, hh.lowest, hh.snug, hh.used_eq,
    hh.illegal_eq⟩, hh.tidy⟩
  · refine hh.laid.linked.congr fun x hx => node_congr fun i hlo hhi => hsame i fun o ho => ?_
    have hclear := starts_clear hh.snug hx ho
    omega
  · rw [← hh.laid.closed]
    refine node_congr fun i hlo hhi => hsame i fun o ho => Or.inr ?_
    have hin := (mem_owners hh.snug ho).2
    rw [hh.laid.width_eq] at hin
    omega

/-! ### What callers have

A caller knows an address and the size it asked for; the heap knows neither, only where
tiles start and that they are held.  The invariant pairs the blocks with the held tiles, one
to one.
-/

def blockOf (o : Nat × Nat) : Block := ⟨o.1 + 8, o.2⟩

/-- The held tiles are what the callers have. -/
def Use.Inv (u : Use) : Prop :=
  ∃ ts, Holds u.heap ts ∧ u.live.Perm ((owners 0 ts).map blockOf)

/-- No byte that was a caller's before and after has changed. -/
def Use.Kept (u v : Use) : Prop :=
  ∀ b ∈ u.live, ∀ c ∈ v.live, c.ptr = b.ptr → ∀ i, b.ptr ≤ i → i < b.ptr + min b.size c.size →
    v.heap.ram i = u.heap.ram i

theorem kept_of_spared (hperm : v.live.Perm ((owners 0 ts).map blockOf))
    (hspared : Spared u.heap.ram v.heap.ram (owners 0 ts)) : Use.Kept u v := by
  intro b hb c hc hptr i hlo hhi
  obtain ⟨o, ho, rfl⟩ := List.mem_map.mp (hperm.mem_iff.mp hc)
  have hstart : o.1 + 8 = b.ptr := hptr
  have hsize : min b.size (blockOf o).size ≤ o.2 := Nat.min_le_right _ _
  exact hspared o ho i (by omega) (by omega)

/-- The heap starts as one free tile. -/
theorem holds_start (ram : Ram) : Holds (memInit (blank ram)) [⟨49152, none⟩] := by
  refine ⟨⟨⟨⟨?_, trivial⟩, ?_, rfl, ?_⟩, rfl, ?_, rfl, rfl⟩, ?_⟩
  · show Ram.node _ 0 = _
    simp (disch := omega) only [memInit, blank, ramEnd_eq, memSizeAligned_eq, node_setNext,
      node_setNext_apart, node_setPrev, node_setPrev_apart, node_setUsed, node_setUsed_apart]
    rfl
  · show Ram.node _ 49152 = _
    simp (disch := omega) only [memInit, blank, ramEnd_eq, memSizeAligned_eq, node_setNext,
      node_setPrev, node_setUsed]
    rfl
  · intro t ht
    rw [List.mem_singleton.mp ht]
    exact ⟨by show 20 ≤ 49152; omega, rfl⟩
  · intro t ht n hn
    rw [List.mem_singleton.mp ht] at hn
    exact absurd hn (Option.not_mem_none n)
  · exact List.isChain_singleton _

theorem inv_start (ram : Ram) : Use.Inv ⟨memInit (blank ram), []⟩ :=
  ⟨_, holds_start ram, List.Perm.refl _⟩

/-- A block somebody has is a tile. -/
theorem exists_tile {b : Block} (hperm : u.live.Perm ((owners 0 ts).map blockOf))
    (hb : b ∈ u.live) :
    ∃ ls s rs, ts = ls ++ ⟨s, some b.size⟩ :: rs ∧ b.ptr = width ls + 8 ∧
      (u.live.erase b).Perm ((owners 0 ls ++ owners (width ls + s) rs).map blockOf) := by
  obtain ⟨o, ho, rfl⟩ := List.mem_map.mp (hperm.mem_iff.mp hb)
  obtain ⟨ls, s, rs, rfl, hat⟩ := exists_split_of_owner (show (o.1, o.2) ∈ owners 0 ts from ho)
  rw [Nat.zero_add] at hat
  refine ⟨ls, s, rs, rfl, by rw [← hat]; rfl, ?_⟩
  have hself : blockOf o = blockOf (width ls, o.2) := by rw [← hat]
  have hfirst : u.live.Perm (blockOf o :: (owners 0 ls ++ owners (width ls + s) rs).map blockOf) := by
    refine hperm.trans ?_
    rw [owners_append, owners_held, Nat.zero_add, hself, ← List.map_cons]
    exact List.perm_middle.map blockOf
  have herase := hfirst.erase (blockOf o)
  rwa [List.erase_cons_head] at herase

theorem inv_malloc {n : Nat} {out : Heap × Ptr} (hu : u.Inv) (hn : n < 2 ^ 16)
    (hcall : memMalloc u.heap n = some out) :
    (Use.given u.live n out).Inv ∧ Use.Kept u (Use.given u.live n out) := by
  obtain ⟨ts, hh, hperm⟩ := hu
  rcases hh.malloc hn with ⟨h', heq, hh', hram, -⟩ | ⟨h', x, ts', heq, hh', hown, hspared, -, -⟩
  · obtain rfl := Option.some.inj (hcall.symm.trans heq)
    refine ⟨⟨ts, hh', hperm⟩, kept_of_spared hperm fun o _ i _ _ => ?_⟩
    exact congrFun hram i
  · obtain rfl := Option.some.inj (hcall.symm.trans heq)
    have hperm' : (Use.given u.live n (h', some ((x + 8 : Nat) : Int))).live.Perm
        ((owners 0 ts').map blockOf) := by
      refine List.Perm.trans ?_ (hown.map blockOf).symm
      exact hperm.cons (blockOf (x, n))
    exact ⟨⟨ts', hh', hperm'⟩, kept_of_spared hperm' hspared⟩

theorem inv_free {b : Block} (hu : u.Inv) (hb : b ∈ u.live) :
    Use.Inv ⟨memFree u.heap (some b.ptr), u.live.erase b⟩ ∧
      Use.Kept u ⟨memFree u.heap (some b.ptr), u.live.erase b⟩ := by
  obtain ⟨ts, hh, hperm⟩ := hu
  obtain ⟨ls, s, rs, rfl, hptr, herase⟩ := exists_tile hperm hb
  obtain ⟨ts', hh', hown, hspared⟩ := hh.free
  rw [← hown] at herase
  rw [hptr]
  exact ⟨⟨ts', hh', herase⟩, kept_of_spared herase hspared⟩

theorem inv_trim {b : Block} {n : Nat} (hu : u.Inv) (hb : b ∈ u.live) (hn : n < 2 ^ 16)
    (hv : v = match memTrim u.heap (some b.ptr) n with
      | (heap, none) => ⟨heap, u.live⟩
      | (heap, some _) => ⟨heap, ⟨b.ptr, n⟩ :: u.live.erase b⟩) : v.Inv ∧ Use.Kept u v := by
  obtain ⟨ts, hh, hperm⟩ := hu
  obtain ⟨ls, s, rs, rfl, hptr, herase⟩ := exists_tile hperm hb
  rw [hptr] at hv
  rcases hh.trim hn with heq | ⟨h', ts', heq, hh', hown, hspared⟩
  · rw [heq] at hv
    subst hv
    exact ⟨⟨_, hh, hperm⟩, kept_of_spared hperm fun o _ i _ _ => rfl⟩
  · rw [heq] at hv
    have hperm' : v.live.Perm ((owners 0 ts').map blockOf) := by
      rw [hv, hown]
      refine (herase.cons (⟨width ls + 8, n⟩ : Block)).trans ?_
      have hmiddle : ((width ls, n) :: (owners 0 ls ++ owners (width ls + s) rs)).Perm
          (owners 0 ls ++ (width ls, n) :: owners (width ls + s) rs) := List.perm_middle.symm
      exact hmiddle.map blockOf
    have hheap : v.heap = h' := by rw [hv]
    exact ⟨⟨ts', hheap ▸ hh', hperm'⟩, kept_of_spared hperm' (hheap ▸ hspared)⟩

theorem write_inv {ram : Ram} (hu : u.Inv) (hsame : ∀ i, u.Others i → ram i = u.heap.ram i) :
    Use.Inv ⟨{ u.heap with ram := ram }, u.live⟩ := by
  obtain ⟨ts, hh, hperm⟩ := hu
  refine ⟨ts, hh.write fun i hi => hsame i fun b hb => ?_, hperm⟩
  obtain ⟨o, ho, rfl⟩ := List.mem_map.mp (hperm.mem_iff.mp hb)
  exact hi o ho

/-- Blocks do not touch, not even with a header between them. -/
def Block.Apart (b c : Block) : Prop := b.ptr + b.size + 8 ≤ c.ptr ∨ c.ptr + c.size + 8 ≤ b.ptr

theorem Use.Inv.apart (hu : u.Inv) : u.live.Pairwise Block.Apart := by
  obtain ⟨ts, hh, hperm⟩ := hu
  refine (hperm.pairwise_iff (fun {b c} hbc => Or.symm hbc)).mpr ?_
  refine List.pairwise_map.mpr ((owners_apart hh.snug).imp fun {o q} hoq => Or.inl ?_)
  show o.1 + 8 + o.2 + 8 ≤ q.1 + 8
  omega

theorem inv_calloc {n size : Nat} {out : Heap × Ptr} (hu : u.Inv)
    (hcall : memCalloc u.heap n size = some out) :
    (Use.given u.live (n * size) out).Inv ∧ Use.Kept u (Use.given u.live (n * size) out) := by
  rw [memCalloc] at hcall
  split at hcall
  · obtain rfl := Option.some.inj hcall
    exact ⟨hu, fun b hb c hc _ i _ _ => rfl⟩
  · rename_i hfits
    have hlt : n * size < 2 ^ 16 := by omega
    obtain ⟨⟨h', p⟩, hmalloc, rfl⟩ := Option.map_eq_some_iff.mp hcall
    obtain ⟨hinv, hkept⟩ := inv_malloc hu hlt hmalloc
    cases p with
    | none => exact ⟨hinv, hkept⟩
    | some r =>
        -- zeroing is a write into the new block
        refine ⟨write_inv hinv fun i hi => ?_, fun b hb c hc hptr i hlo hhi => ?_⟩
        · have hnew := hi ⟨r.toNat, n * size⟩ List.mem_cons_self
          simp only at hnew
          exact if_neg (by omega)
        · refine Eq.trans ?_ (hkept b hb c hc hptr i hlo hhi)
          have hapart := (List.pairwise_cons.mp hinv.apart).1 b hb
          have hshort := Nat.min_le_left b.size c.size
          simp only [Block.Apart] at hapart
          exact if_neg (by omega)

theorem Use.Call.inv (hcall : Use.Call u v) (hu : u.Inv) : v.Inv ∧ Use.Kept u v := by
  induction hcall with
  | malloc hn h => exact inv_malloc hu hn h
  | calloc _ _ h => exact inv_calloc hu h
  | free hb => exact inv_free hu hb
  | freeNull => exact ⟨hu, fun b hb c hc _ i _ _ => rfl⟩
  | trim hb hn => exact inv_trim hu hb hn rfl

theorem Use.Reachable.inv (hu : Use.Reachable u) : u.Inv := by
  induction hu with
  | start ram => exact inv_start ram
  | step _ h ih =>
      cases h with
      | call h => exact (h.inv ih).1
      | write h => exact write_inv ih h

theorem malloc_returns {n : Nat} (hu : u.Inv) (hn : n < 2 ^ 16) :
    ∃ out, memMalloc u.heap n = some out := by
  obtain ⟨ts, hh, -⟩ := hu
  rcases hh.malloc hn with ⟨h', heq, -⟩ | ⟨h', x, ts', heq, -⟩
  · exact ⟨_, heq⟩
  · exact ⟨_, heq⟩

/-! ### A short history

The results below are tried where calls have left their marks: three blocks are taken, the
middle one is put back, and the last is cut short.
-/

/-- A caller asks for memory. -/
def Use.malloc (u : Use) (n : Nat) : Use :=
  match memMalloc u.heap n with
  | some out => Use.given u.live n out
  | none => u

/-- A caller puts a block back. -/
def Use.free (u : Use) (b : Block) : Use := ⟨memFree u.heap (some b.ptr), u.live.erase b⟩

/-- A caller cuts a block short. -/
def Use.trim (u : Use) (b : Block) (n : Nat) : Use :=
  match memTrim u.heap (some b.ptr) n with
  | (heap, none) => ⟨heap, u.live⟩
  | (heap, some _) => ⟨heap, ⟨b.ptr, n⟩ :: u.live.erase b⟩

theorem Use.Inv.call_malloc {n : Nat} (hu : u.Inv) (hn : n < 2 ^ 16) : Use.Call u (u.malloc n) := by
  obtain ⟨out, hout⟩ := malloc_returns hu hn
  rw [Use.malloc, hout]
  exact .malloc hn hout

theorem Use.Reachable.malloc {n : Nat} (hu : Use.Reachable u) (hn : n < 2 ^ 16) :
    Use.Reachable (u.malloc n) := hu.step (.call (hu.inv.call_malloc hn))

theorem Use.Reachable.free {b : Block} (hu : Use.Reachable u) (hb : b ∈ u.live) :
    Use.Reachable (u.free b) := hu.step (.call (.free hb))

theorem Use.Reachable.trim {b : Block} {n : Nat} (hu : Use.Reachable u) (hb : b ∈ u.live)
    (hn : n < 2 ^ 16) : Use.Reachable (u.trim b n) := hu.step (.call (.trim hb hn))

def takenUse : Use :=
  ((Use.malloc ⟨memInit (blank fun _ => 0), []⟩ 100).malloc 60).malloc 200

def heldUse : Use := (takenUse.free ⟨116, 60⟩).trim ⟨184, 200⟩ 40

theorem reachable_held : Use.Reachable heldUse := by
  have htaken : Use.Reachable takenUse :=
    (((Use.Reachable.start fun _ => 0).malloc (by omega)).malloc (by omega)).malloc (by omega)
  refine Use.Reachable.trim (htaken.free ?_) ?_ (by omega)
  · decide +kernel
  · decide +kernel

theorem live_held : heldUse.live = [⟨184, 40⟩, ⟨8, 100⟩] := by decide +kernel

/-! ### Theirs alone -/

/-- **What callers have of the heap** is theirs alone in every reachable state: aligned, inside
the heap, with a header's room between any two; no call was taken for an illegal one, and no
search of the heap goes on for ever. -/
theorem heap_safe (hu : Use.Reachable u) :
    (∀ b ∈ u.live, b.ptr % 4 = 0 ∧ 8 ≤ b.ptr ∧ b.ptr + b.size ≤ 49152) ∧
      u.live.Pairwise Block.Apart ∧ u.heap.illegal = 0 ∧
      ∀ n < 2 ^ 16, ∃ out, memMalloc u.heap n = some out := by
  have hinv := hu.inv
  refine ⟨fun b hb => ?_, hinv.apart, ?_, fun n hn => ?_⟩
  · obtain ⟨ts, hh, hperm⟩ := hinv
    obtain ⟨ls, s, rs, rfl, hptr, -⟩ := exists_tile hperm hb
    have hmod := width_mod fun t ht => hh.laid.sizes t (List.mem_append_left _ ht)
    have hsize := (hh.snug ⟨s, some b.size⟩ (by simp) b.size rfl).1
    have hfits := hh.laid.fits [⟨s, some b.size⟩]
    simp only [width_cons, width_nil] at hsize hfits
    omega
  · obtain ⟨ts, hh, -⟩ := hinv
    exact hh.illegal_eq
  · exact malloc_returns hinv hn

theorem heap_safe_held :
    Use.Reachable heldUse ∧ heldUse.live = [⟨184, 40⟩, ⟨8, 100⟩] ∧
      (∀ b ∈ heldUse.live, b.ptr % 4 = 0 ∧ 8 ≤ b.ptr ∧ b.ptr + b.size ≤ 49152) ∧
      heldUse.live.Pairwise Block.Apart ∧ heldUse.heap.illegal = 0 := by
  obtain ⟨hinside, hapart, hlegal, -⟩ := heap_safe reachable_held
  exact ⟨reachable_held, live_held, hinside, hapart, hlegal⟩

/-- **No call changes what a caller has**: whatever is asked for, put back or cut short, every
byte of a block that was a caller's before and is one after stays as it was written. -/
theorem heap_keeps_blocks (hu : Use.Reachable u) (hcall : Use.Call u v) : Use.Kept u v :=
  (hcall.inv hu.inv).2

/-- The next call hands out a block between the two that are held. -/
theorem heap_keeps_blocks_held :
    Use.Reachable heldUse ∧ Use.Call heldUse (heldUse.malloc 20) ∧
      (heldUse.malloc 20).live = [⟨116, 20⟩, ⟨184, 40⟩, ⟨8, 100⟩] ∧
      Use.Kept heldUse (heldUse.malloc 20) := by
  have hcall := reachable_held.inv.call_malloc (show 20 < 2 ^ 16 by omega)
  exact ⟨reachable_held, hcall, by decide +kernel, heap_keeps_blocks reachable_held hcall⟩

/-! ### Room

`mem_malloc` goes through the headers from `lfree` on and takes the first free block that is
large enough.  Whether there is one can be said without `lfree`, by the headers found when
walking from the beginning of the heap.  `lfree` stands at the first free block of all, so
the two agree, and a call fails only where no free block will do.

A caller knows its blocks but not the headers.  For it a weaker bound holds: a gap between
blocks is one free block and what the held one before it has to spare, and that is less than
48 bytes.
-/

/-- Where headers lie: one at the beginning, and one wherever a header says the next is. -/
inductive Ram.Header (ram : Ram) : Nat → Prop
  | first : Header ram 0
  | next {x : Nat} (h : Header ram x) (hx : x < ramEnd) : Header ram (ram.next x)

/-- A free block at `x` with room for `size` bytes behind its header. -/
structure Ram.FreeBlock (ram : Ram) (x size : Nat) : Prop where
  header : ram.Header x
  inside : x < ramEnd
  unused : ram.used x = 0
  fits : x + sizeofStructMem + size ≤ ram.next x

/-- A header is the header of a tile. -/
theorem Laid.tile {ram : Ram} {x : Nat} (h : Laid ram ts) (hx : ram.Header x) (hin : x < ramEnd) :
    ∃ ls t rs, ts = ls ++ t :: rs ∧ x = width ls := by
  rw [ramEnd_eq] at hin
  induction hx with
  | first =>
      cases ts with
      | nil =>
          have hwidth := h.width_eq
          rw [width_nil] at hwidth
          omega
      | cons t ts => exact ⟨[], t, ts, rfl, rfl⟩
  | @next y hy hlast ih =>
      rw [ramEnd_eq] at hlast
      obtain ⟨ls, t, rs, rfl, rfl⟩ := ih hlast
      have hnode : ram.next (width ls) = width ls + t.size := by
        have hnode := congrArg Node.next h.linked.node
        rwa [Nat.zero_add] at hnode
      rw [hnode] at hin ⊢
      cases rs with
      | nil =>
          -- behind the last tile is the end
          have hwidth := h.width_eq
          simp only [width_append, width_cons, width_nil] at hwidth
          omega
      | cons u rs => exact ⟨ls ++ [t], u, rs, by simp, by simp⟩

/-- A tile has a header. -/
theorem Laid.header {ram : Ram} {t : Tile Nat} {rs : List (Tile Nat)} (ls : List (Tile Nat)) :
    Laid ram (ls ++ t :: rs) → ram.Header (width ls) := by
  induction ls using List.reverseRecOn generalizing t rs with
  | nil => exact fun _ => .first
  | append_singleton ls u ih =>
      intro h
      rw [List.append_assoc] at h
      have hnode : ram.next (width ls) = width ls + u.size := by
        have hnode := congrArg Node.next h.linked.node
        rwa [Nat.zero_add] at hnode
      have hin := h.fits [u]
      have hsize := (h.sizes u (by simp)).1
      have hnext := Ram.Header.next (ih h) (by
        rw [ramEnd_eq]
        simp only [width_cons, width_nil] at hin
        omega)
      rw [hnode] at hnext
      simpa using hnext

/-- **A call finds a free block exactly where one fits.** -/
theorem Holds.malloc_iff {n : Nat} (hh : Holds h ts) (hn : n < 65536) :
    (∃ heap r, memMalloc h n = some (heap, some r)) ↔
      0 < n ∧ ∃ x, h.ram.FreeBlock x (pad n) := by
  have hpad := pad_spec n
  have hsizeof : sizeofStructMem = 8 := rfl
  constructor
  · rintro ⟨heap, r, heq⟩
    rcases hh.malloc hn with ⟨h', hnone, -⟩ | ⟨h', x, ts', -, -, -, -, hpos, t, ht, hfree, hfit⟩
    · rw [hnone] at heq
      simp at heq
    · obtain ⟨ls, rs, rfl⟩ := List.append_of_mem ht
      have hnode := hh.laid.linked.node
      rw [Nat.zero_add, hfree] at hnode
      have hin := hh.laid.fits [t]
      simp only [width_cons, width_nil] at hin
      have hunused : h.ram.used (width ls) = 0 := by
        simpa [Ram.node] using congrArg Node.used hnode
      have hnext : h.ram.next (width ls) = width ls + t.size := congrArg Node.next hnode
      exact ⟨hpos, width ls, hh.laid.header ls, by rw [ramEnd_eq]; omega, hunused, by omega⟩
  · rintro ⟨hpos, x, hx⟩
    obtain ⟨ls, t, rs, rfl, rfl⟩ := hh.laid.tile hx.header hx.inside
    have hnode := hh.laid.linked.node
    rw [Nat.zero_add] at hnode
    have hfree : t.owner = none := by
      have hused := congrArg Node.used hnode
      have hunused := hx.unused
      simpa [Ram.node, hunused] using hused
    have hnext : h.ram.next (width ls) = width ls + t.size := congrArg Node.next hnode
    have hfits := hx.fits
    have hin := hh.laid.fits [t]
    simp only [width_cons, width_nil] at hin
    rcases hh.malloc hn with ⟨h', -, -, -, hzero | hbig | hnone⟩ | ⟨h', y, ts', heq, -⟩
    · omega
    · omega
    · have hsmall := hnone t (by simp) hfree
      omega
    · exact ⟨_, _, heq⟩

/-- The end of a gap that starts before `a` comes no later than what is held at `a`. -/
theorem gap_ends {lo hi : Nat} (hlo : lo < a) (hhead : ∀ t ∈ ts.head?, t.owner.isSome)
    (hend : hi ≤ a + width ts) (hgap : ∀ o ∈ owners a ts, o.1 + 8 + o.2 ≤ lo ∨ hi ≤ o.1) :
    hi ≤ a := by
  cases ts with
  | nil => exact hend
  | cons t ts =>
      obtain ⟨n, hn⟩ := Option.isSome_iff_exists.mp (hhead t rfl)
      have hat := hgap (a, n) (List.mem_append_left _ (List.mem_map.mpr ⟨n, by simp [hn], rfl⟩))
      rcases hat with hat | hat
      · simp only at hat
        omega
      · exact hat

/-- A gap is no longer than one free tile and the slack of the held one before it. -/
theorem gap_le {lo hi m : Nat} (hsizes : ∀ t ∈ ts, 20 ≤ t.size ∧ t.size % 4 = 0)
    (hsnug : ∀ t ∈ ts, ∀ n ∈ t.owner, Snug t.size n) (htidy : Tidy ts)
    (hfree : ∀ t ∈ ts, t.owner = none → t.size < m) (ha : a ≤ lo) (hlohi : lo < hi)
    (hend : hi ≤ a + width ts) (hgap : ∀ o ∈ owners a ts, o.1 + 8 + o.2 ≤ lo ∨ hi ≤ o.1) :
    hi < lo + m + 29 := by
  induction ts generalizing a with
  | nil =>
      rw [width_nil] at hend
      omega
  | cons t ts ih =>
      obtain ⟨s, o⟩ := t
      have hsize := hsizes ⟨s, o⟩ List.mem_cons_self
      have hrest : ∀ o ∈ owners (a + s) ts, o.1 + 8 + o.2 ≤ lo ∨ hi ≤ o.1 := fun o ho =>
        hgap o (List.mem_append_right _ ho)
      have htail : Tidy ts := (List.isChain_cons.mp htidy).2
      simp only [width_cons] at hend hsize
      by_cases hpast : a + s ≤ lo
      · exact ih (fun u hu => hsizes u (List.mem_cons_of_mem _ hu))
          (fun u hu => hsnug u (List.mem_cons_of_mem _ hu)) htail
          (fun u hu => hfree u (List.mem_cons_of_mem _ hu)) hpast (by omega) hrest
      cases o with
      | none =>
          -- the gap starts in a free tile and ends with it
          have hsmall := hfree ⟨s, none⟩ List.mem_cons_self rfl
          have hhead := (tidy_free_cons.mp htidy).2
          have hstop := gap_ends (by omega) hhead (by omega) hrest
          simp only at hsmall
          omega
      | some n =>
          have hown := hgap (a, n) List.mem_cons_self
          have hslack := (hsnug ⟨s, some n⟩ List.mem_cons_self n rfl).2
          have hpad := pad_spec n
          simp only at hown hslack
          cases ts with
          | nil =>
              rw [width_nil] at hend
              omega
          | cons w ts =>
              obtain ⟨w, o⟩ := w
              cases o with
              | some k =>
                  have hstop := gap_ends (by omega) (by simp) (by omega) hrest
                  omega
              | none =>
                  have hsmall := hfree ⟨w, none⟩ (by simp) rfl
                  have hhead := (tidy_free_cons.mp htail).2
                  rw [owners_free] at hrest
                  simp only [width_cons] at hend
                  have hstop := gap_ends (by omega) hhead (by omega) hrest
                  simp only at hsmall
                  omega

/--
**Memory is found where there is room**, in every reachable state: a call for `n` bytes
succeeds exactly if some free block is large enough for `n` padded, and so in particular if
some gap between the callers' blocks, headers included, has 48 bytes more.
-/
theorem malloc_finds_room (hu : Use.Reachable u) {n : Nat} (hn : n < 2 ^ 16) :
    ((∃ heap r, memMalloc u.heap n = some (heap, some r)) ↔
      0 < n ∧ ∃ x, u.heap.ram.FreeBlock x (pad n)) ∧
    ∀ lo, 0 < n → lo + n + 48 ≤ 49152 →
      (∀ b ∈ u.live, b.ptr + b.size ≤ lo ∨ lo + n + 48 + 8 ≤ b.ptr) →
      ∃ heap r, memMalloc u.heap n = some (heap, some r) := by
  obtain ⟨ts, hh, hperm⟩ := hu.inv
  refine ⟨hh.malloc_iff hn, fun lo hpos hend hgap => ?_⟩
  have hpad := pad_spec n
  rcases hh.malloc hn with ⟨h', -, -, -, hzero | hbig | hnone⟩ | ⟨h', x, ts', heq, -⟩
  · omega
  · omega
  · have hle : lo + n + 48 < lo + (pad n + 8) + 29 := gap_le hh.laid.sizes hh.snug hh.tidy hnone
      (Nat.zero_le lo) (by omega) (by rw [hh.laid.width_eq]; omega) fun o ho => by
        have hblock := hgap (blockOf o) (hperm.mem_iff.mpr (List.mem_map_of_mem ho))
        simp only [blockOf] at hblock
        omega
    omega
  · exact ⟨_, _, heq⟩

/-- Between the two blocks there is room for exactly 60 bytes, and behind them for many. -/
theorem malloc_finds_room_held :
    (∃ heap r, memMalloc heldUse.heap 60 = some (heap, some r)) ∧
      ∃ heap r, memMalloc heldUse.heap 1000 = some (heap, some r) := by
  have hfirst : heldUse.heap.ram.next 0 = 108 := by decide +kernel
  have hhole : heldUse.heap.ram.used 108 = 0 ∧ heldUse.heap.ram.next 108 = 176 := by decide +kernel
  have hheader : heldUse.heap.ram.Header 108 := by
    rw [← hfirst]
    exact .next .first (by decide)
  refine ⟨(malloc_finds_room reachable_held (n := 60) (by omega)).1.mpr ⟨by omega, 108, ?_⟩, ?_⟩
  · exact ⟨hheader, by decide, hhole.1, by rw [hhole.2]; decide⟩
  · refine (malloc_finds_room reachable_held (by omega)).2 300 (by omega) (by omega) ?_
    rw [live_held]
    decide

theorem free_of_owners_nil (hnobody : owners a ts = []) : ∀ t ∈ ts, t.owner = none := by
  induction ts generalizing a with
  | nil => exact fun t ht => absurd ht List.not_mem_nil
  | cons t ts ih =>
      obtain ⟨hhead, hrest⟩ := List.append_eq_nil_iff.mp hnobody
      intro u hu
      rcases List.mem_cons.mp hu with rfl | hu
      · simpa using hhead
      · exact ih hrest u hu

/-- Free tiles that are no neighbours are one tile. -/
theorem eq_singleton_of_free (htidy : Tidy ts) (hfree : ∀ t ∈ ts, t.owner = none)
    (hpos : 0 < width ts) : ∃ w, ts = [⟨w, none⟩] := by
  rcases ts with _ | ⟨⟨s, o⟩, _ | ⟨w, rest⟩⟩
  · exact absurd hpos (Nat.lt_irrefl 0)
  · obtain rfl : o = none := hfree ⟨s, o⟩ List.mem_cons_self
    exact ⟨s, rfl⟩
  · have hone := hfree ⟨s, o⟩ List.mem_cons_self
    have htwo := hfree w (by simp)
    have hor := (List.isChain_cons_cons.mp htidy).1
    rw [hone, htwo] at hor
    simp at hor

/-- **Everything put back is one block again**: where callers have nothing, whatever came before, a
call for `n` bytes succeeds for every `n` that leaves room for one header. -/
theorem malloc_after_all_freed (hu : Use.Reachable u) (hlive : u.live = []) {n : Nat}
    (hn : n < 2 ^ 16) :
    (∃ heap r, memMalloc u.heap n = some (heap, some r)) ↔ 0 < n ∧ n ≤ 49144 := by
  obtain ⟨ts, hh, hperm⟩ := hu.inv
  rw [hlive] at hperm
  have hpad := pad_spec n
  have hnobody : owners 0 ts = [] := List.map_eq_nil_iff.mp (List.nil_perm.mp hperm)
  obtain ⟨w, rfl⟩ := eq_singleton_of_free hh.tidy (free_of_owners_nil hnobody)
    (by rw [hh.laid.width_eq]; omega)
  have hwidth := hh.laid.width_eq
  simp only [width_cons, width_nil, Nat.add_zero] at hwidth
  rcases hh.malloc hn with ⟨h', heq, -, -, hwhy⟩ | ⟨h', x, ts', heq, -, -, -, hpos, t, ht, -, hfit⟩
  · rw [heq]
    refine ⟨fun ⟨heap, r, h⟩ => absurd h (by simp), fun ⟨hpos, hle⟩ => ?_⟩
    rcases hwhy with hzero | hbig | hnone
    · omega
    · omega
    · have hsmall := hnone ⟨w, none⟩ List.mem_cons_self rfl
      simp only at hsmall
      omega
  · rw [List.mem_singleton.mp ht] at hfit
    simp only at hfit
    exact ⟨fun _ => ⟨hpos, by omega⟩, fun _ => ⟨_, _, heq⟩⟩

/-- What is held is put back, and the whole heap can be taken. -/
theorem malloc_after_all_freed_held :
    Use.Reachable ((heldUse.free ⟨8, 100⟩).free ⟨184, 40⟩) ∧
      ∃ heap r, memMalloc ((heldUse.free ⟨8, 100⟩).free ⟨184, 40⟩).heap 49144
        = some (heap, some r) := by
  have hfirst : Use.Reachable (heldUse.free ⟨8, 100⟩) := reachable_held.free (by decide +kernel)
  have hboth : Use.Reachable ((heldUse.free ⟨8, 100⟩).free ⟨184, 40⟩) :=
    hfirst.free (by decide +kernel)
  exact ⟨hboth, (malloc_after_all_freed hboth (by decide +kernel) (by omega)).mpr
    ⟨by omega, by omega⟩⟩

end SysAwg.Mem
