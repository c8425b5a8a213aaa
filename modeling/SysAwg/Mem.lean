/-
The heap of the network stack.

`lwip/core/mem.c` under `lwip_port/lwipopts.h`: 48 KiB, four-byte alignment, sixteen-bit
sizes, no pools, no sanity or overflow checks, one thread, assertions that do nothing.
Addresses are distances from `ram`, which is aligned, so a pointer is `none` for `NULL` or an
integer that may point anywhere.  The heap is bytes; `struct mem` is read out of them.
-/
import Mathlib.Tactic.Ring

namespace SysAwg.Mem

/-- What the heap and its surroundings hold. -/
abbrev Ram := Nat → UInt8

abbrev Ptr := Option Int

def memAlignment : Nat := 4

def memAlignSize (size : Nat) : Nat := (size + memAlignment - 1) / memAlignment * memAlignment

def memSizeAligned : Nat := memAlignSize (48 * 1024)

def minSizeAligned : Nat := memAlignSize 12

/-- Two indices of two bytes and a flag, rounded up. -/
def sizeofStructMem : Nat := memAlignSize 6

def ramEnd : Nat := memSizeAligned

/-! ### `struct mem`

A header names the next and the previous one by their distance from `ram`, and says whether
the bytes between this header and the next are handed out.  Free or not, the blocks follow
each other from the start of the heap to its end.
-/

def Ram.get16 (ram : Ram) (i : Nat) : Nat := (ram i).toNat + 256 * (ram (i + 1)).toNat

def Ram.set16 (ram : Ram) (i v : Nat) : Ram :=
  Function.update (Function.update ram i (UInt8.ofNat v)) (i + 1) (UInt8.ofNat (v / 256))

def Ram.next (ram : Ram) (mem : Nat) : Nat := ram.get16 mem

def Ram.prev (ram : Ram) (mem : Nat) : Nat := ram.get16 (mem + 2)

def Ram.used (ram : Ram) (mem : Nat) : UInt8 := ram (mem + 4)

def Ram.setNext (ram : Ram) (mem v : Nat) : Ram := ram.set16 mem v

def Ram.setPrev (ram : Ram) (mem v : Nat) : Ram := ram.set16 (mem + 2) v

def Ram.setUsed (ram : Ram) (mem : Nat) (v : UInt8) : Ram := Function.update ram (mem + 4) v

/-- `mem_to_ptr`, which `ptr_to_mem` undoes. -/
def memToPtr (mem : Nat) : Nat := mem % 2 ^ 16

/-- `lfree` and `lwip_stats.mem` beside the memory itself. -/
structure Heap where
  ram : Ram
  lfree : Nat
  avail : UInt16
  used : UInt16
  max : UInt16
  err : UInt16
  illegal : UInt16

def Heap.incUsed (h : Heap) (y : UInt16) : Heap :=
  { h with used := h.used + y, max := if h.max < h.used + y then h.used + y else h.max }

def Heap.decUsed (h : Heap) (y : UInt16) : Heap := { h with used := h.used - y }

def Heap.countIllegal (h : Heap) : Heap := { h with illegal := h.illegal + 1 }

/-! ### Setting up -/

def memInit (h : Heap) : Heap :=
  let ram := h.ram.setNext 0 memSizeAligned
  let ram := ram.setPrev 0 0
  let ram := ram.setUsed 0 0
  let ram := ram.setUsed ramEnd 1
  let ram := ram.setNext ramEnd memSizeAligned
  let ram := ram.setPrev ramEnd memSizeAligned
  { h with ram, lfree := 0, avail := UInt16.ofNat memSizeAligned }

/-! ### Putting back

A block that is put back is merged with free neighbours on both sides, so that no two free
blocks ever stand next to each other.
-/

/-- The lines that every change of a link ends with: what follows points back to `ptr`, unless
it is the end. -/
def linkBack (ram : Ram) (next ptr : Nat) : Ram :=
  if next ≠ memSizeAligned then ram.setPrev next ptr else ram

/-- The lines both halves of `plug_holes` share: `mem` takes in the one after it. -/
def absorb (ram : Ram) (mem nmem : Nat) : Ram :=
  let ram := ram.setNext mem (ram.next nmem)
  linkBack ram (ram.next nmem) (memToPtr mem)

/-- The first half of `plug_holes`. -/
def plugForward (h : Heap) (mem : Nat) : Heap :=
  let nmem := h.ram.next mem
  if mem ≠ nmem ∧ h.ram.used nmem = 0 ∧ nmem ≠ ramEnd then
    { h with lfree := if h.lfree = nmem then mem else h.lfree, ram := absorb h.ram mem nmem }
  else h

/-- The second half of `plug_holes`. -/
def plugBackward (h : Heap) (mem : Nat) : Heap :=
  let pmem := h.ram.prev mem
  if pmem ≠ mem ∧ h.ram.used pmem = 0 then
    { h with lfree := if h.lfree = mem then pmem else h.lfree, ram := absorb h.ram pmem mem }
  else h

def plugHoles (h : Heap) (mem : Nat) : Heap := plugBackward (plugForward h mem) mem

def memLinkValid (ram : Ram) (mem : Nat) : Bool :=
  let rmemIdx := memToPtr mem
  let nmem := ram.next mem
  let pmem := ram.prev mem
  !(decide (memSizeAligned < nmem) || decide (memSizeAligned < pmem) ||
    (pmem != rmemIdx && ram.next pmem != rmemIdx) ||
    (nmem != ramEnd && ram.prev nmem != rmemIdx))

/-- What `mem_free` does to a `mem` that passed its checks, before it plugs holes. -/
def markFree (h : Heap) (mem : Nat) : Heap :=
  let ram := h.ram.setUsed mem 0
  { h with ram, lfree := if mem < h.lfree then mem else h.lfree }.decUsed
    (UInt16.ofNat (ram.next mem) - UInt16.ofNat mem)

def memFree (h : Heap) (rmem : Ptr) : Heap :=
  match rmem with
  | none => h
  | some r =>
    if r % memAlignment ≠ 0 then h.countIllegal
    else if r - sizeofStructMem < 0 ∨ (ramEnd : Int) < r + minSizeAligned then h.countIllegal
    else
      let mem := (r - sizeofStructMem).toNat
      if h.ram.used mem = 0 then h.countIllegal
      else if !memLinkValid h.ram mem then h.countIllegal
      else plugHoles (markFree h mem) mem

/-! ### Cutting short

What a caller gives up goes to the free block behind, if there is one; if not, a free
block is made of it, as long as it has room for a header and the smallest size.
-/

/-- The size asked for, rounded up as both `mem_malloc` and `mem_trim` do it, if it fits. -/
def paddedSize (sizeIn : Nat) : Option Nat :=
  let size := memAlignSize sizeIn % 2 ^ 16
  let size := if size < minSizeAligned then minSizeAligned else size
  if memSizeAligned < size ∨ size < sizeIn then none else some size

/-- The lines that put a free `mem2` behind `mem`. -/
def cutOff (ram : Ram) (ptr ptr2 next : Nat) : Ram :=
  let ram := ram.setUsed ptr2 0
  let ram := ram.setNext ptr2 next
  let ram := ram.setPrev ptr2 ptr
  ram.setNext ptr ptr2

/-- A pointer into the first header is not modelled: the header it leads to lies before the
heap. -/
def memTrim (h : Heap) (rmem : Ptr) (newSize : Nat) : Heap × Ptr :=
  match paddedSize newSize with
  | none => (h, none)
  | some newsize =>
    match rmem with
    | none => (h.countIllegal, none)
    | some r =>
      if r < 0 ∨ (ramEnd : Int) ≤ r then (h.countIllegal, rmem)
      else
        let mem := (r - sizeofStructMem).toNat
        let ptr := memToPtr mem
        let mem2 := h.ram.next mem
        let size := (mem2 + 2 ^ 17 - ptr - sizeofStructMem) % 2 ^ 16
        if size < newsize then (h, none)
        else if newsize = size then (h, rmem)
        else
          let ptr2 := (ptr + sizeofStructMem + newsize) % 2 ^ 16
          let dec := UInt16.ofNat size - UInt16.ofNat newsize
          if h.ram.used mem2 = 0 then
            let next := h.ram.next mem2
            let ram := linkBack (cutOff h.ram ptr ptr2 next) next ptr2
            ({ h with ram, lfree := if h.lfree = mem2 then ptr2 else h.lfree }.decUsed dec, rmem)
          else if newsize + sizeofStructMem + minSizeAligned ≤ size then
            let ram := linkBack (cutOff h.ram ptr ptr2 mem2) mem2 ptr2
            ({ h with ram, lfree := if ptr2 < h.lfree then ptr2 else h.lfree }.decUsed dec, rmem)
          else (h, rmem)

/-! ### Taking out

The search is first fit, from `lfree` on.  In the source both searches are loops without a
bound; here they count down, and that they never run out is part of what is proved.
-/

/-- `mem->next - (ptr + SIZEOF_STRUCT_MEM)` as a `size_t`. -/
def userSize (ram : Ram) (ptr : Nat) : Nat :=
  (ram.next ptr + 2 ^ 64 - (ptr + sizeofStructMem)) % 2 ^ 64

/-- The search of `mem_malloc` from `ptr` on: nothing when it goes on for ever. -/
def scan (ram : Ram) (size : Nat) : Nat → Nat → Option (Option Nat)
  | 0, _ => none
  | fuel + 1, ptr =>
    if ptr < memSizeAligned - size then
      if ram.used ptr = 0 ∧ size ≤ userSize ram ptr then some (some ptr)
      else scan ram size fuel (ram.next ptr)
    else some none

/-- The search for the next `lfree`. -/
def nextFree (ram : Ram) : Nat → Nat → Option Nat
  | 0, _ => none
  | fuel + 1, cur =>
    if ram.used cur ≠ 0 ∧ cur ≠ ramEnd then nextFree ram fuel (ram.next cur) else some cur

/-- More than the headers there is room for. -/
def searchFuel : Nat := memSizeAligned

/-- What `mem_malloc` does with the `mem` it found: all of it, or as much as is asked for. -/
def markUsed (h : Heap) (size mem : Nat) : Heap :=
  let next := h.ram.next mem
  if size + sizeofStructMem + minSizeAligned ≤ userSize h.ram mem then
    let ptr2 := (mem + sizeofStructMem + size) % 2 ^ 16
    let ram := (cutOff h.ram mem ptr2 next).setUsed mem 1
    { h with ram := linkBack ram next ptr2 }.incUsed (UInt16.ofNat (size + sizeofStructMem))
  else
    { h with ram := h.ram.setUsed mem 1 }.incUsed
      (UInt16.ofNat next - UInt16.ofNat (memToPtr mem))

/-- `lfree` moves on if it was taken. -/
def moveLfree (h : Heap) (mem : Nat) : Option Heap :=
  if mem = h.lfree then
    (nextFree h.ram searchFuel h.lfree).map fun cur => { h with lfree := cur }
  else some h

/-- Nothing when a search goes on for ever. -/
def memMalloc (h : Heap) (sizeIn : Nat) : Option (Heap × Ptr) :=
  if sizeIn = 0 then some (h, none)
  else
    match paddedSize sizeIn with
    | none => some (h, none)
    | some size =>
      match scan h.ram size searchFuel (memToPtr h.lfree) with
      | none => none
      | some none => some ({ h with err := h.err + 1 }, none)
      | some (some mem) =>
        (moveLfree (markUsed h size mem) mem).map fun h => (h, some ((mem : Int) + sizeofStructMem))

def zeroed (ram : Ram) (p n : Nat) : Ram := fun i => if p ≤ i ∧ i < p + n then 0 else ram i

def memCalloc (h : Heap) (count size : Nat) : Option (Heap × Ptr) :=
  let allocSize := count * size
  if allocSize % 2 ^ 16 ≠ allocSize then some (h, none)
  else
    (memMalloc h allocSize).map fun (h, p) =>
      match p with
      | none => (h, none)
      | some r => ({ h with ram := zeroed h.ram r.toNat allocSize }, some r)

/-! ### Its callers

What the callers are promised is about their bytes, so a state of the whole is the heap
together with the blocks it has handed out and not got back.
-/

/-- What a caller got and may use until it gives it back. -/
structure Block where
  ptr : Nat
  size : Nat
deriving DecidableEq

/-- The heap and what its callers have of it. -/
structure Use where
  heap : Heap
  live : List Block

/-- The bytes that are in nobody's block, where a caller has no business to write. -/
def Use.Others (u : Use) (i : Nat) : Prop := ∀ b ∈ u.live, i < b.ptr ∨ b.ptr + b.size ≤ i

/-- What a call that hands out memory leaves: the caller has it if it got any. -/
def Use.given (live : List Block) (n : Nat) (out : Heap × Ptr) : Use :=
  ⟨out.1, match out.2 with
    | none => live
    | some r => ⟨r.toNat, n⟩ :: live⟩

/-- A call of the heap.  Callers put back and cut short only what they have. -/
inductive Use.Call : Use → Use → Prop
  | malloc {u : Use} {n : Nat} {out : Heap × Ptr} (hn : n < 2 ^ 16)
      (h : memMalloc u.heap n = some out) : Call u (given u.live n out)
  | calloc {u : Use} {count size : Nat} {out : Heap × Ptr} (hcount : count < 2 ^ 16)
      (hsize : size < 2 ^ 16) (h : memCalloc u.heap count size = some out) :
      Call u (given u.live (count * size) out)
  | free {u : Use} {b : Block} (hb : b ∈ u.live) :
      Call u ⟨memFree u.heap (some b.ptr), u.live.erase b⟩
  | freeNull {u : Use} : Call u ⟨memFree u.heap none, u.live⟩
  | trim {u : Use} {b : Block} {n : Nat} (hb : b ∈ u.live) (hn : n < 2 ^ 16) :
      Call u (match memTrim u.heap (some b.ptr) n with
        | (heap, none) => ⟨heap, u.live⟩
        | (heap, some _) => ⟨heap, ⟨b.ptr, n⟩ :: u.live.erase b⟩)

/-- A call, or a caller's write into the bytes it has. -/
inductive Use.Step : Use → Use → Prop
  | call {u v : Use} (h : Call u v) : Step u v
  | write {u : Use} {ram : Ram} (h : ∀ i, u.Others i → ram i = u.heap.ram i) :
      Step u ⟨{ u.heap with ram }, u.live⟩

/-- What the heap and its counters are before `mem_init`: the counters are zero. -/
def blank (ram : Ram) : Heap := ⟨ram, 0, 0, 0, 0, 0, 0⟩

/-- Every state after `mem_init`, whatever the memory held before. -/
inductive Use.Reachable : Use → Prop
  | start (ram : Ram) : Reachable ⟨memInit (blank ram), []⟩
  | step {u v : Use} (hu : Reachable u) (h : Step u v) : Reachable v

end SysAwg.Mem
