/-
`crypto/x25519.c` as it is compiled: 32-bit limbs, no signatures, parameters copied.

A field element is eight limbs that are not kept reduced: every operation takes any value
below 2^256 and ends in `propagate`, which folds what lies above bit 255 back as nineteen
times as much.  The ladder runs over all 256 bits of the clamped scalar and swaps by mask.
The division at the end is a chain of squarings and products over the ladder's own
variables.

The fifth of those variables is uninitialised when the ladder starts and written before it
is read; what it holds then is an argument.
-/
import SysAwg.Config
import SysAwg.Lib.Limbs

namespace SysAwg.X25519

open Limbs (chain)

structure Fe where
  limbs : List UInt32
  size : limbs.length = 8
  deriving DecidableEq

/-- Limb `0` and zeros above it. -/
def Fe.small (x : UInt32) : Fe := ⟨[x, 0, 0, 0, 0, 0, 0, 0], rfl⟩

/-- `umaal`: the result and the carry. -/
def umaal (carry acc mand mier : UInt32) : UInt32 × UInt32 :=
  let tmp := mand.toUInt64 * mier.toUInt64 + acc.toUInt64 + carry.toUInt64
  (tmp.toUInt32, (tmp >>> 32).toUInt32)

def adc (carry acc mand : UInt32) : UInt32 × UInt32 :=
  let total := carry.toUInt64 + acc.toUInt64 + mand.toUInt64
  (total.toUInt32, (total >>> 32).toUInt32)

def adc0 (carry acc : UInt32) : UInt32 × UInt32 :=
  let total := carry.toUInt64 + acc.toUInt64
  (total.toUInt32, (total >>> 32).toUInt32)

/-- A step of `sub`: the carry is a signed double limb, shifted arithmetically. -/
def subStep (carry : Int) (p : UInt32 × UInt32) : UInt32 × Int :=
  let carry := carry + p.1.toNat - p.2.toNat
  (UInt32.ofInt carry, carry / 4294967296)

/-- A step of the subtraction in `canon`. -/
def canonStep (carry : Int) (x : UInt32) : UInt32 × Int :=
  let carry := carry + x.toNat
  (UInt32.ofInt carry, carry / 4294967296)

/-! ### Field operations

`add`, `sub` and `mul` walk along the limbs with a carry and end in `propagate`, which
leaves less than 2^255 and a word.  Only `canon` reduces fully, and it takes no more than
that.
-/

/-- The limbs with the top bit of the last cleared. -/
def Fe.clearTop (x : Fe) : Fe where
  limbs := x.limbs.set 7 (x.limbs.getD 7 0 &&& ~~~((1 : UInt32) <<< 31))
  size := by rw [List.length_set, x.size]

def propagate (x : Fe) (over' : UInt32) : Fe where
  limbs :=
    let over' := (x.limbs.getD 7 0 >>> 31) ||| (over' <<< 1)
    (chain adc0 (over' * 19) x.clearTop.limbs).1
  size := by rw [Limbs.length_chain, Fe.size]

/-- The limbs of a walk over one element. -/
def Fe.walk {κ : Type} (step : κ → UInt32 → UInt32 × κ) (c : κ) (x : Fe) : Fe where
  limbs := (chain step c x.limbs).1
  size := by rw [Limbs.length_chain, x.size]

/-- The limbs of a walk over two. -/
def Fe.walk₂ {κ : Type} (step : κ → UInt32 × UInt32 → UInt32 × κ) (c : κ) (x y : Fe) : Fe where
  limbs := (chain step c (x.limbs.zip y.limbs)).1
  size := by rw [Limbs.length_chain, List.length_zip, x.size, y.size]; rfl

def add (a b : Fe) : Fe :=
  let step := fun c (p : UInt32 × UInt32) => adc c p.1 p.2
  propagate (Fe.walk₂ step 0 a b) (chain step 0 (a.limbs.zip b.limbs)).2

def sub (a b : Fe) : Fe :=
  propagate (Fe.walk₂ subStep (-38) a b)
    (UInt32.ofInt (1 + (chain subStep (-38) (a.limbs.zip b.limbs)).2))

/-- One round of the outer loop of `mul`: `mand` times `a`, added at limb `i`. -/
def mulRow (a : Fe) (accum : List UInt32) (i : Nat) (mand : UInt32) : List UInt32 :=
  let row := chain (fun c (p : UInt32 × UInt32) => umaal c p.1 mand p.2) 0
    ((accum.drop i).zip a.limbs)
  accum.take i ++ row.1 ++ row.2 :: accum.drop (i + 9)

/-- The outer loop of `mul`, from limb `i` on. -/
def mulRows (a : Fe) : Nat → List UInt32 → List UInt32 → List UInt32
  | _, [], accum => accum
  | i, mand :: b, accum => mulRows a (i + 1) b (mulRow a accum i mand)

def product (a : Fe) (b : List UInt32) : List UInt32 := mulRows a 0 b (List.replicate 16 0)

/-- The first or the second half of `accum`. -/
def half (accum : List UInt32) (off : Nat) : Fe where
  limbs := (List.range 8).map fun j => accum.getD (off + j) 0
  size := by rw [List.length_map, List.length_range]

/-- `mul(out, a, b, nb)`; the length of `b` is `nb`. -/
def mulBy (a : Fe) (b : List UInt32) : Fe :=
  let accum := product a b
  let step := fun c (p : UInt32 × UInt32) => umaal c p.1 38 p.2
  propagate (Fe.walk₂ step 0 (half accum 0) (half accum 8))
    (chain step 0 ((half accum 0).limbs.zip (half accum 8).limbs)).2

/-- `mul(out, a, b, NLIMBS)`. -/
def mul (a b : Fe) : Fe := mulBy a b.limbs

/-- `sqr(out, a)`. -/
def sqr (a : Fe) : Fe := mul a a

def mul1 (out a : Fe) : Fe := mul a out

/-- `condswap` of one element against another; `doswap` is a mask. -/
def condswap (a b : Fe) (doswap : UInt32) : Fe × Fe :=
  let step := fun (_ : Unit) (p : UInt32 × UInt32) => (p.1 ^^^ ((p.1 ^^^ p.2) &&& doswap), ())
  let step' := fun (_ : Unit) (p : UInt32 × UInt32) => (p.2 ^^^ ((p.1 ^^^ p.2) &&& doswap), ())
  (Fe.walk₂ step () a b, Fe.walk₂ step' () a b)

/-- `canon`: the reduced element, and all ones if it is zero. -/
def canon (x : Fe) : Fe × UInt32 :=
  let y := propagate (x.walk adc0 19) (chain adc0 19 x.limbs).2
  let z := y.walk canonStep (-19)
  let res := z.limbs.foldl (· ||| ·) 0
  (z, ((res.toUInt64 - 1) >>> 32).toUInt32)

/-! ### The ladder

The two points and the base's coordinate go through one step for each bit, from the top.
Swaps are put off: a step swaps where its bit differs from the one before, and the last
bit's swap is made up for at the end.
-/

/-- The field elements `xs`. -/
structure Xs where
  x2 : Fe
  z2 : Fe
  x3 : Fe
  z3 : Fe
  t1 : Fe
  deriving DecidableEq

def a24 : List UInt32 := [121665]

def ladderPart1 (xs : Xs) : Xs :=
  let t1 := add xs.x2 xs.z2
  let z2 := sub xs.x2 xs.z2
  let x2 := add xs.x3 xs.z3
  let z3 := sub xs.x3 xs.z3
  let z3 := mul1 z3 t1
  let x2 := mul1 x2 z2
  let x3 := add z3 x2
  let z3 := sub z3 x2
  let t1 := mul1 t1 t1
  let z2 := mul1 z2 z2
  let x2 := sub t1 z2
  let z2 := mulBy x2 a24
  let z2 := add z2 t1
  ⟨x2, z2, x3, z3, t1⟩

def ladderPart2 (xs : Xs) (x1 : Fe) : Xs :=
  let z3 := mul1 xs.z3 xs.z3
  let z3 := mul1 z3 x1
  let x3 := mul1 xs.x3 xs.x3
  let z2 := mul1 xs.z2 xs.x2
  let x2 := sub xs.t1 xs.x2
  let x2 := mul1 x2 xs.t1
  ⟨x2, z2, x3, z3, xs.t1⟩

/-- `condswap(x2, x3, doswap)`, which covers `z2` and `z3` too. -/
def Xs.condswap (xs : Xs) (doswap : UInt32) : Xs :=
  let x := X25519.condswap xs.x2 xs.x3 doswap
  let z := X25519.condswap xs.z2 xs.z3 doswap
  { xs with x2 := x.1, x3 := x.2, z2 := z.1, z3 := z.2 }

/-- The clamped byte of the scalar that holds bit `i`. -/
def clampedByte (scalar : Bytes) (i : Nat) : UInt8 :=
  let bytei := scalar.getD (i / 8) 0
  if i / 8 = 0 then bytei &&& ~~~7
  else if i / 8 = 31 then (bytei &&& 0x7F) ||| 0x40
  else bytei

/-- `doswap` for bit `i`: all ones or zero. -/
def doswapOf (scalar : Bytes) (i : Nat) : UInt32 :=
  0 - ((clampedByte scalar i >>> UInt8.ofNat (i % 8)) &&& 1).toUInt32

/-- The loop of `x25519_core` from bit `n - 1` down: the elements and the last `swap`. -/
def coreLoop (scalar : Bytes) (x1 : Fe) : Nat → UInt32 → Xs → Xs × UInt32
  | 0, swap, xs => (xs, swap)
  | i + 1, swap, xs =>
    let doswap := doswapOf scalar i
    let xs := xs.condswap (swap ^^^ doswap)
    coreLoop scalar x1 i doswap (ladderPart2 (ladderPart1 xs) x1)

def swapin (b : Bytes) : Fe where
  limbs := (List.range 8).map fun i => Bytes.word32 b (4 * i)
  size := by rw [List.length_map, List.length_range]

/-- `x25519_core(xs, scalar, x1, 1)`. -/
def x25519Core (t1 : Fe) (scalar base : Bytes) : Xs :=
  let x1 := swapin base
  let r := coreLoop scalar x1 256 0 ⟨Fe.small 1, Fe.small 0, x1, Fe.small 1, t1⟩
  r.1.condswap r.2

/-! ### The division

The quotient is a product with a power of the denominator.  `steps` lists the squarings and
products that make this power, and the five elements of the ladder serve as its registers.
-/

/-- `steps`: the element to square into, the one to multiply with, and how often. -/
def steps : List (Nat × Nat × Nat) :=
  [(2, 1, 1), (2, 1, 1), (4, 2, 3), (2, 4, 6), (3, 1, 1), (3, 2, 12), (4, 3, 25), (2, 3, 25),
    (2, 4, 50), (3, 2, 125), (3, 1, 2), (3, 1, 2), (3, 1, 1)]

/-- `sqr(a, prev)`, so often; afterwards `prev` is `a`. -/
def squarings (a : Nat) : Nat → List Fe × Nat → List Fe × Nat
  | 0, st => st
  | n + 1, st => squarings a n (st.1.set a (sqr (st.1.getD st.2 (Fe.small 0))), a)

/-- One entry of `steps`. -/
def powerStep (st : List Fe × Nat) (s : Nat × Nat × Nat) : List Fe × Nat :=
  let st := squarings s.1 s.2.2 st
  (st.1.set s.1 (mul1 (st.1.getD s.1 (Fe.small 0)) (st.1.getD s.2.1 (Fe.small 0))), st.2)

def swapout (x : Fe) : Bytes := x.limbs.flatMap Bytes.le32

/-- `x25519(out, scalar, x1, 1)`: what is stored in `out`, and what is returned. -/
def x25519 (t1 : Fe) (scalar base : Bytes) : Bytes × Int :=
  let xs := x25519Core t1 scalar base
  let r := steps.foldl powerStep ([xs.x2, xs.z2, xs.x3, xs.z3, xs.t1], 1)
  let x2 := mul1 (r.1.getD 0 (Fe.small 0)) (r.1.getD 3 (Fe.small 0))
  let c := canon x2
  (swapout c.1, if c.2 = 0xFFFFFFFF then -1 else c.2.toNat)

end SysAwg.X25519
