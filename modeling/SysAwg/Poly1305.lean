/-
`crypto/poly1305-donna.c` and `crypto/poly1305-donna-32.h`: the authenticator as it is
compiled.

The accumulator and the key are five limbs of 26 bits, each in an `unsigned long`, which
has 64 bits on the console, and so have the products `d0` to `d4`.  A message arrives in
any number of `poly1305_update` calls; what does not fill a block waits in `buffer`.

Nothing initialises `buffer`, and `poly1305_init` leaves it as it is, so the context before
the call is an argument.
-/
import SysAwg.Config

namespace SysAwg.Poly1305

structure Limbs where
  l0 : UInt64
  l1 : UInt64
  l2 : UInt64
  l3 : UInt64
  l4 : UInt64
  deriving DecidableEq

def Limbs.zero : Limbs := ⟨0, 0, 0, 0, 0⟩

structure Pad where
  p0 : UInt64
  p1 : UInt64
  p2 : UInt64
  p3 : UInt64
  deriving DecidableEq

structure State where
  r : Limbs
  h : Limbs
  pad : Pad
  leftover : Nat
  buffer : Vector UInt8 16
  final : Bool
  deriving DecidableEq

/-- `U8TO32`, at an offset. -/
def u8to32 (p : Bytes) (off : Nat) : UInt64 :=
  (p.getD off 0).toUInt64 ||| ((p.getD (off + 1) 0).toUInt64 <<< 8) |||
    ((p.getD (off + 2) 0).toUInt64 <<< 16) ||| ((p.getD (off + 3) 0).toUInt64 <<< 24)

def u32to8 (v : UInt64) : Bytes :=
  [v.toUInt8, (v >>> 8).toUInt8, (v >>> 16).toUInt8, (v >>> 24).toUInt8]

def poly1305Init (st : State) (key : Key) : State :=
  let k := key.toList
  { st with
    r := ⟨u8to32 k 0 &&& 0x3ffffff, (u8to32 k 3 >>> 2) &&& 0x3ffff03,
      (u8to32 k 6 >>> 4) &&& 0x3ffc0ff, (u8to32 k 9 >>> 6) &&& 0x3f03fff,
      (u8to32 k 12 >>> 8) &&& 0x00fffff⟩
    h := Limbs.zero
    pad := ⟨u8to32 k 16, u8to32 k 20, u8to32 k 24, u8to32 k 28⟩
    leftover := 0
    final := false }

/-! ### `poly1305_blocks`

A block is added to the accumulator and the sum multiplied by the key.  Five products of 64
bits come out, and one round of carries brings them down to limbs of 26 bits again, all but
the second, which may keep a bit more.
-/

/-- `h += m[i]`. -/
def addBlock (hibit : UInt64) (h : Limbs) (m : Bytes) : Limbs where
  l0 := h.l0 + (u8to32 m 0 &&& 0x3ffffff)
  l1 := h.l1 + ((u8to32 m 3 >>> 2) &&& 0x3ffffff)
  l2 := h.l2 + ((u8to32 m 6 >>> 4) &&& 0x3ffffff)
  l3 := h.l3 + ((u8to32 m 9 >>> 6) &&& 0x3ffffff)
  l4 := h.l4 + ((u8to32 m 12 >>> 8) ||| hibit)

/-- `h *= r`: the products `d0` to `d4`. -/
def mulR (r h : Limbs) : Limbs :=
  let s1 := r.l1 * 5
  let s2 := r.l2 * 5
  let s3 := r.l3 * 5
  let s4 := r.l4 * 5
  ⟨h.l0 * r.l0 + h.l1 * s4 + h.l2 * s3 + h.l3 * s2 + h.l4 * s1,
    h.l0 * r.l1 + h.l1 * r.l0 + h.l2 * s4 + h.l3 * s3 + h.l4 * s2,
    h.l0 * r.l2 + h.l1 * r.l1 + h.l2 * r.l0 + h.l3 * s4 + h.l4 * s3,
    h.l0 * r.l3 + h.l1 * r.l2 + h.l2 * r.l1 + h.l3 * r.l0 + h.l4 * s4,
    h.l0 * r.l4 + h.l1 * r.l3 + h.l2 * r.l2 + h.l3 * r.l1 + h.l4 * r.l0⟩

/-- `(partial) h %= p`. -/
def partialReduce (d : Limbs) : Limbs :=
  let d1 : UInt64 := d.l1 + (d.l0 >>> 26)
  let d2 : UInt64 := d.l2 + (d1 >>> 26)
  let d3 : UInt64 := d.l3 + (d2 >>> 26)
  let d4 : UInt64 := d.l4 + (d3 >>> 26)
  let h0 := d.l0 &&& 0x3ffffff
  let h1 := d1 &&& 0x3ffffff
  let h0 := h0 + (d4 >>> 26) * 5
  ⟨h0 &&& 0x3ffffff, h1 + (h0 >>> 26), d2 &&& 0x3ffffff, d3 &&& 0x3ffffff,
    d4 &&& 0x3ffffff⟩

/-- The loop of `poly1305_blocks`; the length of `m` is `bytes`. -/
def blocksLoop (r : Limbs) (hibit : UInt64) : Nat → Limbs → Bytes → Limbs
  | 0, h, _ => h
  | fuel + 1, h, m =>
    if m.length ≥ 16 then
      blocksLoop r hibit fuel (partialReduce (mulR r (addBlock hibit h m))) (m.drop 16)
    else h

def poly1305Blocks (st : State) (m : Bytes) : State :=
  let hibit : UInt64 := if st.final then 0 else (1 : UInt64) <<< 24
  { st with h := blocksLoop st.r hibit m.length st.h m }

/-! ### `poly1305_update`

Bytes left over from the call before come first; then as many full blocks as there are,
straight from the message; and what does not fill a block waits.
-/

/-- `for (i = 0; i < n; i++) st->buffer[off + i] = m[i]`. -/
def State.store (st : State) (off : Nat) (m : Bytes) : State :=
  { st with buffer := Bytes.block 16 (Bytes.overlay st.buffer.toList off m) 0 }

/-- The full blocks, then what is left over. -/
def updateRest (st : State) (m : Bytes) : State :=
  let want := if m.length ≥ 16 then m.length / 16 * 16 else 0
  let st := if m.length ≥ 16 then poly1305Blocks st (m.take want) else st
  let m := m.drop want
  if m.length ≠ 0 then { st.store st.leftover m with leftover := st.leftover + m.length } else st

def poly1305Update (st : State) (m : Bytes) : State :=
  if st.leftover ≠ 0 then
    let want := min (16 - st.leftover) m.length
    let st : State := { st.store st.leftover (m.take want) with leftover := st.leftover + want }
    if st.leftover < 16 then st
    else updateRest { poly1305Blocks st st.buffer.toList with leftover := 0 } (m.drop want)
  else updateRest st m

/-! ### `poly1305_finish`

Only here the accumulator is reduced fully, once and without a branch: the difference with
the prime is computed and one of the two selected by a mask.
-/

/-- The remaining block, closed by a one and filled with zeros. -/
def finishBlock (st : State) : State :=
  if st.leftover ≠ 0 then
    let st := st.store st.leftover (1 :: List.replicate (15 - st.leftover) 0)
    poly1305Blocks { st with final := true } st.buffer.toList
  else st

/-- `fully carry h`. -/
def fullyCarry (h : Limbs) : Limbs :=
  let h1 := h.l1 &&& 0x3ffffff
  let h2 := h.l2 + (h.l1 >>> 26)
  let h3 := h.l3 + (h2 >>> 26)
  let h4 := h.l4 + (h3 >>> 26)
  let h0 := h.l0 + (h4 >>> 26) * 5
  ⟨h0 &&& 0x3ffffff, h1 + (h0 >>> 26), h2 &&& 0x3ffffff, h3 &&& 0x3ffffff, h4 &&& 0x3ffffff⟩

/-- `compute h + -p`. -/
def minusP (h : Limbs) : Limbs :=
  let g0 := h.l0 + 5
  let g1 := h.l1 + (g0 >>> 26)
  let g2 := h.l2 + (g1 >>> 26)
  let g3 := h.l3 + (g2 >>> 26)
  ⟨g0 &&& 0x3ffffff, g1 &&& 0x3ffffff, g2 &&& 0x3ffffff, g3 &&& 0x3ffffff,
    h.l4 + (g3 >>> 26) - ((1 : UInt64) <<< 26)⟩

/-- `select h if h < p, or h + -p if h >= p`. -/
def selectReduced (h g : Limbs) : Limbs :=
  let mask : UInt64 := (g.l4 >>> 63) - 1
  ⟨(h.l0 &&& ~~~mask) ||| (g.l0 &&& mask), (h.l1 &&& ~~~mask) ||| (g.l1 &&& mask),
    (h.l2 &&& ~~~mask) ||| (g.l2 &&& mask), (h.l3 &&& ~~~mask) ||| (g.l3 &&& mask),
    (h.l4 &&& ~~~mask) ||| (g.l4 &&& mask)⟩

/-- `h = h % (2^128)`: four words of 32 bits. -/
def packWords (h : Limbs) : Pad where
  p0 := (h.l0 ||| (h.l1 <<< 26)) &&& 0xffffffff
  p1 := ((h.l1 >>> 6) ||| (h.l2 <<< 20)) &&& 0xffffffff
  p2 := ((h.l2 >>> 12) ||| (h.l3 <<< 14)) &&& 0xffffffff
  p3 := ((h.l3 >>> 18) ||| (h.l4 <<< 8)) &&& 0xffffffff

/-- `mac = (h + pad) % (2^128)`: the sums `f`. -/
def addPad (w pad : Pad) : Pad :=
  let f0 := w.p0 + pad.p0
  let f1 := w.p1 + pad.p1 + (f0 >>> 32)
  let f2 := w.p2 + pad.p2 + (f1 >>> 32)
  let f3 := w.p3 + pad.p3 + (f2 >>> 32)
  ⟨f0, f1, f2, f3⟩

/-- `poly1305_finish`: the context with `h`, `r` and `pad` zeroed, and `mac`. -/
def poly1305Finish (st : State) : State × Bytes :=
  let st := finishBlock st
  let h := fullyCarry st.h
  let f := addPad (packWords (selectReduced h (minusP h))) st.pad
  ({ st with r := Limbs.zero, h := Limbs.zero, pad := ⟨0, 0, 0, 0⟩ },
    u32to8 f.p0 ++ u32to8 f.p1 ++ u32to8 f.p2 ++ u32to8 f.p3)

/-- `poly1305_init`, one `poly1305_update` for each piece, `poly1305_finish`. -/
def poly1305 (st : State) (key : Key) (pieces : List Bytes) : Bytes :=
  (poly1305Finish (pieces.foldl poly1305Update (poly1305Init st key))).2

end SysAwg.Poly1305
