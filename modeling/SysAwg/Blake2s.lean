/-
`crypto/blake2s.c` as it is compiled.

The digest takes its input a byte at a time: a full buffer is compressed only when one more
byte comes, so the last block is still there for `blake2s_final` to mark.  The count of
bytes is two 32-bit words with a carry between them.

Nothing initialises the context before `blake2s_init`, and without a key nothing before the
first byte needs it; what it holds then is an argument.
-/
import SysAwg.Standard

namespace SysAwg.Blake2s

structure Ctx where
  b : Vector UInt8 64
  h : Vector UInt32 8
  t0 : UInt32
  t1 : UInt32
  c : Nat
  outlen : Nat
  deriving DecidableEq

def rotr32 (x y : UInt32) : UInt32 := (x >>> y) ^^^ (x <<< (32 - y))

def b2sG (a b c d x y : UInt32) : UInt32 × UInt32 × UInt32 × UInt32 :=
  let a := a + b + x
  let d := rotr32 (d ^^^ a) 16
  let c := c + d
  let b := rotr32 (b ^^^ c) 12
  let a := a + b + y
  let d := rotr32 (d ^^^ a) 8
  let c := c + d
  let b := rotr32 (b ^^^ c) 7
  (a, b, c, d)

def b2sGAt (v : Vector UInt32 16) (i j k l : Nat) (x y : UInt32) : Vector UInt32 16 :=
  let q := b2sG (v.getD i 0) (v.getD j 0) (v.getD k 0) (v.getD l 0) x y
  (((v.setIfInBounds i q.1).setIfInBounds j q.2.1).setIfInBounds k q.2.2.1).setIfInBounds l q.2.2.2

/-- One round, with a row of `sigma`. -/
def b2sRound (m : Nat → UInt32) (v : Vector UInt32 16) (s : List Nat) : Vector UInt32 16 :=
  let v := b2sGAt v 0 4 8 12 (m (s.getD 0 0)) (m (s.getD 1 0))
  let v := b2sGAt v 1 5 9 13 (m (s.getD 2 0)) (m (s.getD 3 0))
  let v := b2sGAt v 2 6 10 14 (m (s.getD 4 0)) (m (s.getD 5 0))
  let v := b2sGAt v 3 7 11 15 (m (s.getD 6 0)) (m (s.getD 7 0))
  let v := b2sGAt v 0 5 10 15 (m (s.getD 8 0)) (m (s.getD 9 0))
  let v := b2sGAt v 1 6 11 12 (m (s.getD 10 0)) (m (s.getD 11 0))
  let v := b2sGAt v 2 7 8 13 (m (s.getD 12 0)) (m (s.getD 13 0))
  b2sGAt v 3 4 9 14 (m (s.getD 14 0)) (m (s.getD 15 0))

def blake2sIv : Vector UInt32 8 :=
  #v[0x6A09E667, 0xBB67AE85, 0x3C6EF372, 0xA54FF53A, 0x510E527F, 0x9B05688C, 0x1F83D9AB, 0x5BE0CD19]

def workVariables (h : Vector UInt32 8) (t0 t1 : UInt32) (last : Bool) : Vector UInt32 16 :=
  let v := h ++ blake2sIv
  let v := v.setIfInBounds 12 (v.getD 12 0 ^^^ t0)
  let v := v.setIfInBounds 13 (v.getD 13 0 ^^^ t1)
  if last then v.setIfInBounds 14 (~~~v.getD 14 0) else v

/-- `blake2s_compress`: the chained state afterwards. -/
def compress (h : Vector UInt32 8) (t0 t1 : UInt32) (b : Bytes) (last : Bool) : Vector UInt32 8 :=
  let m := fun i => Bytes.word32 b (4 * i)
  let v := Standard.sigma.foldl (b2sRound m) (workVariables h t0 t1 last)
  Vector.ofFn fun i => h.getD i.val 0 ^^^ (v.getD i.val 0 ^^^ v.getD (i.val + 8) 0)

/-- `ctx->t[0] += ctx->c`, with the carry into `ctx->t[1]`, then `blake2s_compress`. -/
def Ctx.countAndCompress (ctx : Ctx) (bytes : Nat) (last : Bool) : Ctx :=
  let t0 := ctx.t0 + UInt32.ofNat bytes
  let t1 := if t0 < UInt32.ofNat bytes then ctx.t1 + 1 else ctx.t1
  { ctx with t0 := t0, t1 := t1, h := compress ctx.h t0 t1 ctx.b.toList last }

/-- One byte of `blake2s_update`. -/
def updateByte (ctx : Ctx) (x : UInt8) : Ctx :=
  let ctx := if ctx.c = 64 then { ctx.countAndCompress 64 false with c := 0 } else ctx
  { ctx with b := ctx.b.setIfInBounds ctx.c x, c := ctx.c + 1 }

def blake2sUpdate (ctx : Ctx) (input : Bytes) : Ctx := input.foldl updateByte ctx

def blake2sInit (ctx : Ctx) (outlen : Nat) (key : Bytes) : Option Ctx :=
  if outlen = 0 ∨ outlen > 32 ∨ key.length > 32 then none
  else
    let h0 := blake2sIv.getD 0 0 ^^^ ((0x01010000 : UInt32) ^^^ (UInt32.ofNat key.length <<< 8) ^^^
      UInt32.ofNat outlen)
    let ctx : Ctx :=
      { ctx with
        h := blake2sIv.setIfInBounds 0 h0
        t0 := 0
        t1 := 0
        c := 0
        outlen := outlen
        b := Vector.ofFn fun i => if key.length ≤ i.val then 0 else ctx.b.getD i.val 0 }
    some (if key.length > 0 then { blake2sUpdate ctx key with c := 64 } else ctx)

def blake2sFinal (ctx : Ctx) : Bytes :=
  let filled : Vector UInt8 64 := Vector.ofFn fun i => if ctx.c ≤ i.val then 0 else ctx.b.getD i.val 0
  let ctx := { ctx with b := filled }.countAndCompress ctx.c true
  (List.range ctx.outlen).map fun i =>
    (ctx.h.getD (i >>> 2) 0 >>> UInt32.ofNat (8 * (i &&& 3))).toUInt8

/-- `blake2s_init`, one `blake2s_update` for each piece, `blake2s_final`. -/
def blake2s (ctx : Ctx) (outlen : Nat) (key : Bytes) (pieces : List Bytes) : Option Bytes :=
  (blake2sInit ctx outlen key).map fun ctx => blake2sFinal (pieces.foldl blake2sUpdate ctx)

end SysAwg.Blake2s
