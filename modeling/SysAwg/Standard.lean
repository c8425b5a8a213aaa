/-
The vendored primitives themselves: `crypto/blake2s.c`, `chacha20.c`,
`poly1305-donna` and `x25519.c`.

The protocol's theorems hold for arbitrary primitives.  A run of the protocol on
concrete bytes needs concrete ones, and these are they, on natural numbers: a
32-bit word is reduced after every addition, a field element after every
operation instead of limb by limb, and a digest is one number read as little-endian
bytes.  The rounds hand their words on to a continuation, each forced before it is
used, so that a run can be evaluated inside a proof.
-/
import SysAwg.Crypto

namespace SysAwg.Standard

/-- Evaluate `n`, then go on with its value. -/
def force {α : Type} (n : Nat) (k : Nat → α) : α :=
  match n with
  | .zero => k .zero
  | .succ m => k (.succ m)

/-- The number a byte string spells, low byte first. -/
def leNat : Bytes → Nat
  | [] => 0
  | x :: xs => x.toNat + 256 * leNat xs

/-- The low `n` bytes of a number, low byte first. -/
def natBytes (n v : Nat) : Vector UInt8 n := Vector.ofFn fun i => UInt8.ofNat (v >>> (8 * i.val))

/-- The 32-bit word at position `i` of a packed number. -/
def word (v i : Nat) : Nat := (v >>> (32 * i)) % 4294967296

/-! ### BLAKE2s -/

def rotr32 (x n : Nat) : Nat := x >>> n ^^^ (x <<< (32 - n)) % 4294967296

/-- `B2S_G`, going on with the four words it leaves. -/
def b2sG {α : Type} (a b c d x y : Nat) (k : Nat → Nat → Nat → Nat → α) : α :=
  force ((a + b + x) % 4294967296) fun a =>
  force (rotr32 (d ^^^ a) 16) fun d =>
  force ((c + d) % 4294967296) fun c =>
  force (rotr32 (b ^^^ c) 12) fun b =>
  force ((a + b + y) % 4294967296) fun a =>
  force (rotr32 (d ^^^ a) 8) fun d =>
  force ((c + d) % 4294967296) fun c =>
  force (rotr32 (b ^^^ c) 7) fun b =>
  k a b c d

def sigma : List (List Nat) :=
  [[0, 1, 2, 3, 4, 5, 6, 7, 8, 9, 10, 11, 12, 13, 14, 15],
    [14, 10, 4, 8, 9, 15, 13, 6, 1, 12, 0, 2, 11, 7, 5, 3],
    [11, 8, 12, 0, 5, 2, 15, 13, 10, 14, 3, 6, 7, 1, 9, 4],
    [7, 9, 3, 1, 13, 12, 11, 14, 2, 6, 5, 10, 4, 0, 15, 8],
    [9, 0, 5, 7, 2, 4, 10, 15, 14, 1, 11, 12, 6, 8, 3, 13],
    [2, 12, 6, 10, 0, 11, 8, 3, 4, 13, 7, 5, 15, 14, 1, 9],
    [12, 5, 1, 15, 14, 13, 4, 10, 0, 7, 6, 3, 9, 2, 8, 11],
    [13, 11, 7, 14, 12, 1, 3, 9, 5, 0, 15, 4, 8, 6, 2, 10],
    [6, 15, 14, 9, 11, 3, 0, 8, 12, 2, 13, 7, 1, 4, 10, 5],
    [10, 2, 8, 4, 7, 6, 1, 5, 15, 11, 9, 14, 3, 12, 13, 0]]

/-- The rounds of `blake2s_compress`, one for each row of `sigma`; the sixteen words
at the end are folded in halves, `v[i] ^ v[i + 8]`. -/
def b2sRounds (m : Nat) : List (List Nat) →
    (v0 v1 v2 v3 v4 v5 v6 v7 v8 v9 v10 v11 v12 v13 v14 v15 : Nat) → Nat
  | [s0, s1, s2, s3, s4, s5, s6, s7, s8, s9, s10, s11, s12, s13, s14, s15] :: rest,
      v0, v1, v2, v3, v4, v5, v6, v7, v8, v9, v10, v11, v12, v13, v14, v15 =>
    b2sG v0 v4 v8 v12 (word m s0) (word m s1) fun v0 v4 v8 v12 =>
    b2sG v1 v5 v9 v13 (word m s2) (word m s3) fun v1 v5 v9 v13 =>
    b2sG v2 v6 v10 v14 (word m s4) (word m s5) fun v2 v6 v10 v14 =>
    b2sG v3 v7 v11 v15 (word m s6) (word m s7) fun v3 v7 v11 v15 =>
    b2sG v0 v5 v10 v15 (word m s8) (word m s9) fun v0 v5 v10 v15 =>
    b2sG v1 v6 v11 v12 (word m s10) (word m s11) fun v1 v6 v11 v12 =>
    b2sG v2 v7 v8 v13 (word m s12) (word m s13) fun v2 v7 v8 v13 =>
    b2sG v3 v4 v9 v14 (word m s14) (word m s15) fun v3 v4 v9 v14 =>
    b2sRounds m rest v0 v1 v2 v3 v4 v5 v6 v7 v8 v9 v10 v11 v12 v13 v14 v15
  | _, v0, v1, v2, v3, v4, v5, v6, v7, v8, v9, v10, v11, v12, v13, v14, v15 =>
    (v0 ^^^ v8) + (v1 ^^^ v9) <<< 32 + (v2 ^^^ v10) <<< 64 + (v3 ^^^ v11) <<< 96 +
      (v4 ^^^ v12) <<< 128 + (v5 ^^^ v13) <<< 160 + (v6 ^^^ v14) <<< 192 + (v7 ^^^ v15) <<< 224

/-- `blake2s_compress` on the packed state, the byte count and the packed block. -/
def blake2sCompress (h t : Nat) (last : Bool) (m : Nat) : Nat :=
  h ^^^ b2sRounds m sigma (word h 0) (word h 1) (word h 2) (word h 3) (word h 4) (word h 5)
    (word h 6) (word h 7) 0x6A09E667 0xBB67AE85 0x3C6EF372 0xA54FF53A
    (0x510E527F ^^^ word t 0) (0x9B05688C ^^^ word t 1)
    (if last then 0xE07C2654 else 0x1F83D9AB) 0x5BE0CD19

/-- `blake2s_update` and `blake2s_final`: a block is compressed as the last one when
nothing follows it. -/
def blake2sLoop : Nat → (h t : Nat) → Bytes → Nat
  | 0, h, _, _ => h
  | fuel + 1, h, t, input =>
    if input.length ≤ 64 then
      force (leNat input) fun m => blake2sCompress h (t + input.length) true m
    else
      force (leNat (input.take 64)) fun m =>
      force (blake2sCompress h (t + 64) false m) fun h =>
      blake2sLoop fuel h (t + 64) (input.drop 64)

/-- `blake2s_iv`, packed. -/
def blake2sIv : Nat :=
  0x5BE0CD191F83D9AB9B05688C510E527FA54FF53A3C6EF372BB67AE856A09E667

/-- `blake2s`: a key is padded to a block of its own in front of the input. -/
def blake2s (outlen : Nat) (key input : Bytes) : Vector UInt8 outlen :=
  let h := blake2sIv ^^^ 0x01010000 ^^^ (key.length <<< 8) ^^^ outlen
  let data := if key.length > 0 then key ++ List.replicate (64 - key.length) 0 ++ input else input
  force (blake2sLoop (data.length + 1) h 0 data) fun d => natBytes outlen d

/-! ### ChaCha20 -/

def rotl32 (x n : Nat) : Nat := (x <<< n) % 4294967296 ||| x >>> (32 - n)

/-- `QUARTERROUND`, going on with the four words it leaves. -/
def quarterround {α : Type} (a b c d : Nat) (k : Nat → Nat → Nat → Nat → α) : α :=
  force ((a + b) % 4294967296) fun a =>
  force (rotl32 (d ^^^ a) 16) fun d =>
  force ((c + d) % 4294967296) fun c =>
  force (rotl32 (b ^^^ c) 12) fun b =>
  force ((a + b) % 4294967296) fun a =>
  force (rotl32 (d ^^^ a) 8) fun d =>
  force ((c + d) % 4294967296) fun c =>
  force (rotl32 (b ^^^ c) 7) fun b =>
  k a b c d

/-- `TWENTY_ROUNDS`: `INNER_BLOCK` as often as the first argument says. -/
def innerBlocks : Nat → (v0 v1 v2 v3 v4 v5 v6 v7 v8 v9 v10 v11 v12 v13 v14 v15 : Nat) → List Nat
  | 0, v0, v1, v2, v3, v4, v5, v6, v7, v8, v9, v10, v11, v12, v13, v14, v15 =>
    [v0, v1, v2, v3, v4, v5, v6, v7, v8, v9, v10, v11, v12, v13, v14, v15]
  | n + 1, v0, v1, v2, v3, v4, v5, v6, v7, v8, v9, v10, v11, v12, v13, v14, v15 =>
    quarterround v0 v4 v8 v12 fun v0 v4 v8 v12 =>
    quarterround v1 v5 v9 v13 fun v1 v5 v9 v13 =>
    quarterround v2 v6 v10 v14 fun v2 v6 v10 v14 =>
    quarterround v3 v7 v11 v15 fun v3 v7 v11 v15 =>
    quarterround v0 v5 v10 v15 fun v0 v5 v10 v15 =>
    quarterround v1 v6 v11 v12 fun v1 v6 v11 v12 =>
    quarterround v2 v7 v8 v13 fun v2 v7 v8 v13 =>
    quarterround v3 v4 v9 v14 fun v3 v4 v9 v14 =>
    innerBlocks n v0 v1 v2 v3 v4 v5 v6 v7 v8 v9 v10 v11 v12 v13 v14 v15

/-- Words one after the other as one number. -/
def packWords : List Nat → Nat
  | [] => 0
  | w :: ws => w + packWords ws <<< 32

def chacha20Block (st : Vector UInt32 16) : Vector UInt8 64 :=
  let s := st.toList.map UInt32.toNat
  let w := fun i => s.getD i 0
  let out := innerBlocks 10 (w 0) (w 1) (w 2) (w 3) (w 4) (w 5) (w 6) (w 7) (w 8) (w 9) (w 10)
    (w 11) (w 12) (w 13) (w 14) (w 15)
  force (packWords (List.zipWith (fun a b => (a + b) % 4294967296) out s)) fun d => natBytes 64 d

/-! ### Poly1305 -/

/-- `poly1305_blocks`, the short last block with its own top bit. -/
def poly1305Loop (r : Nat) : Nat → Nat → Bytes → Nat
  | 0, h, _ => h
  | fuel + 1, h, m =>
    if m.length = 0 then h
    else
      let block := m.take 16
      force ((h + leNat block + 1 <<< (8 * block.length)) * r % (2 ^ 130 - 5)) fun h =>
      poly1305Loop r fuel h (m.drop 16)

/-- `poly1305_init`, `poly1305_update`, `poly1305_finish`. -/
def poly1305 (key : Key) (msg : Bytes) : Vector UInt8 16 :=
  let r := leNat (key.toList.take 16) &&& 0x0ffffffc0ffffffc0ffffffc0fffffff
  let pad := leNat (key.toList.drop 16)
  force (poly1305Loop r (msg.length + 1) 0 msg) fun h => natBytes 16 (h + pad)

/-! ### X25519 -/

def prime : Nat := 2 ^ 255 - 19

/-- `x25519_core` from bit `n - 1` down to bit 0, then the quotient of the two
coordinates; `swap` says which of the two points is the first. -/
def ladder (scalar x1 : Nat) : Nat → (swap : Bool) → (x2 z2 x3 z3 : Nat) → (Nat → Nat → Nat) → Nat
  | 0, swap, x2, z2, x3, z3, k => if swap then k x3 z3 else k x2 z2
  | n + 1, swap, x2, z2, x3, z3, k =>
    let bit := Nat.testBit scalar n
    let p := if bit != swap then (x3, z3, x2, z2) else (x2, z2, x3, z3)
    let x2 := p.1
    let z2 := p.2.1
    let x3 := p.2.2.1
    let z3 := p.2.2.2
    -- `ladder_part1` and `ladder_part2`, with the names of their comments
    force ((x2 + z2) % prime) fun a =>
    force ((x2 + (prime - z2)) % prime) fun b =>
    force ((x3 + (prime - z3)) * a % prime) fun da =>
    force ((x3 + z3) * b % prime) fun cb =>
    force (a * a % prime) fun aa =>
    force (b * b % prime) fun bb =>
    force ((aa + (prime - bb)) % prime) fun e =>
    force (aa * bb % prime) fun x2 =>
    force (e * (e * 121665 + aa) % prime) fun z2 =>
    force ((da + cb) * (da + cb) % prime) fun x3 =>
    force (x1 * (da + (prime - cb)) % prime * (da + (prime - cb)) % prime) fun z3 =>
    ladder scalar x1 n bit x2 z2 x3 z3 k

/-- `b ^ e` in the field, by squaring; the first argument bounds the bits of `e`. -/
def powMod : Nat → (b e acc : Nat) → Nat
  | 0, _, _, acc => acc
  | fuel + 1, b, e, acc =>
    force (if e % 2 = 1 then acc * b % prime else acc) fun acc =>
    force (b * b % prime) fun b => powMod fuel b (e / 2) acc

/-- `x25519(out, scalar, x1, 1)`: the scalar is clamped, and division is a power. -/
def x25519 (scalar base : Key) : Key :=
  let s := leNat scalar.toList
  let s := s - s % 8 - s >>> 254 <<< 254 + 2 ^ 254
  let x1 := leNat base.toList % prime
  force s fun s =>
  force x1 fun x1 =>
  force (ladder s x1 256 false 1 0 x1 1 fun x z => x * powMod 255 z (prime - 2) 1 % prime) fun out =>
  natBytes 32 out

end SysAwg.Standard

namespace SysAwg

/-- The primitives the client is linked with. -/
def standardPrimitives : Primitives where
  blake2s := Standard.blake2s
  x25519 := Standard.x25519
  poly1305 := Standard.poly1305
  chacha20Block := Standard.chacha20Block

end SysAwg
