/-
The vendored primitives, as the handshake and the transport use them.

Four functions stay parameters: the BLAKE2s digest, X25519, the Poly1305
authenticator and ChaCha20's block function.  No theorem assumes more of them than
its statement says.  What `crypto/chacha20.c` and `crypto/chacha20poly1305.c` build
on top of the block function is embedded: the counter, the block-by-block exclusive
or, the one-time key, and the message the tag covers.
-/
import SysAwg.Config

namespace SysAwg

/-- What the cryptographic code is parametrised by. -/
structure Primitives where
  /-- `blake2s(out, outlen, key, keylen, in, inlen)`. -/
  blake2s : (outlen : Nat) → (key input : Bytes) → Vector UInt8 outlen
  /-- The bytes `x25519(out, scalar, base, 1)` stores in `out`. -/
  x25519 : (scalar base : Key) → Key
  /-- `poly1305_init`, `poly1305_update` over the message, `poly1305_finish`. -/
  poly1305 : (key : Key) → (msg : Bytes) → Vector UInt8 16
  /-- `chacha20_block`: the stream block of a sixteen-word state. -/
  chacha20Block : (state : Vector UInt32 16) → Vector UInt8 64

variable (P : Primitives)

/-- `crypto_equal`: every byte is compared, and the difference must come out zero. -/
def cryptoEqual (a b : Bytes) : Bool :=
  (List.zipWith (· ^^^ ·) a b).foldl (· ||| ·) 0 == 0

/-! ### X25519 -/

def x25519BasePoint : Key := Key.zero.set 0 9

/-- `x25519(out, scalar, base, 1)`: a zero output is reported as a failure. -/
def x25519 (scalar base : Key) : Option Key :=
  let out := P.x25519 scalar base
  if out = Key.zero then none else some out

/-- `x25519_base(out, scalar, 1)`, whose return code the callers ignore. -/
def x25519Base (scalar : Key) : Key := P.x25519 scalar x25519BasePoint

/-! ### ChaCha20 -/

abbrev Chacha20Ctx := Vector UInt32 16

/-- `chacha20_init`: constants, key, a zero block counter and a 64-bit nonce. -/
def chacha20Init (key : Key) (nonce : UInt64) : Chacha20Ctx :=
  let k := key.toList
  #v[0x61707865, 0x3320646e, 0x79622d32, 0x6b206574,
    Bytes.word32 k 0, Bytes.word32 k 4, Bytes.word32 k 8, Bytes.word32 k 12,
    Bytes.word32 k 16, Bytes.word32 k 20, Bytes.word32 k 24, Bytes.word32 k 28,
    0, 0, nonce.toUInt32, (nonce >>> 32).toUInt32]

/-- `ctx->state[12] = PLUSONE(ctx->state[12])`. -/
def Chacha20Ctx.bump (ctx : Chacha20Ctx) : Chacha20Ctx := ctx.set 12 (ctx[12] + 1)

/-- The loop of `chacha20`; every round but the last takes 64 bytes. -/
def chacha20Loop : Nat → Chacha20Ctx → Bytes → Chacha20Ctx × Bytes
  | 0, ctx, _ => (ctx, [])
  | fuel + 1, ctx, input =>
    let stream := (P.chacha20Block ctx).toList
    if input.length ≤ 64 then (ctx.bump, Bytes.xor input stream)
    else
      let rest := chacha20Loop fuel ctx.bump (input.drop 64)
      (rest.1, Bytes.xor (input.take 64) stream ++ rest.2)

/-- `chacha20(ctx, out, in, len)`: the advanced context and the output. -/
def chacha20 (ctx : Chacha20Ctx) (input : Bytes) : Chacha20Ctx × Bytes :=
  if input.length = 0 then (ctx, []) else chacha20Loop P input.length ctx input

/-! ### The AEAD

The key of the authenticator is the first block of the stream, and the text begins with the
second.  A decryption compares the whole tag before it gives out anything.
-/

/-- `generate_poly1305_key`: 32 bytes of the first block; the context moves on to the next. -/
def generatePoly1305Key (key : Key) (nonce : UInt64) : Chacha20Ctx × Key :=
  let r := chacha20 P (chacha20Init key nonce) (List.replicate 32 0)
  (r.1, Bytes.block 32 r.2 0)

def padTo16 (n : Nat) : Bytes := List.replicate ((n + 15) / 16 * 16 - n) 0

/-- The message the tag covers: both texts padded, then both lengths. -/
def aeadMessage (ad ct : Bytes) : Bytes :=
  ad ++ padTo16 ad.length ++ ct ++ padTo16 ct.length ++
    Bytes.leBytes 8 (UInt64.ofNat ad.length) ++ Bytes.leBytes 8 (UInt64.ofNat ct.length)

/-- `chacha20poly1305_encrypt`: the ciphertext with its tag. -/
def chacha20poly1305Encrypt (src ad : Bytes) (nonce : UInt64) (key : Key) : Bytes :=
  let st := generatePoly1305Key P key nonce
  let ct := (chacha20 P st.1 src).2
  ct ++ (P.poly1305 st.2 (aeadMessage ad ct)).toList

/-- `chacha20poly1305_decrypt`: the plaintext, or nothing when the tag is wrong. -/
def chacha20poly1305Decrypt (src ad : Bytes) (nonce : UInt64) (key : Key) : Option Bytes :=
  if src.length < 16 then none
  else
    let ct := src.take (src.length - 16)
    let st := generatePoly1305Key P key nonce
    let mac := (P.poly1305 st.2 (aeadMessage ad ct)).toList
    if cryptoEqual mac (src.drop (src.length - 16)) then some (chacha20 P st.1 ct).2
    else none

end SysAwg
