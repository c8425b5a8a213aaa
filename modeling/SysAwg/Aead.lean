/-
`crypto/chacha20.c` and `crypto/chacha20poly1305.c` as they are compiled.

The stream cipher's block works on sixteen 32-bit words in place.  The AEAD hands the
authenticator its message in six updates, the padding among them, and rounds lengths up
with a 32-bit mask although they are `size_t`.  `chacha20` takes its length as a
`uint32_t` and the decryption keeps one in an `int`, so this is the code for texts below
2^31 bytes.

`ctx`, a context on the stack, is uninitialised before `poly1305_init`; what it holds then
is an argument.
-/
import SysAwg.Crypto
import SysAwg.Poly1305

namespace SysAwg.Aead

open SysAwg.Poly1305 (State poly1305Init poly1305Update poly1305Finish)

/-! ### ChaCha20 -/

def rotl32 (v n : UInt32) : UInt32 := (v <<< n) ||| (v >>> (32 - n))

def quarterround (a b c d : UInt32) : UInt32 × UInt32 × UInt32 × UInt32 :=
  let a := a + b
  let d := rotl32 (d ^^^ a) 16
  let c := c + d
  let b := rotl32 (b ^^^ c) 12
  let a := a + b
  let d := rotl32 (d ^^^ a) 8
  let c := c + d
  let b := rotl32 (b ^^^ c) 7
  (a, b, c, d)

/-- `QUARTERROUND(block[i], block[j], block[k], block[l])`. -/
def quarterAt (block : Vector UInt32 16) (i j k l : Nat) : Vector UInt32 16 :=
  let q := quarterround (block.getD i 0) (block.getD j 0) (block.getD k 0) (block.getD l 0)
  (((block.setIfInBounds i q.1).setIfInBounds j q.2.1).setIfInBounds k q.2.2.1).setIfInBounds l
    q.2.2.2

/-- `INNER_BLOCK`: four columns, then four diagonals. -/
def innerBlock (block : Vector UInt32 16) : Vector UInt32 16 :=
  let block := quarterAt block 0 4 8 12
  let block := quarterAt block 1 5 9 13
  let block := quarterAt block 2 6 10 14
  let block := quarterAt block 3 7 11 15
  let block := quarterAt block 0 5 10 15
  let block := quarterAt block 1 6 11 12
  let block := quarterAt block 2 7 8 13
  quarterAt block 3 4 9 14

/-- `TWENTY_ROUNDS`: `INNER_BLOCK` ten times. -/
def rounds : Nat → Vector UInt32 16 → Vector UInt32 16
  | 0, block => block
  | n + 1, block => rounds n (innerBlock block)

/-- `chacha20_block`: the state's words added at the end, each stored low byte first. -/
def chacha20Block (state : Vector UInt32 16) : Bytes :=
  (List.zipWith (· + ·) (rounds 10 state).toList state.toList).flatMap Bytes.le32

def chacha20Loop : Nat → Chacha20Ctx → Bytes → Chacha20Ctx × Bytes
  | 0, ctx, _ => (ctx, [])
  | fuel + 1, ctx, input =>
    let output := chacha20Block ctx
    if input.length ≤ 64 then (ctx.bump, Bytes.xor input output)
    else
      let rest := chacha20Loop fuel ctx.bump (input.drop 64)
      (rest.1, Bytes.xor (input.take 64) output ++ rest.2)

def chacha20 (ctx : Chacha20Ctx) (input : Bytes) : Chacha20Ctx × Bytes :=
  if input.length = 0 then (ctx, []) else chacha20Loop input.length ctx input

/-! ### ChaCha20-Poly1305 -/

/-- `generate_poly1305_key`: both contexts it sets up. -/
def generatePoly1305Key (ctx : State) (key : Key) (nonce : UInt64) : State × Chacha20Ctx :=
  let r := chacha20 (chacha20Init key nonce) (List.replicate 32 0)
  (poly1305Init ctx (Bytes.block 32 r.2 0), r.1)

/-- `(len + 15) & 0xFFFFFFF0`, on a `size_t`. -/
def paddedTo16 (len : Nat) : Nat := (UInt64.ofNat (len + 15) &&& 0xFFFFFFF0).toNat

/-- `poly1305_update(&poly1305_state, zero, padded_len - len)`: so many zeros. -/
def updateZeros (ctx : State) (len : Nat) : State :=
  poly1305Update ctx (List.replicate (UInt64.ofNat (paddedTo16 len) - UInt64.ofNat len).toNat 0)

/-- The authenticator's six updates and the tag. -/
def aeadTagOf (ctx : State) (ad ct : Bytes) : Bytes :=
  let ctx := poly1305Update ctx ad
  let ctx := updateZeros ctx ad.length
  let ctx := poly1305Update ctx ct
  let ctx := updateZeros ctx ct.length
  let ctx := poly1305Update ctx (Bytes.leBytes 8 (UInt64.ofNat ad.length))
  let ctx := poly1305Update ctx (Bytes.leBytes 8 (UInt64.ofNat ct.length))
  (poly1305Finish ctx).2

/-- `chacha20poly1305_encrypt`: the bytes from `dst` on. -/
def chacha20poly1305Encrypt (ctx : State) (src ad : Bytes) (nonce : UInt64) (key : Key) : Bytes :=
  let st := generatePoly1305Key ctx key nonce
  let ct := (chacha20 st.2 src).2
  ct ++ aeadTagOf st.1 ad ct

/-- `chacha20poly1305_decrypt`: the bytes from `dst` on, or nothing for a return of false. -/
def chacha20poly1305Decrypt (ctx : State) (src ad : Bytes) (nonce : UInt64) (key : Key) :
    Option Bytes :=
  if src.length ≥ 16 then
    let ct := src.take (src.length - 16)
    let st := generatePoly1305Key ctx key nonce
    if cryptoEqual (aeadTagOf st.1 ad ct) (src.drop (src.length - 16)) then
      some (chacha20 st.2 ct).2
    else none
  else none

end SysAwg.Aead
