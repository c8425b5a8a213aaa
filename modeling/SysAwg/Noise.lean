/-
`awg_noise.c`: the Noise handshake, AmneziaWG's framing, and transport packets.

The C functions build messages in place at fixed offsets and work on one
`awg_handshake` through a pointer.  Here a message is the concatenation of its
fields in offset order, and a function returns the handshake as it leaves it, on
its failure exits too: several of them return after the chaining key and the hash
have moved on.

Every call of `awg_random_bytes` is an argument of type `Entropy`, and so is the
wall clock, so a theorem that quantifies over them speaks of every random choice.
-/
import SysAwg.Crypto

namespace SysAwg

variable (P : Primitives)

/-! ### Hashing and key derivation -/

/-- `CONSTRUCTION`: `Noise_IKpsk2_25519_ChaChaPoly_BLAKE2s`. -/
def construction : Bytes :=
  [78, 111, 105, 115, 101, 95, 73, 75, 112, 115, 107, 50, 95, 50, 53, 53, 49, 57, 95, 67,
    104, 97, 67, 104, 97, 80, 111, 108, 121, 95, 66, 76, 65, 75, 69, 50, 115]

/-- `IDENTIFIER`: `WireGuard v1 zx2c4 Jason@zx2c4.com`. -/
def identifier : Bytes :=
  [87, 105, 114, 101, 71, 117, 97, 114, 100, 32, 118, 49, 32, 122, 120, 50, 99, 52, 32, 74,
    97, 115, 111, 110, 64, 122, 120, 50, 99, 52, 46, 99, 111, 109]

/-- `LABEL_MAC1`: `mac1----`. -/
def labelMac1 : Bytes := [109, 97, 99, 49, 45, 45, 45, 45]

def hash2 (a b : Bytes) : Key := P.blake2s 32 [] (a ++ b)

def mixHash (h : Key) (data : Bytes) : Key := hash2 P h.toList data

/-- `hmac_blake2s`, with the key padded to BLAKE2s's 64-byte block. -/
def hmacBlake2s (key input : Bytes) : Key :=
  let k := if key.length > 64 then (P.blake2s 32 [] key).toList else key
  let k := k ++ List.replicate (64 - k.length) 0
  let inner := P.blake2s 32 [] (k.map (· ^^^ 0x36) ++ input)
  P.blake2s 32 [] (k.map (· ^^^ 0x5c) ++ inner.toList)

/-- `kdf`: all three outputs; a caller that passes NULL for one does not read it. -/
def kdf (ck : Key) (data : Bytes) : Key × Key × Key :=
  let t0 := (hmacBlake2s P ck.toList data).toList
  let t1 := hmacBlake2s P t0 [1]
  let t2 := hmacBlake2s P t0 (t1.toList ++ [2])
  let t3 := hmacBlake2s P t0 (t2.toList ++ [3])
  (t1, t2, t3)

/-- `tai64n`: big-endian seconds, then big-endian nanoseconds drawn at random. -/
def tai64n (nowSeconds : UInt64) (e : Entropy) : Bytes :=
  let secs := nowSeconds + 0x400000000000000a
  let nanos := awgRandomWord e % 1000000000
  (Bytes.leBytes 8 secs).reverse ++ (Bytes.le32 nanos).reverse

/-- `mac1`, keyed on the receiver's static public key. -/
def mac1 (recvPub : Key) (msg : Bytes) : Vector UInt8 16 :=
  let key := P.blake2s 32 [] (labelMac1 ++ recvPub.toList)
  P.blake2s 16 key.toList msg

/-! ### Keys -/

def awgPublicFromPrivate (priv : Key) : Key := x25519Base P priv

/-- `awg_generate_private`: 32 random bytes, clamped. -/
def awgGeneratePrivate (e : Entropy) : Key :=
  let r : Key := Bytes.block 32 (awgRandomBytes e 32) 0
  let r := r.setIfInBounds 0 (r.getD 0 0 &&& 248)
  r.setIfInBounds 31 (r.getD 31 0 &&& 127 ||| 64)

/-! ### The handshake

A message is a list of fields, and each field is mixed into the hash as it is written or
read.  The chaining key takes in the results of the Diffie-Hellmans, and the key of each
sealed field is drawn from it at that point.  So both sides have to do the same things in
the same order, and a consumer that stops half way has moved on.
-/

structure Handshake where
  ck : Key
  h : Key
  sPriv : Key
  sPub : Key
  ePriv : Key
  ePub : Key
  peerPub : Key
  peerEph : Key
  psk : Key
  localIndex : UInt32
  remoteIndex : UInt32
  sendKey : Key
  recvKey : Key
  established : Bool
  deriving DecidableEq

def Handshake.zero : Handshake where
  ck := Key.zero
  h := Key.zero
  sPriv := Key.zero
  sPub := Key.zero
  ePriv := Key.zero
  ePub := Key.zero
  peerPub := Key.zero
  peerEph := Key.zero
  psk := Key.zero
  localIndex := 0
  remoteIndex := 0
  sendKey := Key.zero
  recvKey := Key.zero
  established := false

/-- `awg_handshake_begin`; `none` is a NULL pointer. -/
def awgHandshakeBegin (sPriv : Key) (peerPub psk : Option Key) (localIndex : UInt32) :
    Handshake :=
  { Handshake.zero with
    sPriv := sPriv
    sPub := awgPublicFromPrivate P sPriv
    peerPub := peerPub.getD Key.zero
    psk := psk.getD Key.zero
    localIndex := localIndex }

/-- `chain_start`: both roles start from the same two constants. -/
def chainStart (hs : Handshake) (responderPub : Key) : Handshake :=
  let ck := hash2 P construction []
  let h := hash2 P ck.toList identifier
  { hs with ck := ck, h := mixHash P h responderPub.toList }

/-- `kdf(ck, NULL, NULL, ck, data, 32)` and nothing else. -/
def Handshake.mixKey (hs : Handshake) (data : Key) : Handshake :=
  { hs with ck := (kdf P hs.ck data.toList).1 }

def Handshake.mixHash (hs : Handshake) (data : Bytes) : Handshake :=
  { hs with h := SysAwg.mixHash P hs.h data }

def awgMsgInitSize : Nat := 148

def awgMsgRespSize : Nat := 92

/-- `awg_create_initiation`: the handshake afterwards, and the message unless a
Diffie-Hellman came out zero. -/
def awgCreateInitiation (hs : Handshake) (eph nanos : Entropy) (nowSeconds : UInt64) :
    Handshake × Option Bytes :=
  let hs := chainStart P hs hs.peerPub
  let ePriv := awgGeneratePrivate eph
  let hs := { hs with ePriv := ePriv, ePub := awgPublicFromPrivate P ePriv }
  let head := Bytes.le32 1 ++ Bytes.le32 hs.localIndex ++ hs.ePub.toList
  let hs := (hs.mixKey P hs.ePub).mixHash P hs.ePub.toList
  -- encrypted static
  match x25519 P hs.ePriv hs.peerPub with
  | none => (hs, none)
  | some dh =>
    let k := kdf P hs.ck dh.toList
    let hs := { hs with ck := k.1 }
    let encStatic := chacha20poly1305Encrypt P hs.sPub.toList hs.h.toList 0 k.2.1
    let hs := hs.mixHash P encStatic
    -- encrypted timestamp
    match x25519 P hs.sPriv hs.peerPub with
    | none => (hs, none)
    | some dh =>
      let k := kdf P hs.ck dh.toList
      let hs := { hs with ck := k.1 }
      let encStamp := chacha20poly1305Encrypt P (tai64n nowSeconds nanos) hs.h.toList 0 k.2.1
      let hs := hs.mixHash P encStamp
      let body := head ++ encStatic ++ encStamp
      -- `mac2` stays zero
      (hs, some (body ++ (mac1 P hs.peerPub body).toList ++ List.replicate 16 0))

/-- `awg_consume_initiation`; `true` is a return of 0. -/
def awgConsumeInitiation (hs : Handshake) (input : Bytes) : Handshake × Bool :=
  if Bytes.word32 input 0 ≠ 1 then (hs, false)
  else
    let hs := chainStart P hs hs.sPub
    let expect := mac1 P hs.sPub (Bytes.slice input 0 116)
    if !cryptoEqual expect.toList (Bytes.slice input 116 16) then (hs, false)
    else
      let hs := { hs with
        remoteIndex := Bytes.word32 input 4
        peerEph := Bytes.block 32 input 8 }
      let hs := (hs.mixKey P hs.peerEph).mixHash P hs.peerEph.toList
      match x25519 P hs.sPriv hs.peerEph with
      | none => (hs, false)
      | some dh =>
        let k := kdf P hs.ck dh.toList
        let hs := { hs with ck := k.1 }
        match chacha20poly1305Decrypt P (Bytes.slice input 40 48) hs.h.toList 0 k.2.1 with
        | none => (hs, false)
        | some plain =>
          let hs := { hs with peerPub := Bytes.block 32 plain 0 }
          let hs := hs.mixHash P (Bytes.slice input 40 48)
          match x25519 P hs.sPriv hs.peerPub with
          | none => (hs, false)
          | some dh =>
            let k := kdf P hs.ck dh.toList
            let hs := { hs with ck := k.1 }
            match chacha20poly1305Decrypt P (Bytes.slice input 88 28) hs.h.toList 0 k.2.1 with
            | none => (hs, false)
            | some _ => (hs.mixHash P (Bytes.slice input 88 28), true)

def awgCreateResponse (hs : Handshake) (eph : Entropy) : Handshake × Option Bytes :=
  let ePriv := awgGeneratePrivate eph
  let hs := { hs with ePriv := ePriv, ePub := awgPublicFromPrivate P ePriv }
  let head := Bytes.le32 2 ++ Bytes.le32 hs.localIndex ++ Bytes.le32 hs.remoteIndex ++
    hs.ePub.toList
  let hs := (hs.mixKey P hs.ePub).mixHash P hs.ePub.toList
  match x25519 P hs.ePriv hs.peerEph with
  | none => (hs, none)
  | some dh =>
    let hs := hs.mixKey P dh
    match x25519 P hs.ePriv hs.peerPub with
    | none => (hs, none)
    | some dh =>
      let hs := hs.mixKey P dh
      let t := kdf P hs.ck hs.psk.toList
      let hs := { hs with ck := t.1 }
      let hs := hs.mixHash P t.2.1.toList
      let encEmpty := chacha20poly1305Encrypt P [] hs.h.toList 0 t.2.2
      let hs := hs.mixHash P encEmpty
      let body := head ++ encEmpty
      let mac := mac1 P hs.peerPub body
      -- the responder receives on the first derived key and sends on the second
      let t := kdf P hs.ck []
      ({ hs with recvKey := t.1, sendKey := t.2.1, established := true },
        some (body ++ mac.toList ++ List.replicate 16 0))

def awgConsumeResponse (hs : Handshake) (input : Bytes) : Handshake × Bool :=
  if Bytes.word32 input 0 ≠ 2 then (hs, false)
  else if Bytes.word32 input 8 ≠ hs.localIndex then (hs, false)
  else
    let expect := mac1 P hs.sPub (Bytes.slice input 0 60)
    if !cryptoEqual expect.toList (Bytes.slice input 60 16) then (hs, false)
    else
      let hs := { hs with
        remoteIndex := Bytes.word32 input 4
        peerEph := Bytes.block 32 input 12 }
      let hs := (hs.mixKey P hs.peerEph).mixHash P hs.peerEph.toList
      match x25519 P hs.ePriv hs.peerEph with
      | none => (hs, false)
      | some dh =>
        let hs := hs.mixKey P dh
        match x25519 P hs.sPriv hs.peerEph with
        | none => (hs, false)
        | some dh =>
          let hs := hs.mixKey P dh
          let t := kdf P hs.ck hs.psk.toList
          let hs := { hs with ck := t.1 }
          let hs := hs.mixHash P t.2.1.toList
          match chacha20poly1305Decrypt P (Bytes.slice input 44 16) hs.h.toList 0 t.2.2 with
          | none => (hs, false)
          | some _ =>
            let hs := hs.mixHash P (Bytes.slice input 44 16)
            let t := kdf P hs.ck []
            ({ hs with sendKey := t.1, recvKey := t.2.1, established := true }, true)

/-! ### Framing

Padding stands ahead of the message, as many bytes as are configured for its kind.  With
header protection the stream cipher then runs over the message, with the first twelve bytes
of the padding as the nonce, which is why less padding than that is refused.
-/

inductive Kind
  | init
  | response
  | cookie
  | transport
  deriving DecidableEq, Repr

def paddingFor (cfg : Config) : Kind → Int
  | .init => cfg.s1
  | .response => cfg.s2
  | .cookie => cfg.s3
  | .transport => cfg.s4

/-- `header_cipher_init`: words 13 to 15 are the twelve nonce bytes. -/
def headerCipherInit (key : Key) (nonce : Bytes) : Chacha20Ctx :=
  let ctx := (chacha20Init key 0).setIfInBounds 12 0
  let ctx := ctx.setIfInBounds 13 (Bytes.word32 nonce 0)
  let ctx := ctx.setIfInBounds 14 (Bytes.word32 nonce 4)
  ctx.setIfInBounds 15 (Bytes.word32 nonce 8)

/-- The pass header protection makes over `n` bytes at `off`, with the buffer's first
bytes as the nonce. -/
def headerPass (cfg : Config) (buf : Bytes) (off n : Nat) : Bytes :=
  let ctx := headerCipherInit cfg.headerProtectionKey buf
  Bytes.overlay buf off (chacha20 P ctx (Bytes.slice buf off n)).2

/-- `awg_wrap`: the datagram, or nothing for a return of -1. -/
def awgWrap (cfg : Config) (kind : Kind) (msg : Bytes) (outCap : Int) (e : Entropy) :
    Option Bytes :=
  let pad := paddingFor cfg kind
  if cfg.haveHeaderProtection ∧ pad < 12 then none
  else if pad < 0 ∨ pad + msg.length > outCap then none
  else
    let out := awgRandomBytes e pad.toNat ++ msg
    some (if cfg.haveHeaderProtection then headerPass P cfg out pad.toNat msg.length else out)

/-- `awg_unwrap`: the return value, the packet afterwards, and `*msg_off`. -/
def awgUnwrap (cfg : Config) (kind : Kind) (pkt : Bytes) : Int × Bytes × Nat :=
  let pad := paddingFor cfg kind
  if cfg.haveHeaderProtection ∧ pad < 12 then (-1, pkt, 0)
  else if (pkt.length : Int) ≤ pad then (-1, pkt, 0)
  else
    let msgLen := pkt.length - pad
    let pkt := if cfg.haveHeaderProtection then headerPass P cfg pkt pad.toNat msgLen.toNat
      else pkt
    (msgLen, pkt, pad.toNat)

/-! ### Transport packets

Data is padded to a multiple of sixteen before it is sealed, so a receiver gets zeros at its
end.  Header protection covers the sixteen bytes of the header; opening undoes it in place,
and a packet that does not open is put back as it came.
-/

def transportHdr : Nat := 16

def aeadTag : Nat := 16

/-- `(payload_len + 15) & ~15`. -/
def paddedLen (n : Nat) : Nat := (n + 15) / 16 * 16

/-- `awg_transport_seal`: nothing for a return of -1, else `total` and the datagram.
With a negative padding `total` itself can be negative. -/
def awgTransportSeal (cfg : Config) (hs : Handshake) (counter : UInt64) (payload : Bytes)
    (outCap : Int) (e : Entropy) : Option (Int × Bytes) :=
  let pad := cfg.s4
  if cfg.haveHeaderProtection ∧ pad < 12 then none
  else
    let padded := paddedLen payload.length
    let total := pad + transportHdr + padded + aeadTag
    if total > outCap then none
    else
      let hdr := Bytes.le32 cfg.h4 ++ Bytes.le32 hs.remoteIndex ++ Bytes.leBytes 8 counter
      let body := payload ++ List.replicate (padded - payload.length) 0
      let body := chacha20poly1305Encrypt P body [] counter hs.sendKey
      let out := awgRandomBytes e pad.toNat ++ hdr ++ body
      some (total,
        if cfg.haveHeaderProtection then headerPass P cfg out pad.toNat transportHdr else out)

/-- What a call of `awg_transport_open` leaves behind. -/
structure OpenResult where
  /-- The payload length, or -1. -/
  ret : Int
  /-- The packet buffer, which the call works on in place. -/
  pkt : Bytes
  /-- What was stored through `out`, if anything. -/
  out : Option Bytes
  /-- What was stored through `counter`, if anything. -/
  counter : Option UInt64
  deriving DecidableEq

/-- `REJECT()`: put the header back as it came, and return -1. -/
def openReject (cfg : Config) (pkt : Bytes) : OpenResult where
  ret := -1
  pkt := if cfg.haveHeaderProtection then headerPass P cfg pkt cfg.s4.toNat transportHdr else pkt
  out := none
  counter := none

def awgTransportOpen (cfg : Config) (hs : Handshake) (pkt : Bytes) (outCap : Int) : OpenResult :=
  let pad := cfg.s4
  if cfg.haveHeaderProtection ∧ pad < 12 then ⟨-1, pkt, none, none⟩
  else if (pkt.length : Int) < pad + transportHdr + aeadTag then ⟨-1, pkt, none, none⟩
  else
    let off := pad.toNat
    let pkt := if cfg.haveHeaderProtection then headerPass P cfg pkt off transportHdr else pkt
    if Bytes.word32 pkt off ≠ cfg.h4 then openReject P cfg pkt
    else if Bytes.word32 pkt (off + 4) ≠ hs.localIndex then openReject P cfg pkt
    else
      let ctr := Bytes.wordOf 8 (pkt.drop (off + 8))
      let cipherLen := (pkt.length : Int) - pad - transportHdr
      let plainLen := cipherLen - aeadTag
      if plainLen < 0 ∨ plainLen > outCap then openReject P cfg pkt
      else
        match chacha20poly1305Decrypt P
            (Bytes.slice pkt (off + transportHdr) cipherLen.toNat) [] ctr hs.recvKey with
        | none => openReject P cfg pkt
        | some plain => ⟨plainLen, pkt, some plain, some ctr⟩

end SysAwg
