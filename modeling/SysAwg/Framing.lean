/-
The framing functions of `awg_noise.c` once more, with every index and every sum.

`Noise.lean` says what the four functions compute on byte strings, which have no
capacity and no bounds.  Here each of them also says which bytes of which buffer it
touches and which `int`s it adds up, in the order of the source, and stops at the first
operation that has no meaning in C.  Paddings come from `atoi` unchecked, so they are
any integers.

A pass of the cipher over bytes reads and writes them, and `header_cipher_init` reads
the first twelve bytes of the buffer.  `(size_t)n` of a negative `n` is a length no
buffer has.
-/
import SysAwg.Noise
import SysAwg.Lib.Checked

namespace SysAwg

open Checked

variable (P : Primitives)

/-- What `awg_config_load` requires of a file after its last line. -/
def Config.accepted (cfg : Config) : Bool :=
  cfg.havePrivateKey && cfg.havePeerPublicKey && !cfg.endpointHost.isEmpty

/-- The accesses of one header-protection pass over `n` bytes at `off`. -/
def headerPassChecked (cfg : Config) (cap off n : Int) : Checked Unit :=
  if cfg.haveHeaderProtection then do
    span cap 0 12
    span cap off n
  else .ok ()

def awgWrapChecked (cfg : Config) (kind : Kind) (msg : Bytes) (outCap : Int) (e : Entropy) :
    Checked (Option Bytes) :=
  let pad := paddingFor cfg kind
  if cfg.haveHeaderProtection ∧ pad < 12 then .ok none
  -- `||` stops here, before the sum
  else if pad < 0 then .ok none
  else do
    let total ← int (pad + msg.length)
    if total > outCap then .ok none
    else do
      span outCap 0 pad
      span outCap pad msg.length
      headerPassChecked cfg outCap pad msg.length
      let out := awgRandomBytes e pad.toNat ++ msg
      .ok (some (if cfg.haveHeaderProtection then headerPass P cfg out pad.toNat msg.length
        else out))

/-- `awg_unwrap`; the message it reports lies at `*msg_off`. -/
def awgUnwrapChecked (cfg : Config) (kind : Kind) (pkt : Bytes) : Checked (Int × Bytes × Nat) :=
  let pad := paddingFor cfg kind
  if cfg.haveHeaderProtection ∧ pad < 12 then .ok (-1, pkt, 0)
  else if (pkt.length : Int) ≤ pad then .ok (-1, pkt, 0)
  else do
    let msgLen ← int (pkt.length - pad)
    headerPassChecked cfg pkt.length pad msgLen
    span pkt.length pad msgLen
    let pkt := if cfg.haveHeaderProtection then headerPass P cfg pkt pad.toNat msgLen.toNat
      else pkt
    .ok (msgLen, pkt, pad.toNat)

def awgTransportSealChecked (cfg : Config) (hs : Handshake) (counter : UInt64) (payload : Bytes)
    (outCap : Int) (e : Entropy) : Checked (Option (Int × Bytes)) :=
  let pad := cfg.s4
  if cfg.haveHeaderProtection ∧ pad < 12 then .ok none
  else do
    let _ ← int (payload.length + 15)
    let padded := paddedLen payload.length
    let total ← int (pad + transportHdr)
    let total ← int (total + padded)
    let total ← int (total + aeadTag)
    if total > outCap then .ok none
    else do
      -- the random padding
      span outCap 0 pad
      -- type, index and counter
      span outCap pad transportHdr
      -- the payload, the zeros behind it, and both again with the tag
      span outCap (pad + transportHdr) payload.length
      span outCap (pad + transportHdr + payload.length) (padded - payload.length)
      span outCap (pad + transportHdr) (padded + aeadTag)
      headerPassChecked cfg outCap pad transportHdr
      let hdr := Bytes.le32 cfg.h4 ++ Bytes.le32 hs.remoteIndex ++ Bytes.leBytes 8 counter
      let body := payload ++ List.replicate (padded - payload.length) 0
      let body := chacha20poly1305Encrypt P body [] counter hs.sendKey
      let out := awgRandomBytes e pad.toNat ++ hdr ++ body
      .ok (some (total,
        if cfg.haveHeaderProtection then headerPass P cfg out pad.toNat transportHdr else out))

def openRejectChecked (cfg : Config) (pkt : Bytes) : Checked OpenResult := do
  headerPassChecked cfg pkt.length cfg.s4 transportHdr
  .ok (openReject P cfg pkt)

def awgTransportOpenChecked (cfg : Config) (hs : Handshake) (pkt : Bytes) (outCap : Int) :
    Checked OpenResult :=
  let pad := cfg.s4
  if cfg.haveHeaderProtection ∧ pad < 12 then .ok ⟨-1, pkt, none, none⟩
  else do
    let least ← int (pad + transportHdr)
    let least ← int (least + aeadTag)
    if (pkt.length : Int) < least then .ok ⟨-1, pkt, none, none⟩
    else do
      headerPassChecked cfg pkt.length pad transportHdr
      let off := pad.toNat
      let pkt := if cfg.haveHeaderProtection then headerPass P cfg pkt off transportHdr else pkt
      span pkt.length pad 4
      if Bytes.word32 pkt off ≠ cfg.h4 then openRejectChecked P cfg pkt
      else do
        span pkt.length (pad + 4) 4
        if Bytes.word32 pkt (off + 4) ≠ hs.localIndex then openRejectChecked P cfg pkt
        else do
          span pkt.length (pad + 8) 8
          let ctr := Bytes.wordOf 8 (pkt.drop (off + 8))
          let cipherLen ← int (pkt.length - pad)
          let cipherLen ← int (cipherLen - transportHdr)
          let plainLen ← int (cipherLen - aeadTag)
          if plainLen < 0 ∨ plainLen > outCap then openRejectChecked P cfg pkt
          else do
            -- the sealed body is read, and its text written
            span pkt.length (pad + transportHdr) cipherLen
            span outCap 0 plainLen
            match chacha20poly1305Decrypt P
                (Bytes.slice pkt (off + transportHdr) cipherLen.toNat) [] ctr hs.recvKey with
            | none => openRejectChecked P cfg pkt
            | some plain => .ok ⟨plainLen, pkt, some plain, some ctr⟩

end SysAwg
