/-
The other end of the tunnel.

A peer is configured with the same four message-type words as the client, and expects
and writes them where plain WireGuard has 1 to 4.  Its responder is the one of
`awg_noise.c` with the type word as an argument: with WireGuard's own words the two are
the same functions.  Framing and transport packets are the shared code.
-/
import SysAwg.Session

namespace SysAwg

variable (P : Primitives)

/-! ### The responder

`awg_noise.c` has a responder, for its tests, but with constants where the configuration has
type words.  The two functions here differ from it in nothing else.
-/

/-- `awg_consume_initiation` for initiations that carry `word`. -/
def peerConsumeInitiation (word : UInt32) (hs : Handshake) (input : Bytes) : Handshake × Bool :=
  if Bytes.word32 input 0 ≠ word then (hs, false)
  else
    let hs := chainStart P hs hs.sPub
    let expect := mac1 P hs.sPub (Bytes.slice input 0 116)
    if !cryptoEqual expect.toList (Bytes.slice input 116 16) then (hs, false)
    else
      let hs := { hs with
        remoteIndex := Bytes.word32 input 4
        peerEph := Bytes.block 32 input 8 }
      let hs := (hs.mixKey P hs.peerEph).mixHash P hs.peerEph.toList
      match x25519 P hs.sPriv hs.peerEph with
      | none => (hs, false)
      | some dh =>
        let k := kdf P hs.ck dh.toList
        let hs := { hs with ck := k.1 }
        match chacha20poly1305Decrypt P (Bytes.slice input 40 48) hs.h.toList 0 k.2.1 with
        | none => (hs, false)
        | some plain =>
          let hs := { hs with peerPub := Bytes.block 32 plain 0 }
          let hs := hs.mixHash P (Bytes.slice input 40 48)
          match x25519 P hs.sPriv hs.peerPub with
          | none => (hs, false)
          | some dh =>
            let k := kdf P hs.ck dh.toList
            let hs := { hs with ck := k.1 }
            match chacha20poly1305Decrypt P (Bytes.slice input 88 28) hs.h.toList 0 k.2.1 with
            | none => (hs, false)
            | some _ => (hs.mixHash P (Bytes.slice input 88 28), true)

/-- `awg_create_response` for responses that carry `word`. -/
def peerCreateResponse (word : UInt32) (hs : Handshake) (eph : Entropy) :
    Handshake × Option Bytes :=
  let ePriv := awgGeneratePrivate eph
  let hs := { hs with ePriv := ePriv, ePub := awgPublicFromPrivate P ePriv }
  let head := Bytes.le32 word ++ Bytes.le32 hs.localIndex ++ Bytes.le32 hs.remoteIndex ++
    hs.ePub.toList
  let hs := (hs.mixKey P hs.ePub).mixHash P hs.ePub.toList
  match x25519 P hs.ePriv hs.peerEph with
  | none => (hs, none)
  | some dh =>
    let hs := hs.mixKey P dh
    match x25519 P hs.ePriv hs.peerPub with
    | none => (hs, none)
    | some dh =>
      let hs := hs.mixKey P dh
      let t := kdf P hs.ck hs.psk.toList
      let hs := { hs with ck := t.1 }
      let hs := hs.mixHash P t.2.1.toList
      let encEmpty := chacha20poly1305Encrypt P [] hs.h.toList 0 t.2.2
      let hs := hs.mixHash P encEmpty
      let body := head ++ encEmpty
      let mac := mac1 P hs.peerPub body
      let t := kdf P hs.ck []
      ({ hs with recvKey := t.1, sendKey := t.2.1, established := true },
        some (body ++ mac.toList ++ List.replicate 16 0))

/-- With WireGuard's words this is the responder of `awg_noise.c`. -/
theorem peerConsumeInitiation_one : peerConsumeInitiation P 1 = awgConsumeInitiation P := rfl

theorem peerCreateResponse_two : peerCreateResponse P 2 = awgCreateResponse P := rfl

/-! ### A meeting of the two -/

/-- What a handshake between the client and a peer depends on, beside the configuration. -/
structure Meeting where
  /-- The client's session and its statics when it decides to start. -/
  sess : Session
  drop : ReplayDrop
  idx : Entropy
  eph : Entropy
  nanos : Entropy
  pad : Entropy
  nowSeconds : UInt64
  sentMs : UInt64
  answeredMs : UInt64
  outCap : Int
  payloadCap : Int
  peerPriv : Key
  peerIndex : UInt32
  peerEph : Entropy
  peerPad : Entropy
  peerCap : Int

def Meeting.initiation (m : Meeting) (cfg : Config) : Session × Option Bytes :=
  awgSessionBuildInitiation P cfg m.sess m.outCap m.sentMs m.idx m.eph m.nanos m.pad m.nowSeconds

/-- The peer takes a datagram for an initiation and answers it: its keypair, and the
datagram that goes back. -/
def Meeting.answer (m : Meeting) (cfg : Config) (pkt : Bytes) : Option (Handshake × Bytes) :=
  let psk := if cfg.havePresharedKey then some cfg.presharedKey else none
  let u := awgUnwrap P cfg .init pkt
  if u.1 ≠ awgMsgInitSize then none
  else
    match peerConsumeInitiation P cfg.h1 (awgHandshakeBegin P m.peerPriv none psk m.peerIndex)
        (u.2.1.drop u.2.2) with
    | (_, false) => none
    | (hs, true) =>
      match peerCreateResponse P cfg.h2 hs m.peerEph with
      | (_, none) => none
      | (hs, some msg) => (awgWrap P cfg .response msg m.peerCap m.peerPad).map fun out => (hs, out)

/-- The datagram that comes back to the client, if any does. -/
def Meeting.reply (m : Meeting) (cfg : Config) : Bytes :=
  match (m.initiation P cfg).2 with
  | none => []
  | some pkt =>
    match m.answer P cfg pkt with
    | none => []
    | some (_, reply) => reply

def Meeting.answered (m : Meeting) (cfg : Config) (pkt : Bytes) : RxOutcome :=
  awgSessionOnDatagram P cfg m.drop (m.initiation P cfg).1 pkt m.payloadCap m.answeredMs

/-- An inner packet as it arrives, with zeros up to the next multiple of sixteen. -/
def zeroPadded (payload : Bytes) : Bytes :=
  payload ++ List.replicate (paddedLen payload.length - payload.length) 0

/-- Data goes both ways between the client's session and the peer's keypair: every packet
there is room for, with any counter the peer has come to. -/
structure DataFlows (cfg : Config) (g : ReplayDrop) (s : Session) (peer : Handshake) : Prop where
  sends : ∀ (payload : Bytes) (outCap openCap : Int) (nowMs : UInt64) (e : Entropy),
    cfg.s4 + 32 + paddedLen payload.length ≤ outCap → (paddedLen payload.length : Int) ≤ openCap →
    ∃ n pkt, (awgSessionBuildData P cfg s payload outCap nowMs e).2 = some (n, pkt) ∧
      (awgTransportOpen P cfg peer pkt openCap).out = some (zeroPadded payload)
  receives : ∀ (counter : UInt64) (payload : Bytes) (outCap openCap : Int) (nowMs : UInt64)
    (e : Entropy),
    cfg.s4 + 32 + paddedLen payload.length ≤ outCap → (paddedLen payload.length : Int) ≤ openCap →
    ∃ n pkt, awgTransportSeal P cfg peer counter payload outCap e = some (n, pkt) ∧
      (awgSessionOnDatagram P cfg g s pkt openCap nowMs).result
        = (if payload = [] then .handled else .payload) ∧
      (awgSessionOnDatagram P cfg g s pkt openCap nowMs).payload = zeroPadded payload

/-- The two complete a handshake and exchange data. -/
def Meeting.Talks (m : Meeting) (cfg : Config) : Prop :=
  ∃ pkt, (m.initiation P cfg).2 = some pkt ∧
    ∃ peer reply, m.answer P cfg pkt = some (peer, reply) ∧
      (m.answered P cfg reply).result = .established ∧
      DataFlows P cfg (m.answered P cfg reply).drop (m.answered P cfg reply).sess peer

end SysAwg
