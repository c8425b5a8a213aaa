/-
`awg_session.c`: the session around the handshake.

A session holds up to three keypairs at once.  `cur` is the live one, `prev` the one
a rekey just replaced and kept for packets already under way, and `pending` a
handshake that has been sent and not answered.  Every operation is a function from
the session to the session, with what it returns beside it; times are the readings
the caller passes, as 64-bit words that wrap.
-/
import SysAwg.Noise

namespace SysAwg

variable (P : Primitives)

structure Session where
  cur : Handshake
  established : Bool
  prev : Handshake
  havePrev : Bool
  pending : Handshake
  handshaking : Bool
  handshakeSentMs : UInt64
  handshakeTries : Int
  txCounter : UInt64
  rxCounterMax : UInt64
  rxWindowMax : UInt64
  rxWindowBits : UInt64
  prevWindowMax : UInt64
  prevWindowBits : UInt64
  prevSinceMs : UInt64
  replaysDropped : UInt32
  lastReplayCtr : UInt64
  lastReplayBehind : UInt64
  lastReplayOld : Bool
  lastReplayPrev : Bool
  establishedMs : UInt64
  lastTxMs : UInt64
  lastRxMs : UInt64
  rekeyAfterS : Int
  rejectAfterS : Int
  keepaliveS : Int
  rekeyTimeoutS : Int
  maxTries : Int
  handshakesDone : UInt32
  rekeys : UInt32
  packetsTx : UInt32
  packetsRx : UInt32
  keepalivesTx : UInt32
  deriving DecidableEq

def Session.zero : Session where
  cur := Handshake.zero
  established := false
  prev := Handshake.zero
  havePrev := false
  pending := Handshake.zero
  handshaking := false
  handshakeSentMs := 0
  handshakeTries := 0
  txCounter := 0
  rxCounterMax := 0
  rxWindowMax := 0
  rxWindowBits := 0
  prevWindowMax := 0
  prevWindowBits := 0
  prevSinceMs := 0
  replaysDropped := 0
  lastReplayCtr := 0
  lastReplayBehind := 0
  lastReplayOld := false
  lastReplayPrev := false
  establishedMs := 0
  lastTxMs := 0
  lastRxMs := 0
  rekeyAfterS := 0
  rejectAfterS := 0
  keepaliveS := 0
  rekeyTimeoutS := 0
  maxTries := 0
  handshakesDone := 0
  rekeys := 0
  packetsTx := 0
  packetsRx := 0
  keepalivesTx := 0

inductive RxResult
  | ignored
  | handled
  | payload
  | established
  deriving DecidableEq, Repr

/-- `AWG_PREV_KEEP_MS`. -/
def awgPrevKeepMs : UInt64 := 180 * 1000

/-! ### Timers

The timers are drawn once, when the session is set up: a number of seconds from each
configured range, or plain WireGuard's where the draw is not positive.
-/

/-- The value a conversion to a 32-bit `int` gives. -/
def asInt (n : Int) : Int := (n + 2147483648) % 4294967296 - 2147483648

/-- `awg_range_pick`: a degenerate range gives its single value.  The width is taken
modulo the word, so a range of all 2^32 values reduces by zero. -/
def awgRangePick (r : Range) (e : Entropy) : Int :=
  if r.max ≤ r.min then r.min
  else
    let width := ((r.max - r.min + 1) % 4294967296).toNat
    r.min + asInt ((awgRandomWord e).toNat % width : Nat)

/-- A drawn timer, or the default when the draw is not positive. -/
def drawnOr (v dflt : Int) : Int := if v ≤ 0 then dflt else v

/-- `awg_session_init`; draw `i` supplies the `i`-th timer. -/
def awgSessionInit (cfg : Config) (draws : Fin 5 → Entropy) : Session :=
  { Session.zero with
    rekeyAfterS := drawnOr (awgRangePick cfg.rekeyAfterTime (draws 0)) 120
    rejectAfterS := drawnOr (awgRangePick cfg.rejectAfterTime (draws 1)) 180
    rekeyTimeoutS := drawnOr (awgRangePick cfg.rekeyTimeout (draws 2)) 5
    keepaliveS := drawnOr (awgRangePick cfg.persistentKeepalive (draws 3)) 25
    maxTries := drawnOr (awgRangePick cfg.maxHandshakeAttempts (draws 4)) 18 }

def secondsToMs (s : Int) : UInt64 := UInt64.ofInt s * 1000

def awgSessionNeedsHandshake (s : Session) (nowMs : UInt64) : Bool :=
  if s.handshaking then decide (nowMs - s.handshakeSentMs ≥ secondsToMs s.rekeyTimeoutS)
  else if !s.established then true
  else decide (nowMs - s.establishedMs ≥ secondsToMs s.rekeyAfterS)

def awgSessionNeedsKeepalive (s : Session) (nowMs : UInt64) : Bool :=
  if !s.established then false
  else decide (nowMs - s.lastTxMs ≥ secondsToMs s.keepaliveS)

/-! ### Sending -/

/-- `awg_session_build_initiation`.  `pending` is begun anew even when the call fails. -/
def awgSessionBuildInitiation (cfg : Config) (s : Session) (outCap : Int) (nowMs : UInt64)
    (idx eph nanos pad : Entropy) (nowSeconds : UInt64) : Session × Option Bytes :=
  let psk := if cfg.havePresharedKey then some cfg.presharedKey else none
  let begun := awgHandshakeBegin P cfg.privateKey (some cfg.peerPublicKey) psk (awgRandomWord idx)
  match awgCreateInitiation P begun eph nanos nowSeconds with
  | (pending, none) => ({ s with pending := pending }, none)
  | (pending, some msg) =>
    let s := { s with pending := pending }
    match awgWrap P cfg .init msg outCap pad with
    | none => (s, none)
    | some out =>
      ({ s with
          handshaking := true
          handshakeSentMs := nowMs
          handshakeTries := s.handshakeTries + 1 }, some out)

/-- `awg_session_build_data`: nothing for a return of -1. -/
def awgSessionBuildData (cfg : Config) (s : Session) (payload : Bytes) (outCap : Int)
    (nowMs : UInt64) (e : Entropy) : Session × Option (Int × Bytes) :=
  if !s.established then (s, none)
  else
    match awgTransportSeal P cfg s.cur s.txCounter payload outCap e with
    | none => (s, none)
    | some (n, out) =>
      if n < 0 then (s, none)
      else
        ({ s with
            txCounter := s.txCounter + 1
            packetsTx := s.packetsTx + 1
            lastTxMs := nowMs }, some (n, out))

/-- `awg_session_build_keepalive`: an empty data packet, counted as a keepalive. -/
def awgSessionBuildKeepalive (cfg : Config) (s : Session) (outCap : Int) (nowMs : UInt64)
    (e : Entropy) : Session × Option (Int × Bytes) :=
  match awgSessionBuildData P cfg s [] outCap nowMs e with
  | (s, none) => (s, none)
  | (s, some (n, out)) =>
    if n > 0 then
      ({ s with
          keepalivesTx := s.keepalivesTx + 1
          packetsTx := s.packetsTx - 1 }, some (n, out))
    else (s, some (n, out))

def awgSessionWipe (_ : Session) : Session := Session.zero

/-! ### The replay window

The window is a word beside the highest counter seen: bit `i` stands for the counter `i`
below it.  Counters further back than the word reaches are refused unseen.
-/

def replayWindow : UInt64 := 64

/-- `g_replay_behind` and `g_replay_too_old`: why the last drop happened. -/
structure ReplayDrop where
  behind : UInt64
  tooOld : Bool
  deriving DecidableEq

/-- What `replay_ok` returns and stores. -/
structure ReplayVerdict where
  fresh : Bool
  max : UInt64
  bits : UInt64
  drop : ReplayDrop
  deriving DecidableEq

def replayOk (g : ReplayDrop) (max bits ctr : UInt64) : ReplayVerdict :=
  if ctr > max then
    let shift := ctr - max
    let bits := if shift ≥ replayWindow then 0 else bits <<< shift
    ⟨true, ctr, bits ||| 1, g⟩
  else
    let behind := max - ctr
    let g := { g with behind := behind }
    if behind ≥ replayWindow then ⟨false, max, bits, { g with tooOld := true }⟩
    else
      let bit := 1 <<< behind
      if bits &&& bit ≠ 0 then ⟨false, max, bits, { g with tooOld := false }⟩
      else ⟨true, max, bits ||| bit, g⟩

/-! ### Receiving

What a datagram is, is decided by its length and by the state of the session.  While a
handshake is out, everything as long as a padded response is taken for one, and if it is
none it is dropped.  The rest is tried as a transport packet, under `cur` and then under
`prev`.
-/

/-- What a call of `awg_session_on_datagram` returns and leaves behind. -/
structure RxOutcome where
  result : RxResult
  sess : Session
  /-- The statics `replay_ok` writes. -/
  drop : ReplayDrop
  /-- The packet buffer, decrypted in place. -/
  pkt : Bytes
  /-- The inner packet on `AWG_RX_PAYLOAD`. -/
  payload : Bytes
  /-- The locals `on_prev` and `ctr` of a datagram that opened. -/
  opened : Option (Bool × UInt64)

/-- Promote the pending handshake: counters and windows restart with the new keys, and
the replaced keypair keeps its own window. -/
def Session.promote (s : Session) (nowMs : UInt64) : Session :=
  let s := if s.established then
      { s with
        rekeys := s.rekeys + 1
        prev := s.cur
        havePrev := true
        prevWindowMax := s.rxWindowMax
        prevWindowBits := s.rxWindowBits
        prevSinceMs := nowMs }
    else s
  { s with
    cur := s.pending
    established := true
    handshaking := false
    handshakeTries := 0
    txCounter := 0
    rxCounterMax := 0
    rxWindowMax := 0
    rxWindowBits := 0
    establishedMs := nowMs
    lastRxMs := nowMs
    lastTxMs := nowMs
    handshakesDone := s.handshakesDone + 1 }

/-- The retired keypair is forgotten once its time is up. -/
def Session.expirePrev (s : Session) (nowMs : UInt64) : Session :=
  if s.havePrev ∧ nowMs - s.prevSinceMs > awgPrevKeepMs then
    { s with
      havePrev := false
      prev := Handshake.zero
      prevWindowMax := 0
      prevWindowBits := 0 }
  else s

/-- The bookkeeping after `awg_transport_open` succeeded under `cur` or `prev`. -/
def rxOpened (g : ReplayDrop) (s : Session) (r : OpenResult) (onPrev : Bool) (nowMs : UInt64) :
    RxOutcome :=
  let ctr := r.counter.getD 0
  let v := if onPrev then replayOk g s.prevWindowMax s.prevWindowBits ctr
    else replayOk g s.rxWindowMax s.rxWindowBits ctr
  let s := if onPrev then { s with prevWindowMax := v.max, prevWindowBits := v.bits }
    else { s with rxWindowMax := v.max, rxWindowBits := v.bits }
  if !v.fresh then
    ⟨.ignored, { s with
      replaysDropped := s.replaysDropped + 1
      lastReplayCtr := ctr
      lastReplayBehind := v.drop.behind
      lastReplayOld := v.drop.tooOld
      lastReplayPrev := onPrev }, v.drop, r.pkt, [], some (onPrev, ctr)⟩
  else
    let s := { s with
      lastRxMs := nowMs
      rxCounterMax := if ctr > s.rxCounterMax then ctr else s.rxCounterMax }
    -- an empty packet is a keepalive
    if r.ret = 0 then ⟨.handled, s, v.drop, r.pkt, [], some (onPrev, ctr)⟩
    else
      ⟨.payload, { s with packetsRx := s.packetsRx + 1 }, v.drop, r.pkt, r.out.getD [],
        some (onPrev, ctr)⟩

/-- The transport half of `awg_session_on_datagram`: `cur` first, then `prev`. -/
def rxTransport (cfg : Config) (g : ReplayDrop) (s : Session) (pkt : Bytes) (payloadCap : Int)
    (nowMs : UInt64) : RxOutcome :=
  let s := s.expirePrev nowMs
  let first := awgTransportOpen P cfg s.cur pkt payloadCap
  if first.ret ≥ 0 then rxOpened g s first false nowMs
  else if s.havePrev then
    let second := awgTransportOpen P cfg s.prev first.pkt payloadCap
    if second.ret ≥ 0 then rxOpened g s second true nowMs
    else ⟨.ignored, s, g, second.pkt, [], none⟩
  else ⟨.ignored, s, g, first.pkt, [], none⟩

def awgSessionOnDatagram (cfg : Config) (g : ReplayDrop) (s : Session) (pkt : Bytes)
    (payloadCap : Int) (nowMs : UInt64) : RxOutcome :=
  if s.handshaking ∧ (pkt.length : Int) = cfg.s2 + awgMsgRespSize then
    let u := awgUnwrap P cfg .response pkt
    if u.1 ≠ awgMsgRespSize then ⟨.ignored, s, g, u.2.1, [], none⟩
    else
      match awgConsumeResponse P s.pending (u.2.1.drop u.2.2) with
      | (pending, false) => ⟨.ignored, { s with pending := pending }, g, u.2.1, [], none⟩
      | (pending, true) =>
        ⟨.established, { s with pending := pending }.promote nowMs, g, u.2.1, [], none⟩
  else if !s.established then ⟨.ignored, s, g, pkt, [], none⟩
  else rxTransport P cfg g s pkt payloadCap nowMs

end SysAwg
