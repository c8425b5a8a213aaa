/-
Runs of session operations.

A run starts with `awg_session_init` and goes on with any calls in any order.  The
caller decides every argument, the network every datagram, and the system's
generator every random byte, so all of these stand in the operation.

Beside the session a run keeps what the protocol's promises are about: a log of the
keypairs installed, of the packets sealed and of the packets accepted.  A keypair is
known by the number of the establishment that installed it.  Its number moves from
`cur` to `prev` exactly when the source copies the keypair.
-/
import SysAwg.Session

namespace SysAwg

variable (P : Primitives)

/-- One call, with everything it is given. -/
inductive Op
  | init (cfg : Config) (draws : Fin 5 → Entropy)
  | buildInitiation (cfg : Config) (outCap : Int) (nowMs : UInt64) (idx eph nanos pad : Entropy)
      (nowSeconds : UInt64)
  | buildData (cfg : Config) (payload : Bytes) (outCap : Int) (nowMs : UInt64) (e : Entropy)
  | buildKeepalive (cfg : Config) (outCap : Int) (nowMs : UInt64) (e : Entropy)
  | onDatagram (cfg : Config) (pkt : Bytes) (payloadCap : Int) (nowMs : UInt64)
  | wipe

/-- What the log records. -/
inductive KeyEvent
  /-- A call returned `AWG_RX_ESTABLISHED` and installed this keypair. -/
  | installed (hs : Handshake)
  /-- A call of `awg_transport_seal` succeeded under the keypair of that number. -/
  | sealedWith (id : Nat) (hs : Handshake) (counter : UInt64)
  /-- A datagram opened under the keypair of that number was taken as data or keepalive. -/
  | accepted (id : Nat) (hs : Handshake) (counter : UInt64)

/-- The keypairs installed so far, in order. -/
def installedIn (log : List KeyEvent) : List Handshake :=
  log.filterMap fun
    | .installed hs => some hs
    | _ => none

/-- Keypair and counter of every packet sealed so far, in order. -/
def sealedIn (log : List KeyEvent) : List (Nat × UInt64) :=
  log.filterMap fun
    | .sealedWith id _ counter => some (id, counter)
    | _ => none

/-- Keypair and counter of every packet accepted so far, in order. -/
def acceptedIn (log : List KeyEvent) : List (Nat × UInt64) :=
  log.filterMap fun
    | .accepted id _ counter => some (id, counter)
    | _ => none

/-- The counters used under one keypair, in order. -/
def countersOf (pairs : List (Nat × UInt64)) (id : Nat) : List UInt64 :=
  (pairs.filter fun p => p.1 = id).map Prod.snd

structure Run where
  sess : Session
  drop : ReplayDrop
  /-- The number of the keypair in `cur`. -/
  curId : Nat
  /-- The number of the keypair in `prev`. -/
  prevId : Nat
  log : List KeyEvent

/-- `awg_session_init` was called, and nothing else yet. -/
def Run.start (cfg : Config) (draws : Fin 5 → Entropy) : Run where
  sess := awgSessionInit cfg draws
  drop := ⟨0, false⟩
  curId := 0
  prevId := 0
  log := []

/-- The log after a builder of data packets returned. -/
def Run.logSeal (r : Run) (out : Session × Option (Int × Bytes)) : Run :=
  match out with
  | (s, none) => { r with sess := s }
  | (s, some _) =>
    { r with sess := s, log := r.log ++ [.sealedWith r.curId r.sess.cur r.sess.txCounter] }

/-- The log after a datagram was handled. -/
def Run.logRx (r : Run) (o : RxOutcome) : Run :=
  let r' := { r with sess := o.sess, drop := o.drop }
  match o.result, o.opened with
  | .established, _ =>
    { r' with
      curId := (installedIn r.log).length
      prevId := if r.sess.established then r.curId else r.prevId
      log := r.log ++ [.installed o.sess.cur] }
  | .ignored, _ => r'
  | _, some (onPrev, counter) =>
    { r' with
      log := r.log ++ [if onPrev then .accepted r.prevId r.sess.prev counter
        else .accepted r.curId r.sess.cur counter] }
  | _, none => r'

def Run.step (r : Run) : Op → Run
  | .init cfg draws => { r with sess := awgSessionInit cfg draws }
  | .buildInitiation cfg outCap nowMs idx eph nanos pad nowSeconds =>
    { r with sess := (awgSessionBuildInitiation P cfg r.sess outCap nowMs idx eph nanos pad
        nowSeconds).1 }
  | .buildData cfg payload outCap nowMs e =>
    r.logSeal (awgSessionBuildData P cfg r.sess payload outCap nowMs e)
  | .buildKeepalive cfg outCap nowMs e =>
    r.logSeal (awgSessionBuildKeepalive P cfg r.sess outCap nowMs e)
  | .onDatagram cfg pkt payloadCap nowMs =>
    r.logRx (awgSessionOnDatagram P cfg r.drop r.sess pkt payloadCap nowMs)
  | .wipe => { r with sess := awgSessionWipe r.sess }

def Run.exec (r : Run) (ops : List Op) : Run := ops.foldl (Run.step P) r

end SysAwg
