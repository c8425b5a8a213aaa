/-
The tunnel, from the peer's packets to the client's inner network.

The client is a session under calls in any order.  The peer seals packets under the other
ends of the keypairs the client has installed, counting up from zero under each, as
`awg_session_build_data` does.  Between the two is a network that keeps every datagram ever
sent and hands any of them to the client when it likes, as often as it likes, or never.  It
may also hand over datagrams the peer never sent; these open under no keypair of the
client's, which is what the authenticator is for.
-/
import SysAwg.Peer
import SysAwg.SessionRun
import SysAwg.Proofs.Transport

namespace SysAwg

variable (P : Primitives)

/-- A packet one side has sealed, with what is inside. -/
structure Parcel where
  /-- The client's number of the keypair. -/
  id : Nat
  counter : UInt64
  payload : Bytes
  bytes : Bytes

/-- What the receiver's window tells packets apart by. -/
def Parcel.key (p : Parcel) : Nat × UInt64 := (p.id, p.counter)

/-- The client's own calls under one configuration: all but receiving. -/
def Op.Call (cfg : Config) : Op → Prop
  | .init c _ => c = cfg
  | .buildInitiation c .. => c = cfg
  | .buildData c .. => c = cfg
  | .buildKeepalive c .. => c = cfg
  | .onDatagram .. => False
  | .wipe => True

/-- The packet a builder of data packets hands to the socket. -/
def Run.parcel (r : Run) (payload : Bytes) (out : Session × Option (Int × Bytes)) : List Parcel :=
  match out.2 with
  | none => []
  | some (_, bytes) => [⟨r.curId, r.sess.txCounter, payload, bytes⟩]

/-- The transport packets a call hands to the socket. -/
def Run.outgoing (r : Run) : Op → List Parcel
  | .buildData cfg payload outCap nowMs e =>
    r.parcel payload (awgSessionBuildData P cfg r.sess payload outCap nowMs e)
  | .buildKeepalive cfg outCap nowMs e =>
    r.parcel [] (awgSessionBuildKeepalive P cfg r.sess outCap nowMs e)
  | _ => []

/-- The client, the datagrams on both ways, and what came out at the client's end. -/
structure Tunnel where
  run : Run
  /-- What the peer has sent so far. -/
  wire : List Parcel
  /-- What the client has sent so far. -/
  sent : List Parcel
  /-- What was passed to `awg_netif_input`, with the place on the wire it came from. -/
  delivered : List (Option Nat × Bytes)

def Tunnel.start (cfg : Config) (draws : Fin 5 → Entropy) : Tunnel :=
  ⟨Run.start cfg draws, [], [], []⟩

def Tunnel.peerCounter (t : Tunnel) (id : Nat) : UInt64 :=
  UInt64.ofNat (countersOf (t.wire.map Parcel.key) id).length

/-- A datagram is handed to the client, which passes a payload on. -/
def Tunnel.receive (cfg : Config) (t : Tunnel) (origin : Option Nat) (pkt : Bytes)
    (payloadCap : Int) (nowMs : UInt64) : Tunnel :=
  let o := awgSessionOnDatagram P cfg t.run.drop t.run.sess pkt payloadCap nowMs
  { t with
    run := t.run.logRx o
    delivered := if o.result = .payload then t.delivered ++ [(origin, o.payload)] else t.delivered }

/-- One step of the whole. -/
inductive Tunnel.Step (cfg : Config) (t : Tunnel) : Tunnel → Prop
  /-- The client makes a call. -/
  | call (op : Op) (hcall : op.Call cfg) :
      Step cfg t { t with run := t.run.step P op, sent := t.sent ++ t.run.outgoing P op }
  /-- The peer seals a packet under the other end of a keypair. -/
  | post (id : Nat) (hs peer : Handshake) (payload bytes : Bytes) (n outCap : Int) (e : Entropy)
      (hid : (installedIn t.run.log)[id]? = some hs) (hends : Mirrors peer hs)
      (hseal : awgTransportSeal P cfg peer (t.peerCounter id) payload outCap e = some (n, bytes)) :
      Step cfg t { t with wire := t.wire ++ [⟨id, t.peerCounter id, payload, bytes⟩] }
  /-- The network hands over something the peer has sent. -/
  | arrive (k : Nat) (p : Parcel) (payloadCap : Int) (nowMs : UInt64) (hk : t.wire[k]? = some p) :
      Step cfg t (t.receive P cfg (some k) p.bytes payloadCap nowMs)
  /-- It hands over something else. -/
  | stray (pkt : Bytes) (payloadCap : Int) (nowMs : UInt64)
      (hforged : ∀ hs ∈ installedIn t.run.log, (awgTransportOpen P cfg hs pkt payloadCap).ret < 0) :
      Step cfg t (t.receive P cfg none pkt payloadCap nowMs)

inductive Tunnel.Reachable (cfg : Config) (draws : Fin 5 → Entropy) : Tunnel → Prop
  | start : Reachable cfg draws (Tunnel.start cfg draws)
  | step {t t' : Tunnel} (h : Reachable cfg draws t) (hstep : t.Step P cfg t') :
      Reachable cfg draws t'

/-- The client has neither taken the packet nor moved 64 counters past it. -/
def Tunnel.Fresh (t : Tunnel) (p : Parcel) : Prop :=
  p.key ∉ acceptedIn t.run.log ∧
    ∀ q ∈ acceptedIn t.run.log, q.1 = p.id → q.2.toNat < p.counter.toNat + 64

instance (t : Tunnel) (p : Parcel) : Decidable (t.Fresh p) := inferInstanceAs (Decidable (_ ∧ _))

end SysAwg
