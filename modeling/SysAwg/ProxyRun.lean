/-
Runs of the proxy and the stack under it.

Everything happens on one thread, so a run is a sequence of entries: a call of
`awg_proxy_poll`, `awg_proxy_start` or `awg_proxy_stop` by the main loop, or one thing
lwIP does on its own between them, with the callback it makes.  The entries follow
lwIP's life of a control block: a connection is opened, data and FIN arrive, FINs are
acknowledged, a block is freed with its err callback, or, in TIME_WAIT, without one.
An entry whose precondition does not hold does nothing; `awg_proxy_start` has the
precondition that no connection is open, because `main` calls it once at the beginning and
then only right after `awg_proxy_stop`.
-/
import SysAwg.Proxy

namespace SysAwg

/-- One entry of a run. -/
inductive Label
  | poll (e : PollEnv)
  | start (fd : Int)
  | stop
  /-- The resolver calls back for the `k`-th request it holds. -/
  | dnsFound (k : Nat) (ip : Option Ip) (e : ResolveEnv)
  /-- The handshake of an outgoing connection ended. -/
  | connected (x : PcbId) (err : Bool)
  /-- Data arrived. -/
  | recv (x : PcbId) (chain : List Pbuf) (err : Bool)
  /-- The peer's FIN arrived, with the acknowledgement of ours or not. -/
  | fin (x : PcbId) (acked : Bool)
  /-- Our FIN was acknowledged. -/
  | ack (x : PcbId)
  /-- The stack gives a connection up: reset, timed out, or closed after a shutdown. -/
  | giveUp (x : PcbId)
  /-- `2 * MSL` have passed. -/
  | timeWaitOver (x : PcbId)
  /-- A FIN that was left pending could be queued. -/
  | pendingFin (x : PcbId)
  /-- Another user of the stack takes a block, moves it on, or gives it back. -/
  | otherNew (e : NewEnv)
  | otherMove (x : PcbId) (state : TcpState)
  | otherFree (x : PcbId)

/-- The state a FIN leads to; a block in another state takes none. -/
def afterFin (acked : Bool) : TcpState → Option TcpState
  | .established => some .closeWait
  | .finWait1 => some (if acked then .timeWait else .closing)
  | .finWait2 => some .timeWait
  | _ => none

/-- The state the acknowledgement of our FIN leads to, if the block stays. -/
def afterAck : TcpState → Option TcpState
  | .finWait1 => some .finWait2
  | .closing => some .timeWait
  | _ => none

def step (w : World) : Label → World
  | .poll e => awgProxyPoll w e
  | .start fd => if (List.finRange 16).all fun i => decide ((w.conn i).st = .free)
      then awgProxyStart w fd else w
  | .stop => awgProxyStop w
  | .dnsFound k ip e =>
    match w.reqs[k]? with
    | none => w
    | some r => onResolved { w with reqs := w.reqs.eraseIdx k } r.slot r.q ip e
  | .connected x err =>
    let p := w.pcbs x
    if p.live ∧ p.state = .synSent ∧ p.connectedFn then
      onConnected (w.setPcb x { p with state := .established }) p.arg x err
    else w
  | .recv x chain err =>
    let p := w.pcbs x
    if p.live ∧ p.recvFn then onRecv w p.arg (some chain) err else w
  | .fin x acked =>
    let p := w.pcbs x
    match afterFin acked p.state with
    | none => w
    | some st =>
      if p.live then
        let w := w.setPcb x { p with state := st }
        if p.recvFn then onRecv w p.arg none false else w
      else w
  | .ack x =>
    let p := w.pcbs x
    match afterAck p.state with
    | none => w
    | some st => if p.live then w.setPcb x { p with state := st } else w
  | .giveUp x =>
    let p := w.pcbs x
    if p.live ∧ p.state ≠ .timeWait ∧ p.state ≠ .closed then abandon w x else w
  | .timeWaitOver x =>
    let p := w.pcbs x
    if p.live ∧ p.state = .timeWait then reclaim w x else w
  | .pendingFin x => tcpHandleClosepend w fun y => y == x
  | .otherNew e =>
    match tcpAlloc w e with
    | (w, none) => w
    | (w, some x) => w.setPcb x Pcb.fresh
  | .otherMove x state =>
    let p := w.pcbs x
    if p.live ∧ p.arg = none then w.setPcb x { p with state := state } else w
  | .otherFree x =>
    let p := w.pcbs x
    if p.live ∧ p.arg = none then w.setPcb x Pcb.freed else w

def proxyRun (fd : Int) (labels : List Label) : World :=
  labels.foldl step (awgProxyStart World.boot fd)

/-! ### Small environments

Polls in which at most one thing happens, to write short runs with. -/

def SlotEnv.quiet : SlotEnv where
  pollErr := false
  pollIn := false
  pollOut := false
  down := []
  read := ⟨.again, 0, true, .inProgress⟩

/-- Nothing is ready anywhere, and no send window is open. -/
def PollEnv.quiet : PollEnv where
  ready := true
  accept := none
  acceptNow := 0
  slots := fun _ => SlotEnv.quiet
  sweepNow := 0
  final := fun _ => ⟨0, false, 0, []⟩

/-- A poll that accepts one connection. -/
def pollAccepts (cfd : Int) : Label := .poll { PollEnv.quiet with accept := some cfd }

/-- The same environment with the clock at `now` throughout. -/
def PollEnv.clock (e : PollEnv) (now : UInt32) : PollEnv where
  ready := e.ready
  accept := e.accept
  acceptNow := now
  slots := fun i =>
    let s := e.slots i
    { s with
      down := s.down.map fun d => (d.1, now)
      read := { s.read with now := now } }
  sweepNow := now
  final := fun i =>
    let f := e.final i
    { f with now := now, down := f.down.map fun d => (d.1, now) }

/-- A poll in which one connection has an event. -/
def pollOne (i : Slot) (s : SlotEnv) : Label :=
  .poll { PollEnv.quiet with slots := fun j => if j = i then s else SlotEnv.quiet }

def pollOneAt (i : Slot) (s : SlotEnv) (now : UInt32) : Label :=
  .poll ({ PollEnv.quiet with slots := fun j => if j = i then s else SlotEnv.quiet }.clock now)

/-- A poll in which one connection reads. -/
def pollReads (i : Slot) (b : Bytes) (dns : DnsAnswer) : Label :=
  pollOne i { SlotEnv.quiet with pollIn := true, read := ⟨.bytes b, 0, true, dns⟩ }

/-- The client is done sending, and `recv` returns 0 again and again. -/
def SlotEnv.eof : SlotEnv := { SlotEnv.quiet with
  pollIn := true
  read := ⟨.bytes [], 0, true, .inProgress⟩ }

/-- A poll in which one client hangs up. -/
def pollHangsUp (i : Slot) : Label := pollOne i { SlotEnv.quiet with pollErr := true }

/-- The pool has a cell, and `tcp_connect` succeeds. -/
def ResolveEnv.fine : ResolveEnv := ⟨⟨0, 0, fun _ => true⟩, true⟩

/-- The slots and the cell that are used first. -/
def firstSlot : Slot := 0

def secondSlot : Slot := 1

def firstPcb : PcbId := 0

/-- A link with these bytes, as far as its length allows. -/
def Pbuf.holding (b : Bytes) : Pbuf := ⟨b.take 65535, by simp⟩

/-- A ClientHello for a host whose name is one letter. -/
def clientHello (name : UInt8) : Bytes :=
  [22, 3, 1, 0, 54, 1] ++ List.replicate 37 0
    ++ [0, 0, 0, 0, 0, 10, 0, 0, 0, 6, 0, 4, 0, 0, 1, name]

end SysAwg
