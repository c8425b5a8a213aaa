/-
`awg_proxy.c`: the connection table, its lwIP callbacks, and the poll loop.

What the proxy cannot decide comes in as an argument: what `poll`, `recv`, `send`,
`accept` and `tcp_write` answer, which cell the pool hands out, what the resolver says,
and the clock.  Answers are cut to what the call allows (`recv` gives no more than the
space offered, `send` takes no more than it was given), so every argument is a possible
environment.

The parts of lwIP that can call back into the proxy while it runs stand here too:
`tcp_alloc` frees blocks for a new one, and the resolver may answer at once.
-/
import SysAwg.ProxyState

namespace SysAwg

/-! ### Closing

Every way a connection ends comes through `conn_close`: the client's socket is closed, the
block given up, the slot blanked.  A reason is given where the proxy breaks off, and only
then is the connection counted as closed; without one it was counted as completed, or the
proxy is stopping and counts nothing.
-/

/-- `conn_close`; no reason is a NULL `why`. -/
def connClose (w : World) (i : Slot) (why : Option Why) : World :=
  let c := w.conn i
  if c.st = .free then w
  else
    let w := match c.pcb with
      | none => w
      -- the four callbacks are cleared, then `tcp_abort` frees the block
      | some x => (w.touch i x).setPcb x Pcb.freed
    let w := match why with
      | none => w
      | some _ => w.count fun s => { s with closed := s.closed + 1 }
    w.setConn i Conn.blank

/-- `g_stats.failed++`. -/
def countFailed (w : World) (i : Slot) (how : Failure) : World :=
  (w.count fun s => { s with failed := s.failed + 1 }).log (.failed i how)

/-- `conn_alloc`: the first free slot. -/
def connAlloc (w : World) : Option Slot :=
  (List.finRange 16).find? fun i => decide ((w.conn i).st = .free)

/-! ### lwIP callbacks

lwIP keeps the slot as the argument of a block's callbacks, and hands it back without asking
whether the slot still owns the block.  The callbacks do not ask either.
-/

/-- `on_recv`; a missing chain is a NULL `p`, and `err` says that it is not `ERR_OK`. -/
def onRecv (w : World) (arg : Option Slot) (p : Option (List Pbuf)) (err : Bool) : World :=
  match arg with
  | none => w
  | some i =>
    let c := w.conn i
    match p with
    | none => w.setConn i { c with peerClosed := true }
    | some chain =>
      if err then w
      -- `pbuf_cat`, or the chain itself
      else (w.setConn i { c with rx := c.rx ++ chain }).log (.deliver i (chainBytes chain))

def onErr (w : World) (arg : Option Slot) : World :=
  match arg with
  | none => w
  | some i =>
    let w := w.setConn i { w.conn i with pcb := none }
    connClose (countFailed w i .lwipErr) i none

def onConnected (w : World) (arg : Option Slot) (x : PcbId) (err : Bool) : World :=
  match arg with
  | none => w
  | some i =>
    if err then connClose (countFailed w i .connectFailed) i (some .connectFailed)
    else
      let w := w.setPcb x { w.pcbs x with recvFn := true }
      (w.setConn i { w.conn i with st := .relay }).count
        fun s => { s with connected := s.connected + 1 }

/-! ### Allocating a block

When the pool is empty `tcp_alloc` takes a block from somebody: pending FINs are sent
first, then the oldest block in TIME_WAIT goes, then one in LAST_ACK, then one in CLOSING.
The last two have their err callback run, so opening one connection can end the slot of
another before the call returns.
-/

/-- What decides the outcome of `tcp_alloc`. -/
structure NewEnv where
  /-- The cell the pool prefers. -/
  want : PcbId
  /-- The block that was idle longest. -/
  oldest : PcbId
  /-- The pending FINs that can be queued now. -/
  fins : PcbId → Bool

def tcpHandleClosepend (w : World) (fins : PcbId → Bool) : World :=
  { w with
    pcbs := fun x =>
      let p := w.pcbs x
      if p.live && p.closePend && fins x then { p.sendFin with closePend := false } else p }

def reclaim (w : World) (x : PcbId) : World :=
  (w.log (.reclaim x (w.pcbs x).arg)).setPcb x Pcb.freed

/-- `tcp_abandon` of a block in another state: it is freed, then its err callback runs. -/
def abandon (w : World) (x : PcbId) : World :=
  let p := w.pcbs x
  let w := w.setPcb x Pcb.freed
  if p.errFn then onErr w p.arg else w

def tcpKillTimewait (w : World) (oldest : PcbId) : World :=
  match w.pick (fun p => p.live && p.state == .timeWait) oldest with
  | none => w
  | some x => reclaim w x

def tcpKillState (w : World) (state : TcpState) (oldest : PcbId) : World :=
  match w.pick (fun p => p.live && p.state == state) oldest with
  | none => w
  | some x => abandon w x

def mempMalloc (w : World) (want : PcbId) : Option PcbId := w.pick (fun p => !p.live) want

/-- `tcp_alloc`, up to the cell.  Every block has the same priority, so `tcp_kill_prio`
finds none to kill. -/
def tcpAlloc (w : World) (e : NewEnv) : World × Option PcbId :=
  match mempMalloc w e.want with
  | some x => (w, some x)
  | none =>
    let w := tcpKillTimewait (tcpHandleClosepend w e.fins) e.oldest
    match mempMalloc w e.want with
    | some x => (w, some x)
    | none =>
      let w := tcpKillState w .lastAck e.oldest
      match mempMalloc w e.want with
      | some x => (w, some x)
      | none =>
        let w := tcpKillState w .closing e.oldest
        (w, mempMalloc w e.want)

/-! ### Resolving

A query carries the slot, not the connection.  The resolver may answer at once, from its
cache or because the name is an address, or queue the request and call `on_resolved` later,
when the slot may hold somebody else.
-/

/-- What decides how a resolved connection goes on. -/
structure ResolveEnv where
  new : NewEnv
  /-- `tcp_connect` returns `ERR_OK`. -/
  connects : Bool

/-- `tcp_new`, `tcp_arg` and `tcp_err`, and the slot that now owns the block. -/
def takePcb (w : World) (i : Slot) (x : PcbId) : World :=
  (w.setPcb x { Pcb.fresh with arg := some i, errFn := true }).setConn i
    { w.conn i with pcb := some x, st := .connecting }

/-- The second half of `on_resolved`: a slot that waited goes on with the result. -/
def useResult (w : World) (i : Slot) (ip : Option Ip) (e : ResolveEnv) : World :=
  match ip with
  | none => connClose (countFailed w i .dnsFailed) i (some .dnsFailed)
  | some _ =>
    let w := w.count fun s => { s with resolved := s.resolved + 1 }
    match tcpAlloc w e.new with
    | (w, none) => connClose (countFailed w i .noPcb) i (some .noPcb)
    | (w, some x) =>
      let w := takePcb w i x
      if e.connects then
        w.setPcb x { w.pcbs x with state := .synSent, connectedFn := true }
      else
        connClose (countFailed w i .connectRefusedLocally) i (some .connectRefusedLocally)

/-- `on_resolved`, for the call with number `q`; a slot that does not wait ignores it. -/
def onResolved (w : World) (i : Slot) (q : Nat) (ip : Option Ip) (e : ResolveEnv) : World :=
  if (w.conn i).st ≠ .resolving then w
  else useResult (w.log (.answered i q (w.conn i).host ip)) i ip e

inductive DnsAnswer
  /-- `ERR_OK` with an address. -/
  | ok (ip : Ip) (e : ResolveEnv)
  /-- `ERR_INPROGRESS`. -/
  | inProgress
  /-- `ERR_INPROGRESS`, after the callback has run already. -/
  | inside (ip : Option Ip) (e : ResolveEnv)
  /-- Any other code. -/
  | rejected

def askDns (w : World) (i : Slot) : World :=
  { w.log (.query i w.nextQ (w.conn i).host) with nextQ := w.nextQ + 1 }

/-- The resolver keeps the request, to call back later. -/
def queueDns (w : World) (i : Slot) (q : Nat) : World :=
  let older := (w.reqs.filter fun r => r.slot = i).map Request.q
  { w.log (.queued i q older) with reqs := w.reqs ++ [⟨q, i⟩] }

/-- `dns_gethostbyname` and what the proxy does with its return code. -/
def resolve (w : World) (i : Slot) (a : DnsAnswer) : World :=
  let q := w.nextQ
  let w := askDns w i
  match a with
  | .ok ip e => onResolved w i q (some ip) e
  | .inProgress => queueDns w i q
  | .inside ip e => onResolved w i q ip e
  | .rejected => connClose (countFailed w i .dnsRejected) i (some .dnsRejected)

/-! ### Moving bytes

Up is from the client to the peer, down the other way.  What goes up waits in the slot's
buffer, and `tcp_write` takes as much of its head as there is send window.  What goes down
waits in the chain that lwIP delivered: `rx_off` bytes of its first link have been sent
already, and each byte that `send` takes is given back to the receive window.
-/

/-- `pump_up`; `room` is `tcp_sndbuf`, and `took` says that `tcp_write` returned `ERR_OK`. -/
def pumpUp (w : World) (i : Slot) (room : UInt16) (took : Bool) (now : UInt32) : World :=
  let c := w.conn i
  match c.pcb with
  | none => w
  | some x =>
    if c.up.length = 0 then w
    else
      let w := w.touch i x
      if room = 0 then w
      else
        let n := min c.up.length room.toNat
        if !took then w
        else
          let w := w.setConn i { c with up := c.up.drop n, lastMs := now }
          (w.log (.write i (c.up.take n))).count
            fun s => { s with bytesUp := s.bytesUp + UInt64.ofNat n }

/-- What `send` answers: it takes one byte and up to so many more, or it would block, or
it fails. -/
inductive SendResult
  | took (more : Nat)
  | again
  | fail

def skipSpent : List Pbuf → Nat → List Pbuf × Nat
  | [], off => ([], off)
  | p :: rest, off => if p.payload.length ≤ off then skipSpent rest 0 else (p :: rest, off)

/-- `tcp_recved`, if the slot still has a block. -/
def tcpRecved (w : World) (i : Slot) (n : Nat) : World :=
  match (w.conn i).pcb with
  | none => w
  | some x => (w.touch i x).log (.recved i n)

/-- One successful `send` of the first link. -/
def sendSome (w : World) (i : Slot) (b : Bytes) (now : UInt32) : World :=
  let c := w.conn i
  let w := w.setConn i { c with rxOff := c.rxOff + b.length, lastMs := now }
  let w := (w.log (.send i b)).count
    fun s => { s with bytesDown := s.bytesDown + UInt64.ofNat b.length }
  tcpRecved w i b.length

/-- The head of the loop of `pump_down`: spent links go until one with bytes is first. -/
def dropSpent (w : World) (i : Slot) : World :=
  let c := w.conn i
  let r := skipSpent c.rx c.rxOff
  w.setConn i { c with rx := r.1, rxOff := r.2 }

/-- `pump_down`, with the answers of the calls of `send` it makes; when they run out the
next call would block. -/
def pumpDown (w : World) (i : Slot) : List (SendResult × UInt32) → World
  | [] => dropSpent w i
  | (answer, now) :: rest =>
    let w := dropSpent w i
    let c := w.conn i
    match c.rx with
    | [] => w
    | p :: _ =>
      match answer with
      | .again => w
      | .fail => connClose w i (some .clientWriteFailed)
      | .took more => pumpDown (sendSome w i ((p.payload.drop c.rxOff).take (more + 1)) now) i rest

/-! ### Reading from the client -/

/-- What `recv` answers; no bytes mean that the client is done sending. -/
inductive RecvResult
  | bytes (b : Bytes)
  | again
  | fail

/-- `tcp_shutdown(pcb, 0, 1)`; without room for the FIN it is left pending. -/
def tcpShutdown (w : World) (x : PcbId) (sent : Bool) : World :=
  let p := w.pcbs x
  match p.state with
  | .established | .closeWait =>
    w.setPcb x (if sent then p.sendFin else { p with closePend := true })
  | _ => w

/-- What decides the outcome of `handle_client_readable`. -/
structure ReadEnv where
  recv : RecvResult
  now : UInt32
  /-- The FIN of a shutdown can be queued. -/
  finSent : Bool
  dns : DnsAnswer

/-- The sniffing half of `handle_client_readable`, after bytes came in. -/
def sniff (w : World) (i : Slot) (dns : DnsAnswer) : World :=
  let c := w.conn i
  match sniHostname c.up hostCap with
  | some name =>
    let h := hostNormalise (cString name)
    if !h.2 then
      let w := w.count fun s => { s with denied := s.denied + 1 }
      let w := w.setConn i { c with host := [] }
      connClose w i (some .malformedHostname)
    else
      let w := w.setConn i { c with host := h.1 }
      if hostDenied h.1 then
        let w := w.count fun s => { s with denied := s.denied + 1 }
        connClose w i (some .telemetryStaysBlocked)
      else
        resolve (w.setConn i { c with host := h.1, st := .resolving }) i dns
  | none => if c.up.length ≥ sniffLimit then connClose w i (some .noSniFound) else w

def handleClientReadable (w : World) (i : Slot) (e : ReadEnv) : World :=
  let c := w.conn i
  let space := bufSize - c.up.length
  if space = 0 then w
  else
    match e.recv with
    | .again => w
    | .fail => connClose w i (some .clientReadFailed)
    | .bytes b =>
      let b := b.take space
      if b.length = 0 then
        match c.pcb with
        | none => w
        | some x => if c.up.length = 0 then tcpShutdown (w.touch i x) x e.finSent else w
      else
        let w := (w.setConn i { c with up := c.up ++ b, lastMs := e.now }).log (.recv i b)
        if c.st = .sniff then sniff w i e.dns else w

/-! ### The poll loop

One call of `awg_proxy_poll` has three passes over the table: the events `poll` reported,
the sweep for timeouts, and a last pass that moves bytes whatever was reported and retires
the slots that have drained.  A connection accepted in the first pass takes part in the
other two.
-/

/-- `revents` of one connection, and what its handlers meet. -/
structure SlotEnv where
  /-- `POLLERR | POLLHUP | POLLNVAL`. -/
  pollErr : Bool
  pollIn : Bool
  pollOut : Bool
  down : List (SendResult × UInt32)
  read : ReadEnv

/-- What the last pass meets in one connection. -/
structure FinalEnv where
  room : UInt16
  took : Bool
  now : UInt32
  down : List (SendResult × UInt32)

structure PollEnv where
  /-- `poll` returned more than zero. -/
  ready : Bool
  /-- The listener was readable, and `accept` returned this. -/
  accept : Option Int
  acceptNow : UInt32
  slots : Slot → SlotEnv
  sweepNow : UInt32
  final : Slot → FinalEnv

def acceptOn (w : World) (i : Slot) (cfd : Int) (now : UInt32) : World :=
  let w := w.setConn i { Conn.blank with cfd := cfd, st := .sniff, lastMs := now }
  (w.count fun s => { s with accepted := s.accepted + 1 }).log (.accept i)

def pollAccept (w : World) (e : PollEnv) : World :=
  match e.accept with
  | none => w
  | some cfd =>
    if cfd < 0 then w
    else
      match connAlloc w with
      | none => w.count fun s => { s with refused := s.refused + 1 }
      | some i => acceptOn w i cfd e.acceptNow

/-- The events a connection is polled for: `POLLIN`, `POLLOUT`. -/
def wanted (c : Conn) : Bool × Bool := (decide (bufSize - c.up.length > 0), !c.rx.isEmpty)

def polled (w : World) : List Slot :=
  (List.finRange 16).filter fun i =>
    decide ((w.conn i).st ≠ .free) && decide (0 ≤ (w.conn i).cfd) &&
      ((wanted (w.conn i)).1 || (wanted (w.conn i)).2)

/-- The events of one polled connection; `poll` reports what was asked for, and errors. -/
def pollSlot (asked : Slot → Bool × Bool) (e : PollEnv) (w : World) (i : Slot) : World :=
  let s := e.slots i
  if (w.conn i).st = .free then w
  else if s.pollErr then connClose w i (some .clientHungUp)
  else
    let w := if s.pollOut && (asked i).2 then pumpDown w i s.down else w
    if (w.conn i).st ≠ .free ∧ (s.pollIn && (asked i).1) then handleClientReadable w i s.read else w

def sweepSlot (now : UInt32) (w : World) (i : Slot) : World :=
  let c := w.conn i
  if c.st = .free then w
  else
    let idle := now - c.lastMs
    let limit := if c.st = .sniff then sniffTimeoutMs else idleTimeoutMs
    if idle < limit then w
    else
      let w := w.count fun s => { s with timedOut := s.timedOut + 1 }
      connClose w i (some (if c.st = .sniff then .noClientHelloInTime else .idleTooLong))

def sweepIdle (w : World) (now : UInt32) : World := (List.finRange 16).foldl (sweepSlot now) w

/-- A connection is done: counted as completed and closed. -/
def complete (w : World) (i : Slot) : World :=
  let w := w.log (.completed i (w.conn i).peerClosed (w.conn i).unsent)
  connClose (w.count fun s => { s with completed := s.completed + 1 }) i none

/-- One slot of the last pass of `awg_proxy_poll`. -/
def finalSlot (e : PollEnv) (w : World) (i : Slot) : World :=
  let f := e.final i
  if (w.conn i).st = .free then w
  else
    let w := if (w.conn i).st = .relay then pumpUp w i f.room f.took f.now else w
    let w := if (w.conn i).rx.isEmpty then w else pumpDown w i f.down
    if (w.conn i).peerClosed ∧ (w.conn i).rx.isEmpty then complete w i else w

def awgProxyPoll (w : World) (e : PollEnv) : World :=
  if w.listen < 0 then w
  else
    let asked := fun i => wanted (w.conn i)
    let fds := polled w
    let w := if e.ready then fds.foldl (pollSlot asked e) (pollAccept w e) else w
    let w := sweepIdle w e.sweepNow
    (List.finRange 16).foldl (finalSlot e) w

/-! ### Starting and stopping -/

/-- `awg_proxy_start`; `fd` is what `open_listener` returns. -/
def awgProxyStart (w : World) (fd : Int) : World :=
  { w.log .start with
    stats := Stats.zero
    conn := fun i => { w.conn i with st := .free, cfd := -1 }
    listen := fd }

def awgProxyStop (w : World) : World :=
  { (List.finRange 16).foldl (fun w i => connClose w i none) (w.log .stop) with listen := -1 }

def awgProxyLive (w : World) : Nat :=
  (List.finRange 16).countP fun i => decide ((w.conn i).st ≠ .free)

end SysAwg
