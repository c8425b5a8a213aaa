/-
The state the proxy and lwIP share: the connection table of `awg_proxy.c` and the
stack's pool of TCP control blocks.

A control block is a cell of a fixed pool.  A freed cell can be handed out again, so
a slot that keeps the number of a freed cell may find another connection's block
there; that is why cells are numbered instead of being values inside the slots.  A call
on a freed cell has no meaning in C; here it changes nothing, and the history records it.

The history (`trace`, newest first) is not part of the program.  It records the calls
the properties speak about: what went in and out of every socket and block, queries and
answers, and the ways a connection ended.
-/
import SysAwg.Sni
import Mathlib.Logic.Function.Basic

namespace SysAwg

/-- A slot of `g_conn`; there are `MAX_CONN`. -/
abbrev Slot := Fin 16

/-- A cell of the pool of `MEMP_NUM_TCP_PCB` control blocks. -/
abbrev PcbId := Fin 12

abbrev Ip := UInt32

def bufSize : Nat := 8192

def sniffLimit : Nat := 2048

def sniffTimeoutMs : UInt32 := 5000

def idleTimeoutMs : UInt32 := 120000

def hostCap : Nat := 128

/-! ### Connections

`up` holds bytes read from the client and not yet given to `tcp_write`, `rx` what lwIP
delivered and the client was not sent.  The source tells a free slot by its state alone; that
it also holds no block and no bytes then is something to be proved.
-/

inductive ConnState
  | free
  | sniff
  | resolving
  | connecting
  | relay
  deriving DecidableEq, Repr

/-- One link of a pbuf chain; its length is a 16-bit word. -/
structure Pbuf where
  payload : Bytes
  short : payload.length < 65536

def chainBytes (chain : List Pbuf) : Bytes := chain.flatMap Pbuf.payload

structure Conn where
  st : ConnState
  cfd : Int
  pcb : Option PcbId
  host : Bytes
  lastMs : UInt32
  /-- `up[0 .. up_len)`. -/
  up : Bytes
  /-- The chain at `rx_head`. -/
  rx : List Pbuf
  rxOff : Nat
  peerClosed : Bool

/-- `memset(c, 0, sizeof(*c))`. -/
def Conn.zero : Conn where
  st := .free
  cfd := 0
  pcb := none
  host := []
  lastMs := 0
  up := []
  rx := []
  rxOff := 0
  peerClosed := false

/-- What `conn_close` and `conn_alloc` leave. -/
def Conn.blank : Conn := { Conn.zero with cfd := -1 }

/-- What the application has not been sent yet. -/
def Conn.unsent (c : Conn) : Bytes :=
  match c.rx with
  | [] => []
  | p :: rest => p.payload.drop c.rxOff ++ chainBytes rest

/-- `awg_proxy_stats`; connections are counted without a bound, bytes in 64-bit words. -/
structure Stats where
  accepted : Nat
  refused : Nat
  denied : Nat
  resolved : Nat
  connected : Nat
  completed : Nat
  failed : Nat
  closed : Nat
  timedOut : Nat
  bytesUp : UInt64
  bytesDown : UInt64

/-- `memset(&g_stats, 0, sizeof(g_stats))`. -/
def Stats.zero : Stats := ⟨0, 0, 0, 0, 0, 0, 0, 0, 0, 0, 0⟩

/-- The reasons `conn_close` is given, in the words of its callers. -/
inductive Why
  | connectFailed
  | dnsFailed
  | noPcb
  | connectRefusedLocally
  | clientWriteFailed
  | clientReadFailed
  | malformedHostname
  | telemetryStaysBlocked
  | dnsRejected
  | noSniFound
  | noClientHelloInTime
  | idleTooLong
  | clientHungUp
  deriving DecidableEq, Repr

/-! ### Control blocks -/

/-- `enum tcp_state`, as far as a connecting block gets. -/
inductive TcpState
  | closed
  | synSent
  | established
  | finWait1
  | finWait2
  | closeWait
  | closing
  | lastAck
  | timeWait
  deriving DecidableEq, Repr

/-- A cell of the pool. -/
structure Pcb where
  /-- The cell is handed out. -/
  live : Bool
  state : TcpState
  /-- `callback_arg`, if it points to a slot. -/
  arg : Option Slot
  recvFn : Bool
  errFn : Bool
  connectedFn : Bool
  /-- `TF_CLOSEPEND`. -/
  closePend : Bool
  deriving DecidableEq

/-- A cell that is not handed out. -/
def Pcb.freed : Pcb := ⟨false, .closed, none, false, false, false, false⟩

/-- What `tcp_alloc` leaves in a cell. -/
def Pcb.fresh : Pcb := ⟨true, .closed, none, false, false, false, false⟩

/-- `tcp_close_shutdown_fin` on a block whose FIN could be queued. -/
def Pcb.sendFin (p : Pcb) : Pcb :=
  match p.state with
  | .established => { p with state := .finWait1 }
  | .closeWait => { p with state := .lastAck }
  | _ => p

/-! ### The world

Beside the memory of the two components it holds the number of the next query, which the
source does not have, so that the history can tell calls of the resolver apart.
-/

/-- How a connection failed, where `g_stats.failed` counts it. -/
inductive Failure
  | dnsFailed
  | noPcb
  | connectRefusedLocally
  | dnsRejected
  | connectFailed
  /-- The err callback. -/
  | lwipErr
  deriving DecidableEq, Repr

/-- An entry of the history. -/
inductive Event
  | start
  | stop
  /-- A connection was accepted into the slot. -/
  | accept (i : Slot)
  /-- `recv` returned these bytes. -/
  | recv (i : Slot) (b : Bytes)
  /-- `tcp_write` took these bytes. -/
  | write (i : Slot) (b : Bytes)
  /-- `on_recv` was handed these bytes with `ERR_OK`. -/
  | deliver (i : Slot) (b : Bytes)
  /-- `send` took these bytes. -/
  | send (i : Slot) (b : Bytes)
  /-- `tcp_recved` was called for so many bytes. -/
  | recved (i : Slot) (n : Nat)
  /-- The connection was counted as completed, with this `peer_closed` and remainder. -/
  | completed (i : Slot) (peerClosed : Bool) (rest : Bytes)
  /-- The connection was counted as failed. -/
  | failed (i : Slot) (how : Failure)
  /-- `dns_gethostbyname` was called: the call's number and the host. -/
  | query (i : Slot) (q : Nat) (host : Bytes)
  /-- It returned `ERR_INPROGRESS`; the calls with the same slot still unanswered. -/
  | queued (i : Slot) (q : Nat) (older : List Nat)
  /-- A result of that call was used for the slot, which holds this host. -/
  | answered (i : Slot) (q : Nat) (host : Bytes) (ip : Option Ip)
  /-- The stack freed a block in TIME_WAIT, with this callback argument. -/
  | reclaim (x : PcbId) (arg : Option Slot)
  /-- The proxy acted on the block its slot holds, in this condition. -/
  | touch (i : Slot) (x : PcbId) (live : Bool) (arg : Option Slot)
  deriving DecidableEq

/-- A request in `dns_requests`: the number of the call and its `arg`. -/
structure Request where
  q : Nat
  slot : Slot
  deriving DecidableEq

structure World where
  conn : Slot → Conn
  /-- `g_listen`. -/
  listen : Int
  stats : Stats
  pcbs : PcbId → Pcb
  reqs : List Request
  /-- The number of the next call of `dns_gethostbyname`. -/
  nextQ : Nat
  trace : List Event

/-- Static storage, before anything ran. -/
def World.boot : World where
  conn := fun _ => Conn.zero
  listen := -1
  stats := Stats.zero
  pcbs := fun _ => Pcb.freed
  reqs := []
  nextQ := 0
  trace := []

namespace World

def log (w : World) (e : Event) : World := { w with trace := e :: w.trace }

def setConn (w : World) (i : Slot) (c : Conn) : World :=
  { w with conn := Function.update w.conn i c }

def setPcb (w : World) (x : PcbId) (p : Pcb) : World :=
  { w with pcbs := Function.update w.pcbs x p }

def count (w : World) (f : Stats → Stats) : World := { w with stats := f w.stats }

/-- Record that the proxy acts on the block a slot holds. -/
def touch (w : World) (i : Slot) (x : PcbId) : World :=
  w.log (.touch i x (w.pcbs x).live (w.pcbs x).arg)

section Fields

variable (w : World) (e : Event) (i : Slot) (c : Conn) (x : PcbId) (p : Pcb) (f : Stats → Stats)

@[simp] theorem log_conn : (w.log e).conn = w.conn := rfl
@[simp] theorem log_stats : (w.log e).stats = w.stats := rfl
@[simp] theorem log_pcbs : (w.log e).pcbs = w.pcbs := rfl
@[simp] theorem log_reqs : (w.log e).reqs = w.reqs := rfl
@[simp] theorem log_nextQ : (w.log e).nextQ = w.nextQ := rfl
@[simp] theorem log_trace : (w.log e).trace = e :: w.trace := rfl
@[simp] theorem setConn_conn : (w.setConn i c).conn = Function.update w.conn i c := rfl
@[simp] theorem setConn_stats : (w.setConn i c).stats = w.stats := rfl
@[simp] theorem setConn_pcbs : (w.setConn i c).pcbs = w.pcbs := rfl
@[simp] theorem setConn_reqs : (w.setConn i c).reqs = w.reqs := rfl
@[simp] theorem setConn_nextQ : (w.setConn i c).nextQ = w.nextQ := rfl
@[simp] theorem setConn_trace : (w.setConn i c).trace = w.trace := rfl
@[simp] theorem setPcb_conn : (w.setPcb x p).conn = w.conn := rfl
@[simp] theorem setPcb_stats : (w.setPcb x p).stats = w.stats := rfl
@[simp] theorem setPcb_pcbs : (w.setPcb x p).pcbs = Function.update w.pcbs x p := rfl
@[simp] theorem setPcb_reqs : (w.setPcb x p).reqs = w.reqs := rfl
@[simp] theorem setPcb_nextQ : (w.setPcb x p).nextQ = w.nextQ := rfl
@[simp] theorem setPcb_trace : (w.setPcb x p).trace = w.trace := rfl
@[simp] theorem count_conn : (w.count f).conn = w.conn := rfl
@[simp] theorem count_stats : (w.count f).stats = f w.stats := rfl
@[simp] theorem count_pcbs : (w.count f).pcbs = w.pcbs := rfl
@[simp] theorem count_reqs : (w.count f).reqs = w.reqs := rfl
@[simp] theorem count_nextQ : (w.count f).nextQ = w.nextQ := rfl
@[simp] theorem count_trace : (w.count f).trace = w.trace := rfl
@[simp] theorem touch_conn : (w.touch i x).conn = w.conn := rfl
@[simp] theorem touch_stats : (w.touch i x).stats = w.stats := rfl
@[simp] theorem touch_pcbs : (w.touch i x).pcbs = w.pcbs := rfl
@[simp] theorem touch_reqs : (w.touch i x).reqs = w.reqs := rfl
@[simp] theorem touch_nextQ : (w.touch i x).nextQ = w.nextQ := rfl
@[simp] theorem touch_trace : (w.touch i x).trace
    = .touch i x (w.pcbs x).live (w.pcbs x).arg :: w.trace := rfl

end Fields

/-- A cell with a property, the wanted one if it has it. -/
def pick (w : World) (p : Pcb → Bool) (want : PcbId) : Option PcbId :=
  if p (w.pcbs want) then some want else (List.finRange 12).find? fun x => p (w.pcbs x)

end World

end SysAwg
