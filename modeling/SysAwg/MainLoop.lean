/-
`main_switch.c`: the loop around everything, and `awg_netif.c` under lwIP.

One pass of the loop is a sequence of stages: power events, rebuilding the tunnel, the
handshake and the keepalive, bringing the interface up, the liveness fetch, waiting,
draining the socket, and lwIP's timers.  What the system answers in a pass (the clock,
`awg_power_transition`, `socket`, `sendto`, `poll`, the datagrams) stands in `PassEnv`.

lwIP has no thread of its own.  It runs where a stage calls into it, and there it may hand
any packets to `tunnel_output` and make any of the fetch's callbacks; the proxy is part of
what it runs for.  At each of these places the pair of descriptors is recorded, the one
`main` holds and the copy `tunnel_output` writes to.

Left out is what only the log reads: counters of fetches, rebuilds and sleeps, the status
line, the heartbeat file.  So are the junk packets ahead of an initiation.
-/
import SysAwg.SessionRun

namespace SysAwg

variable (P : Primitives)

/-! ### State -/

inductive HttpState
  | idle
  | connecting
  | sent
  | gotData
  | done
  | failed
  deriving DecidableEq, Repr

/-- A place where `tunnel_output` can run: `fd` of `main`, and `g_fd`. -/
structure OutputPoint where
  fd : Int
  gFd : Int
  deriving DecidableEq, Repr

/-- The locals of `main`, and the statics of `awg_netif.c` and of the fetch. -/
structure Main where
  fd : Int
  /-- `sess`, with its history. -/
  run : Run
  netifUp : Bool
  tunnelLost : Bool
  unreachableSince : UInt64
  nextRebuild : UInt64
  nextPower : UInt64
  nextFetch : UInt64
  gFd : Int
  /-- `g_sess` points to `sess`. -/
  gSess : Bool
  gReady : Bool
  http : HttpState
  /-- `g_pcb` is not NULL. -/
  httpPcb : Bool
  httpBytes : UInt32
  /-- Where lwIP ran, in order. -/
  points : List OutputPoint

/-- `main` at the head of its loop, once `socket` gave it a descriptor. -/
def Main.start (cfg : Config) (fd : Nat) (draws : Fin 5 → Entropy) : Main where
  fd := fd
  run := Run.start cfg draws
  netifUp := false
  tunnelLost := false
  unreachableSince := 0
  nextRebuild := 0
  nextPower := 0
  nextFetch := 0
  gFd := -1
  gSess := false
  gReady := false
  http := .idle
  httpPcb := false
  httpBytes := 0
  points := []

/-! ### lwIP

lwIP reads its own clock, which has 32 bits, and `tunnel_output` stamps the session with
that reading; everything `main` does is stamped with the full clock.
-/

/-- What lwIP can do while it runs. -/
inductive StackAct
  /-- It hands a packet to the interface, at `sys_now()`. -/
  | output (payload : Bytes) (sysNow : UInt32) (e : Entropy)
  /-- `http_on_connected`, with the outcome of its `tcp_write`. -/
  | httpConnected (err written : Bool)
  /-- `http_on_recv` with NULL. -/
  | httpFin
  /-- `http_on_recv` with data. -/
  | httpRecv (err : Bool) (totLen : UInt16)
  /-- `http_on_err`. -/
  | httpErr

/-- `sys_now`: the millisecond clock that `now_ms` reads, cut to 32 bits. -/
def sysNow (clock : UInt64) : UInt32 := clock.toUInt32

def tunnelMtu : Nat := 1400

/-- `tunnel_output`; what `sendto(g_fd, …)` returns goes back to lwIP only. -/
def tunnelOutput (cfg : Config) (m : Main) (payload : Bytes) (sysNow : UInt32) (e : Entropy) :
    Main :=
  if m.gSess = false ∨ m.run.sess.established = false then m
  else if payload.length > tunnelMtu then m
  else { m with run := m.run.step P (.buildData cfg payload 2048 sysNow.toUInt64 e) }

/-- One thing lwIP does.  The fetch has callbacks only while it has a control block. -/
def stackAct (cfg : Config) (m : Main) : StackAct → Main
  | .output payload sysNow e => tunnelOutput P cfg m payload sysNow e
  | .httpConnected err written =>
    if m.httpPcb = false then m
    else if err then { m with http := .failed }
    else { m with http := if written then .sent else .failed }
  | .httpFin =>
    if m.httpPcb = false then m
    else { m with http := if m.httpBytes > 0 then .done else .failed }
  | .httpRecv err totLen =>
    if m.httpPcb = false then m
    else if err then { m with http := .failed }
    else { m with httpBytes := m.httpBytes + totLen.toUInt32, http := .gotData }
  | .httpErr =>
    if m.httpPcb = false then m else { m with httpPcb := false, http := .failed }

/-- A stage calls into lwIP.  Before the interface is up there is nothing to call. -/
def lwipRuns (cfg : Config) (acts : List StackAct) (m : Main) : Main :=
  if m.gReady then
    acts.foldl (stackAct P cfg) { m with points := m.points ++ [⟨m.fd, m.gFd⟩] }
  else m

/-- `http_reset`: the callbacks are taken off before `tcp_abort`. -/
def httpReset (cfg : Config) (acts : List StackAct) (m : Main) : Main :=
  if m.httpPcb then lwipRuns P cfg acts { m with httpPcb := false } else m

/-! ### What the system answers in a pass -/

/-- The errors `sendto` is asked about. -/
inductive Errno
  | epipe
  | ebadf
  | enotconn
  | enotsock
  | enetreset
  | econnaborted
  | econnreset
  | enetunreach
  | enetdown
  | other (code : Nat)
  deriving DecidableEq, Repr

def sockIsDead : Errno → Bool
  | .epipe | .ebadf | .enotconn | .enotsock | .enetreset | .econnaborted | .econnreset => true
  | _ => false

/-- A datagram `recvfrom` returns, when, and what lwIP does if it is handed the contents. -/
structure Received where
  fromPeer : Bool
  pkt : Bytes
  nowMs : UInt64
  acts : List StackAct

structure PassEnv where
  now : UInt64
  /-- `awg_power_transition()`, asked once a second. -/
  power : Bool
  /-- lwIP during `awg_proxy_stop`, at a power event and at a rebuild. -/
  powerStop : List StackAct
  rebuildStop : List StackAct
  /-- `socket()` of a rebuild; nothing is a return of -1. -/
  socket : Option Nat
  draws : Fin 5 → Entropy
  rebuildReset : List StackAct
  idx : Entropy
  eph : Entropy
  nanos : Entropy
  pad : Entropy
  nowSeconds : UInt64
  /-- The error of the initiation's `sendto`, if it failed. -/
  sendError : Option Errno
  /-- `netif_add` succeeded. -/
  netifAdds : Bool
  /-- `http_start`: its reset, `tcp_new` and `tcp_connect`, each with lwIP during it. -/
  fetchReset : List StackAct
  fetchNew : Bool
  fetchNewActs : List StackAct
  fetchConnect : Bool
  fetchConnectActs : List StackAct
  reportReset : List StackAct
  /-- lwIP during `awg_proxy_poll`. -/
  pollActs : List StackAct
  /-- The tunnel socket has `POLLERR`, `POLLHUP` or `POLLNVAL`. -/
  pollErr : Bool
  pollIn : Bool
  datagrams : List Received
  /-- lwIP during `awg_netif_poll`. -/
  timers : List StackAct

/-! ### The stages of a pass

The stages come in the order of the loop body, each a function of the state the one before
it left.  `now` is read once, at the top of a pass; only the drain reads the clock again.
-/

/-- The tunnel is torn down for a sleep. -/
def tearDown (cfg : Config) (e : PassEnv) (m : Main) : Main :=
  let m := lwipRuns P cfg e.powerStop m
  { m with fd := -1, gFd := -1, run := m.run.step P .wipe, tunnelLost := true }

/-- A power transition was reported: the wait for a network begins again, and a tunnel
that is up is dropped. -/
def powerTransition (cfg : Config) (e : PassEnv) (m : Main) : Main :=
  if m.run.sess.established = true ∧ m.tunnelLost = false then
    tearDown P cfg e { m with unreachableSince := 0 }
  else { m with unreachableSince := 0 }

/-- Power events, looked for once a second. -/
def powerStage (cfg : Config) (e : PassEnv) (m : Main) : Main :=
  if e.now ≥ m.nextPower then
    if e.power then powerTransition P cfg e { m with nextPower := e.now + 1000 }
    else { m with nextPower := e.now + 1000 }
  else m

/-- A new socket was obtained. -/
def rebuilt (cfg : Config) (e : PassEnv) (fd : Nat) (m : Main) : Main :=
  let m := { m with fd := fd, gFd := fd, run := m.run.step P (.init cfg e.draws) }
  let m := httpReset P cfg e.rebuildReset m
  { m with http := .idle, nextFetch := 0, tunnelLost := false, unreachableSince := 0 }

/-- Rebuilding, no more often than every three seconds. -/
def rebuildStage (cfg : Config) (e : PassEnv) (m : Main) : Main :=
  if m.tunnelLost = true ∧ e.now ≥ m.nextRebuild then
    let m := lwipRuns P cfg e.rebuildStop { m with nextRebuild := e.now + 3000 }
    match e.socket with
    | none => { m with fd := -1 }
    | some fd => rebuilt P cfg e fd m
  else m

/-- What the outcome of the initiation's `sendto` says about the socket. -/
def afterSend (e : PassEnv) (m : Main) : Main :=
  match e.sendError with
  | none => { m with unreachableSince := 0 }
  | some err =>
    if sockIsDead err then { m with tunnelLost := true }
    else if err = .enetunreach ∨ err = .enetdown then
      if m.unreachableSince = 0 then { m with unreachableSince := e.now }
      else if e.now - m.unreachableSince > 30000 ∧ m.tunnelLost = false then
        { m with tunnelLost := true, unreachableSince := 0 }
      else m
    else m

def handshakeStage (cfg : Config) (e : PassEnv) (m : Main) : Main :=
  if m.fd < 0 then m
  else if awgSessionNeedsHandshake m.run.sess e.now then
    let built := awgSessionBuildInitiation P cfg m.run.sess 4096 e.now e.idx e.eph e.nanos e.pad
      e.nowSeconds
    let m := { m with run := m.run.step P (.buildInitiation cfg 4096 e.now e.idx e.eph e.nanos e.pad
      e.nowSeconds) }
    match built.2 with
    | none => m
    | some _ => afterSend e m
  else if awgSessionNeedsKeepalive m.run.sess e.now then
    { m with run := m.run.step P (.buildKeepalive cfg 4096 e.now e.pad) }
  else m

/-- `awg_netif_start`; the descriptor is stored before anything can fail. -/
def awgNetifStart (e : PassEnv) (m : Main) : Main :=
  let m := { m with gSess := true, gFd := m.fd }
  if e.netifAdds then { m with gReady := true, netifUp := true } else m

/-- The interface goes up once there is a session for it to sit on. -/
def netifStage (e : PassEnv) (m : Main) : Main :=
  if m.run.sess.established = true ∧ m.netifUp = false then awgNetifStart e m else m

def httpStart (cfg : Config) (e : PassEnv) (m : Main) : Main :=
  let m := { httpReset P cfg e.fetchReset m with httpBytes := 0 }
  let m := lwipRuns P cfg e.fetchNewActs m
  if e.fetchNew = false then { m with http := .failed }
  else
    let m := lwipRuns P cfg e.fetchConnectActs { m with httpPcb := true, http := .connecting }
    if e.fetchConnect then m else { m with http := .failed }

/-- The liveness fetch, and its report. -/
def fetchStage (cfg : Config) (e : PassEnv) (m : Main) : Main :=
  let busy := m.http = .connecting ∨ m.http = .sent ∨ m.http = .gotData
  let m := if m.netifUp = true ∧ m.run.sess.established = true ∧ ¬ busy ∧ e.now ≥ m.nextFetch
    then { httpStart P cfg e m with nextFetch := e.now + 300000 } else m
  if m.http = .done ∨ m.http = .failed then
    { httpReset P cfg e.reportReset m with http := .idle }
  else m

/-- One datagram of the drain; the source is checked first. -/
def drainOne (cfg : Config) (m : Main) (d : Received) : Main :=
  if d.fromPeer then
    let o := awgSessionOnDatagram P cfg m.run.drop m.run.sess d.pkt 2048 d.nowMs
    let m := { m with run := m.run.step P (.onDatagram cfg d.pkt 2048 d.nowMs) }
    if o.result = .payload then lwipRuns P cfg d.acts m else m
  else m

/-- Waiting and draining: at most 64 datagrams a pass. -/
def pollStage (cfg : Config) (e : PassEnv) (m : Main) : Main :=
  if m.fd < 0 then m
  else
    let m := if m.netifUp then lwipRuns P cfg e.pollActs m else m
    let m := if e.pollErr then { m with tunnelLost := true } else m
    if e.pollIn then (e.datagrams.take 64).foldl (drainOne P cfg) m else m

def timerStage (cfg : Config) (e : PassEnv) (m : Main) : Main := lwipRuns P cfg e.timers m

def mainPass (cfg : Config) (m : Main) (e : PassEnv) : Main :=
  let m := powerStage P cfg e m
  let m := rebuildStage P cfg e m
  let m := handshakeStage P cfg e m
  let m := netifStage e m
  let m := fetchStage P cfg e m
  let m := pollStage P cfg e m
  timerStage P cfg e m

def mainRun (cfg : Config) (fd : Nat) (draws : Fin 5 → Entropy) (es : List PassEnv) : Main :=
  es.foldl (mainPass P cfg) (Main.start cfg fd draws)

/-! ### Small environments -/

/-- A pass in which nothing happens: no event, no packet, and every call would fail. -/
def PassEnv.quiet (now : UInt64) : PassEnv where
  now := now
  power := false
  powerStop := []
  rebuildStop := []
  socket := none
  draws := fun _ _ => 0
  rebuildReset := []
  idx := fun _ => 0
  eph := fun _ => 0
  nanos := fun _ => 0
  pad := fun _ => 0
  nowSeconds := 0
  sendError := none
  netifAdds := true
  fetchReset := []
  fetchNew := false
  fetchNewActs := []
  fetchConnect := false
  fetchConnectActs := []
  reportReset := []
  pollActs := []
  pollErr := false
  pollIn := false
  datagrams := []
  timers := []

end SysAwg
