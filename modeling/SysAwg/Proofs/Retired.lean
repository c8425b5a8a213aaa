/-
Retired keys, and for how long they are good.

A rekey moves the keypair in `cur` to `prev` and copies the new one from `pending`, where
it stays as well.  `prev` is overwritten by the next rekey, and cleared by the first
transport datagram that comes more than `AWG_PREV_KEEP_MS` after the last; `pending` is
cleared when the next initiation is built.  `SlotsOk` says whose keys each of the three
places holds, by the number of the establishment that installed them: the last one's, the
one's before it, or none.
-/
import SysAwg.Proofs.Sleep
import SysAwg.Proofs.Expiry

namespace SysAwg

variable (P : Primitives)

/-! ### The three places -/

def Handshake.keys (hs : Handshake) : Key × Key := (hs.sendKey, hs.recvKey)

def Handshake.Keyless (hs : Handshake) : Prop := hs.keys = (Key.zero, Key.zero)

/-- What a session keeps of its keypairs. -/
structure Slots where
  cur : Handshake
  established : Bool
  prev : Handshake
  havePrev : Bool
  prevSinceMs : UInt64
  pendingKeys : Key × Key

def Session.slots (s : Session) : Slots :=
  ⟨s.cur, s.established, s.prev, s.havePrev, s.prevSinceMs, s.pending.keys⟩

/-- Whose keys the places hold: `installed` are the keypairs established so far, and
`times` when they were. -/
structure SlotsOk (sl : Slots) (curId prevId : Nat) (installed : List Handshake)
    (times : List UInt64) : Prop where
  dated : times.length = installed.length
  cur : sl.established = true → curId + 1 = installed.length ∧ installed[curId]? = some sl.cur
  noCur : sl.established = false → sl.cur.Keyless
  prev : sl.havePrev = true → sl.established = true ∧ prevId + 2 = installed.length ∧
    installed[prevId]? = some sl.prev ∧ times[prevId + 1]? = some sl.prevSinceMs
  noPrev : sl.havePrev = false → sl.prev.Keyless
  pending : sl.pendingKeys = (Key.zero, Key.zero) ∨
    ∃ n hs, n + 1 = installed.length ∧ installed[n]? = some hs ∧ sl.pendingKeys = hs.keys

theorem slotsOk_zero {sl : Slots} (hcur : sl.cur = Handshake.zero) (hest : sl.established = false)
    (hprev : sl.prev = Handshake.zero) (hhave : sl.havePrev = false)
    (hpending : sl.pendingKeys = (Key.zero, Key.zero)) {curId prevId : Nat}
    {installed : List Handshake} {times : List UInt64} (h : times.length = installed.length) :
    SlotsOk sl curId prevId installed times where
  dated := h
  cur := by simp [hest]
  noCur := fun _ => by rw [hcur]; rfl
  prev := by simp [hhave]
  noPrev := fun _ => by rw [hprev]; rfl
  pending := .inl hpending

theorem SlotsOk.clearPending {sl : Slots} {curId prevId : Nat} {installed : List Handshake}
    {times : List UInt64} (h : SlotsOk sl curId prevId installed times) :
    SlotsOk { sl with pendingKeys := (Key.zero, Key.zero) } curId prevId installed times where
  dated := h.dated
  cur := h.cur
  noCur := h.noCur
  prev := h.prev
  noPrev := h.noPrev
  pending := .inl rfl

theorem SlotsOk.expirePrev {s : Session} {curId prevId : Nat} {installed : List Handshake}
    {times : List UInt64} (h : SlotsOk s.slots curId prevId installed times) (nowMs : UInt64) :
    SlotsOk (s.expirePrev nowMs).slots curId prevId installed times := by
  unfold Session.expirePrev
  split
  · exact ⟨h.dated, h.cur, h.noCur, fun hhave => Bool.noConfusion hhave, fun _ => rfl, h.pending⟩
  · exact h

/-- A handshake that completes installs one keypair, in `cur` and `pending`, and retires
the one before. -/
theorem SlotsOk.promote {s : Session} {pending : Handshake} {nowMs : UInt64} {curId prevId : Nat}
    {installed : List Handshake} {times : List UInt64}
    (h : SlotsOk s.slots curId prevId installed times) :
    SlotsOk ({ s with pending := pending }.promote nowMs).slots installed.length
      (if s.established then curId else prevId)
      (installed ++ [({ s with pending := pending }.promote nowMs).cur]) (times ++ [nowMs]) where
  dated := by
    have := h.dated
    simp [this]
  cur := fun _ => ⟨by simp, by simp [Session.slots]⟩
  noCur := by simp [Session.slots, Session.promote]
  prev := by
    intro hhave
    by_cases hest : s.established = true
    · obtain ⟨hlast, hcur⟩ := h.cur hest
      have hcur' : installed[curId]? = some s.cur := hcur
      have htimes : curId + 1 = times.length := hlast.trans h.dated.symm
      refine ⟨rfl, ?_, ?_, ?_⟩
      · simp [hest, ← hlast]
      · rw [if_pos hest, getElem?_installed_mono hcur']
        simp [Session.slots, Session.promote, hest]
      · rw [if_pos hest, htimes, List.getElem?_append_right le_rfl]
        simp [Session.slots, Session.promote, hest]
    · -- without keys there was no `prev` either
      have hf : s.established = false := by simpa using hest
      have hsame := promote_first (s := { s with pending := pending }) hf nowMs
      exact absurd (h.prev (hsame.symm.trans hhave)).1 hest
  noPrev := by
    intro hhave
    by_cases hest : s.established = true
    · simp [Session.slots, Session.promote, hest] at hhave
    · have hf : s.established = false := by simpa using hest
      have hsame := promote_first (s := { s with pending := pending }) hf nowMs
      have hnone : s.havePrev = false := hsame.symm.trans hhave
      have hprev : ({ s with pending := pending }.promote nowMs).prev = s.prev := by
        simp [Session.promote, hf]
      show ({ s with pending := pending }.promote nowMs).prev.Keyless
      rw [hprev]
      exact h.noPrev hnone
  pending := by
    refine .inr ⟨installed.length, ({ s with pending := pending }.promote nowMs).cur, ?_, ?_, ?_⟩
    · simp
    · simp
    · simp [Session.slots, Session.promote]

/-! ### What a call does to them

Keys move between the places in two calls only: building an initiation starts `pending`
over, and a datagram may promote it.  Everything else leaves all three as they are or
forgets `prev`.
-/

theorem createInitiation_keys (hs : Handshake) (eph nanos : Entropy) (nowSeconds : UInt64) :
    (awgCreateInitiation P hs eph nanos nowSeconds).1.keys = hs.keys := by
  unfold awgCreateInitiation
  dsimp only
  split
  · rfl
  · split
    · rfl
    · rfl

/-- A response that is refused leaves the keys as they are. -/
theorem consumeResponse_keys {hs hs' : Handshake} {input : Bytes}
    (h : awgConsumeResponse P hs input = (hs', false)) : hs'.keys = hs.keys := by
  have hkeys : (awgConsumeResponse P hs input).2 = false →
      (awgConsumeResponse P hs input).1.keys = hs.keys := by
    unfold awgConsumeResponse
    dsimp only
    split
    · exact fun _ => rfl
    · split
      · exact fun _ => rfl
      · split
        · exact fun _ => rfl
        · split
          · exact fun _ => rfl
          · split
            · exact fun _ => rfl
            · split
              · exact fun _ => rfl
              · exact fun hfalse => Bool.noConfusion hfalse
  rw [h] at hkeys
  exact hkeys rfl

/-- Building an initiation clears the keys in `pending`, even when it fails. -/
theorem buildInitiation_slots (cfg : Config) (s : Session) (outCap : Int) (nowMs : UInt64)
    (idx eph nanos pad : Entropy) (nowSeconds : UInt64) :
    (awgSessionBuildInitiation P cfg s outCap nowMs idx eph nanos pad nowSeconds).1.slots
      = { s.slots with pendingKeys := (Key.zero, Key.zero) } := by
  have hkeys := createInitiation_keys P (awgHandshakeBegin P cfg.privateKey
    (some cfg.peerPublicKey) (if cfg.havePresharedKey then some cfg.presharedKey else none)
    (awgRandomWord idx)) eph nanos nowSeconds
  unfold awgSessionBuildInitiation
  dsimp only
  split
  · rename_i pending hcreate
    rw [hcreate] at hkeys
    show { s.slots with pendingKeys := pending.keys } = _
    rw [hkeys]
    rfl
  · rename_i pending msg hcreate
    rw [hcreate] at hkeys
    split
    · show { s.slots with pendingKeys := pending.keys } = _
      rw [hkeys]
      rfl
    · show { s.slots with pendingKeys := pending.keys } = _
      rw [hkeys]
      rfl

theorem buildData_slots (cfg : Config) (s : Session) (payload : Bytes) (outCap : Int)
    (nowMs : UInt64) (e : Entropy) :
    (awgSessionBuildData P cfg s payload outCap nowMs e).1.slots = s.slots := by
  unfold awgSessionBuildData
  split
  · rfl
  · split
    · rfl
    · split
      · rfl
      · rfl

theorem buildKeepalive_slots (cfg : Config) (s : Session) (outCap : Int) (nowMs : UInt64)
    (e : Entropy) : (awgSessionBuildKeepalive P cfg s outCap nowMs e).1.slots = s.slots := by
  obtain ⟨keepalives, packets, heq⟩ := buildKeepalive_eq P cfg s outCap nowMs e
  rw [heq]
  exact buildData_slots P cfg s [] outCap nowMs e

/-- A datagram is handled as a transport packet. -/
def HandledAsTransport (s : Session) : Op → Prop
  | .onDatagram cfg pkt _ _ => s.established = true ∧
    ¬ (s.handshaking = true ∧ (pkt.length : Int) = cfg.s2 + awgMsgRespSize)
  | _ => False

/-- What handling a datagram does to the places. -/
inductive SlotStep (s : Session) (transport : Prop) (nowMs : UInt64) (o : RxOutcome) : Prop
  /-- The pending handshake was answered. -/
  | install (pending : Handshake) (hresult : o.result = .established) (hnot : ¬ transport)
      (hsess : o.sess = { s with pending := pending }.promote nowMs)
  /-- Nothing. -/
  | idle (hresult : o.result ≠ .established) (hopened : o.opened = none)
      (hnot : ¬ transport) (hslots : o.sess.slots = s.slots)
  /-- The keypair in `prev` is forgotten if its time is up, and only then the datagram is
  opened. -/
  | transport (hest : s.established = true) (hresult : o.result ≠ .established)
      (hexpired : o.sess.slots = (s.expirePrev nowMs).slots)
      (hopened : ∀ ctr, o.opened = some (true, ctr) → (s.expirePrev nowMs).havePrev = true)

theorem rxTransport_slots (cfg : Config) (g : ReplayDrop) (s : Session) (pkt : Bytes)
    (payloadCap : Int) (nowMs : UInt64) (hest : s.established = true) (transport : Prop) :
    SlotStep s transport nowMs (rxTransport P cfg g s pkt payloadCap nowMs) := by
  unfold rxTransport
  dsimp only
  split
  · obtain ⟨hrest, hresult, ctr, hopened⟩ := rxOpened_unreceived g (s.expirePrev nowMs)
      (awgTransportOpen P cfg (s.expirePrev nowMs).cur pkt payloadCap) false nowMs
    have hslots := congrArg Session.slots hrest
    refine .transport hest hresult hslots ?_
    intro ctr' hprev
    rw [hopened] at hprev
    cases hprev
  · split
    · rename_i hhave
      split
      · obtain ⟨hrest, hresult, -⟩ := rxOpened_unreceived g (s.expirePrev nowMs)
          (awgTransportOpen P cfg (s.expirePrev nowMs).prev
            (awgTransportOpen P cfg (s.expirePrev nowMs).cur pkt payloadCap).pkt payloadCap)
          true nowMs
        have hslots := congrArg Session.slots hrest
        exact .transport hest hresult hslots fun _ _ => hhave
      · exact .transport hest (by simp) rfl (by simp)
    · exact .transport hest (by simp) rfl (by simp)

/-- **What a datagram can do to the keys a session holds.** -/
theorem onDatagram_slots (cfg : Config) (g : ReplayDrop) (s : Session) (pkt : Bytes)
    (payloadCap : Int) (nowMs : UInt64) :
    SlotStep s (HandledAsTransport s (.onDatagram cfg pkt payloadCap nowMs)) nowMs
      (awgSessionOnDatagram P cfg g s pkt payloadCap nowMs) := by
  unfold awgSessionOnDatagram
  dsimp only
  split
  · rename_i hanswer
    have hnot : ¬ HandledAsTransport s (.onDatagram cfg pkt payloadCap nowMs) :=
      fun h => h.2 hanswer
    split
    · exact .idle (by simp) rfl hnot rfl
    · split
      · rename_i pending hconsume
        refine .idle (by simp) rfl hnot ?_
        show { s.slots with pendingKeys := pending.keys } = _
        rw [consumeResponse_keys P hconsume]
        rfl
      · exact .install _ rfl hnot rfl
  · split
    · rename_i hest
      exact .idle (by simp) rfl (fun h => by simp [h.1] at hest) rfl
    · rename_i hest
      exact rxTransport_slots P cfg g s pkt payloadCap nowMs (by simpa using hest) _

/-! ### Runs with dates

The claim is about times, and the session remembers only one of them.  A run with dates
remembers when each keypair was established, beside the run and without touching it.
-/

/-- A run, with the time of every establishment. -/
structure Dated where
  run : Run
  times : List UInt64

def Dated.start (cfg : Config) (draws : Fin 5 → Entropy) : Dated := ⟨Run.start cfg draws, []⟩

theorem Dated.start_run (cfg : Config) (draws : Fin 5 → Entropy) :
    (Dated.start cfg draws).run = Run.start cfg draws := rfl

/-- One operation; one that installs a keypair dates it by the reading it was given. -/
def Dated.step (d : Dated) (op : Op) : Dated where
  run := d.run.step P op
  times :=
    if (installedIn d.run.log).length < (installedIn (d.run.step P op).log).length
    then d.times ++ op.nowMs.toList else d.times

def Dated.exec (d : Dated) (ops : List Op) : Dated := ops.foldl (Dated.step P) d

/-- The dates change nothing about the run. -/
theorem Dated.exec_run (d : Dated) (ops : List Op) : (d.exec P ops).run = d.run.exec P ops := by
  induction ops generalizing d with
  | nil => rfl
  | cons op ops ih => exact ih (d.step P op)

theorem Dated.exec_append (d : Dated) (ops later : List Op) :
    d.exec P (ops ++ later) = (d.exec P ops).exec P later :=
  List.foldl_append

/-- An operation that installs nothing. -/
theorem Dated.step_times {d : Dated} {op : Op}
    (h : installedIn (d.run.step P op).log = installedIn d.run.log) :
    (d.step P op).times = d.times := by
  unfold Dated.step
  dsimp only
  rw [h, if_neg (Nat.lt_irrefl _)]

theorem Dated.mem_times (ops : List Op) :
    ∀ (d : Dated), ∀ t ∈ (d.exec P ops).times, t ∈ d.times ∨ t ∈ ops.filterMap Op.nowMs := by
  induction ops with
  | nil =>
      intro d t ht
      exact .inl ht
  | cons op ops ih =>
      intro d t ht
      rw [List.filterMap_cons]
      rcases ih (d.step P op) t ht with hstep | hlater
      · unfold Dated.step at hstep
        dsimp only at hstep
        split at hstep
        · rcases List.mem_append.mp hstep with hold | hnow
          · exact .inl hold
          · rw [Option.mem_toList] at hnow
            rw [hnow]
            exact .inr (List.mem_cons_self ..)
        · exact .inl hstep
      · refine .inr ?_
        cases op.nowMs with
        | none => exact hlater
        | some now => exact List.mem_cons_of_mem _ hlater

/-- The places hold what `SlotsOk` says. -/
def Dated.Ok (d : Dated) : Prop :=
  SlotsOk d.run.sess.slots d.run.curId d.run.prevId (installedIn d.run.log) d.times

/-! ### The invariant

The invariant is kept by every call whatever the clock does.  Only the conclusions drawn
from it need a clock that does not go back.
-/

theorem logSeal_places (r : Run) (out : Session × Option (Int × Bytes)) :
    (r.logSeal out).sess = out.1 ∧ (r.logSeal out).curId = r.curId ∧
      (r.logSeal out).prevId = r.prevId ∧ installedIn (r.logSeal out).log = installedIn r.log := by
  obtain ⟨s, sealed⟩ := out
  cases sealed with
  | none => exact ⟨rfl, rfl, rfl, rfl⟩
  | some packet => exact ⟨rfl, rfl, rfl, by simp [Run.logSeal]⟩

theorem Dated.Ok.keep {d : Dated} {op : Op} {sl : Slots}
    (hslots : (d.run.step P op).sess.slots = sl) (hcur : (d.run.step P op).curId = d.run.curId)
    (hprev : (d.run.step P op).prevId = d.run.prevId)
    (hinst : installedIn (d.run.step P op).log = installedIn d.run.log)
    (h : SlotsOk sl d.run.curId d.run.prevId (installedIn d.run.log) d.times) :
    (d.step P op).Ok := by
  unfold Dated.Ok
  rw [Dated.step_times P hinst]
  show SlotsOk (d.run.step P op).sess.slots (d.run.step P op).curId (d.run.step P op).prevId
    (installedIn (d.run.step P op).log) d.times
  rw [hslots, hcur, hprev, hinst]
  exact h

theorem Dated.Ok.sealing {d : Dated} (h : d.Ok) {op : Op} {out : Session × Option (Int × Bytes)}
    (hstep : d.run.step P op = d.run.logSeal out) (hslots : out.1.slots = d.run.sess.slots) :
    (d.step P op).Ok := by
  obtain ⟨hsess, hcur, hprev, hinst⟩ := logSeal_places d.run out
  rw [← hstep] at hsess hcur hprev hinst
  refine Dated.Ok.keep P ?_ hcur hprev hinst h
  rw [hsess, hslots]

theorem Dated.Ok.onDatagram {d : Dated} (h : d.Ok) (cfg : Config) (pkt : Bytes) (payloadCap : Int)
    (nowMs : UInt64) : (d.step P (.onDatagram cfg pkt payloadCap nowMs)).Ok := by
  have hslots := onDatagram_slots P cfg d.run.drop d.run.sess pkt payloadCap nowMs
  have hsess := logRx_sess d.run
    (awgSessionOnDatagram P cfg d.run.drop d.run.sess pkt payloadCap nowMs)
  cases hslots with
  | install pending hresult _ hpromote =>
      have hrun : d.run.step P (.onDatagram cfg pkt payloadCap nowMs) = _ :=
        logRx_established hresult
      have htimes : (d.step P (.onDatagram cfg pkt payloadCap nowMs)).times
          = d.times ++ [nowMs] := by
        unfold Dated.step
        dsimp only
        rw [hrun]
        simp [Op.nowMs]
      unfold Dated.Ok
      rw [htimes]
      show SlotsOk (d.run.step P (.onDatagram cfg pkt payloadCap nowMs)).sess.slots
        (d.run.step P (.onDatagram cfg pkt payloadCap nowMs)).curId
        (d.run.step P (.onDatagram cfg pkt payloadCap nowMs)).prevId
        (installedIn (d.run.step P (.onDatagram cfg pkt payloadCap nowMs)).log) _
      rw [hrun]
      dsimp only
      rw [installedIn_installed, hpromote]
      exact SlotsOk.promote h
  | idle hresult _ _ hsame =>
      obtain ⟨hcur, hprev, hinst⟩ := logRx_other (r := d.run) hresult
      exact Dated.Ok.keep P ((congrArg Session.slots hsess).trans hsame) hcur hprev hinst h
  | transport _ hresult hexpired _ =>
      obtain ⟨hcur, hprev, hinst⟩ := logRx_other (r := d.run) hresult
      exact Dated.Ok.keep P ((congrArg Session.slots hsess).trans hexpired) hcur hprev hinst
        (h.expirePrev nowMs)

theorem Dated.Ok.step {d : Dated} (h : d.Ok) (op : Op) : (d.step P op).Ok := by
  cases op with
  | init cfg draws => exact Dated.Ok.keep P rfl rfl rfl rfl (slotsOk_zero rfl rfl rfl rfl rfl h.dated)
  | buildInitiation cfg outCap nowMs idx eph nanos pad nowSeconds =>
      exact Dated.Ok.keep P
        (buildInitiation_slots P cfg d.run.sess outCap nowMs idx eph nanos pad nowSeconds) rfl rfl
        rfl h.clearPending
  | buildData cfg payload outCap nowMs e =>
      exact h.sealing P rfl (buildData_slots P cfg d.run.sess payload outCap nowMs e)
  | buildKeepalive cfg outCap nowMs e =>
      exact h.sealing P rfl (buildKeepalive_slots P cfg d.run.sess outCap nowMs e)
  | onDatagram cfg pkt payloadCap nowMs => exact h.onDatagram P cfg pkt payloadCap nowMs
  | wipe => exact Dated.Ok.keep P rfl rfl rfl rfl (slotsOk_zero rfl rfl rfl rfl rfl h.dated)

theorem Dated.Ok.exec {d : Dated} (h : d.Ok) (ops : List Op) : (d.exec P ops).Ok :=
  List.foldlRecOn ops _ h fun _ hd op _ => hd.step P op

theorem Dated.start_ok (cfg : Config) (draws : Fin 5 → Entropy) : (Dated.start cfg draws).Ok :=
  slotsOk_zero rfl rfl rfl rfl rfl rfl

/-! ### What is accepted, and what is held

What a datagram opened under is known from the place it opened in, and the invariant says
whose keys were there.  That a keypair is gone means more: no place may come to hold its
keys again, which follows because keypairs only move towards `prev`.
-/

/-- A call that accepts a datagram is one of `awg_session_on_datagram`, and the datagram
opened under the keypair in `cur` or the one in `prev`. -/
theorem logRx_accepted {r : Run} {o : RxOutcome} {id : Nat} {hs : Handshake} {ctr : UInt64}
    (h : (r.logRx o).log = r.log ++ [.accepted id hs ctr]) :
    o.result ≠ .established ∧
      ((o.opened = some (false, ctr) ∧ id = r.curId ∧ hs = r.sess.cur) ∨
        (o.opened = some (true, ctr) ∧ id = r.prevId ∧ hs = r.sess.prev)) := by
  have hgrew : r.log ≠ r.log ++ [.accepted id hs ctr] := by
    intro hsame
    have := congrArg List.length hsame
    simp at this
  unfold Run.logRx at h
  dsimp only at h
  split at h
  · have hlast := List.append_cancel_left h
    cases hlast
  · exact absurd h hgrew
  · rename_i onPrev counter hopened hest _
    refine ⟨hest, ?_⟩
    have hlast := List.append_cancel_left h
    cases onPrev with
    | false =>
        cases hlast
        exact .inl ⟨hopened, rfl, rfl⟩
    | true =>
        cases hlast
        exact .inr ⟨hopened, rfl, rfl⟩
  · exact absurd h hgrew

theorem step_accepted {r : Run} {op : Op} {id : Nat} {hs : Handshake} {ctr : UInt64}
    (h : (r.step P op).log = r.log ++ [.accepted id hs ctr]) :
    ∃ cfg pkt payloadCap nowMs, op = .onDatagram cfg pkt payloadCap nowMs := by
  have hgrew : r.log ≠ r.log ++ [.accepted id hs ctr] := by
    intro hsame
    have := congrArg List.length hsame
    simp at this
  have hseal : ∀ out, (r.logSeal out).log ≠ r.log ++ [.accepted id hs ctr] := by
    rintro ⟨s, sealed⟩ hlog
    cases sealed with
    | none => exact hgrew hlog
    | some packet =>
        have hlast := List.append_cancel_left hlog
        cases hlast
  cases op with
  | init cfg draws => exact absurd h hgrew
  | buildInitiation cfg outCap nowMs idx eph nanos pad nowSeconds => exact absurd h hgrew
  | buildData cfg payload outCap nowMs e => exact absurd h (hseal _)
  | buildKeepalive cfg outCap nowMs e => exact absurd h (hseal _)
  | onDatagram cfg pkt payloadCap nowMs => exact ⟨cfg, pkt, payloadCap, nowMs, rfl⟩
  | wipe => exact absurd h hgrew

/-- A keypair that is still in `prev` after the check is within its time. -/
theorem expirePrev_within {s : Session} {nowMs : UInt64} (hle : s.prevSinceMs ≤ nowMs)
    (h : (s.expirePrev nowMs).havePrev = true) :
    s.havePrev = true ∧ nowMs.toNat ≤ s.prevSinceMs.toNat + 180000 := by
  unfold Session.expirePrev at h
  split at h
  · cases h
  · rename_i hnot
    have hkeep : ¬ nowMs - s.prevSinceMs > awgPrevKeepMs := fun hgt => hnot ⟨h, hgt⟩
    refine ⟨h, ?_⟩
    have hsub : (nowMs - s.prevSinceMs).toNat = nowMs.toNat - s.prevSinceMs.toNat :=
      UInt64.toNat_sub_of_le _ _ hle
    rw [gt_iff_lt, UInt64.lt_iff_toNat_lt, hsub] at hkeep
    have hms : awgPrevKeepMs.toNat = 180000 := by decide
    omega

/-- A handshake whose keys are none, or those of a keypair installed after the one with
this number. -/
def HoldsLater (id : Nat) (installed : List Handshake) (hs : Handshake) : Prop :=
  hs.Keyless ∨ ∃ n later, id < n ∧ installed[n]? = some later ∧ hs.keys = later.keys

/-- No place of the session holds the keys of that keypair. -/
structure NotHeld (id : Nat) (r : Run) : Prop where
  cur : HoldsLater id (installedIn r.log) r.sess.cur
  prev : HoldsLater id (installedIn r.log) r.sess.prev
  pending : HoldsLater id (installedIn r.log) r.sess.pending

/-- A keypair older than `cur` and `prev` is held nowhere. -/
theorem Dated.Ok.notHeld {d : Dated} (h : d.Ok) {id : Nat} (hyoung : Young (id + 1) d.run)
    (hnewer : id + 2 ≤ (installedIn d.run.log).length) : NotHeld id d.run where
  cur := by
    cases hest : d.run.sess.established with
    | false => exact .inl (h.noCur hest)
    | true =>
        have hid := hyoung.cur hest
        exact .inr ⟨d.run.curId, _, by omega, (h.cur hest).2, rfl⟩
  prev := by
    cases hhave : d.run.sess.havePrev with
    | false => exact .inl (h.noPrev hhave)
    | true =>
        have hid := hyoung.prev hhave
        obtain ⟨-, -, hprev, -⟩ := h.prev hhave
        exact .inr ⟨d.run.prevId, _, by omega, hprev, rfl⟩
  pending := by
    rcases h.pending with hnone | ⟨n, hs, hn, hs', hkeys⟩
    · exact .inl hnone
    · exact .inr ⟨n, hs, by omega, hs', hkeys⟩

theorem Dated.Ok.notHeld_exec {d : Dated} (h : d.Ok) {id : Nat} (hyoung : Young (id + 1) d.run)
    (hnewer : id + 2 ≤ (installedIn d.run.log).length) (ops : List Op) :
    NotHeld id (d.exec P ops).run := by
  have hadv : Advances P d.run (d.exec P ops).run := ⟨ops, (d.exec_run P ops).symm ▸ rfl⟩
  exact (h.exec P ops).notHeld (hyoung.advances P hadv).1 (hnewer.trans hadv.installed)

/-- A keypair that was retired twice is older than `cur` and `prev`. -/
theorem Dated.Ok.young_of_twice {d : Dated} (h : d.Ok) {id : Nat} (htwice : id + 3 ≤ d.times.length) :
    Young (id + 1) d.run where
  installed := by
    have := h.dated
    omega
  cur := by
    intro hest
    have hlast := (h.cur hest).1
    have := h.dated
    omega
  prev := by
    intro hhave
    have hlast := (h.prev hhave).2.1
    have := h.dated
    omega

/-- A transport datagram past the time of a retired keypair makes the session forget it. -/
theorem Dated.Ok.young_of_late {d : Dated} (h : d.Ok) {cfg : Config} {pkt : Bytes} {payloadCap : Int}
    {nowMs : UInt64} (hforward : ∀ t ∈ d.times, t ≤ nowMs)
    (htransport : HandledAsTransport d.run.sess (.onDatagram cfg pkt payloadCap nowMs)) {id : Nat}
    {t : UInt64} (ht : d.times[id + 1]? = some t) (hlate : t.toNat + 180000 < nowMs.toNat) :
    Young (id + 1) (d.run.step P (.onDatagram cfg pkt payloadCap nowMs)) := by
  have hslots := onDatagram_slots P cfg d.run.drop d.run.sess pkt payloadCap nowMs
  have hsess := logRx_sess d.run
    (awgSessionOnDatagram P cfg d.run.drop d.run.sess pkt payloadCap nowMs)
  have hlen : id + 1 < d.times.length := (List.getElem?_eq_some_iff.mp ht).1
  have hdated := h.dated
  have hok := h.onDatagram P cfg pkt payloadCap nowMs
  cases hslots with
  | install pending _ hnot _ => exact absurd htransport hnot
  | idle _ _ hnot _ => exact absurd htransport hnot
  | transport hest hresult hexpired _ =>
      obtain ⟨hcur, hprev, hinst⟩ := logRx_other (r := d.run) hresult
      have hslots : (d.run.step P (.onDatagram cfg pkt payloadCap nowMs)).sess.slots
          = (d.run.sess.expirePrev nowMs).slots := (congrArg Session.slots hsess).trans hexpired
      have hcur' : (d.run.step P (.onDatagram cfg pkt payloadCap nowMs)).curId = d.run.curId := hcur
      have hprev' : (d.run.step P (.onDatagram cfg pkt payloadCap nowMs)).prevId = d.run.prevId :=
        hprev
      have hinst' : installedIn (d.run.step P (.onDatagram cfg pkt payloadCap nowMs)).log
          = installedIn d.run.log := hinst
      refine ⟨?_, ?_, ?_⟩
      · rw [hinst']
        omega
      · intro _
        have hlast := (h.cur hest).1
        rw [hcur']
        omega
      · intro hhave
        have hhave' : (d.run.sess.expirePrev nowMs).havePrev = true :=
          (congrArg Slots.havePrev hslots).symm.trans hhave
        have hold : d.run.sess.havePrev = true := ((expirePrev_prev _ _).1 hhave').1
        obtain ⟨-, hlast, -, hsince⟩ := h.prev hold
        have hle : d.run.sess.prevSinceMs ≤ nowMs := hforward _ (List.mem_of_getElem? hsince)
        have hwithin := (expirePrev_within hle hhave').2
        have hne : d.run.prevId ≠ id := by
          intro hsame
          rw [hsame, ht] at hsince
          have hsince' : t = d.run.sess.prevSinceMs := Option.some.inj hsince
          rw [hsince'] at hlate
          omega
        rw [hprev']
        omega

/-- Every date so far lies before the next reading. -/
theorem ClockForward.dates (cfg : Config) (draws : Fin 5 → Entropy) {before after : List Op}
    {op : Op} {nowMs : UInt64} (h : ClockForward (before ++ op :: after))
    (hnow : op.nowMs = some nowMs) :
    ∀ t ∈ ((Dated.start cfg draws).exec P before).times, t ≤ nowMs := by
  intro t ht
  rcases Dated.mem_times P before (Dated.start cfg draws) t ht with hstart | hmem
  · cases hstart
  · unfold ClockForward at h
    rw [List.filterMap_append, List.filterMap_cons_some hnow, List.pairwise_append] at h
    exact h.2.2 t hmem nowMs (List.mem_cons_self ..)

/-- What an accepted datagram was opened under, if every date so far lies in the past. -/
theorem Dated.Ok.accepted {d : Dated} (hok : d.Ok) {op : Op} {id : Nat} {hs : Handshake}
    {ctr : UInt64} (hlog : (d.run.step P op).log = d.run.log ++ [.accepted id hs ctr]) :
    ∃ nowMs, op.nowMs = some nowMs ∧ (installedIn d.run.log)[id]? = some hs ∧
      ((∀ t ∈ d.times, t ≤ nowMs) → id + 1 = (installedIn d.run.log).length ∨
        id + 2 = (installedIn d.run.log).length ∧
          ∃ t, d.times[id + 1]? = some t ∧ nowMs.toNat ≤ t.toNat + 180000) := by
  obtain ⟨cfg', pkt, payloadCap, nowMs, rfl⟩ := step_accepted P hlog
  obtain ⟨hresult, hopened⟩ := logRx_accepted hlog
  have hslots := onDatagram_slots P cfg' d.run.drop d.run.sess pkt payloadCap nowMs
  refine ⟨nowMs, rfl, ?_⟩
  cases hslots with
  | install pending hest _ _ => exact absurd hest hresult
  | idle _ hnone _ _ =>
      rcases hopened with ⟨hsome, -, -⟩ | ⟨hsome, -, -⟩
      · rw [hnone] at hsome
        cases hsome
      · rw [hnone] at hsome
        cases hsome
  | transport hest _ _ hprev =>
      rcases hopened with ⟨-, rfl, rfl⟩ | ⟨hsome, rfl, rfl⟩
      · obtain ⟨hlast, hcur⟩ := hok.cur hest
        exact ⟨hcur, fun _ => .inl hlast⟩
      · have hhave := hprev ctr hsome
        have hold : d.run.sess.havePrev = true := ((expirePrev_prev _ _).1 hhave).1
        obtain ⟨-, hlast, hkeys, hsince⟩ := hok.prev hold
        refine ⟨hkeys, fun hdates => .inr ⟨hlast, _, hsince, ?_⟩⟩
        have hle : d.run.sess.prevSinceMs ≤ nowMs := hdates _ (List.mem_of_getElem? hsince)
        exact (expirePrev_within hle hhave).2

theorem Dated.Ok.gone {d : Dated} (hok : d.Ok) {op : Op} {id : Nat} {t nowMs : UInt64}
    (hdates : ∀ t ∈ d.times, t ≤ nowMs) (htransport : HandledAsTransport d.run.sess op)
    (hnow : op.nowMs = some nowMs) (ht : d.times[id + 1]? = some t)
    (hlate : t.toNat + 180000 < nowMs.toNat) (later : List Op) :
    NotHeld id (d.run.exec P (op :: later)) := by
  obtain ⟨cfg', pkt, payloadCap, nowMs', rfl⟩ :
      ∃ cfg' pkt payloadCap nowMs', op = .onDatagram cfg' pkt payloadCap nowMs' := by
    cases op with
    | onDatagram cfg' pkt payloadCap nowMs' => exact ⟨_, _, _, _, rfl⟩
    | _ => cases htransport
  obtain rfl := Option.some.inj hnow
  have hyoung := hok.young_of_late P hdates htransport ht hlate
  have hlen : id + 1 < d.times.length := (List.getElem?_eq_some_iff.mp ht).1
  have hgrown : (installedIn d.run.log).length
      ≤ (installedIn (d.step P (.onDatagram cfg' pkt payloadCap nowMs')).run.log).length :=
    Advances.installed P ⟨[.onDatagram cfg' pkt payloadCap nowMs'], rfl⟩
  have hdated := hok.dated
  have hheld := (hok.step P (.onDatagram cfg' pkt payloadCap nowMs')).notHeld_exec P hyoung
    (by omega) later
  rw [Dated.exec_run] at hheld
  exact hheld

/--
**Retired keys are good for three minutes, and then they are gone.**  In every run whose
clock does not go back, at every call:

* a datagram that is accepted was opened under the keypair established last, or under the
  one established just before it, and then at most 180000 ms after the establishment that
  retired it; so never under a keypair that was retired twice or whose time has passed;
* no place of the session holds the keys of a keypair that was retired twice;
* once a transport datagram has been handled more than 180000 ms after a keypair was
  retired, no place of the session holds its keys, then or later.
-/
theorem retired_keys_expire (cfg : Config) (draws : Fin 5 → Entropy) (before after : List Op)
    (op : Op) (hclock : ClockForward (before ++ op :: after)) :
    let d := (Dated.start cfg draws).exec P before
    (∀ id hs ctr, (d.run.step P op).log = d.run.log ++ [.accepted id hs ctr] →
      ∃ nowMs, op.nowMs = some nowMs ∧ (installedIn d.run.log)[id]? = some hs ∧
        (id + 1 = (installedIn d.run.log).length ∨
          id + 2 = (installedIn d.run.log).length ∧
            ∃ t, d.times[id + 1]? = some t ∧ nowMs.toNat ≤ t.toNat + 180000)) ∧
    (∀ id, id + 3 ≤ (installedIn d.run.log).length → NotHeld id d.run) ∧
    (∀ id t nowMs, HandledAsTransport d.run.sess op → op.nowMs = some nowMs →
      d.times[id + 1]? = some t → t.toNat + 180000 < nowMs.toNat →
      ∀ later, NotHeld id (d.run.exec P (op :: later))) := by
  intro d
  have hok : d.Ok := (Dated.start_ok cfg draws).exec P before
  have hdates : ∀ nowMs, op.nowMs = some nowMs → ∀ t ∈ d.times, t ≤ nowMs :=
    fun _ hnow => ClockForward.dates P cfg draws hclock hnow
  refine ⟨?_, ?_, ?_⟩
  · intro id hs ctr hlog
    obtain ⟨nowMs, hnow, hkeys, hwhich⟩ := hok.accepted P hlog
    exact ⟨nowMs, hnow, hkeys, hwhich (hdates nowMs hnow)⟩
  · intro id htwice
    exact hok.notHeld (hok.young_of_twice (hok.dated ▸ htwice)) (by omega)
  · intro id t nowMs htransport hnow ht hlate later
    exact hok.gone P (hdates nowMs hnow) htransport hnow ht hlate later

/-! ### A rekey -/

/-- The sample peer, met by a session in the middle of a run. -/
def meetingFrom (r : Run) (cfg : Config) (sentMs answeredMs : UInt64) : Meeting :=
  { startedMeeting cfg sentMs answeredMs with sess := r.sess, drop := r.drop }

def meetingOps (cfg : Config) (m : Meeting) : List Op :=
  [.buildInitiation cfg m.outCap m.sentMs m.idx m.eph m.nanos m.pad m.nowSeconds,
    .onDatagram cfg (m.reply P cfg) m.payloadCap m.answeredMs]

theorem meetingFrom_talks (r : Run) (sentMs answeredMs : UInt64) :
    (meetingFrom r (wordsConfig 1 2) sentMs answeredMs).Talks standardPrimitives
      (wordsConfig 1 2) := by
  have h := sampleMeeting_conforms 1 2
  have hroom : (wordsConfig 1 2).s1 + awgMsgInitSize
      ≤ (meetingFrom r (wordsConfig 1 2) sentMs answeredMs).outCap := by
    simp [wordsConfig, Config.default, awgMsgInitSize, meetingFrom, startedMeeting]
  have hconforms : (meetingFrom r (wordsConfig 1 2) sentMs answeredMs).Conforms
      standardPrimitives (wordsConfig 1 2) :=
    ⟨h.peer, h.es, h.ss, h.ee, h.se, h.padding, hroom, h.peerRoom⟩
  exact hconforms.talks standardPrimitives rfl rfl

theorem Dated.meeting {d : Dated} {cfg : Config} {m : Meeting} (htalks : m.Talks P cfg)
    (hsess : m.sess = d.run.sess) (hdrop : m.drop = d.run.drop) :
    (d.exec P (meetingOps P cfg m)).times = d.times ++ [m.answeredMs] ∧
      (d.exec P (meetingOps P cfg m)).run.sess.established = true ∧
      (d.exec P (meetingOps P cfg m)).run.sess.handshaking = false := by
  obtain ⟨hest, hidle, -⟩ := htalks.answered P
  have hresult := (htalks.reply P).2
  set op : Op := .buildInitiation cfg m.outCap m.sentMs m.idx m.eph m.nanos m.pad m.nowSeconds
    with hop
  set op' : Op := .onDatagram cfg (m.reply P cfg) m.payloadCap m.answeredMs with hop'
  have hsess' : (d.step P op).run.sess = (m.initiation P cfg).1 := by
    unfold Meeting.initiation
    rw [hsess]
    rfl
  have hout : awgSessionOnDatagram P cfg (d.step P op).run.drop (d.step P op).run.sess
      (m.reply P cfg) m.payloadCap m.answeredMs = m.answered P cfg (m.reply P cfg) := by
    unfold Meeting.answered
    rw [hsess', hdrop]
    rfl
  have hrun : (d.step P op).run.step P op'
      = (d.step P op).run.logRx (m.answered P cfg (m.reply P cfg)) := by
    rw [← hout]
    rfl
  have hlog := logRx_established (r := (d.step P op).run) hresult
  have htimes : (d.step P op).times = d.times := Dated.step_times P rfl
  have hdate : ((d.step P op).step P op').times = d.times ++ [m.answeredMs] := by
    unfold Dated.step
    dsimp only
    show (if _ < (installedIn ((d.step P op).run.step P op').log).length then
      (d.step P op).times ++ op'.nowMs.toList else (d.step P op).times) = _
    rw [hrun, hlog, htimes]
    simp [hop', Op.nowMs, Dated.step]
  have hafter : (d.exec P (meetingOps P cfg m)).run.sess
      = (m.answered P cfg (m.reply P cfg)).sess := by
    show ((d.step P op).run.step P op').sess = _
    rw [hrun, logRx_sess]
  rw [hafter]
  exact ⟨hdate, hest, hidle⟩

/-- A handshake at 10 ms and another at two minutes. -/
def rekeyedOps (cfg : Config) : List Op :=
  meetingOps P cfg (startedMeeting cfg 0 10) ++
    meetingOps P cfg (meetingFrom ((Run.start cfg fun _ _ => 0).exec P
      (meetingOps P cfg (startedMeeting cfg 0 10))) cfg 120010 120020)

theorem rekeyedOps_dated {cfg : Config} (hfirst : (startedMeeting cfg 0 10).Talks P cfg)
    (hsecond : ∀ r, (meetingFrom r cfg 120010 120020).Talks P cfg) :
    ((Dated.start cfg fun _ _ => 0).exec P (rekeyedOps P cfg)).times = [10, 120020] ∧
      ((Dated.start cfg fun _ _ => 0).exec P (rekeyedOps P cfg)).run.sess.established = true ∧
      ((Dated.start cfg fun _ _ => 0).exec P (rekeyedOps P cfg)).run.sess.handshaking = false := by
  obtain ⟨htimes, -, -⟩ :=
    Dated.meeting (P := P) (d := Dated.start cfg fun _ _ => 0) hfirst rfl rfl
  obtain ⟨htimes', hest, hidle⟩ := Dated.meeting (P := P)
    (d := (Dated.start cfg fun _ _ => 0).exec P (meetingOps P cfg (startedMeeting cfg 0 10)))
    (hsecond _) rfl rfl
  unfold rekeyedOps
  rw [Dated.exec_append, ← Dated.start_run, ← Dated.exec_run]
  refine ⟨?_, hest, hidle⟩
  rw [htimes', htimes]
  rfl

/-- Five minutes after the start, an empty datagram. -/
def lateDatagram (cfg : Config) : Op := .onDatagram cfg [] 2048 300021

theorem lateDatagram_clock (cfg : Config) :
    ClockForward (rekeyedOps P cfg ++ [lateDatagram cfg]) := by
  unfold ClockForward
  show [(0 : UInt64), 10, 120010, 120020, 300021].Pairwise (· ≤ ·)
  decide

/-- The theorem on a run with a rekey; the late datagram at its end makes the session
forget the first keypair. -/
theorem retired_keys_expire_rekeyed :
    ClockForward (rekeyedOps standardPrimitives (wordsConfig 1 2) ++
        [lateDatagram (wordsConfig 1 2)]) ∧
      NotHeld 0 (((Dated.start (wordsConfig 1 2) fun _ _ => 0).exec standardPrimitives
        (rekeyedOps standardPrimitives (wordsConfig 1 2))).run.exec standardPrimitives
        [lateDatagram (wordsConfig 1 2)]) := by
  have hclock := lateDatagram_clock standardPrimitives (wordsConfig 1 2)
  obtain ⟨htimes, hest, hidle⟩ := rekeyedOps_dated standardPrimitives
    (startedMeeting_talks 0 10) fun r => meetingFrom_talks r 120010 120020
  obtain ⟨-, -, hforget⟩ := retired_keys_expire standardPrimitives (wordsConfig 1 2)
    (fun _ _ => 0) _ [] (lateDatagram (wordsConfig 1 2)) hclock
  refine ⟨hclock, hforget 0 120020 300021 ⟨hest, ?_⟩ rfl ?_ (by decide) []⟩
  · rintro ⟨hhandshaking, -⟩
    rw [hidle] at hhandshaking
    cases hhandshaking
  · rw [htimes]
    rfl

end SysAwg
