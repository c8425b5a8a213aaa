/-
When a session asks for a keepalive.

`awg_session_needs_keepalive` subtracts `last_tx_ms` from a reading of the clock.  Two
callers write `last_tx_ms`: `main` with a reading of the same clock, and lwIP, through
`tunnel_output`, with `sys_now()`, which keeps the low 32 bits only.  Until the clock
passes 2^32 the two agree.  After that a packet of lwIP's is stamped weeks too early, and
the session takes itself for idle at once.

For the proof the true time of the last activity runs along with the state.  While every
packet of lwIP's was built below 2^32, the session's stamp equals it, and the question it
is asked has the right answer at every later time.  The other way, the first packet past
the limit leaves a state with a time at which the period is over by the stamp and not by
the clock.
-/
import SysAwg.Proofs.Spacing
import SysAwg.Proofs.Retired

namespace SysAwg

variable (P : Primitives) (cfg : Config)

/-! ### Runs with two callers

A call has a time and tells the session a time, and these are not the same for lwIP. The
time of the last activity is remembered beside the state, since it is what the session
should have been told.
-/

/-- What happens to a session. -/
inductive Call
  /-- `main` calls it. -/
  | main (op : Op)
  /-- Something else of `main`'s changes, in any way. -/
  | rest (m : Main)
  /-- lwIP hands a packet to the interface. -/
  | output (clock : UInt64) (payload : Bytes) (e : Entropy)

/-- The time of a call, on the clock that both callers read. -/
def Call.clock : Call → Option UInt64
  | .main op => op.nowMs
  | .rest _ => none
  | .output clock _ _ => some clock

/-- The time the session is told. -/
def Call.stamp : Call → Option UInt64
  | .main op => op.nowMs
  | .rest _ => none
  | .output clock _ _ => some (sysNow clock).toUInt64

def Main.call (m : Main) : Call → Main
  | .main op => { m with run := m.run.step P op }
  | .rest m' => { m' with run := m.run }
  | .output clock payload e => tunnelOutput P cfg m payload (sysNow clock) e

/-- Establishments and packets built, so far. -/
def activity (log : List KeyEvent) : Nat := (installedIn log).length + (sealedIn log).length

/-- `main`, and the true time of two things. -/
structure Watched where
  main : Main
  /-- The session was established, or a packet built, whichever was later. -/
  active : UInt64
  /-- The last call. -/
  latest : UInt64

def Watched.start (fd : Nat) (draws : Fin 5 → Entropy) : Watched := ⟨Main.start cfg fd draws, 0, 0⟩

def Watched.step (w : Watched) (c : Call) : Watched where
  main := w.main.call P cfg c
  active :=
    if activity w.main.run.log < activity (w.main.call P cfg c).run.log then c.clock.getD w.active
    else w.active
  latest := c.clock.getD w.latest

/-- Something holds in every state of a run. -/
def Everywhere (property : Watched → Prop) : Watched → List Call → Prop
  | w, [] => property w
  | w, c :: cs => property w ∧ Everywhere property (w.step P cfg c) cs

/-- Something holds of every call of a run, in the state the call finds. -/
def AlongCalls (property : Watched → Call → Prop) : Watched → List Call → Prop
  | _, [] => True
  | w, c :: cs => property w c ∧ AlongCalls property (w.step P cfg c) cs

/-- The clock does not go back while the session is established.  Across the end of a
session it may: a pass reads its clock once, and stops the proxy before it uses it. -/
def ReadsForward (w : Watched) (c : Call) : Prop :=
  w.main.run.sess.established = true → ∀ t, c.clock = some t → w.latest ≤ t

/-- At every later time, the session asks for a keepalive exactly if it has been idle for
`keepalive_s`. -/
def KeepaliveWhenIdle (w : Watched) : Prop :=
  w.main.run.sess.established = true → ∀ now, w.latest ≤ now →
    (awgSessionNeedsKeepalive w.main.run.sess now = true ↔
      (w.active.toNat : Int) + w.main.run.sess.keepaliveS * 1000 ≤ now.toNat)

def OutputBuilds (m : Main) (payload : Bytes) : Prop :=
  m.gSess = true ∧ m.run.sess.established = true ∧ payload.length ≤ tunnelMtu ∧
    ¬ CannotSeal cfg payload.length 2048

/-- lwIP builds no packet once the clock has passed 2^32.  It may where keepalives have no
period: a session that was wiped has none until the next `awg_session_init`. -/
def StampsWhole (w : Watched) : Call → Prop
  | .output clock payload _ =>
    OutputBuilds cfg w.main payload → w.main.run.sess.keepaliveS ≠ 0 → clock.toNat < 4294967296
  | _ => True

/-- The limits of a configured period are `int`s, as their type says. -/
def Call.IntPeriod : Call → Prop
  | .main (.init cfg _) => cfg.persistentKeepalive.IsInt
  | _ => True

/-! ### One call -/

structure Idle where
  established : Bool
  lastTxMs : UInt64
  keepaliveS : Int

def Session.idle (s : Session) : Idle := ⟨s.established, s.lastTxMs, s.keepaliveS⟩

theorem buildData_idle (s : Session) (payload : Bytes) (outCap : Int) (nowMs : UInt64)
    (e : Entropy) :
    let out := awgSessionBuildData P cfg s payload outCap nowMs e
    out.2 = none ∧ out.1.idle = s.idle ∨
      out.2.isSome = true ∧ out.1.idle = ⟨true, nowMs, s.keepaliveS⟩ := by
  unfold awgSessionBuildData
  dsimp only
  split
  · exact .inl ⟨rfl, rfl⟩
  · rename_i hest
    have hest : s.established = true := by simpa using hest
    split
    · exact .inl ⟨rfl, rfl⟩
    · split
      · exact .inl ⟨rfl, rfl⟩
      · refine .inr ⟨rfl, ?_⟩
        show Idle.mk s.established nowMs s.keepaliveS = _
        rw [hest]

theorem buildInitiation_idle (s : Session) (outCap : Int) (nowMs : UInt64)
    (idx eph nanos pad : Entropy) (nowSeconds : UInt64) :
    (awgSessionBuildInitiation P cfg s outCap nowMs idx eph nanos pad nowSeconds).1.idle
      = s.idle := by
  unfold awgSessionBuildInitiation
  dsimp only
  split
  · rfl
  · split
    · rfl
    · rfl

theorem buildKeepalive_idle (s : Session) (outCap : Int) (nowMs : UInt64) (e : Entropy) :
    let out := awgSessionBuildKeepalive P cfg s outCap nowMs e
    out.2 = none ∧ out.1.idle = s.idle ∨
      out.2.isSome = true ∧ out.1.idle = ⟨true, nowMs, s.keepaliveS⟩ := by
  obtain ⟨keepalives, packets, heq⟩ := buildKeepalive_eq P cfg s outCap nowMs e
  rw [heq]
  exact buildData_idle P cfg s [] outCap nowMs e

/-- What a call that is told the time `stamp` does to the clock of the keepalive. -/
inductive Touch (r r' : Run) (stamp : Option UInt64) : Prop
  | idle (hidle : r'.sess.idle = r.sess.idle) (hlog : activity r'.log = activity r.log)
  | active (t : UInt64) (hstamp : stamp = some t)
      (hidle : r'.sess.idle = ⟨true, t, r.sess.keepaliveS⟩)
      (hlog : activity r.log < activity r'.log)
  | ended (hest : r'.sess.established = false) (hnonneg : 0 ≤ r'.sess.keepaliveS)
      (hint : r'.sess.keepaliveS ≤ Checked.intMax)

/-- A builder of data packets logs one exactly if it returns one. -/
theorem logSeal_activity (r : Run) (out : Session × Option (Int × Bytes)) :
    (r.logSeal out).sess = out.1 ∧
      activity (r.logSeal out).log = activity r.log + if out.2.isSome then 1 else 0 := by
  obtain ⟨s, sealed⟩ := out
  cases sealed with
  | none => exact ⟨rfl, rfl⟩
  | some packet =>
      refine ⟨rfl, ?_⟩
      simp only [Run.logSeal, activity, installedIn_sealedWith, sealedIn_sealedWith,
        List.length_append, List.length_singleton, Option.isSome_some, if_true]
      omega

theorem logSeal_touch {r : Run} {out : Session × Option (Int × Bytes)} {nowMs : UInt64}
    (h : out.2 = none ∧ out.1.idle = r.sess.idle ∨
      out.2.isSome = true ∧ out.1.idle = ⟨true, nowMs, r.sess.keepaliveS⟩) :
    Touch r (r.logSeal out) (some nowMs) := by
  obtain ⟨hsess, hactivity⟩ := logSeal_activity r out
  rcases h with ⟨hnone, hidle⟩ | ⟨hsome, hidle⟩
  · rw [hnone] at hactivity
    exact .idle (hsess ▸ hidle) hactivity
  · rw [hsome] at hactivity
    exact .active nowMs rfl (hsess ▸ hidle) (by rw [hactivity]; exact Nat.lt_succ_self _)

theorem logRx_touch (r : Run) (pkt : Bytes) (payloadCap : Int) (nowMs : UInt64) :
    Touch r (r.step P (.onDatagram cfg pkt payloadCap nowMs)) (some nowMs) := by
  have hclocks := onDatagram_clocks P cfg r.drop r.sess pkt payloadCap nowMs
  have hsess := logRx_sess r (awgSessionOnDatagram P cfg r.drop r.sess pkt payloadCap nowMs)
  rw [← hsess] at hclocks
  by_cases hresult : (awgSessionOnDatagram P cfg r.drop r.sess pkt payloadCap nowMs).result
      = .established
  · rw [if_pos hresult] at hclocks
    refine .active nowMs rfl ?_ ?_
    · exact congrArg (fun x => Idle.mk x.1.established x.2.1 x.2.2) hclocks
    · rw [Run.step, logRx_established hresult]
      simp [activity]
  · rw [if_neg hresult] at hclocks
    refine .idle ?_ ?_
    · exact congrArg (fun x => Idle.mk x.1.established x.2.1 x.2.2) hclocks
    · obtain ⟨-, -, hinst⟩ := logRx_other (r := r) hresult
      unfold activity
      rw [Run.step, logRx_sealed, hinst]

theorem awgSessionInit_period {cfg : Config} (h : cfg.persistentKeepalive.IsInt)
    (draws : Fin 5 → Entropy) : PosInt (awgSessionInit cfg draws).keepaliveS :=
  drawnOr_posInt (awgRangePick_le h _) ⟨by decide, by decide⟩

theorem step_touch (r : Run) {op : Op} (hint : (Call.main op).IntPeriod) :
    Touch r (r.step P op) op.nowMs := by
  cases op with
  | init cfg draws =>
      obtain ⟨hpos, hle⟩ := awgSessionInit_period hint draws
      exact .ended rfl hpos.le hle
  | buildInitiation cfg outCap nowMs idx eph nanos pad nowSeconds =>
      refine .idle ?_ rfl
      exact buildInitiation_idle P cfg r.sess outCap nowMs idx eph nanos pad nowSeconds
  | buildData cfg payload outCap nowMs e =>
      exact logSeal_touch (buildData_idle P cfg r.sess payload outCap nowMs e)
  | buildKeepalive cfg outCap nowMs e =>
      exact logSeal_touch (buildKeepalive_idle P cfg r.sess outCap nowMs e)
  | onDatagram cfg pkt payloadCap nowMs => exact logRx_touch P cfg r pkt payloadCap nowMs
  | wipe => exact .ended rfl (le_refl (0 : Int)) (show (0 : Int) ≤ Checked.intMax by decide)

/-- lwIP's packet touches the session at the time `sys_now` gave. -/
theorem tunnelOutput_touch (m : Main) (payload : Bytes) (now : UInt32) (e : Entropy) :
    Touch m.run (tunnelOutput P cfg m payload now e).run (some now.toUInt64) := by
  unfold tunnelOutput
  split
  · exact .idle rfl rfl
  · split
    · exact .idle rfl rfl
    · exact logSeal_touch (buildData_idle P cfg m.run.sess payload 2048 now.toUInt64 e)

theorem call_touch (m : Main) {c : Call} (hint : c.IntPeriod) :
    Touch m.run (m.call P cfg c).run c.stamp := by
  cases c with
  | main op => exact step_touch P m.run hint
  | rest m' => exact .idle rfl rfl
  | output clock payload e => exact tunnelOutput_touch P cfg m payload (sysNow clock) e

theorem tunnelOutput_activity (m : Main) (payload : Bytes) (now : UInt32) (e : Entropy) :
    activity m.run.log < activity (tunnelOutput P cfg m payload now e).run.log ↔
      OutputBuilds cfg m payload := by
  unfold tunnelOutput OutputBuilds
  split
  · rename_i hdown
    refine iff_of_false (Nat.lt_irrefl _) ?_
    rintro ⟨hsess, hest, -⟩
    rw [hsess, hest] at hdown
    simp at hdown
  · rename_i hup
    obtain ⟨hsess, hest⟩ : m.gSess = true ∧ m.run.sess.established = true := by simpa using hup
    split
    · rename_i hlen
      refine iff_of_false (Nat.lt_irrefl _) ?_
      rintro ⟨-, -, hle, -⟩
      omega
    · rename_i hlen
      have hle : payload.length ≤ tunnelMtu := Nat.not_lt.mp hlen
      obtain ⟨-, hactivity⟩ := logSeal_activity m.run
        (awgSessionBuildData P cfg m.run.sess payload 2048 now.toUInt64 e)
      rw [← buildData_none_iff P hest cfg payload 2048 now.toUInt64 e]
      rw [Run.step, hactivity]
      cases (awgSessionBuildData P cfg m.run.sess payload 2048 now.toUInt64 e).2 with
      | none => simp
      | some packet => simp [hsess, hest, hle]

theorem tunnelOutput_idle {m : Main} {payload : Bytes} (h : OutputBuilds cfg m payload)
    (now : UInt32) (e : Entropy) :
    (tunnelOutput P cfg m payload now e).run.sess.idle
      = ⟨true, now.toUInt64, m.run.sess.keepaliveS⟩ := by
  obtain ⟨hsess, hest, hlen, hseal⟩ := h
  rw [← buildData_none_iff P hest cfg payload 2048 now.toUInt64 e] at hseal
  obtain ⟨-, hidle⟩ := (buildData_idle P cfg m.run.sess payload 2048 now.toUInt64 e).resolve_left
    fun hnone => hseal hnone.1
  unfold tunnelOutput
  rw [if_neg (by simp [hsess, hest]), if_neg (Nat.not_lt.mpr hlen)]
  show ((m.run.logSeal _).sess).idle = _
  rw [(logSeal_activity _ _).1]
  exact hidle

/-! ### What is tracked

While no packet was stamped wrongly the session's own stamp is the true time of its last
activity, and then the subtraction is exact.  A single wrong stamp is noticed in the next
state, so the condition is not only enough but needed.
-/

/-- A session with a period has the true time of its last activity, and the period is an
`int`. -/
structure Tracked (w : Watched) : Prop where
  stamped : w.main.run.sess.established = true → w.main.run.sess.keepaliveS ≠ 0 →
    w.main.run.sess.lastTxMs = w.active
  past : w.main.run.sess.established = true → w.active ≤ w.latest
  nonneg : 0 ≤ w.main.run.sess.keepaliveS
  isInt : w.main.run.sess.keepaliveS ≤ Checked.intMax

theorem Tracked.start {cfg : Config} (h : cfg.persistentKeepalive.IsInt) (fd : Nat)
    (draws : Fin 5 → Entropy) : Tracked (Watched.start cfg fd draws) where
  stamped := by
    intro hest
    cases hest
  past := by
    intro hest
    cases hest
  nonneg := (awgSessionInit_period h draws).1.le
  isInt := (awgSessionInit_period h draws).2

theorem Tracked.whenIdle {w : Watched} (h : Tracked w) : KeepaliveWhenIdle w := by
  intro hest now hnow
  have hpast : w.active ≤ now := UInt64.le_trans (h.past hest) hnow
  unfold awgSessionNeedsKeepalive
  rw [if_neg (by simp [hest]), decide_eq_true_eq]
  by_cases hperiod : w.main.run.sess.keepaliveS = 0
  · rw [UInt64.le_iff_toNat_le] at hpast
    rw [hperiod, show secondsToMs 0 = 0 from rfl]
    exact iff_of_true (UInt64.le_iff_toNat_le.mpr (Nat.zero_le _)) (by omega)
  · rw [h.stamped hest hperiod]
    exact elapsed_iff h.nonneg h.isInt hpast

/-- A time below 2^32 survives `sys_now`. -/
theorem sysNow_toUInt64 {clock : UInt64} (h : clock.toNat < 4294967296) :
    (sysNow clock).toUInt64 = clock := by
  apply UInt64.toNat_inj.mp
  unfold sysNow
  rw [UInt32.toNat_toUInt64, UInt64.toNat_toUInt32]
  exact Nat.mod_eq_of_lt h

/-- The time a call is at and the time it tells the session. -/
theorem Call.stamp_cases {c : Call} {t : UInt64} (h : c.stamp = some t) :
    c.clock = some t ∨
      ∃ clock payload e, c = .output clock payload e ∧ t = (sysNow clock).toUInt64 := by
  cases c with
  | main op => exact .inl h
  | rest m => cases h
  | output clock payload e => exact .inr ⟨clock, payload, e, rfl, (Option.some.inj h).symm⟩

/-- A call that is no activity leaves the time of the last one. -/
theorem Watched.step_quiet {w : Watched} {c : Call}
    (h : activity (w.main.call P cfg c).run.log = activity w.main.run.log) :
    (w.step P cfg c).active = w.active :=
  if_neg (by rw [h]; exact Nat.lt_irrefl _)

/-- A call at time `t` that is one makes `t` the last. -/
theorem Watched.step_active {w : Watched} {c : Call} {t : UInt64} (hclock : c.clock = some t)
    (h : activity w.main.run.log < activity (w.main.call P cfg c).run.log) :
    (w.step P cfg c).active = t ∧ (w.step P cfg c).latest = t := by
  unfold Watched.step
  dsimp only
  rw [if_pos h, hclock]
  exact ⟨rfl, rfl⟩

/-- What is tracked stays so across a call that stamps no packet with half the clock. -/
theorem Tracked.step {w : Watched} {c : Call} (h : Tracked w) (hint : c.IntPeriod)
    (hclock : ReadsForward w c) (hwhole : StampsWhole cfg w c) :
    Tracked (w.step P cfg c) := by
  cases call_touch P cfg w.main hint with
  | idle hidle hlog =>
      have hest := congrArg Idle.established hidle
      have hlast := congrArg Idle.lastTxMs hidle
      have hperiod := congrArg Idle.keepaliveS hidle
      dsimp only [Session.idle] at hest hlast hperiod
      have hactive := Watched.step_quiet P cfg hlog
      refine ⟨?_, ?_, ?_, ?_⟩
      · intro hest' hperiod'
        rw [hactive]
        exact hlast.trans (h.stamped (hest ▸ hest') (hperiod ▸ hperiod'))
      · intro hest'
        rw [hactive]
        have hest₀ : w.main.run.sess.established = true := hest ▸ hest'
        show w.active ≤ c.clock.getD w.latest
        cases hc : c.clock with
        | none => exact h.past hest₀
        | some t => exact UInt64.le_trans (h.past hest₀) (hclock hest₀ t hc)
      · exact le_of_le_of_eq h.nonneg hperiod.symm
      · exact le_of_eq_of_le hperiod h.isInt
  | active t hstamp hidle hlog =>
      have hlast := congrArg Idle.lastTxMs hidle
      have hperiod := congrArg Idle.keepaliveS hidle
      dsimp only [Session.idle] at hlast hperiod
      refine ⟨?_, ?_, ?_, ?_⟩
      · intro _ hperiod'
        refine hlast.trans ?_
        rcases Call.stamp_cases hstamp with hc | ⟨clock, payload, e, rfl, rfl⟩
        · exact (Watched.step_active P cfg hc hlog).1.symm
        · have hbuilds := (tunnelOutput_activity P cfg w.main payload (sysNow clock) e).mp hlog
          have hbelow := hwhole hbuilds (hperiod ▸ hperiod')
          rw [(Watched.step_active P cfg (t := clock) rfl hlog).1]
          exact sysNow_toUInt64 hbelow
      · intro _
        obtain ⟨t', hc⟩ : ∃ t', c.clock = some t' := by
          rcases Call.stamp_cases hstamp with hc | ⟨clock, payload, e, rfl, -⟩
          · exact ⟨t, hc⟩
          · exact ⟨clock, rfl⟩
        obtain ⟨hactive, hlatest⟩ := Watched.step_active P cfg hc hlog
        rw [hactive, hlatest]
        exact UInt64.le_refl _
      · exact le_of_le_of_eq h.nonneg hperiod.symm
      · exact le_of_eq_of_le hperiod h.isInt
  | ended hest hnonneg hint =>
      have hnot : (w.step P cfg c).main.run.sess.established ≠ true := by
        intro hest'
        cases hest.symm.trans hest'
      exact ⟨fun hest' => absurd hest' hnot, fun hest' => absurd hest' hnot, hnonneg, hint⟩

/-- What a packet of lwIP's leaves behind. -/
theorem output_step {w : Watched} {payload : Bytes} (hbuilds : OutputBuilds cfg w.main payload)
    (clock : UInt64) (e : Entropy) :
    let w' := w.step P cfg (.output clock payload e)
    w'.active = clock ∧ w'.main.run.sess.established = true ∧
      w'.main.run.sess.lastTxMs = (sysNow clock).toUInt64 ∧
      w'.main.run.sess.keepaliveS = w.main.run.sess.keepaliveS := by
  intro w'
  have hlog := (tunnelOutput_activity P cfg w.main payload (sysNow clock) e).mpr hbuilds
  have hidle := tunnelOutput_idle P cfg hbuilds (sysNow clock) e
  refine ⟨?_, congrArg Idle.established hidle, congrArg Idle.lastTxMs hidle,
    congrArg Idle.keepaliveS hidle⟩
  exact (Watched.step_active P cfg (c := .output clock payload e) rfl hlog).1

/-- A packet stamped with half the clock makes the session take itself for idle too soon. -/
theorem not_whenIdle_of_wrapped {w : Watched} {clock : UInt64} {payload : Bytes} {e : Entropy}
    (hbuilds : OutputBuilds cfg w.main payload) (hperiod : 0 < w.main.run.sess.keepaliveS)
    (hint : w.main.run.sess.keepaliveS ≤ Checked.intMax) (hpast : 4294967296 ≤ clock.toNat) :
    ¬ KeepaliveWhenIdle (w.step P cfg (.output clock payload e)) := by
  obtain ⟨hactive, hest, hlast, hkept⟩ := output_step P cfg hbuilds clock e
  have hstamp : (sysNow clock).toUInt64.toNat < 4294967296 := by
    rw [UInt32.toNat_toUInt64]
    exact (sysNow clock).toNat_lt
  -- the period is over by the stamp, and not by the clock
  obtain ⟨now, hnow⟩ : ∃ now : UInt64, (now.toNat : Int)
      = max (clock.toNat : Int)
        ((sysNow clock).toUInt64.toNat + w.main.run.sess.keepaliveS * 1000) := by
    simp only [Checked.intMax] at hint
    have hclock := clock.toNat_lt
    have hsize : UInt64.size = 18446744073709551616 := rfl
    refine ⟨UInt64.ofNat (max clock.toNat
      ((sysNow clock).toUInt64.toNat + (w.main.run.sess.keepaliveS * 1000).toNat)), ?_⟩
    rw [UInt64.toNat_ofNat_of_lt' (by omega)]
    omega
  intro h
  have hlater : clock ≤ now := by
    rw [UInt64.le_iff_toNat_le]
    omega
  have hstamped : (sysNow clock).toUInt64 ≤ now := by
    rw [UInt64.le_iff_toNat_le]
    omega
  have hiff := h hest now hlater
  unfold awgSessionNeedsKeepalive at hiff
  rw [if_neg (by simp [hest]), decide_eq_true_eq, hlast, hkept, hactive,
    elapsed_iff hperiod.le hint hstamped] at hiff
  omega

/-- A call that leaves a state which asks at the right times stamped no packet wrongly. -/
theorem Tracked.stampsWhole {w : Watched} {c : Call} (h : Tracked w)
    (hidle : KeepaliveWhenIdle (w.step P cfg c)) : StampsWhole cfg w c := by
  cases c with
  | main op => trivial
  | rest m => trivial
  | output clock payload e =>
      intro hbuilds hperiod
      by_contra hpast
      have hpos : 0 < w.main.run.sess.keepaliveS := by
        have := h.nonneg
        omega
      exact not_whenIdle_of_wrapped P cfg hbuilds hpos h.isInt (Nat.not_lt.mp hpast) hidle

theorem Everywhere.head {P : Primitives} {cfg : Config} {property : Watched → Prop} {w : Watched}
    {calls : List Call} (h : Everywhere P cfg property w calls) : property w := by
  cases calls with
  | nil => exact h
  | cons c calls => exact h.1

/-! ### Every run -/

/-- What is tracked stays so over a run, and is enough in every state of it. -/
theorem Tracked.everywhere {calls : List Call} : ∀ {w : Watched}, Tracked w →
    (∀ c ∈ calls, c.IntPeriod) → AlongCalls P cfg ReadsForward w calls →
    AlongCalls P cfg (StampsWhole cfg) w calls →
    Everywhere P cfg KeepaliveWhenIdle w calls := by
  induction calls with
  | nil =>
      intro w h _ _ _
      exact h.whenIdle
  | cons c calls ih =>
      intro w h hint hclock hwhole
      refine ⟨h.whenIdle, ih ?_ (fun c hc => hint c (List.mem_cons_of_mem _ hc)) hclock.2 hwhole.2⟩
      exact h.step P cfg (hint c (List.mem_cons_self ..)) hclock.1 hwhole.1

/--
**Keepalives are sent when the session is idle, as long as the clock fits in 32 bits.**  Of
any run, with `main` and lwIP calling in any order: the session asks for a keepalive
exactly if it has been idle for `keepalive_s`, in every state and at every later time, if
and only if lwIP built no packet at 2^32 milliseconds or later.
-/
theorem keepalive_when_idle_iff {cfg : Config} (hcfg : cfg.persistentKeepalive.IsInt) (fd : Nat)
    (draws : Fin 5 → Entropy) (calls : List Call) (hint : ∀ c ∈ calls, c.IntPeriod)
    (hclock : AlongCalls P cfg ReadsForward (Watched.start cfg fd draws) calls) :
    Everywhere P cfg KeepaliveWhenIdle (Watched.start cfg fd draws) calls ↔
      AlongCalls P cfg (StampsWhole cfg) (Watched.start cfg fd draws) calls := by
  have hstart := Tracked.start hcfg fd draws
  refine ⟨?_, hstart.everywhere P cfg hint hclock⟩
  generalize Watched.start cfg fd draws = w at hstart hclock ⊢
  induction calls generalizing w with
  | nil => exact fun _ => trivial
  | cons c calls ih =>
      rintro ⟨-, hall⟩
      have hwhole := hstart.stampsWhole P cfg hall.head
      have hnext := hstart.step P cfg (hint c (List.mem_cons_self ..)) hclock.1 hwhole
      exact ⟨hwhole, ih (fun c hc => hint c (List.mem_cons_of_mem _ hc)) _ hnext hclock.2 hall⟩

/-! ### A packet of lwIP's -/

/-- `main` with the interface up. -/
def interfaceUp : Main := { Main.start cfg 3 (fun _ _ => 0) with gSess := true, gReady := true }

/-- A handshake at time `t`; then lwIP sends a packet. -/
def packetCalls (t : UInt64) : List Call :=
  (meetingOps P cfg (startedMeeting cfg t (t + 10))).map .main ++
    [.rest (interfaceUp cfg), .output (t + 20) [1, 2, 3] fun _ => 5]

/-- The state in which lwIP's packet comes. -/
def beforePacket (t : UInt64) : Watched :=
  ((packetCalls P cfg t).take 3).foldl (Watched.step P cfg) (Watched.start cfg 3 fun _ _ => 0)

theorem packetCalls_forward {t : UInt64} (hanswer : t ≤ t + 10) (hpacket : t + 10 ≤ t + 20) :
    AlongCalls P cfg ReadsForward (Watched.start cfg 3 fun _ _ => 0) (packetCalls P cfg t) := by
  refine ⟨?_, ?_, ?_, ?_, trivial⟩
  · intro hest
    cases hest
  · intro _ t' ht
    cases ht
    exact hanswer
  · intro _ t' ht
    cases ht
  · intro _ t' ht
    cases ht
    exact hpacket

theorem packetCalls_int (t : UInt64) : ∀ c ∈ packetCalls P cfg t, c.IntPeriod := by
  simp [packetCalls, meetingOps, Call.IntPeriod]

theorem beforePacket_builds {cfg : Config} {t : UInt64}
    (htalks : (startedMeeting cfg t (t + 10)).Talks P cfg) (hroom : ¬ CannotSeal cfg 3 2048) :
    OutputBuilds cfg (beforePacket P cfg t).main [1, 2, 3] ∧
      (beforePacket P cfg t).main.run.sess.keepaliveS
        = (awgSessionInit cfg fun _ _ => 0).keepaliveS := by
  obtain ⟨hest, -, -, -, hdrawn⟩ := htalks.answered P
  simp only [Session.drawn, List.cons.injEq] at hdrawn
  have hsess : (beforePacket P cfg t).main.run.sess
      = ((startedMeeting cfg t (t + 10)).answered P cfg
        ((startedMeeting cfg t (t + 10)).reply P cfg)).sess := logRx_sess _ _
  unfold OutputBuilds
  rw [hsess]
  exact ⟨⟨rfl, hest, by decide, hroom⟩, hdrawn.2.2.1⟩

theorem words_period : (wordsConfig 1 2).persistentKeepalive.IsInt ∧
    (awgSessionInit (wordsConfig 1 2) fun _ _ => 0).keepaliveS = 25 ∧
    ¬ CannotSeal (wordsConfig 1 2) 3 2048 := by
  refine ⟨⟨?_, ?_⟩, ?_, ?_⟩
  · simp [wordsConfig, Config.default, Checked.intMin, Checked.intMax]
  · simp [wordsConfig, Config.default, Checked.intMin, Checked.intMax]
  · simp [awgSessionInit, wordsConfig, Config.default, awgRangePick, drawnOr]
  · simp [CannotSeal, wordsConfig, Config.default, paddedLen]

/-- At the start of the clock, the packet is stamped as it should be. -/
theorem keepalive_when_idle_early :
    OutputBuilds (wordsConfig 1 2) (beforePacket standardPrimitives (wordsConfig 1 2) 0).main
        [1, 2, 3] ∧
      Everywhere standardPrimitives (wordsConfig 1 2) KeepaliveWhenIdle
        (Watched.start (wordsConfig 1 2) 3 fun _ _ => 0)
        (packetCalls standardPrimitives (wordsConfig 1 2) 0) := by
  obtain ⟨hcfg, -, hroom⟩ := words_period
  obtain ⟨hbuilds, -⟩ := beforePacket_builds standardPrimitives
    (startedMeeting_talks 0 (0 + 10)) hroom
  refine ⟨hbuilds, (keepalive_when_idle_iff standardPrimitives hcfg 3 _ _
    (packetCalls_int standardPrimitives _ 0)
    (packetCalls_forward standardPrimitives _ (by decide) (by decide))).mpr ?_⟩
  refine ⟨trivial, trivial, trivial, ?_, trivial⟩
  intro _ _
  show (0 + 20 : UInt64).toNat < 4294967296
  decide

/-- The state that the packet leaves behind. -/
def afterPacket (t : UInt64) : Watched :=
  (beforePacket P cfg t).step P cfg (.output (t + 20) [1, 2, 3] fun _ => 5)

/-- Where the clock has passed 2^32, a keepalive is due a millisecond after the packet. -/
theorem afterPacket_asks {cfg : Config} {t : UInt64}
    (htalks : (startedMeeting cfg t (t + 10)).Talks P cfg) (hroom : ¬ CannotSeal cfg 3 2048)
    (hperiod : (awgSessionInit cfg fun _ _ => 0).keepaliveS = 25)
    (hstamp : t + 21 - (sysNow (t + 20)).toUInt64 ≥ 25000) :
    (afterPacket P cfg t).active = t + 20 ∧ (afterPacket P cfg t).main.run.sess.keepaliveS = 25 ∧
      awgSessionNeedsKeepalive (afterPacket P cfg t).main.run.sess (t + 21) = true := by
  obtain ⟨hbuilds, hkept⟩ := beforePacket_builds P htalks hroom
  obtain ⟨hactive, hest, hlast, hsame⟩ := output_step P cfg hbuilds (t + 20) fun _ => 5
  have hperiod' := (hsame.trans hkept).trans hperiod
  refine ⟨hactive, hperiod', ?_⟩
  unfold awgSessionNeedsKeepalive afterPacket
  rw [hest, hlast, hperiod']
  exact decide_eq_true hstamp

/-- A packet of lwIP's at 2^32 milliseconds or later, and a session that asks for a
keepalive one millisecond after it. -/
theorem packet_wraps :
    AlongCalls standardPrimitives (wordsConfig 1 2) ReadsForward
        (Watched.start (wordsConfig 1 2) 3 fun _ _ => 0)
        (packetCalls standardPrimitives (wordsConfig 1 2) 4294967296) ∧
      (afterPacket standardPrimitives (wordsConfig 1 2) 4294967296).active = 4294967296 + 20 ∧
      (afterPacket standardPrimitives (wordsConfig 1 2) 4294967296).main.run.sess.keepaliveS = 25 ∧
      awgSessionNeedsKeepalive
        (afterPacket standardPrimitives (wordsConfig 1 2) 4294967296).main.run.sess
        (4294967296 + 21) = true ∧
      ¬ Everywhere standardPrimitives (wordsConfig 1 2) KeepaliveWhenIdle
        (Watched.start (wordsConfig 1 2) 3 fun _ _ => 0)
        (packetCalls standardPrimitives (wordsConfig 1 2) 4294967296) := by
  obtain ⟨-, hperiod, hroom⟩ := words_period
  have htalks := startedMeeting_talks 4294967296 (4294967296 + 10)
  obtain ⟨hactive, hkept, hasks⟩ := afterPacket_asks standardPrimitives htalks hroom hperiod
    (by decide)
  refine ⟨packetCalls_forward standardPrimitives _ (by decide) (by decide), hactive, hkept,
    hasks, ?_⟩
  obtain ⟨hbuilds, hbefore⟩ := beforePacket_builds standardPrimitives htalks hroom
  rw [hperiod] at hbefore
  intro hall
  refine not_whenIdle_of_wrapped standardPrimitives _ hbuilds ?_ ?_ ?_ hall.2.2.2.2
  · rw [hbefore]
    decide
  · rw [hbefore]
    decide
  · decide

end SysAwg
