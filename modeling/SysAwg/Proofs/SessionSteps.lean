/-
What one call can do to the keypairs.

`awg_session_on_datagram` has a dozen exits.  For the keypairs, the counter and the
replay windows only four things can happen: nothing, the pending keypair is
installed, or a counter is entered in the window of `cur` or of `prev`.  `RxStep`
lists them, and every invariant over runs is proved by cases on it.
-/
import SysAwg.SessionRun
import SysAwg.Lib.Window

namespace SysAwg

variable (P : Primitives)

/-! ### The replay window -/

/-- A window word and its highest counter, as the library's window. -/
def windowOf (max bits : UInt64) : Window 64 := ⟨max.toNat, bits.toBitVec⟩

/-- The window of the keypair in `cur`. -/
def Session.curWindow (s : Session) : Window 64 := windowOf s.rxWindowMax s.rxWindowBits

def Session.prevWindow (s : Session) : Window 64 := windowOf s.prevWindowMax s.prevWindowBits

private theorem toBitVec_shiftLeft_of_lt (x n : UInt64) (h : n < 64) :
    (x <<< n).toBitVec = x.toBitVec <<< n.toNat := by
  have hlt : n.toNat < 64 := UInt64.lt_iff_toNat_lt.mp h
  have hmod : (n.toBitVec % 64#64).toNat = n.toNat := by
    rw [BitVec.toNat_umod, UInt64.toNat_toBitVec]
    exact Nat.mod_eq_of_lt hlt
  rw [UInt64.toBitVec_shiftLeft, BitVec.shiftLeft_eq']
  exact congrArg (x.toBitVec <<< ·) hmod

/-- **`replay_ok` offers the counter to its window**: it stores the window that took
the counter, or refuses as the window does. -/
theorem replayOk_offer (g : ReplayDrop) (max bits ctr : UInt64) :
    (windowOf max bits).offer ctr.toNat =
      if (replayOk g max bits ctr).fresh
      then some (windowOf (replayOk g max bits ctr).max (replayOk g max bits ctr).bits)
      else none := by
  by_cases habove : max < ctr
  · have hlt : max.toNat < ctr.toNat := UInt64.lt_iff_toNat_lt.mp habove
    have hsub : (ctr - max).toNat = ctr.toNat - max.toNat :=
      UInt64.toNat_sub_of_le _ _ (UInt64.le_of_lt habove)
    have hmove : (if ctr - max ≥ replayWindow then 0 else bits <<< (ctr - max)).toBitVec
        = bits.toBitVec <<< (ctr.toNat - max.toNat) := by
      by_cases hfar : ctr - max ≥ replayWindow
      · have h64 : 64 ≤ ctr.toNat - max.toNat := by
          rw [← hsub]
          exact UInt64.le_iff_toNat_le.mp hfar
        rw [if_pos hfar, BitVec.shiftLeft_eq_zero h64]
        rfl
      · rw [if_neg hfar, toBitVec_shiftLeft_of_lt _ _ (UInt64.not_le.mp hfar), hsub]
    simp only [Window.offer, windowOf, hlt, if_true, replayOk, gt_iff_lt, habove,
      UInt64.toBitVec_or, hmove]
    rfl
  · have hle : ctr ≤ max := UInt64.not_lt.mp habove
    have hnlt : ¬ max.toNat < ctr.toNat := fun h => habove (UInt64.lt_iff_toNat_lt.mpr h)
    have hsub : (max - ctr).toNat = max.toNat - ctr.toNat := UInt64.toNat_sub_of_le _ _ hle
    by_cases hold : max - ctr ≥ replayWindow
    · have h64 : 64 ≤ max.toNat - ctr.toNat := by
        rw [← hsub]
        exact UInt64.le_iff_toNat_le.mp hold
      simp [Window.offer, windowOf, hnlt, h64, replayOk, habove, hold]
    · have h64 : ¬ 64 ≤ max.toNat - ctr.toNat := by
        rw [← hsub]
        exact fun h => hold (UInt64.le_iff_toNat_le.mpr h)
      have hbit : ((1 : UInt64) <<< (max - ctr)).toBitVec
          = BitVec.twoPow 64 (max.toNat - ctr.toNat) := by
        rw [toBitVec_shiftLeft_of_lt _ _ (UInt64.not_le.mp hold), hsub]
        rfl
      have hset : bits &&& (1 : UInt64) <<< (max - ctr) ≠ 0
          ↔ bits.toBitVec.getLsbD (max.toNat - ctr.toNat) = true := by
        rw [ne_eq, ← UInt64.toBitVec_inj, UInt64.toBitVec_and, hbit, BitVec.and_twoPow]
        by_cases hb : bits.toBitVec.getLsbD (max.toNat - ctr.toNat) = true
        · have hne : BitVec.twoPow 64 (max.toNat - ctr.toNat) ≠ 0 := by
            intro h0
            have hz := congrArg (fun b => b.getLsbD (max.toNat - ctr.toNat)) h0
            simp [BitVec.getLsbD_twoPow] at hz
            omega
          simpa [hb] using hne
        · simp [hb]
      by_cases hseen : bits.toBitVec.getLsbD (max.toNat - ctr.toNat) = true
      · simp only [Window.offer, windowOf, hnlt, h64, replayOk, gt_iff_lt, habove, hold, hseen,
          hset.mpr hseen, if_true, if_false, not_false_eq_true, ne_eq]
        simp
      · simp only [Window.offer, windowOf, hnlt, h64, replayOk, gt_iff_lt, habove, hold, hseen,
          mt hset.mp hseen, if_true, if_false, Bool.false_eq_true, UInt64.toBitVec_or, hbit]

theorem replayOk_stale (g : ReplayDrop) (max bits ctr : UInt64)
    (h : (replayOk g max bits ctr).fresh = false) :
    (replayOk g max bits ctr).max = max ∧ (replayOk g max bits ctr).bits = bits := by
  revert h
  unfold replayOk
  dsimp only
  split
  · simp
  · split
    · simp
    · split <;> simp

/-! ### What can happen

The cases are told apart by what the call returns, so that whoever knows the result of a
call knows what happened to the keys.
-/

/-- `cur` is the same keypair, and its counter stands where it stood. -/
structure CurKept (s s' : Session) : Prop where
  cur : s'.cur = s.cur
  established : s'.established = s.established
  txCounter : s'.txCounter = s.txCounter

/-- `prev` is the same keypair, unless it was forgotten. -/
def PrevKept (s s' : Session) : Prop :=
  s'.havePrev = true → s.havePrev = true ∧ s'.prev = s.prev

/-- What handling a datagram can do to the keypairs, by its result and by the keypair
and counter the datagram opened under. -/
inductive RxStep (s s' : Session) : RxResult → Option (Bool × UInt64) → Prop
  /-- Nothing, except that `prev` may have been forgotten. -/
  | quiet (opened : Option (Bool × UInt64)) (hcur : CurKept s s') (hprev : PrevKept s s')
      (hcurWin : s'.curWindow = s.curWindow)
      (hprevWin : s'.havePrev = true → s'.prevWindow = s.prevWindow) :
      RxStep s s' .ignored opened
  /-- The pending handshake was answered and became `cur`. -/
  | install (pending : Handshake) (nowMs : UInt64)
      (h : s' = { s with pending := pending }.promote nowMs) :
      RxStep s s' .established none
  /-- A counter was entered in the window of `cur`. -/
  | acceptCur (result : RxResult) (ctr : UInt64) (hres : result = .handled ∨ result = .payload)
      (hest : s.established = true) (hcur : CurKept s s') (hprev : PrevKept s s')
      (hcurWin : s.curWindow.offer ctr.toNat = some s'.curWindow)
      (hprevWin : s'.havePrev = true → s'.prevWindow = s.prevWindow) :
      RxStep s s' result (some (false, ctr))
  /-- A counter was entered in the window of `prev`. -/
  | acceptPrev (result : RxResult) (ctr : UInt64) (hres : result = .handled ∨ result = .payload)
      (hhave : s.havePrev = true) (hcur : CurKept s s') (hprev : PrevKept s s')
      (hcurWin : s'.curWindow = s.curWindow)
      (hprevWin : s.prevWindow.offer ctr.toNat = some s'.prevWindow) :
      RxStep s s' result (some (true, ctr))

theorem expirePrev_cur (s : Session) (nowMs : UInt64) :
    CurKept s (s.expirePrev nowMs) ∧ (s.expirePrev nowMs).curWindow = s.curWindow := by
  unfold Session.expirePrev
  split
  · exact ⟨⟨rfl, rfl, rfl⟩, rfl⟩
  · exact ⟨⟨rfl, rfl, rfl⟩, rfl⟩

/-- A keypair that is still in `prev` afterwards was there before, with its window. -/
theorem expirePrev_prev (s : Session) (nowMs : UInt64) :
    PrevKept s (s.expirePrev nowMs) ∧
      ((s.expirePrev nowMs).havePrev = true → (s.expirePrev nowMs).prevWindow = s.prevWindow) := by
  unfold Session.expirePrev
  split
  · exact ⟨fun h => Bool.noConfusion h, fun h => Bool.noConfusion h⟩
  · exact ⟨fun h => ⟨h, rfl⟩, fun _ => rfl⟩

/-- A session without what receiving counts: its windows, its replays, its last receipt. -/
def Session.unreceived (s : Session) : Session :=
  { s with
    rxCounterMax := 0
    rxWindowMax := 0
    rxWindowBits := 0
    prevWindowMax := 0
    prevWindowBits := 0
    replaysDropped := 0
    lastReplayCtr := 0
    lastReplayBehind := 0
    lastReplayOld := false
    lastReplayPrev := false
    lastRxMs := 0
    packetsRx := 0 }

/-- The bookkeeping of a datagram that opened changes what receiving counts, and
establishes nothing. -/
theorem rxOpened_unreceived (g : ReplayDrop) (s : Session) (r : OpenResult) (onPrev : Bool)
    (nowMs : UInt64) :
    (rxOpened g s r onPrev nowMs).sess.unreceived = s.unreceived ∧
      (rxOpened g s r onPrev nowMs).result ≠ .established ∧
      ∃ ctr, (rxOpened g s r onPrev nowMs).opened = some (onPrev, ctr) := by
  unfold rxOpened
  dsimp only
  cases onPrev with
  | true =>
      simp only [if_true]
      split
      · exact ⟨rfl, by simp, _, rfl⟩
      · split
        · exact ⟨rfl, by simp, _, rfl⟩
        · exact ⟨rfl, by simp, _, rfl⟩
  | false =>
      simp only [Bool.false_eq_true, if_false]
      split
      · exact ⟨rfl, by simp, _, rfl⟩
      · split
        · exact ⟨rfl, by simp, _, rfl⟩
        · exact ⟨rfl, by simp, _, rfl⟩

/-- Handling a transport datagram changes no more than that, except that `prev` may be
forgotten. -/
theorem rxTransport_unreceived (cfg : Config) (g : ReplayDrop) (s : Session) (pkt : Bytes)
    (payloadCap : Int) (nowMs : UInt64) :
    (rxTransport P cfg g s pkt payloadCap nowMs).sess.unreceived
        = (s.expirePrev nowMs).unreceived ∧
      (rxTransport P cfg g s pkt payloadCap nowMs).result ≠ .established := by
  have hopened : ∀ r onPrev,
      (rxOpened g (s.expirePrev nowMs) r onPrev nowMs).sess.unreceived
          = (s.expirePrev nowMs).unreceived ∧
        (rxOpened g (s.expirePrev nowMs) r onPrev nowMs).result ≠ .established := by
    intro r onPrev
    obtain ⟨hrest, hresult, -⟩ := rxOpened_unreceived g (s.expirePrev nowMs) r onPrev nowMs
    exact ⟨hrest, hresult⟩
  unfold rxTransport
  dsimp only
  split
  · exact hopened _ _
  · split
    · split
      · exact hopened _ _
      · exact ⟨rfl, by simp⟩
    · exact ⟨rfl, by simp⟩

/-- Forgetting `prev` does not touch the outstanding handshake. -/
theorem expirePrev_pending (s : Session) (nowMs : UInt64) :
    (s.expirePrev nowMs).pending = s.pending ∧
      (s.expirePrev nowMs).handshaking = s.handshaking := by
  unfold Session.expirePrev
  split
  · exact ⟨rfl, rfl⟩
  · exact ⟨rfl, rfl⟩

/-- A transport datagram does not touch the outstanding handshake, and establishes
nothing. -/
theorem rxTransport_pending (cfg : Config) (g : ReplayDrop) (s : Session) (pkt : Bytes)
    (payloadCap : Int) (nowMs : UInt64) :
    (rxTransport P cfg g s pkt payloadCap nowMs).sess.pending = s.pending ∧
      (rxTransport P cfg g s pkt payloadCap nowMs).sess.handshaking = s.handshaking ∧
      (rxTransport P cfg g s pkt payloadCap nowMs).result ≠ .established := by
  obtain ⟨hpending, hhandshaking⟩ := expirePrev_pending s nowMs
  obtain ⟨hrest, hresult⟩ := rxTransport_unreceived P cfg g s pkt payloadCap nowMs
  refine ⟨?_, ?_, hresult⟩
  · exact (congrArg Session.pending hrest).trans hpending
  · exact (congrArg Session.handshaking hrest).trans hhandshaking

/-- The bookkeeping under `cur`, on a session `t` that differs from `s` at most in a
forgotten `prev`. -/
theorem rxOpened_cur {s t : Session} (g : ReplayDrop) (r : OpenResult) (nowMs : UInt64)
    (hest : s.established = true) (hcur : CurKept s t) (hcurWin : t.curWindow = s.curWindow)
    (hprev : PrevKept s t) (hprevWin : t.havePrev = true → t.prevWindow = s.prevWindow) :
    RxStep s (rxOpened g t r false nowMs).sess (rxOpened g t r false nowMs).result
      (rxOpened g t r false nowMs).opened := by
  have hoffer := replayOk_offer g t.rxWindowMax t.rxWindowBits (r.counter.getD 0)
  rw [show windowOf t.rxWindowMax t.rxWindowBits = s.curWindow from hcurWin] at hoffer
  have hstale := replayOk_stale g t.rxWindowMax t.rxWindowBits (r.counter.getD 0)
  by_cases hfresh : (replayOk g t.rxWindowMax t.rxWindowBits (r.counter.getD 0)).fresh = true
  · simp only [hfresh, if_true] at hoffer
    by_cases hempty : r.ret = 0
    · simp only [rxOpened, hfresh, hempty, Bool.false_eq_true, if_false, Bool.not_true, if_true]
      exact .acceptCur _ _ (.inl rfl) hest ⟨hcur.1, hcur.2, hcur.3⟩ hprev hoffer hprevWin
    · simp only [rxOpened, hfresh, hempty, Bool.false_eq_true, if_false, Bool.not_true]
      exact .acceptCur _ _ (.inr rfl) hest ⟨hcur.1, hcur.2, hcur.3⟩ hprev hoffer hprevWin
  · have hno : (replayOk g t.rxWindowMax t.rxWindowBits (r.counter.getD 0)).fresh = false := by
      simpa using hfresh
    obtain ⟨hmax, hbits⟩ := hstale hno
    simp only [rxOpened, hno, Bool.false_eq_true, if_false, Bool.not_false, if_true, hmax, hbits]
    exact .quiet _ ⟨hcur.1, hcur.2, hcur.3⟩ hprev hcurWin hprevWin

theorem rxOpened_prev {s t : Session} (g : ReplayDrop) (r : OpenResult) (nowMs : UInt64)
    (hhave : t.havePrev = true) (hcur : CurKept s t) (hcurWin : t.curWindow = s.curWindow)
    (hprev : PrevKept s t) (hprevWin : t.havePrev = true → t.prevWindow = s.prevWindow) :
    RxStep s (rxOpened g t r true nowMs).sess (rxOpened g t r true nowMs).result
      (rxOpened g t r true nowMs).opened := by
  have hoffer := replayOk_offer g t.prevWindowMax t.prevWindowBits (r.counter.getD 0)
  rw [show windowOf t.prevWindowMax t.prevWindowBits = s.prevWindow from hprevWin hhave] at hoffer
  have hstale := replayOk_stale g t.prevWindowMax t.prevWindowBits (r.counter.getD 0)
  by_cases hfresh : (replayOk g t.prevWindowMax t.prevWindowBits (r.counter.getD 0)).fresh = true
  · simp only [hfresh, if_true] at hoffer
    by_cases hempty : r.ret = 0
    · simp only [rxOpened, hfresh, hempty, Bool.false_eq_true, if_false, Bool.not_true, if_true]
      exact .acceptPrev _ _ (.inl rfl) (hprev hhave).1 ⟨hcur.1, hcur.2, hcur.3⟩ hprev hcurWin hoffer
    · simp only [rxOpened, hfresh, hempty, Bool.false_eq_true, if_false, Bool.not_true, if_true]
      exact .acceptPrev _ _ (.inr rfl) (hprev hhave).1 ⟨hcur.1, hcur.2, hcur.3⟩ hprev hcurWin hoffer
  · have hno : (replayOk g t.prevWindowMax t.prevWindowBits (r.counter.getD 0)).fresh = false := by
      simpa using hfresh
    obtain ⟨hmax, hbits⟩ := hstale hno
    simp only [rxOpened, hno, Bool.not_false, if_true, hmax, hbits]
    exact .quiet _ ⟨hcur.1, hcur.2, hcur.3⟩ hprev hcurWin hprevWin

/-- **Handling a datagram does one of the four things.** -/
theorem onDatagram_step (cfg : Config) (g : ReplayDrop) (s : Session) (pkt : Bytes)
    (payloadCap : Int) (nowMs : UInt64) :
    RxStep s (awgSessionOnDatagram P cfg g s pkt payloadCap nowMs).sess
      (awgSessionOnDatagram P cfg g s pkt payloadCap nowMs).result
      (awgSessionOnDatagram P cfg g s pkt payloadCap nowMs).opened := by
  have hsame : ∀ opened, RxStep s s .ignored opened := fun opened =>
    .quiet _ ⟨rfl, rfl, rfl⟩ (fun h => ⟨h, rfl⟩) rfl (fun _ => rfl)
  unfold awgSessionOnDatagram
  dsimp only
  split
  · split
    · exact hsame _
    · split
      · exact .quiet _ ⟨rfl, rfl, rfl⟩ (fun h => ⟨h, rfl⟩) rfl (fun _ => rfl)
      · exact .install _ nowMs rfl
  · split
    · exact hsame _
    · rename_i hest
      have hest : s.established = true := by simpa using hest
      obtain ⟨hcur, hcurWin⟩ := expirePrev_cur s nowMs
      obtain ⟨hprev, hprevWin⟩ := expirePrev_prev s nowMs
      unfold rxTransport
      dsimp only
      split
      · exact rxOpened_cur g _ nowMs hest hcur hcurWin hprev hprevWin
      · split
        · rename_i hhave
          split
          · exact rxOpened_prev g _ nowMs hhave hcur hcurWin hprev hprevWin
          · exact .quiet _ hcur hprev hcurWin hprevWin
        · exact .quiet _ hcur hprev hcurWin hprevWin

/-- A rekey retires `cur` to `prev` together with its window. -/
theorem promote_rekey {s : Session} (h : s.established = true) (nowMs : UInt64) :
    (s.promote nowMs).prev = s.cur ∧ (s.promote nowMs).prevWindow = s.curWindow := by
  simp [Session.promote, h, Session.prevWindow, Session.curWindow]

theorem promote_first {s : Session} (h : s.established = false) (nowMs : UInt64) :
    (s.promote nowMs).havePrev = s.havePrev := by
  simp [Session.promote, h]

/-! ### The other operations -/

/-- Both keypairs are where they were, with their windows. -/
structure KeysKept (s s' : Session) : Prop where
  cur : s'.cur = s.cur
  established : s'.established = s.established
  prev : s'.prev = s.prev
  havePrev : s'.havePrev = s.havePrev
  curWindow : s'.curWindow = s.curWindow
  prevWindow : s'.prevWindow = s.prevWindow

/-- Building an initiation touches `pending` and its timers only. -/
theorem buildInitiation_step (cfg : Config) (s : Session) (outCap : Int) (nowMs : UInt64)
    (idx eph nanos pad : Entropy) (nowSeconds : UInt64) :
    KeysKept s (awgSessionBuildInitiation P cfg s outCap nowMs idx eph nanos pad nowSeconds).1 ∧
      (awgSessionBuildInitiation P cfg s outCap nowMs idx eph nanos pad nowSeconds).1.txCounter
        = s.txCounter := by
  unfold awgSessionBuildInitiation
  dsimp only
  split
  · exact ⟨⟨rfl, rfl, rfl, rfl, rfl, rfl⟩, rfl⟩
  · split
    · exact ⟨⟨rfl, rfl, rfl, rfl, rfl, rfl⟩, rfl⟩
    · exact ⟨⟨rfl, rfl, rfl, rfl, rfl, rfl⟩, rfl⟩

/-- What a builder of data packets can do: nothing, or seal one packet under `cur`
with the counter it found and move the counter on. -/
inductive TxStep (s : Session) : Session × Option (Int × Bytes) → Prop
  | failed : TxStep s (s, none)
  | sent (s' : Session) (out : Int × Bytes) (hest : s.established = true) (hkeys : KeysKept s s')
      (hcounter : s'.txCounter = s.txCounter + 1) : TxStep s (s', some out)

theorem buildData_step (cfg : Config) (s : Session) (payload : Bytes) (outCap : Int)
    (nowMs : UInt64) (e : Entropy) :
    TxStep s (awgSessionBuildData P cfg s payload outCap nowMs e) := by
  unfold awgSessionBuildData
  split
  · exact .failed
  · rename_i hest
    split
    · exact .failed
    · split
      · exact .failed
      · exact .sent _ _ (by simpa using hest) ⟨rfl, rfl, rfl, rfl, rfl, rfl⟩ rfl

/-- A keepalive is an empty data packet, and only counted differently. -/
theorem buildKeepalive_eq (cfg : Config) (s : Session) (outCap : Int) (nowMs : UInt64)
    (e : Entropy) : ∃ keepalives packets : UInt32,
    awgSessionBuildKeepalive P cfg s outCap nowMs e
      = ({ (awgSessionBuildData P cfg s [] outCap nowMs e).1 with
            keepalivesTx := keepalives
            packetsTx := packets }, (awgSessionBuildData P cfg s [] outCap nowMs e).2) := by
  unfold awgSessionBuildKeepalive
  generalize awgSessionBuildData P cfg s [] outCap nowMs e = out
  obtain ⟨s', sealed⟩ := out
  cases sealed with
  | none => exact ⟨_, _, rfl⟩
  | some packet =>
      dsimp only
      split
      · exact ⟨_, _, rfl⟩
      · exact ⟨_, _, rfl⟩

theorem buildKeepalive_step (cfg : Config) (s : Session) (outCap : Int) (nowMs : UInt64)
    (e : Entropy) : TxStep s (awgSessionBuildKeepalive P cfg s outCap nowMs e) := by
  have hdata := buildData_step P cfg s [] outCap nowMs e
  unfold awgSessionBuildKeepalive
  generalize awgSessionBuildData P cfg s [] outCap nowMs e = out at hdata
  cases hdata with
  | failed => exact .failed
  | sent s' out hest hkeys hcounter =>
      dsimp only
      split
      · exact .sent _ _ hest ⟨hkeys.1, hkeys.2, hkeys.3, hkeys.4, hkeys.5, hkeys.6⟩ hcounter
      · exact .sent _ _ hest hkeys hcounter

theorem logRx_sess (r : Run) (o : RxOutcome) : (r.logRx o).sess = o.sess := by
  unfold Run.logRx
  dsimp only
  split <;> rfl

end SysAwg
