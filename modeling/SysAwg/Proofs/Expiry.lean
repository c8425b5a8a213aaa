/-
Keys past their time.

`awg_session_init` draws `reject_after_s` beside the other timers, with a default of its
own, and nothing reads it afterwards.  A retired keypair is forgotten after
`AWG_PREV_KEEP_MS`; the current one never is.  So a call on expired keys is refused only
when it would be refused under any keys: the packet does not fit, or the datagram does
not open, or its counter was seen.

That is shown call by call and then along runs.  Data and keepalives are refused on
established keys exactly if they cannot be sealed, and a datagram is not taken exactly if
it cannot be, so the condition is the negation of what the code does, said in terms of
what it is asked for.
-/
import SysAwg.Proofs.SessionSteps
import SysAwg.Proofs.TypeWords

namespace SysAwg

variable (P : Primitives)

/-- The current keypair is `reject_after_s` old or older. -/
def Session.expired (s : Session) (nowMs : UInt64) : Bool :=
  s.established && decide (nowMs - s.establishedMs ≥ secondsToMs s.rejectAfterS)

/-- A datagram was taken as data or as a keepalive under `cur`. -/
def RxOutcome.takenUnderCur (o : RxOutcome) : Prop :=
  (o.result = .handled ∨ o.result = .payload) ∧ ∃ ctr, o.opened = some (false, ctr)

/-- What expired keys owe the next call: data and keepalives are refused, and no datagram
is taken under `cur`. -/
def Refused (s : Session) (g : ReplayDrop) : Op → Prop
  | .buildData cfg payload outCap nowMs e =>
    s.expired nowMs = true → (awgSessionBuildData P cfg s payload outCap nowMs e).2 = none
  | .buildKeepalive cfg outCap nowMs e =>
    s.expired nowMs = true → (awgSessionBuildKeepalive P cfg s outCap nowMs e).2 = none
  | .onDatagram cfg pkt payloadCap nowMs =>
    s.expired nowMs = true →
      ¬ (awgSessionOnDatagram P cfg g s pkt payloadCap nowMs).takenUnderCur
  | _ => True

/-- A payload of `n` bytes cannot be sealed into `outCap` bytes, whatever the keys. -/
def CannotSeal (cfg : Config) (n : Nat) (outCap : Int) : Prop :=
  (cfg.haveHeaderProtection = true ∧ cfg.s4 < 12) ∨ outCap < cfg.s4 + 32 + paddedLen n ∨
    cfg.s4 + 32 + paddedLen n < 0

/-- A datagram is taken for a response, or does not open under `cur`, or opens with a
counter the window refuses. -/
def CannotTake (cfg : Config) (g : ReplayDrop) (s : Session) (pkt : Bytes) (payloadCap : Int) :
    Prop :=
  (s.handshaking = true ∧ (pkt.length : Int) = cfg.s2 + awgMsgRespSize) ∨
    (awgTransportOpen P cfg s.cur pkt payloadCap).ret < 0 ∨
    (replayOk g s.rxWindowMax s.rxWindowBits
      ((awgTransportOpen P cfg s.cur pkt payloadCap).counter.getD 0)).fresh = false

/-- No call asks expired keys for something it could get from keys in their time. -/
def NothingToRefuse (s : Session) (g : ReplayDrop) : Op → Prop
  | .buildData cfg payload outCap nowMs _ =>
    s.expired nowMs = true → CannotSeal cfg payload.length outCap
  | .buildKeepalive cfg outCap nowMs _ => s.expired nowMs = true → CannotSeal cfg 0 outCap
  | .onDatagram cfg pkt payloadCap nowMs =>
    s.expired nowMs = true → CannotTake P cfg g s pkt payloadCap
  | _ => True

/-! ### One call

For each kind of call the question is what could refuse it at all.  Established keys answer
it without looking at the clock.
-/

theorem expired_established {s : Session} {nowMs : UInt64} (h : s.expired nowMs = true) :
    s.established = true := by
  unfold Session.expired at h
  exact (Bool.and_eq_true_iff.mp h).1

theorem buildData_none_iff {s : Session} (hest : s.established = true) (cfg : Config)
    (payload : Bytes) (outCap : Int) (nowMs : UInt64) (e : Entropy) :
    (awgSessionBuildData P cfg s payload outCap nowMs e).2 = none ↔
      CannotSeal cfg payload.length outCap := by
  have htotal : cfg.s4 + transportHdr + paddedLen payload.length + aeadTag
      = cfg.s4 + 32 + paddedLen payload.length := by
    simp only [transportHdr, aeadTag]
    omega
  unfold awgSessionBuildData awgTransportSeal CannotSeal
  dsimp only
  rw [htotal, if_neg (by simp [hest])]
  by_cases hshort : cfg.haveHeaderProtection = true ∧ cfg.s4 < 12
  · simp [hshort]
  · rw [if_neg hshort]
    by_cases hroom : cfg.s4 + 32 + paddedLen payload.length > outCap
    · rw [if_pos hroom]
      exact iff_of_true rfl (Or.inr (Or.inl hroom))
    · rw [if_neg hroom]
      dsimp only
      by_cases hneg : cfg.s4 + 32 + paddedLen payload.length < 0
      · rw [if_pos hneg]
        exact iff_of_true rfl (Or.inr (Or.inr hneg))
      · rw [if_neg hneg]
        refine iff_of_false (by simp) ?_
        rintro (h | h | h)
        · exact hshort h
        · exact hroom h
        · exact hneg h

theorem buildKeepalive_none_iff (cfg : Config) (s : Session) (outCap : Int) (nowMs : UInt64)
    (e : Entropy) : (awgSessionBuildKeepalive P cfg s outCap nowMs e).2 = none ↔
      (awgSessionBuildData P cfg s [] outCap nowMs e).2 = none := by
  obtain ⟨keepalives, packets, heq⟩ := buildKeepalive_eq P cfg s outCap nowMs e
  rw [heq]

theorem rxOpened_takenUnderCur (g : ReplayDrop) (s : Session) (r : OpenResult) (nowMs : UInt64) :
    (rxOpened g s r false nowMs).takenUnderCur ↔
      (replayOk g s.rxWindowMax s.rxWindowBits (r.counter.getD 0)).fresh = true := by
  unfold RxOutcome.takenUnderCur
  by_cases hfresh : (replayOk g s.rxWindowMax s.rxWindowBits (r.counter.getD 0)).fresh = true
  · by_cases hempty : r.ret = 0
    · simp [rxOpened, hfresh, hempty]
    · simp [rxOpened, hfresh, hempty]
  · simp [rxOpened, hfresh]

theorem rxOpened_prev_not_takenUnderCur (g : ReplayDrop) (s : Session) (r : OpenResult)
    (nowMs : UInt64) : ¬ (rxOpened g s r true nowMs).takenUnderCur := by
  rintro ⟨-, ctr, hopened⟩
  simp only [rxOpened, if_true] at hopened
  split at hopened
  · cases hopened
  · split at hopened <;> cases hopened

/-- On established keys, a datagram is taken under `cur` unless it cannot be. -/
theorem not_takenUnderCur_iff {s : Session} (hest : s.established = true) (cfg : Config)
    (g : ReplayDrop) (pkt : Bytes) (payloadCap : Int) (nowMs : UInt64) :
    ¬ (awgSessionOnDatagram P cfg g s pkt payloadCap nowMs).takenUnderCur ↔
      CannotTake P cfg g s pkt payloadCap := by
  have hignored : ∀ (t : Session) (d : ReplayDrop) (b : Bytes),
      ¬ (⟨.ignored, t, d, b, [], none⟩ : RxOutcome).takenUnderCur := by
    rintro t d b ⟨-, ctr, hopened⟩
    cases hopened
  unfold CannotTake
  by_cases hresp : s.handshaking = true ∧ (pkt.length : Int) = cfg.s2 + awgMsgRespSize
  · refine iff_of_true ?_ (Or.inl hresp)
    unfold awgSessionOnDatagram
    rw [if_pos hresp]
    dsimp only
    split
    · exact hignored _ _ _
    · split
      · exact hignored _ _ _
      · rintro ⟨-, ctr, hopened⟩
        cases hopened
  · have hrun : awgSessionOnDatagram P cfg g s pkt payloadCap nowMs
        = rxTransport P cfg g s pkt payloadCap nowMs := by
      unfold awgSessionOnDatagram
      rw [if_neg hresp, if_neg (by simp [hest])]
    have hcur : (s.expirePrev nowMs).cur = s.cur := (expirePrev_cur s nowMs).1.cur
    have hwindow : (s.expirePrev nowMs).rxWindowMax = s.rxWindowMax ∧
        (s.expirePrev nowMs).rxWindowBits = s.rxWindowBits := by
      unfold Session.expirePrev
      split <;> exact ⟨rfl, rfl⟩
    rw [hrun]
    unfold rxTransport
    dsimp only
    rw [hcur]
    by_cases hopen : (awgTransportOpen P cfg s.cur pkt payloadCap).ret ≥ 0
    · rw [if_pos hopen, rxOpened_takenUnderCur, hwindow.1, hwindow.2]
      simp only [hresp, false_or, not_lt.mpr hopen, Bool.not_eq_true]
    · rw [if_neg hopen]
      refine iff_of_true ?_ (Or.inr (Or.inl (by omega)))
      split
      · split
        · exact rxOpened_prev_not_takenUnderCur _ _ _ _
        · exact hignored _ _ _
      · exact hignored _ _ _

/-- One call is refused on expired keys exactly when there is nothing to refuse. -/
theorem refused_iff (s : Session) (g : ReplayDrop) (op : Op) :
    Refused P s g op ↔ NothingToRefuse P s g op := by
  cases op with
  | buildData cfg payload outCap nowMs e =>
      refine forall_congr' ?_
      intro hexpired
      exact buildData_none_iff P (expired_established hexpired) cfg payload outCap nowMs e
  | buildKeepalive cfg outCap nowMs e =>
      refine forall_congr' ?_
      intro hexpired
      rw [buildKeepalive_none_iff P]
      exact buildData_none_iff P (expired_established hexpired) cfg [] outCap nowMs e
  | onDatagram cfg pkt payloadCap nowMs =>
      refine forall_congr' ?_
      intro hexpired
      exact not_takenUnderCur_iff P (expired_established hexpired) cfg g pkt payloadCap nowMs
  | init cfg draws => exact Iff.rfl
  | buildInitiation cfg outCap nowMs idx eph nanos pad nowSeconds => exact Iff.rfl
  | wipe => exact Iff.rfl

/-! ### Every run -/

/-- Something holds of every call of a run, in the state the call finds. -/
def AlongRun (property : Session → ReplayDrop → Op → Prop) : Run → List Op → Prop
  | _, [] => True
  | r, op :: ops => property r.sess r.drop op ∧ AlongRun property (r.step P op) ops

/-- The clock reading a call is given. -/
def Op.nowMs : Op → Option UInt64
  | .buildInitiation _ _ nowMs _ _ _ _ _ => some nowMs
  | .buildData _ _ _ nowMs _ => some nowMs
  | .buildKeepalive _ _ nowMs _ => some nowMs
  | .onDatagram _ _ _ nowMs => some nowMs
  | .init _ _ => none
  | .wipe => none

/-- The clock of a run does not go back. -/
def ClockForward (ops : List Op) : Prop := (ops.filterMap Op.nowMs).Pairwise (· ≤ ·)

theorem alongRun_congr {p q : Session → ReplayDrop → Op → Prop}
    (h : ∀ s g op, p s g op ↔ q s g op) :
    ∀ (ops : List Op) (r : Run), AlongRun P p r ops ↔ AlongRun P q r ops := by
  intro ops
  induction ops with
  | nil =>
      intro r
      exact Iff.rfl
  | cons op ops ih =>
      intro r
      exact and_congr (h r.sess r.drop op) (ih (r.step P op))

/--
**Expired keys go on carrying traffic.**  In any run, every call on keys past
`reject_after_s` is refused if and only if no such call asked for anything that keys in
their time would have given: the time of the keys makes no difference.
-/
theorem expired_keys_refuse_iff (cfg : Config) (draws : Fin 5 → Entropy) (ops : List Op) :
    AlongRun P (Refused P) (Run.start cfg draws) ops ↔
      AlongRun P (NothingToRefuse P) (Run.start cfg draws) ops :=
  alongRun_congr P (refused_iff P) ops (Run.start cfg draws)

theorem alongRun_append {p : Session → ReplayDrop → Op → Prop} {later : List Op} :
    ∀ (ops : List Op) (r : Run), AlongRun P p r (ops ++ later) → AlongRun P p (r.exec P ops) later := by
  intro ops
  induction ops with
  | nil =>
      intro r h
      exact h
  | cons op ops ih =>
      intro r h
      exact ih (r.step P op) h.2

/-- A handshake with the peer, and its answer ten milliseconds later. -/
def answeredOps (cfg : Config) : List Op :=
  let m := startedMeeting cfg 0 10
  [.buildInitiation cfg m.outCap m.sentMs m.idx m.eph m.nanos m.pad m.nowSeconds,
    .onDatagram cfg (m.reply P cfg) m.payloadCap m.answeredMs]

/-- A packet three minutes later. -/
def lateOp (cfg : Config) : Op := .buildData cfg [1, 2, 3] 2048 180010 fun _ => 5

/-- Three minutes after the answer, the keys of the default timers are expired. -/
theorem answeredOps_expired (cfg : Config) (htalks : (startedMeeting cfg 0 10).Talks P cfg)
    (hreject : (startedMeeting cfg 0 10).sess.rejectAfterS = 180) :
    ((Run.start cfg fun _ _ => 0).exec P (answeredOps P cfg)).sess.expired 180010 = true := by
  obtain ⟨hest, -, hms, -, hdrawn⟩ := htalks.answered P
  simp only [Session.drawn, List.cons.injEq] at hdrawn
  have hsess : ((Run.start cfg fun _ _ => 0).exec P (answeredOps P cfg)).sess
      = ((startedMeeting cfg 0 10).answered P cfg ((startedMeeting cfg 0 10).reply P cfg)).sess :=
    logRx_sess _ _
  unfold Session.expired
  rw [hsess, hest, hms, hdrawn.2.1, hreject]
  show (true && decide ((180010 : UInt64) - 10 ≥ secondsToMs 180)) = true
  decide

/-- The packet is sealed under keys that expired the same millisecond. -/
theorem lateOp_seals_expired :
    ¬ ∀ (cfg : Config) (draws : Fin 5 → Entropy) (ops : List Op), ClockForward ops →
      AlongRun standardPrimitives (Refused standardPrimitives) (Run.start cfg draws) ops := by
  intro h
  have hclock : ClockForward (answeredOps standardPrimitives (wordsConfig 1 2) ++
      [lateOp (wordsConfig 1 2)]) := by
    unfold ClockForward
    show [(0 : UInt64), 10, 180010].Pairwise (· ≤ ·)
    decide
  have hlate := (alongRun_append standardPrimitives (answeredOps standardPrimitives _) _
    (h (wordsConfig 1 2) (fun _ _ => 0) _ hclock)).1
  have hreject : (startedMeeting (wordsConfig 1 2) 0 10).sess.rejectAfterS = 180 := by
    simp [startedMeeting, awgSessionInit, wordsConfig, Config.default, awgRangePick, drawnOr]
  have hexpired := answeredOps_expired standardPrimitives (wordsConfig 1 2)
    (startedMeeting_talks 0 10) hreject
  have hnone := hlate hexpired
  rw [buildData_none_iff standardPrimitives (expired_established hexpired)] at hnone
  have hroom : ¬ CannotSeal (wordsConfig 1 2) 3 2048 := by
    simp [CannotSeal, wordsConfig, Config.default, paddedLen]
  exact hroom hnone

end SysAwg
