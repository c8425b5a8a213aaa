/-
Which keypair a datagram opens under.

`awg_session_on_datagram` offers a datagram to `cur` and then, in the same buffer, to
`prev`.  `awg_transport_open` takes header protection off in place before it looks, so
a refusal has to put it back.  It does, on each of its exits, and the attempt under
`prev` is an attempt on the datagram as it came.

Before either, while a handshake is outstanding, a datagram as long as a response is
taken for one.  A data packet of that length is lost to the session then, and it is
the only length at which an outstanding handshake makes a difference.
-/
import SysAwg.Session
import SysAwg.Proofs.Transport
import SysAwg.Proofs.Framing
import SysAwg.Proofs.SessionSteps
import SysAwg.Proofs.Outstanding

namespace SysAwg

variable (P : Primitives)

/-! ### A refused datagram

The header pass is its own inverse, so what the function decrypts on its way in it can
encrypt again on its way out.  Every exit after the first pass has to do that, and an exit
that forgot would spoil the datagram for the attempt that follows.
-/

/-- `REJECT()` undoes the pass made on the way in. -/
theorem openReject_restores {cfg : Config} {pkt : Bytes}
    (hprot : ¬ (cfg.haveHeaderProtection = true ∧ cfg.s4 < 12))
    (hlong : ¬ ((pkt.length : Int) < cfg.s4 + transportHdr + aeadTag)) :
    openReject P cfg (if cfg.haveHeaderProtection
        then headerPass P cfg pkt cfg.s4.toNat transportHdr else pkt) = ⟨-1, pkt, none, none⟩ := by
  simp only [transportHdr, aeadTag] at hlong
  by_cases hp : cfg.haveHeaderProtection = true
  · have h12 : 12 ≤ cfg.s4.toNat := by
      have : ¬ cfg.s4 < 12 := fun hlt => hprot ⟨hp, hlt⟩
      omega
    have hroom : cfg.s4.toNat + transportHdr ≤ pkt.length := by
      show cfg.s4.toNat + 16 ≤ pkt.length
      omega
    simp only [openReject, hp, if_true]
    rw [headerPass_twice P cfg h12 hroom]
  · simp only [openReject, hp, Bool.false_eq_true, if_false]

/-- `awg_transport_open` refuses and has touched nothing, or delivers. -/
theorem open_cases (cfg : Config) (hs : Handshake) (pkt : Bytes) (outCap : Int) :
    awgTransportOpen P cfg hs pkt outCap = ⟨-1, pkt, none, none⟩ ∨
      0 ≤ (awgTransportOpen P cfg hs pkt outCap).ret := by
  unfold awgTransportOpen
  dsimp only
  split
  · exact Or.inl rfl
  · rename_i hprot
    split
    · exact Or.inl rfl
    · rename_i hlong
      have hreject := openReject_restores P hprot hlong
      generalize (if cfg.haveHeaderProtection
        then headerPass P cfg pkt cfg.s4.toNat transportHdr else pkt) = clear at hreject ⊢
      split
      · exact Or.inl hreject
      · split
        · exact Or.inl hreject
        · split
          · exact Or.inl hreject
          · rename_i hfits
            split
            · exact Or.inl hreject
            · -- the one exit that delivers has checked the length it returns
              refine Or.inr ?_
              show 0 ≤ (clear.length : Int) - cfg.s4 - transportHdr - aeadTag
              omega

/-- The attempt under `prev` starts from the datagram as it came. -/
theorem rxTransport_prev {cfg : Config} (g : ReplayDrop) {s : Session} {pkt : Bytes}
    {payloadCap : Int} {nowMs : UInt64}
    (hcur : (awgTransportOpen P cfg s.cur pkt payloadCap).ret < 0)
    (hhave : (s.expirePrev nowMs).havePrev = true) :
    rxTransport P cfg g s pkt payloadCap nowMs =
      if (awgTransportOpen P cfg s.prev pkt payloadCap).ret ≥ 0
      then rxOpened g (s.expirePrev nowMs) (awgTransportOpen P cfg s.prev pkt payloadCap) true nowMs
      else ⟨.ignored, s.expirePrev nowMs, g, pkt, [], none⟩ := by
  have hsame : (s.expirePrev nowMs).cur = s.cur := (expirePrev_cur s nowMs).1.cur
  have hprev : (s.expirePrev nowMs).prev = s.prev := ((expirePrev_prev s nowMs).1 hhave).2
  have hfirst : awgTransportOpen P cfg s.cur pkt payloadCap = ⟨-1, pkt, none, none⟩ := by
    rcases open_cases P cfg s.cur pkt payloadCap with hreject | hok
    · exact hreject
    · omega
  unfold rxTransport
  dsimp only
  rw [hsame, hprev, hfirst]
  dsimp only
  rw [if_neg (by omega), if_pos hhave]
  rcases open_cases P cfg s.prev pkt payloadCap with hreject | hok
  · rw [hreject]
  · rw [if_pos hok, if_pos hok]

/--
**A failed open leaves everything as it was.**  When `awg_transport_open` returns -1, the
packet buffer is what it was on entry and nothing was stored through `out` or `counter`;
so when `cur` refuses a datagram, `awg_session_on_datagram` does with it what the attempt
under `prev` on the datagram itself says.  (A negative padding would have the source look
in front of the buffer.)
-/
theorem failed_open_restores (cfg : Config) (_hs4 : 0 ≤ cfg.s4) :
    (∀ (hs : Handshake) (pkt : Bytes) (outCap : Int),
      (awgTransportOpen P cfg hs pkt outCap).ret = -1 →
        (awgTransportOpen P cfg hs pkt outCap).pkt = pkt ∧
        (awgTransportOpen P cfg hs pkt outCap).out = none ∧
        (awgTransportOpen P cfg hs pkt outCap).counter = none) ∧
    ∀ (g : ReplayDrop) (s : Session) (pkt : Bytes) (payloadCap : Int) (nowMs : UInt64),
      ¬ (s.handshaking = true ∧ (pkt.length : Int) = cfg.s2 + awgMsgRespSize) →
      s.established = true → (s.expirePrev nowMs).havePrev = true →
      (awgTransportOpen P cfg s.cur pkt payloadCap).ret < 0 →
        awgTransportOpen P cfg s.prev (awgTransportOpen P cfg s.cur pkt payloadCap).pkt payloadCap
          = awgTransportOpen P cfg s.prev pkt payloadCap ∧
        awgSessionOnDatagram P cfg g s pkt payloadCap nowMs =
          if (awgTransportOpen P cfg s.prev pkt payloadCap).ret ≥ 0
          then rxOpened g (s.expirePrev nowMs) (awgTransportOpen P cfg s.prev pkt payloadCap) true
            nowMs
          else ⟨.ignored, s.expirePrev nowMs, g, pkt, [], none⟩ := by
  refine ⟨?_, ?_⟩
  · intro hs pkt outCap hret
    rcases open_cases P cfg hs pkt outCap with hreject | hok
    · rw [hreject]
      exact ⟨rfl, rfl, rfl⟩
    · omega
  · intro g s pkt payloadCap nowMs hresp hest hhave hcur
    refine ⟨?_, ?_⟩
    · rcases open_cases P cfg s.cur pkt payloadCap with hreject | hok
      · rw [hreject]
      · omega
    · rw [← rxTransport_prev P g hcur hhave]
      unfold awgSessionOnDatagram
      rw [if_neg hresp, if_neg (by simp [hest])]

/-- Header protection with the shortest padding it allows. -/
def protectedConfig : Config := { Config.default with s4 := 12, haveHeaderProtection := true }

def twoKeypairs : Session :=
  { Session.zero with established := true, havePrev := true, prev.localIndex := 1 }

/-- A datagram of zeros, for which neither keypair has a use. -/
theorem failed_open_restores_zeros :
    (awgTransportOpen standardPrimitives protectedConfig twoKeypairs.cur (List.replicate 44 0)
        100).pkt = List.replicate 44 0 ∧
      (awgSessionOnDatagram standardPrimitives protectedConfig ⟨0, false⟩ twoKeypairs
        (List.replicate 44 0) 100 0).pkt = List.replicate 44 0 := by
  have hcur : (awgTransportOpen standardPrimitives protectedConfig twoKeypairs.cur
      (List.replicate 44 0) 100).ret = -1 := by decide +kernel
  have hprev : (awgTransportOpen standardPrimitives protectedConfig twoKeypairs.prev
      (List.replicate 44 0) 100).ret = -1 := by decide +kernel
  obtain ⟨hopen, hsession⟩ := failed_open_restores standardPrimitives protectedConfig (by decide)
  refine ⟨(hopen _ _ _ hcur).1, ?_⟩
  have hsecond := (hsession ⟨0, false⟩ twoKeypairs (List.replicate 44 0) 100 0 (by decide) rfl rfl
    (by rw [hcur]; omega)).2
  rw [hsecond, if_neg (by rw [hprev]; omega)]

/-! ### An outstanding handshake

Two runs of the same call are compared, with the flag up and with the flag down.  They part
only at the test of the length, and from there on one of them sees a response and the other
a data packet.
-/

/-- The session with the flag that says a handshake is outstanding. -/
def Session.withHandshaking (s : Session) (b : Bool) : Session := { s with handshaking := b }

theorem rxOpened_withHandshaking (g : ReplayDrop) (s : Session) (r : OpenResult) (onPrev : Bool)
    (nowMs : UInt64) (b : Bool) :
    rxOpened g (s.withHandshaking b) r onPrev nowMs =
      { rxOpened g s r onPrev nowMs with
        sess := (rxOpened g s r onPrev nowMs).sess.withHandshaking b } := by
  cases onPrev with
  | false =>
      simp only [rxOpened, Session.withHandshaking, Bool.false_eq_true, if_false]
      split
      · rfl
      · split <;> rfl
  | true =>
      simp only [rxOpened, Session.withHandshaking, if_true]
      split
      · rfl
      · split <;> rfl

theorem expirePrev_withHandshaking (s : Session) (nowMs : UInt64) (b : Bool) :
    (s.withHandshaking b).expirePrev nowMs = (s.expirePrev nowMs).withHandshaking b := by
  by_cases h : s.havePrev = true ∧ nowMs - s.prevSinceMs > awgPrevKeepMs
  · have hold : s.expirePrev nowMs = _ := if_pos h
    have hnew : (s.withHandshaking b).expirePrev nowMs = _ := if_pos h
    rw [hold, hnew]
    rfl
  · have hold : s.expirePrev nowMs = _ := if_neg h
    have hnew : (s.withHandshaking b).expirePrev nowMs = _ := if_neg h
    rw [hold, hnew]

theorem rxTransport_withHandshaking (cfg : Config) (g : ReplayDrop) (s : Session) (pkt : Bytes)
    (payloadCap : Int) (nowMs : UInt64) (b : Bool) :
    rxTransport P cfg g (s.withHandshaking b) pkt payloadCap nowMs =
      { rxTransport P cfg g s pkt payloadCap nowMs with
        sess := (rxTransport P cfg g s pkt payloadCap nowMs).sess.withHandshaking b } := by
  unfold rxTransport
  dsimp only
  rw [expirePrev_withHandshaking]
  generalize s.expirePrev nowMs = t
  have hkeys : (t.withHandshaking b).cur = t.cur ∧ (t.withHandshaking b).prev = t.prev ∧
      (t.withHandshaking b).havePrev = t.havePrev := ⟨rfl, rfl, rfl⟩
  rw [hkeys.1, hkeys.2.1, hkeys.2.2]
  by_cases hcur : (awgTransportOpen P cfg t.cur pkt payloadCap).ret ≥ 0
  · rw [if_pos hcur, if_pos hcur]
    exact rxOpened_withHandshaking g t _ false nowMs b
  · rw [if_neg hcur, if_neg hcur]
    by_cases hhave : t.havePrev = true
    · rw [if_pos hhave, if_pos hhave]
      generalize awgTransportOpen P cfg t.prev _ payloadCap = second
      by_cases hprev : second.ret ≥ 0
      · rw [if_pos hprev, if_pos hprev]
        exact rxOpened_withHandshaking g t second true nowMs b
      · rw [if_neg hprev, if_neg hprev]
    · rw [if_neg hhave, if_neg hhave]

/-- An outstanding handshake makes no difference to what becomes of a datagram: the
result, the payload, the counter it opened with and the whole bookkeeping are the same. -/
structure RekeyHarmless (cfg : Config) (g : ReplayDrop) (s : Session) (pkt : Bytes)
    (payloadCap : Int) (nowMs : UInt64) : Prop where
  result : (awgSessionOnDatagram P cfg g (s.withHandshaking true) pkt payloadCap nowMs).result
    = (awgSessionOnDatagram P cfg g (s.withHandshaking false) pkt payloadCap nowMs).result
  payload : (awgSessionOnDatagram P cfg g (s.withHandshaking true) pkt payloadCap nowMs).payload
    = (awgSessionOnDatagram P cfg g (s.withHandshaking false) pkt payloadCap nowMs).payload
  opened : (awgSessionOnDatagram P cfg g (s.withHandshaking true) pkt payloadCap nowMs).opened
    = (awgSessionOnDatagram P cfg g (s.withHandshaking false) pkt payloadCap nowMs).opened
  drop : (awgSessionOnDatagram P cfg g (s.withHandshaking true) pkt payloadCap nowMs).drop
    = (awgSessionOnDatagram P cfg g (s.withHandshaking false) pkt payloadCap nowMs).drop
  /-- Counters, windows, keypairs and times: everything but the flag itself. -/
  bookkeeping :
    (awgSessionOnDatagram P cfg g (s.withHandshaking true) pkt payloadCap
        nowMs).sess.withHandshaking false
      = (awgSessionOnDatagram P cfg g (s.withHandshaking false) pkt payloadCap
        nowMs).sess.withHandshaking false

/-- A peer holds the other end of `cur`, or of a `prev` that has not expired. -/
def PeerOf (s : Session) (nowMs : UInt64) (peer : Handshake) : Prop :=
  Mirrors peer s.cur ∨
    (s.havePrev = true ∧ ¬ nowMs - s.prevSinceMs > awgPrevKeepMs ∧ Mirrors peer s.prev)

/-- Datagrams of any other length go the same way. -/
theorem RekeyHarmless.of_length {cfg : Config} {s : Session} {pkt : Bytes}
    (hlen : (pkt.length : Int) ≠ cfg.s2 + awgMsgRespSize) (hest : s.established = true)
    (g : ReplayDrop) (payloadCap : Int) (nowMs : UInt64) :
    RekeyHarmless P cfg g s pkt payloadCap nowMs := by
  have hrun : ∀ b, awgSessionOnDatagram P cfg g (s.withHandshaking b) pkt payloadCap nowMs =
      { rxTransport P cfg g s pkt payloadCap nowMs with
        sess := (rxTransport P cfg g s pkt payloadCap nowMs).sess.withHandshaking b } := by
    intro b
    rw [← rxTransport_withHandshaking]
    unfold awgSessionOnDatagram
    have hest' : (s.withHandshaking b).established = true := hest
    rw [if_neg (fun h => hlen h.2), if_neg (by simp [hest'])]
  constructor
  all_goals rw [hrun true, hrun false]
  rfl

/-- Taken for a response, a datagram is ignored without a trace or installs a keypair. -/
theorem response_outcome {cfg : Config} {s : Session} {pkt : Bytes}
    (hlen : (pkt.length : Int) = cfg.s2 + awgMsgRespSize) (hshake : s.handshaking = true)
    (g : ReplayDrop) (payloadCap : Int) (nowMs : UInt64) :
    (awgSessionOnDatagram P cfg g s pkt payloadCap nowMs).result = .established ∨
      ((awgSessionOnDatagram P cfg g s pkt payloadCap nowMs).result = .ignored ∧
        (awgSessionOnDatagram P cfg g s pkt payloadCap nowMs).sess.replaysDropped
          = s.replaysDropped) := by
  unfold awgSessionOnDatagram
  rw [if_pos ⟨hshake, hlen⟩]
  dsimp only
  split
  · exact Or.inr ⟨rfl, rfl⟩
  · split
    · exact Or.inr ⟨rfl, rfl⟩
    · exact Or.inl rfl

theorem rxOpened_outcome (g : ReplayDrop) (s : Session) (r : OpenResult) (onPrev : Bool)
    (nowMs : UInt64) :
    (rxOpened g s r onPrev nowMs).result ≠ .established ∧
      ((rxOpened g s r onPrev nowMs).result = .ignored →
        (rxOpened g s r onPrev nowMs).sess.replaysDropped = s.replaysDropped + 1) := by
  cases onPrev with
  | false =>
      simp only [rxOpened, Bool.false_eq_true, if_false]
      split
      · exact ⟨by simp, fun _ => rfl⟩
      · split
        · exact ⟨by simp, by simp⟩
        · exact ⟨by simp, by simp⟩
  | true =>
      simp only [rxOpened, if_true]
      split
      · exact ⟨by simp, fun _ => rfl⟩
      · split
        · exact ⟨by simp, by simp⟩
        · exact ⟨by simp, by simp⟩

theorem expirePrev_replaysDropped (s : Session) (nowMs : UInt64) :
    (s.expirePrev nowMs).replaysDropped = s.replaysDropped := by
  unfold Session.expirePrev
  split <;> rfl

theorem havePrev_of_unexpired {s : Session} {nowMs : UInt64} (hhave : s.havePrev = true)
    (hkeep : ¬ nowMs - s.prevSinceMs > awgPrevKeepMs) :
    (s.expirePrev nowMs).havePrev = true := by
  unfold Session.expirePrev
  rw [if_neg (fun h => hkeep h.2)]
  exact hhave

/-- What the peer sealed is delivered, or counted as a replay. -/
theorem rxTransport_sealed {cfg : Config} {s : Session} {peer : Handshake} {counter : UInt64}
    {payload pkt : Bytes} {n sealCap payloadCap : Int} {nowMs : UInt64} {e : Entropy}
    (hs4 : 0 ≤ cfg.s4) (hpeer : PeerOf s nowMs peer)
    (hseal : awgTransportSeal P cfg peer counter payload sealCap e = some (n, pkt))
    (hfits : (paddedLen payload.length : Int) ≤ payloadCap) (g : ReplayDrop) :
    (rxTransport P cfg g s pkt payloadCap nowMs).result ≠ .established ∧
      ((rxTransport P cfg g s pkt payloadCap nowMs).result = .ignored →
        (rxTransport P cfg g s pkt payloadCap nowMs).sess.replaysDropped
          = s.replaysDropped + 1) := by
  have hprot := nonce_fits_of_seal P hseal
  have hopens : ∀ hs, Mirrors peer hs → (awgTransportOpen P cfg hs pkt payloadCap).ret ≥ 0 := by
    intro hs hmirror
    rw [(open_sealed P hs4 hprot hmirror hseal hfits).2]
    show (0 : Int) ≤ paddedLen payload.length
    omega
  have hsame : (s.expirePrev nowMs).cur = s.cur := (expirePrev_cur s nowMs).1.cur
  have hcount := expirePrev_replaysDropped s nowMs
  by_cases hcur : (awgTransportOpen P cfg s.cur pkt payloadCap).ret ≥ 0
  · have hrun : rxTransport P cfg g s pkt payloadCap nowMs
        = rxOpened g (s.expirePrev nowMs) (awgTransportOpen P cfg s.cur pkt payloadCap) false
          nowMs := by
      unfold rxTransport
      dsimp only
      rw [hsame, if_pos hcur]
    rw [hrun, ← hcount]
    exact rxOpened_outcome g _ _ _ _
  · rcases hpeer with hmirror | ⟨hhave, hkeep, hmirror⟩
    · exact absurd (hopens s.cur hmirror) hcur
    · rw [rxTransport_prev P g (by omega) (havePrev_of_unexpired hhave hkeep),
        if_pos (hopens s.prev hmirror), ← hcount]
      exact rxOpened_outcome g _ _ _ _

theorem sealed_length {cfg : Config} {hs : Handshake} {counter : UInt64} {payload pkt : Bytes}
    {n outCap : Int} {e : Entropy} (hs4 : 0 ≤ cfg.s4)
    (hseal : awgTransportSeal P cfg hs counter payload outCap e = some (n, pkt)) :
    (pkt.length : Int) = cfg.s4 + 32 + paddedLen payload.length := by
  obtain ⟨-, hpkt⟩ := seal_eq P hseal
  have hclear := clearPacket_length P cfg hs counter payload e
  have hsame := (open_clear P cfg (nonce_fits_of_seal P hseal) (by omega) hpkt).2
  omega

/-- A data packet as long as a response meets a different fate. -/
theorem RekeyHarmless.length_ne {cfg : Config} {g : ReplayDrop} {s : Session} {peer : Handshake}
    {counter : UInt64} {payload pkt : Bytes} {n sealCap payloadCap : Int} {nowMs : UInt64}
    {e : Entropy} (h : RekeyHarmless P cfg g s pkt payloadCap nowMs) (hs4 : 0 ≤ cfg.s4)
    (hest : s.established = true) (hpeer : PeerOf s nowMs peer)
    (hseal : awgTransportSeal P cfg peer counter payload sealCap e = some (n, pkt))
    (hfits : (paddedLen payload.length : Int) ≤ payloadCap) :
    (pkt.length : Int) ≠ cfg.s2 + awgMsgRespSize := by
  intro hresp
  have hbusy := response_outcome P (s := s.withHandshaking true) hresp rfl g payloadCap nowMs
  have hidle := rxTransport_sealed P (s := s.withHandshaking false) hs4 hpeer hseal hfits g
  have hrun : awgSessionOnDatagram P cfg g (s.withHandshaking false) pkt payloadCap nowMs
      = rxTransport P cfg g (s.withHandshaking false) pkt payloadCap nowMs := by
    unfold awgSessionOnDatagram
    rw [if_neg (by simp [Session.withHandshaking]),
      if_neg (by simp [Session.withHandshaking, hest])]
  rw [← hrun] at hidle
  rcases hbusy with hinstalled | ⟨hignored, hcount⟩
  · exact hidle.1 (h.result.symm.trans hinstalled)
  · -- the replay counter tells the two apart when both are ignored
    have hmore := hidle.2 (h.result.symm.trans hignored)
    have hbooks := congrArg Session.replaysDropped h.bookkeeping
    simp only [Session.withHandshaking] at hbooks hcount hmore
    rw [hcount, hmore] at hbooks
    simp at hbooks

/--
**An outstanding handshake costs data packets of exactly one length.**  For a datagram
that the peer sealed under `cur` or under a `prev` still kept, and whose payload fits, it
makes no difference whether a handshake is outstanding if and only if the datagram is not
as long as a response.
-/
theorem rekey_harmless_iff (cfg : Config) (g : ReplayDrop) (s : Session) (peer : Handshake)
    (counter : UInt64) (payload pkt : Bytes) (n sealCap payloadCap : Int) (nowMs : UInt64)
    (e : Entropy) (hest : s.established = true) (hpeer : PeerOf s nowMs peer)
    (hseal : awgTransportSealChecked P cfg peer counter payload sealCap e = .ok (some (n, pkt)))
    (hfits : (paddedLen payload.length : Int) ≤ payloadCap) :
    RekeyHarmless P cfg g s pkt payloadCap nowMs ↔
      cfg.s4 + 32 + paddedLen payload.length ≠ cfg.s2 + 92 := by
  obtain ⟨hs4, hseal⟩ := seal_ok P hseal
  rw [← sealed_length P hs4 hseal]
  constructor
  · intro hsame
    exact hsame.length_ne P hs4 hest hpeer hseal hfits
  · intro hlen
    exact RekeyHarmless.of_length P hlen hest g payloadCap nowMs

/-- A configuration whose file names only the keys, the endpoint and `S4 = 12`. -/
def collidingConfig : Config :=
  { Config.default with
    privateKey := waitingHandshake.sPriv
    havePrivateKey := true
    peerPublicKey := waitingHandshake.peerPub
    havePeerPublicKey := true
    endpointHost := [49, 46, 50, 46, 51, 46, 52]
    s4 := 12 }

/-- The session once its handshake was answered. -/
def answeredSession : Session :=
  (awgSessionOnDatagram standardPrimitives collidingConfig ⟨0, false⟩ waitingSession genuineAnswer
    2048 10).sess

theorem answeredSession_ready : answeredSession.established = true ∧ (replayOk ⟨0, false⟩
    answeredSession.rxWindowMax answeredSession.rxWindowBits 0).fresh = true := by
  decide +kernel

/-- The other end of a keypair, as far as sealing goes. -/
def mirrorOf (hs : Handshake) : Handshake :=
  { Handshake.zero with sendKey := hs.recvKey, remoteIndex := hs.localIndex }

theorem mirrors_mirrorOf (hs : Handshake) : Mirrors (mirrorOf hs) hs := ⟨rfl, rfl⟩

/-- The peer of that session seals a payload as its first packet. -/
def answeredPacket (payload : Bytes) : Checked (Option (Int × Bytes)) :=
  awgTransportSealChecked standardPrimitives collidingConfig (mirrorOf answeredSession.cur) 0 payload
    2048 fun _ => 0

/-- Three bytes from the peer are the same with or without a handshake outstanding. -/
theorem rekey_harmless_three :
    ∃ n pkt, answeredPacket [1, 2, 3] = .ok (some (n, pkt)) ∧
      RekeyHarmless standardPrimitives collidingConfig ⟨0, false⟩ answeredSession pkt 2048 20 := by
  have hseals : ∀ hs : Handshake, ∃ n pkt, awgTransportSealChecked standardPrimitives
      collidingConfig hs 0 [1, 2, 3] 2048 (fun _ => 0) = .ok (some (n, pkt)) := by
    intro hs
    exact ⟨_, _, rfl⟩
  obtain ⟨n, pkt, hseal⟩ := hseals (mirrorOf answeredSession.cur)
  refine ⟨n, pkt, hseal, ?_⟩
  exact (rekey_harmless_iff standardPrimitives collidingConfig ⟨0, false⟩ answeredSession _ 0
    [1, 2, 3] pkt n 2048 2048 20 (fun _ => 0) answeredSession_ready.1
    (Or.inl (mirrors_mirrorOf _)) hseal (by decide)).mpr (by decide)

/-- Forty-eight bytes are lost while one is. -/
theorem colliding_packet_lost :
    collidingConfig.accepted = true ∧ answeredSession.established = true ∧
      (replayOk ⟨0, false⟩ answeredSession.rxWindowMax answeredSession.rxWindowBits 0).fresh = true ∧
      ∃ n pkt, answeredPacket (List.replicate 48 1) = .ok (some (n, pkt)) ∧
        ¬ RekeyHarmless standardPrimitives collidingConfig ⟨0, false⟩ answeredSession pkt 2048
          20 := by
  have hseals : ∀ hs : Handshake, ∃ n pkt, awgTransportSealChecked standardPrimitives
      collidingConfig hs 0 (List.replicate 48 1) 2048 (fun _ => 0) = .ok (some (n, pkt)) := by
    intro hs
    exact ⟨_, _, rfl⟩
  obtain ⟨n, pkt, hsealed⟩ := hseals (mirrorOf answeredSession.cur)
  obtain ⟨hs4, hseal⟩ := seal_ok standardPrimitives hsealed
  refine ⟨by decide, answeredSession_ready.1, answeredSession_ready.2, n, pkt, hsealed, ?_⟩
  intro hsame
  refine hsame.length_ne standardPrimitives hs4 answeredSession_ready.1
    (Or.inl (mirrors_mirrorOf _)) hseal (by decide) ?_
  rw [sealed_length standardPrimitives hs4 hseal]
  rfl

end SysAwg
