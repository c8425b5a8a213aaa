/-
An outstanding handshake, and the datagrams it rejects.

`awg_consume_response` checks the type, the index and `mac1`, and from then on works
on the pending handshake in place: the ephemeral key and the first hash are in before
any of the secrets is tried.  A datagram that passes the three checks and fails later
is ignored, but the handshake is no longer the one the peer answers.  `mac1` needs
only the client's public key, so anyone who has seen the index can make such a
datagram.  Up to those checks nothing is touched: without such a datagram the genuine
answer establishes the same keys as if the others had never come.
-/
import SysAwg.Standard
import SysAwg.Proofs.SessionSteps

namespace SysAwg

variable (P : Primitives)

/-- A datagram, with what the caller passes beside it. -/
structure Arrival where
  pkt : Bytes
  payloadCap : Int
  nowMs : UInt64

/-- Handle datagrams one after another, as long as each of them is ignored. -/
def rxIgnored (cfg : Config) (g : ReplayDrop) (s : Session) :
    List Arrival → Option (ReplayDrop × Session)
  | [] => some (g, s)
  | a :: rest =>
    let o := awgSessionOnDatagram P cfg g s a.pkt a.payloadCap a.nowMs
    if o.result = .ignored then rxIgnored cfg o.drop o.sess rest else none

/-- An answer that establishes from `s` establishes from `s'` too, with the same keys. -/
def AnswerKept (cfg : Config) (g : ReplayDrop) (s : Session) (g' : ReplayDrop) (s' : Session)
    (r : Arrival) : Prop :=
  let o := awgSessionOnDatagram P cfg g s r.pkt r.payloadCap r.nowMs
  let o' := awgSessionOnDatagram P cfg g' s' r.pkt r.payloadCap r.nowMs
  o.result = .established →
    o'.result = .established ∧ o'.sess.cur.sendKey = o.sess.cur.sendKey ∧
      o'.sess.cur.recvKey = o.sess.cur.recvKey ∧
      o'.sess.cur.remoteIndex = o.sess.cur.remoteIndex

/-- The three checks of `awg_consume_response` that come before it writes. -/
def responseChecked (hs : Handshake) (input : Bytes) : Bool :=
  Bytes.word32 input 0 == 2 && Bytes.word32 input 8 == hs.localIndex &&
    cryptoEqual (mac1 P hs.sPub (Bytes.slice input 0 60)).toList (Bytes.slice input 60 16)

/-- The datagram has the length of an answer and passes the three checks against the
outstanding handshake. -/
def answerChecked (cfg : Config) (s : Session) (pkt : Bytes) : Bool :=
  let u := awgUnwrap P cfg .response pkt
  decide ((pkt.length : Int) = cfg.s2 + awgMsgRespSize) && decide (u.1 = awgMsgRespSize) &&
    responseChecked P s.pending (u.2.1.drop u.2.2)

/-- A message that fails the checks leaves the handshake as it was. -/
theorem consumeResponse_unchecked {hs : Handshake} {input : Bytes}
    (h : responseChecked P hs input = false) : awgConsumeResponse P hs input = (hs, false) := by
  unfold awgConsumeResponse
  by_cases htype : Bytes.word32 input 0 = 2
  · by_cases hindex : Bytes.word32 input 8 = hs.localIndex
    · have hmac : cryptoEqual (mac1 P hs.sPub (Bytes.slice input 0 60)).toList
          (Bytes.slice input 60 16) = false := by
        simpa [responseChecked, htype, hindex] using h
      simp [htype, hindex, hmac]
    · simp [htype, hindex]
  · simp [htype]

/-- **A datagram that fails the checks leaves the outstanding handshake alone.** -/
theorem onDatagram_pending {cfg : Config} {s : Session} {pkt : Bytes}
    (h : answerChecked P cfg s pkt = false) (g : ReplayDrop) (payloadCap : Int) (nowMs : UInt64) :
    (awgSessionOnDatagram P cfg g s pkt payloadCap nowMs).sess.pending = s.pending ∧
      (awgSessionOnDatagram P cfg g s pkt payloadCap nowMs).sess.handshaking = s.handshaking := by
  unfold awgSessionOnDatagram
  dsimp only
  split
  · rename_i hanswer
    split
    · exact ⟨rfl, rfl⟩
    · rename_i hlen
      have hfail : responseChecked P s.pending ((awgUnwrap P cfg .response pkt).2.1.drop
          (awgUnwrap P cfg .response pkt).2.2) = false := by
        simpa [answerChecked, hanswer.2, not_not.mp hlen] using h
      rw [consumeResponse_unchecked P hfail]
      exact ⟨rfl, rfl⟩
  · split
    · exact ⟨rfl, rfl⟩
    · obtain ⟨hpending, hhandshaking, -⟩ := rxTransport_pending P cfg g s pkt payloadCap nowMs
      exact ⟨hpending, hhandshaking⟩

/-- What establishing depends on: the two fields and the datagram.  The keypair
installed is the pending handshake as the answer leaves it. -/
theorem onDatagram_established {cfg : Config} {g : ReplayDrop} {s : Session} {pkt : Bytes}
    {payloadCap : Int} {nowMs : UInt64}
    (h : (awgSessionOnDatagram P cfg g s pkt payloadCap nowMs).result = .established)
    {g' : ReplayDrop} {s' : Session} (hpending : s'.pending = s.pending)
    (hhandshaking : s'.handshaking = s.handshaking) :
    (awgSessionOnDatagram P cfg g' s' pkt payloadCap nowMs).result = .established ∧
      (awgSessionOnDatagram P cfg g' s' pkt payloadCap nowMs).sess.cur
        = (awgSessionOnDatagram P cfg g s pkt payloadCap nowMs).sess.cur := by
  unfold awgSessionOnDatagram at h ⊢
  dsimp only at h ⊢
  rw [hpending, hhandshaking]
  by_cases hanswer : s.handshaking = true ∧ (pkt.length : Int) = cfg.s2 + awgMsgRespSize
  · simp only [hanswer, and_self, if_true] at h ⊢
    by_cases hlen : (awgUnwrap P cfg .response pkt).1 ≠ awgMsgRespSize
    · simp [hlen] at h
    · simp only [hlen, if_false] at h ⊢
      generalize awgConsumeResponse P s.pending _ = c at h ⊢
      obtain ⟨pending, ok⟩ := c
      cases ok with
      | false => simp at h
      | true => exact ⟨rfl, by simp [Session.promote]; split <;> split <;> rfl⟩
  · simp only [hanswer, if_false] at h
    by_cases hest : s.established = true
    · simp only [hest, Bool.not_true, Bool.false_eq_true, if_false] at h
      exact absurd h (rxTransport_pending P cfg g s pkt payloadCap nowMs).2.2
    · simp [hest] at h

theorem rxIgnored_one {cfg : Config} {g : ReplayDrop} {s : Session} (a : Arrival)
    (h : (awgSessionOnDatagram P cfg g s a.pkt a.payloadCap a.nowMs).result = .ignored) :
    rxIgnored P cfg g s [a]
      = some ((awgSessionOnDatagram P cfg g s a.pkt a.payloadCap a.nowMs).drop,
          (awgSessionOnDatagram P cfg g s a.pkt a.payloadCap a.nowMs).sess) := by
  simp [rxIgnored, h]

/-- Ignored datagrams that fail the checks leave the outstanding handshake alone,
however many there are. -/
theorem rxIgnored_pending {cfg : Config} {s s' : Session} {g g' : ReplayDrop} {ds : List Arrival}
    (hclean : ∀ a ∈ ds, answerChecked P cfg s a.pkt = false)
    (hrun : rxIgnored P cfg g s ds = some (g', s')) :
    s'.pending = s.pending ∧ s'.handshaking = s.handshaking := by
  induction ds generalizing g s with
  | nil =>
      obtain ⟨-, rfl⟩ := Prod.mk.inj (Option.some.inj hrun)
      exact ⟨rfl, rfl⟩
  | cons a ds ih =>
      obtain ⟨hpending, hhandshaking⟩ := onDatagram_pending P
        (hclean a (List.mem_cons_self ..)) g a.payloadCap a.nowMs
      set o := awgSessionOnDatagram P cfg g s a.pkt a.payloadCap a.nowMs with ho
      have hrest : rxIgnored P cfg o.drop o.sess ds = some (g', s') := by
        simp only [rxIgnored, ← ho] at hrun
        split at hrun
        · exact hrun
        · cases hrun
      -- The checks read the session through `pending` only, which has not moved.
      have hsame : ∀ pkt, answerChecked P cfg o.sess pkt = answerChecked P cfg s pkt := by
        intro pkt
        simp only [answerChecked, hpending]
      obtain ⟨hp, hh⟩ := ih (fun b hb => by
        rw [hsame]
        exact hclean b (List.mem_cons_of_mem a hb)) hrest
      exact ⟨hp.trans hpending, hh.trans hhandshaking⟩

/--
**The genuine answer survives every datagram that fails the checks.**  Whatever was
ignored in between, an answer establishes afterwards if it would have before, with
the same keys and the same index, as long as none of the ignored datagrams passed
the type, index and `mac1` checks against the outstanding handshake.
-/
theorem answer_kept_unless_checked (cfg : Config) (g g' : ReplayDrop) (s s' : Session)
    (ds : List Arrival) (hrun : rxIgnored P cfg g s ds = some (g', s'))
    (hclean : ∀ a ∈ ds, answerChecked P cfg s a.pkt = false) (r : Arrival) :
    AnswerKept P cfg g s g' s' r := by
  intro hestablished
  obtain ⟨hpending, hhandshaking⟩ := rxIgnored_pending P hclean hrun
  obtain ⟨hresult, hcur⟩ := onDatagram_established P hestablished hpending hhandshaking
  refine ⟨hresult, ?_, ?_, ?_⟩
  · exact congrArg Handshake.sendKey hcur
  · exact congrArg Handshake.recvKey hcur
  · exact congrArg Handshake.remoteIndex hcur

/-! ### A forged answer -/

/-- A handshake as `awg_create_initiation` leaves it, under the standard primitives:
the private keys are the bytes 1 to 32 and, clamped, 65 to 96. -/
def waitingHandshake : Handshake :=
  { Handshake.zero with
    ck := #v[100, 54, 147, 167, 99, 106, 66, 181, 136, 241, 21, 188, 10, 174, 154, 29, 184, 67, 38,
      52, 178, 232, 217, 110, 214, 125, 48, 142, 116, 225, 50, 245]
    h := #v[243, 41, 211, 152, 4, 103, 154, 6, 17, 255, 70, 195, 35, 162, 121, 96, 47, 164, 226,
      122, 14, 254, 238, 104, 215, 93, 42, 46, 192, 245, 137, 110]
    sPriv := #v[1, 2, 3, 4, 5, 6, 7, 8, 9, 10, 11, 12, 13, 14, 15, 16, 17, 18, 19, 20, 21, 22, 23, 24,
      25, 26, 27, 28, 29, 30, 31, 32]
    sPub := #v[7, 163, 124, 188, 20, 32, 147, 200, 183, 85, 220, 27, 16, 232, 108, 180, 38, 55, 74,
      209, 106, 168, 83, 237, 11, 223, 192, 178, 184, 109, 28, 124]
    ePriv := #v[64, 66, 67, 68, 69, 70, 71, 72, 73, 74, 75, 76, 77, 78, 79, 80, 81, 82, 83, 84, 85,
      86, 87, 88, 89, 90, 91, 92, 93, 94, 95, 96]
    ePub := #v[100, 177, 1, 177, 208, 190, 90, 135, 4, 189, 7, 143, 152, 149, 0, 31, 192, 62, 142,
      159, 149, 34, 241, 136, 221, 18, 141, 152, 70, 212, 132, 102]
    peerPub := #v[88, 105, 175, 244, 80, 84, 151, 50, 203, 170, 237, 94, 93, 249, 179, 10, 109, 163, 28,
      176, 229, 116, 43, 173, 90, 212, 161, 167, 104, 241, 166, 123]
    localIndex := 7 }

def waitingSession : Session :=
  { Session.zero with pending := waitingHandshake, handshaking := true }

def genuineAnswer : Bytes :=
  [2, 0, 0, 0, 9, 0, 0, 0, 7, 0, 0, 0, 36, 79, 227, 185, 99, 232, 153, 221, 41, 91, 175,
    252, 226, 72, 211, 83, 15, 58, 154, 116, 121, 186, 6, 48, 2, 104, 14, 191, 231, 173,
    173, 73, 54, 161, 98, 86, 202, 199, 21, 221, 141, 119, 199, 198, 156, 107, 62, 99, 106,
    127, 237, 144, 231, 179, 160, 195, 151, 3, 147, 57, 141, 52, 228, 195, 0, 0, 0, 0, 0, 0,
    0, 0, 0, 0, 0, 0, 0, 0, 0, 0]

/-- A response with a zero ephemeral key.  Its `mac1` takes the client's public key and
nothing secret. -/
def forgedAnswer : Bytes :=
  [2, 0, 0, 0, 0, 0, 0, 0, 7, 0, 0, 0, 0, 0, 0, 0, 0, 0, 0, 0, 0, 0, 0, 0, 0, 0, 0, 0, 0,
    0, 0, 0, 0, 0, 0, 0, 0, 0, 0, 0, 0, 0, 0, 0, 0, 0, 0, 0, 0, 0, 0, 0, 0, 0, 0, 0, 0, 0,
    0, 0, 225, 119, 40, 18, 185, 132, 168, 248, 211, 147, 174, 225, 204, 106, 172, 165, 0,
    0, 0, 0, 0, 0, 0, 0, 0, 0, 0, 0, 0, 0, 0, 0]

/-- A datagram that fails the checks, and the peer's answer after it. -/
theorem answer_kept_after_zeros :
    AnswerKept standardPrimitives Config.default ⟨0, false⟩ waitingSession ⟨0, false⟩
      waitingSession ⟨genuineAnswer, 0, 0⟩ :=
  answer_kept_unless_checked standardPrimitives Config.default ⟨0, false⟩ ⟨0, false⟩
    waitingSession waitingSession [⟨List.replicate 92 0, 0, 0⟩] (by rfl)
    (by
      intro a ha
      obtain rfl := List.mem_singleton.mp ha
      decide +kernel) ⟨genuineAnswer, 0, 0⟩

/-- The forged answer is ignored; the genuine one establishes before it and not after. -/
theorem forgedAnswer_disturbs :
    ¬ ∀ (g g' : ReplayDrop) (s s' : Session) (ds : List Arrival), s.handshaking = true →
      rxIgnored standardPrimitives Config.default g s ds = some (g', s') →
      ∀ r, AnswerKept standardPrimitives Config.default g s g' s' r := by
  intro h
  have hforged : (awgSessionOnDatagram standardPrimitives Config.default ⟨0, false⟩ waitingSession
      forgedAnswer 0 0).result = .ignored := by decide +kernel
  have hgenuine : (awgSessionOnDatagram standardPrimitives Config.default ⟨0, false⟩ waitingSession
      genuineAnswer 0 0).result = .established := by decide +kernel
  have hlost : (awgSessionOnDatagram standardPrimitives Config.default
      (awgSessionOnDatagram standardPrimitives Config.default ⟨0, false⟩ waitingSession
        forgedAnswer 0 0).drop
      (awgSessionOnDatagram standardPrimitives Config.default ⟨0, false⟩ waitingSession
        forgedAnswer 0 0).sess genuineAnswer 0 0).result ≠ .established := by decide +kernel
  have hrun := rxIgnored_one standardPrimitives ⟨forgedAnswer, 0, 0⟩ hforged
  exact hlost (h _ _ _ _ _ rfl hrun ⟨genuineAnswer, 0, 0⟩ hgenuine).1

end SysAwg
