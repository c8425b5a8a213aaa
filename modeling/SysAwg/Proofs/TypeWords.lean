/-
The message-type words on the wire.

The configuration replaces WireGuard's four message types by words of its own.  Transport
packets carry and require `h4`.  The handshake does not look at the configuration: an
initiation always carries 1, and an answer is taken only with 2.  So the client does what
the configuration says exactly when `h1 = 1` and `h2 = 2`, and that decides whether it and
a peer with the same configuration ever talk.

The two handshake words are read off the functions that write and compare them, the
transport word likewise, and this settles what is on the wire.  What it means for a peer
is shown by runs of a whole meeting: in one direction a meeting that succeeds has passed
both comparisons, in the other all calls of one are carried out, with the Diffie-Hellman
values of the two ends assumed equal.
-/
import SysAwg.Peer
import SysAwg.Proofs.Handshake
import SysAwg.Proofs.Wrapping
import SysAwg.Proofs.Dispatch

namespace SysAwg

variable (P : Primitives)

/-! ### What is on the wire -/

/-- The type word of a datagram once its padding and its header protection are removed.
Header protection covers a handshake message to its end, and of a transport packet the
header. -/
def typeWord (cfg : Config) (kind : Kind) (pkt : Bytes) : UInt32 :=
  let pad := paddingFor cfg kind
  let n := if kind = .transport then transportHdr else ((pkt.length : Int) - pad).toNat
  Bytes.word32 (if cfg.haveHeaderProtection then headerPass P cfg pkt pad.toNat n else pkt) pad.toNat

theorem word32_drop (b : Bytes) (n : Nat) : Bytes.word32 (b.drop n) 0 = Bytes.word32 b n := by
  simp [Bytes.word32, List.getD_eq_getElem?_getD]

theorem typeWord_wrap {cfg : Config} {kind : Kind} {msg out : Bytes} {outCap : Int} {e : Entropy}
    (hkind : kind ≠ .transport) (h : awgWrap P cfg kind msg outCap e = some out)
    (hmsg : 0 < msg.length) : typeWord P cfg kind out = Bytes.word32 msg 0 := by
  obtain ⟨hprot, hpad, hout⟩ := wrap_eq P h
  obtain ⟨hlen, -⟩ := unwrap_wrap P h hmsg
  have hclear : (awgRandomBytes e (paddingFor cfg kind).toNat ++ msg).length
      = (paddingFor cfg kind).toNat + msg.length := by simp
  have hmsgLen : ((out.length : Int) - paddingFor cfg kind).toNat = msg.length := by omega
  have hread : Bytes.word32 (awgRandomBytes e (paddingFor cfg kind).toNat ++ msg)
      (paddingFor cfg kind).toNat = Bytes.word32 msg 0 := by
    rw [← word32_drop, List.drop_left' (length_awgRandomBytes e _)]
  unfold typeWord
  dsimp only
  rw [if_neg hkind, hmsgLen, ← hread, hout]
  split
  · rename_i hp
    have h12 : 12 ≤ (paddingFor cfg kind).toNat := by have := hprot hp; omega
    rw [headerPass_twice P cfg h12 (le_of_eq hclear.symm)]
  · rfl

theorem typeWord_unwrap {cfg : Config} {kind : Kind} {pkt : Bytes} (hkind : kind ≠ .transport)
    (h : (awgUnwrap P cfg kind pkt).1 ≠ -1) :
    Bytes.word32 ((awgUnwrap P cfg kind pkt).2.1.drop (awgUnwrap P cfg kind pkt).2.2) 0
      = typeWord P cfg kind pkt := by
  rw [word32_drop]
  unfold awgUnwrap at h ⊢
  dsimp only at h ⊢
  split at h
  · exact absurd rfl h
  · rename_i hshort
    split at h
    · exact absurd rfl h
    · rename_i hlen
      rw [if_neg hshort, if_neg hlen]
      unfold typeWord
      dsimp only
      rw [if_neg hkind]

/-! ### The handshake's words -/

/-- **Every initiation carries 1.** -/
theorem createInitiation_word {hs hs' : Handshake} {eph nanos : Entropy} {nowSeconds : UInt64}
    {msg : Bytes} (h : awgCreateInitiation P hs eph nanos nowSeconds = (hs', some msg)) :
    Bytes.word32 msg 0 = 1 ∧ 0 < msg.length := by
  unfold awgCreateInitiation at h
  dsimp only at h
  split at h
  · cases h
  · split at h
    · cases h
    · obtain rfl := Option.some.inj (Prod.mk.inj h).2
      refine ⟨?_, by simp⟩
      simp only [List.append_assoc]
      exact Bytes.word32_append [] _ 1 rfl

/-- A response carries the word it is created with. -/
theorem createResponse_word {word : UInt32} {hs hs' : Handshake} {eph : Entropy} {msg : Bytes}
    (h : peerCreateResponse P word hs eph = (hs', some msg)) :
    Bytes.word32 msg 0 = word ∧ 0 < msg.length := by
  unfold peerCreateResponse at h
  dsimp only at h
  split at h
  · cases h
  · split at h
    · cases h
    · obtain rfl := Option.some.inj (Prod.mk.inj h).2
      refine ⟨?_, by simp⟩
      simp only [List.append_assoc]
      exact Bytes.word32_append [] _ word rfl

theorem consumeInitiation_word {word : UInt32} {hs hs' : Handshake} {input : Bytes}
    (h : peerConsumeInitiation P word hs input = (hs', true)) : Bytes.word32 input 0 = word := by
  by_contra hne
  unfold peerConsumeInitiation at h
  rw [if_pos hne] at h
  cases (Prod.mk.inj h).2

/-- **A response is taken only with 2.** -/
theorem consumeResponse_word {hs hs' : Handshake} {input : Bytes}
    (h : awgConsumeResponse P hs input = (hs', true)) : Bytes.word32 input 0 = 2 := by
  by_contra hne
  unfold awgConsumeResponse at h
  rw [if_pos hne] at h
  cases (Prod.mk.inj h).2

/-- What an emitted initiation is made of. -/
theorem buildInitiation_parts {cfg : Config} {s : Session} {outCap : Int} {nowMs : UInt64}
    {idx eph nanos pad : Entropy} {nowSeconds : UInt64} {out : Bytes}
    (h : (awgSessionBuildInitiation P cfg s outCap nowMs idx eph nanos pad nowSeconds).2
      = some out) :
    ∃ msg, awgWrap P cfg .init msg outCap pad = some out ∧ Bytes.word32 msg 0 = 1 ∧
      0 < msg.length := by
  unfold awgSessionBuildInitiation at h
  dsimp only at h
  split at h
  · cases h
  · rename_i pending msg hcreate
    split at h
    · cases h
    · rename_i wrapped hwrap
      obtain rfl := Option.some.inj h
      exact ⟨msg, hwrap, createInitiation_word P hcreate⟩

theorem buildInitiation_word {cfg : Config} {s : Session} {outCap : Int} {nowMs : UInt64}
    {idx eph nanos pad : Entropy} {nowSeconds : UInt64} {out : Bytes}
    (h : (awgSessionBuildInitiation P cfg s outCap nowMs idx eph nanos pad nowSeconds).2
      = some out) : typeWord P cfg .init out = 1 := by
  obtain ⟨msg, hwrap, hword, hmsg⟩ := buildInitiation_parts P h
  rw [typeWord_wrap P (by simp) hwrap hmsg, hword]

theorem established_word {cfg : Config} {g : ReplayDrop} {s : Session} {pkt : Bytes}
    {payloadCap : Int} {nowMs : UInt64}
    (h : (awgSessionOnDatagram P cfg g s pkt payloadCap nowMs).result = .established) :
    typeWord P cfg .response pkt = 2 := by
  unfold awgSessionOnDatagram at h
  dsimp only at h
  split at h
  · split at h
    · cases h
    · rename_i hlen
      have hok : (awgUnwrap P cfg .response pkt).1 ≠ -1 := by
        rw [not_not.mp hlen, awgMsgRespSize]
        omega
      rcases hc : awgConsumeResponse P s.pending ((awgUnwrap P cfg .response pkt).2.1.drop
        (awgUnwrap P cfg .response pkt).2.2) with ⟨pending, ok⟩
      rw [hc] at h
      cases ok with
      | false => cases h
      | true =>
          rw [← typeWord_unwrap P (by simp) hok]
          exact consumeResponse_word P hc
  · split at h
    · cases h
    · exact absurd h (rxTransport_pending P cfg g s pkt payloadCap nowMs).2.2

/-! ### The words of transport packets -/

theorem seal_word {cfg : Config} {hs : Handshake} {counter : UInt64} {payload pkt : Bytes}
    {n outCap : Int} {e : Entropy}
    (h : awgTransportSeal P cfg hs counter payload outCap e = some (n, pkt)) :
    typeWord P cfg .transport pkt = cfg.h4 := by
  have hlen := clearPacket_length P cfg hs counter payload e
  obtain ⟨-, hpkt⟩ := seal_eq P h
  obtain ⟨hclear, -⟩ := open_clear P cfg (nonce_fits_of_seal P h) (by omega) hpkt
  unfold typeWord
  dsimp only
  rw [if_pos rfl, show paddingFor cfg .transport = cfg.s4 from rfl, hclear]
  exact (clearPacket_fields P cfg hs counter payload e).1

theorem buildData_word {cfg : Config} {s : Session} {payload pkt : Bytes} {n outCap : Int}
    {nowMs : UInt64} {e : Entropy}
    (h : (awgSessionBuildData P cfg s payload outCap nowMs e).2 = some (n, pkt)) :
    typeWord P cfg .transport pkt = cfg.h4 := by
  unfold awgSessionBuildData at h
  split at h
  · cases h
  · split at h
    · cases h
    · rename_i hseal
      split at h
      · cases h
      · obtain ⟨rfl, rfl⟩ := Prod.mk.inj (Option.some.inj h)
        exact seal_word P hseal

/-- A keepalive is a data packet. -/
theorem buildKeepalive_word {cfg : Config} {s : Session} {pkt : Bytes} {n outCap : Int}
    {nowMs : UInt64} {e : Entropy}
    (h : (awgSessionBuildKeepalive P cfg s outCap nowMs e).2 = some (n, pkt)) :
    typeWord P cfg .transport pkt = cfg.h4 := by
  obtain ⟨keepalives, packets, heq⟩ := buildKeepalive_eq P cfg s outCap nowMs e
  rw [heq] at h
  exact buildData_word P h

theorem open_word {cfg : Config} {hs : Handshake} {pkt : Bytes} {outCap : Int}
    (h : (awgTransportOpen P cfg hs pkt outCap).ret ≥ 0) :
    typeWord P cfg .transport pkt = cfg.h4 := by
  by_contra hne
  have hread : ¬ Bytes.word32 (if cfg.haveHeaderProtection
      then headerPass P cfg pkt cfg.s4.toNat transportHdr else pkt) cfg.s4.toNat = cfg.h4 := hne
  unfold awgTransportOpen at h
  dsimp only at h
  split at h
  · exact absurd h (by simp)
  · split at h
    · exact absurd h (by simp)
    · exact absurd h (by simp [openReject])

theorem accepted_word {cfg : Config} {g : ReplayDrop} {s : Session} {pkt : Bytes}
    {payloadCap : Int} {nowMs : UInt64}
    (h : (awgSessionOnDatagram P cfg g s pkt payloadCap nowMs).result = .payload ∨
      (awgSessionOnDatagram P cfg g s pkt payloadCap nowMs).result = .handled) :
    typeWord P cfg .transport pkt = cfg.h4 := by
  unfold awgSessionOnDatagram at h
  dsimp only at h
  split at h
  · split at h
    · simp at h
    · split at h
      · simp at h
      · simp at h
  · split at h
    · simp at h
    · by_cases hcur : (awgTransportOpen P cfg s.cur pkt payloadCap).ret ≥ 0
      · exact open_word P hcur
      · by_cases hhave : (s.expirePrev nowMs).havePrev = true
        · rw [rxTransport_prev P g (by omega) hhave] at h
          split at h
          · rename_i hprev
            exact open_word P hprev
          · simp at h
        · unfold rxTransport at h
          dsimp only at h
          rw [(expirePrev_cur s nowMs).1.cur, if_neg hcur, if_neg hhave] at h
          simp at h

/-! ### A meeting

A peer that is configured like the client expects `h1` and answers with `h2`.  If the two
complete a handshake, an initiation with the word 1 was taken for `h1` and an answer with
`h2` for the word 2.
-/

/-- The two ends belong together: the peer holds the key the client was given, all four
Diffie-Hellman exchanges agree, and framing has room for the two messages.  The paddings of
the messages they send are not negative and long enough for the nonce, or nothing would ever
be sent; there is no cookie among these. -/
structure Meeting.Conforms (m : Meeting) (cfg : Config) : Prop where
  peer : cfg.peerPublicKey = awgPublicFromPrivate P m.peerPriv
  es : DhAgrees P (awgGeneratePrivate m.eph) m.peerPriv
  ss : DhAgrees P cfg.privateKey m.peerPriv
  ee : DhAgrees P (awgGeneratePrivate m.eph) (awgGeneratePrivate m.peerEph)
  se : DhAgrees P cfg.privateKey (awgGeneratePrivate m.peerEph)
  padding : ∀ kind, kind ≠ .cookie → 0 ≤ paddingFor cfg kind ∧
    (cfg.haveHeaderProtection = true → 12 ≤ paddingFor cfg kind)
  outRoom : cfg.s1 + awgMsgInitSize ≤ m.outCap
  peerRoom : cfg.s2 + awgMsgRespSize ≤ m.peerCap

/-- **Two ends that talk use WireGuard's words**, whatever else they are configured with. -/
theorem Meeting.Talks.words {m : Meeting} {cfg : Config} (h : m.Talks P cfg) :
    cfg.h1 = 1 ∧ cfg.h2 = 2 := by
  obtain ⟨pkt, hpkt, peer, reply, hreply, hestablished, -⟩ := h
  have hsent := buildInitiation_word P hpkt
  have htaken := established_word P hestablished
  unfold Meeting.answer at hreply
  dsimp only at hreply
  split at hreply
  · cases hreply
  · rename_i hlen
    have hok : (awgUnwrap P cfg .init pkt).1 ≠ -1 := by
      rw [not_not.mp hlen, awgMsgInitSize]
      omega
    split at hreply
    · cases hreply
    · rename_i hs hconsume
      have hread := consumeInitiation_word P hconsume
      rw [typeWord_unwrap P (by simp) hok, hsent] at hread
      split at hreply
      · cases hreply
      · rename_i hs' msg hcreate
        obtain ⟨hword, hmsg⟩ := createResponse_word P hcreate
        obtain ⟨out, hwrap, hout⟩ := Option.map_eq_some_iff.mp hreply
        obtain ⟨-, rfl⟩ := Prod.mk.inj hout
        rw [typeWord_wrap P (by simp) hwrap hmsg, hword] at htaken
        exact ⟨hread.symm, htaken⟩

/-! ### With WireGuard's words

The other direction is a run from beginning to end: the messages are built and taken, the
keypairs mirror each other, and any packet there is room for goes through.
-/

theorem wrap_some {cfg : Config} {kind : Kind} {msg : Bytes} {outCap : Int} (e : Entropy)
    (hpad : 0 ≤ paddingFor cfg kind) (hprot : cfg.haveHeaderProtection = true →
      12 ≤ paddingFor cfg kind) (hroom : paddingFor cfg kind + msg.length ≤ outCap) :
    ∃ out, awgWrap P cfg kind msg outCap e = some out := by
  unfold awgWrap
  dsimp only
  rw [if_neg, if_neg (by omega)]
  · exact ⟨_, rfl⟩
  · rintro ⟨hp, hlt⟩
    have := hprot hp
    omega

theorem seal_some {cfg : Config} {payload : Bytes} {outCap : Int} (hs : Handshake)
    (counter : UInt64) (e : Entropy) (hprot : cfg.haveHeaderProtection = true → 12 ≤ cfg.s4)
    (hroom : cfg.s4 + 32 + paddedLen payload.length ≤ outCap) :
    ∃ n pkt, awgTransportSeal P cfg hs counter payload outCap e = some (n, pkt) := by
  unfold awgTransportSeal
  dsimp only
  rw [if_neg, if_neg]
  · exact ⟨_, _, rfl⟩
  · simp only [transportHdr, aeadTag]
    omega
  · rintro ⟨hp, hlt⟩
    have := hprot hp
    omega

theorem buildData_some {cfg : Config} {s : Session} {payload : Bytes} {outCap : Int}
    (hest : s.established = true) (hs4 : 0 ≤ cfg.s4)
    (hprot : cfg.haveHeaderProtection = true → 12 ≤ cfg.s4)
    (hroom : cfg.s4 + 32 + paddedLen payload.length ≤ outCap) (nowMs : UInt64) (e : Entropy) :
    ∃ n pkt, awgTransportSeal P cfg s.cur s.txCounter payload outCap e = some (n, pkt) ∧
      (awgSessionBuildData P cfg s payload outCap nowMs e).2 = some (n, pkt) := by
  obtain ⟨n, pkt, hseal⟩ := seal_some P s.cur s.txCounter e hprot hroom
  have hn : ¬ n < 0 := by
    have := (seal_eq P hseal).1
    omega
  refine ⟨n, pkt, hseal, ?_⟩
  unfold awgSessionBuildData
  simp only [hest, Bool.not_true, Bool.false_eq_true, if_false, hseal, hn]

theorem replayOk_new (g : ReplayDrop) (ctr : UInt64) : (replayOk g 0 0 ctr).fresh = true := by
  unfold replayOk
  dsimp only
  split
  · rfl
  · rename_i habove
    have hzero : ctr = 0 := by
      have hle : ctr ≤ 0 := UInt64.not_lt.mp habove
      exact UInt64.le_antisymm hle (UInt64.zero_le)
    subst hzero
    simp [replayWindow]

/-- A session whose keypair was just installed. -/
structure JustInstalled (s : Session) (hs : Handshake) : Prop where
  cur : s.cur = hs
  established : s.established = true
  handshaking : s.handshaking = false
  windowMax : s.rxWindowMax = 0
  windowBits : s.rxWindowBits = 0

theorem promote_justInstalled (s : Session) (nowMs : UInt64) :
    JustInstalled (s.promote nowMs) s.pending := by
  unfold Session.promote
  dsimp only
  split
  · exact ⟨rfl, rfl, rfl, rfl, rfl⟩
  · exact ⟨rfl, rfl, rfl, rfl, rfl⟩

theorem JustInstalled.expirePrev {s : Session} {hs : Handshake} (h : JustInstalled s hs)
    (nowMs : UInt64) : JustInstalled (s.expirePrev nowMs) hs := by
  unfold Session.expirePrev
  split
  · exact ⟨h.cur, h.established, h.handshaking, h.windowMax, h.windowBits⟩
  · exact h

/-- **Data flows** between a keypair just installed and its other end. -/
theorem JustInstalled.dataFlows {cfg : Config} {s : Session} {hs peer : Handshake}
    (h : JustInstalled s hs) (hto : Mirrors hs peer) (hfrom : Mirrors peer hs)
    (hs4 : 0 ≤ cfg.s4) (hprot : cfg.haveHeaderProtection = true → 12 ≤ cfg.s4) (g : ReplayDrop) :
    DataFlows P cfg g s peer where
  sends := by
    intro payload outCap openCap nowMs e hroom hcap
    obtain ⟨n, pkt, hseal, hbuild⟩ := buildData_some P h.established hs4 hprot hroom nowMs e
    rw [h.cur] at hseal
    refine ⟨n, pkt, hbuild, ?_⟩
    rw [(open_sealed P hs4 hprot hto hseal hcap).2]
    rfl
  receives := by
    intro counter payload outCap openCap nowMs e hroom hcap
    obtain ⟨n, pkt, hseal⟩ := seal_some P peer counter e hprot hroom
    have hkept := h.expirePrev nowMs
    have hopen := (open_sealed P hs4 hprot hfrom hseal hcap).2
    have hret : (0 : Int) ≤ paddedLen payload.length := by omega
    have hrun : awgSessionOnDatagram P cfg g s pkt openCap nowMs
        = rxOpened g (s.expirePrev nowMs) (awgTransportOpen P cfg hs pkt openCap) false nowMs := by
      unfold awgSessionOnDatagram
      rw [if_neg (by simp [h.handshaking]), if_neg (by simp [h.established])]
      unfold rxTransport
      dsimp only
      rw [hkept.cur, if_pos (by rw [hopen]; exact hret)]
    have hfresh := replayOk_new g counter
    refine ⟨n, pkt, hseal, ?_⟩
    rw [hrun, hopen]
    have hempty : (paddedLen payload.length : Int) = 0 ↔ payload = [] := by
      have hle := le_paddedLen payload.length
      constructor
      · intro hzero
        exact List.length_eq_zero_iff.mp (by omega)
      · intro hnil
        subst hnil
        rfl
    simp only [rxOpened, Bool.false_eq_true, if_false, Option.getD_some, hkept.windowMax,
      hkept.windowBits, hfresh, Bool.not_true, hempty]
    by_cases hnil : payload = []
    · subst hnil
      exact ⟨rfl, rfl⟩
    · rw [if_neg hnil, if_neg hnil]
      exact ⟨rfl, rfl⟩

/-- The four functions of the two roles, run on each other's messages, end with keypairs
that are each other's other end. -/
theorem handshake_mirrors {sI sR : Key} {ephI ephR : Entropy} (psk : Option Key)
    (indexI indexR : UInt32) (nanos : Entropy) (nowSeconds : UInt64)
    (hes : DhAgrees P (awgGeneratePrivate ephI) sR) (hss : DhAgrees P sI sR)
    (hee : DhAgrees P (awgGeneratePrivate ephI) (awgGeneratePrivate ephR))
    (hse : DhAgrees P sI (awgGeneratePrivate ephR)) :
    ∃ i₁ msg r₁ r₂ reply i₂,
      awgCreateInitiation P (awgHandshakeBegin P sI (some (awgPublicFromPrivate P sR)) psk indexI)
        ephI nanos nowSeconds = (i₁, some msg) ∧ msg.length = awgMsgInitSize ∧
      awgConsumeInitiation P (awgHandshakeBegin P sR none psk indexR) msg = (r₁, true) ∧
      awgCreateResponse P r₁ ephR = (r₂, some reply) ∧ reply.length = awgMsgRespSize ∧
      awgConsumeResponse P i₁ reply = (i₂, true) ∧ Mirrors i₂ r₂ ∧ Mirrors r₂ i₂ := by
  obtain ⟨es, hesI, hesR⟩ := hes.shared
  obtain ⟨ss, hssI, hssR⟩ := hss.shared
  obtain ⟨ee, heeI, heeR⟩ := hee.shared
  obtain ⟨se, hseI, hseR⟩ := hse.shared
  refine ⟨_, _, _, _, _, _, createInitiation_eq P _ ephI nanos nowSeconds rfl hesI hssI, ?_,
    consumeInitiation_eq P _ indexI _ es ss _ _ (length_tai64n _ _) hesR hssR,
    createResponse_eq P _ ephR rfl heeR hseR, ?_, consumeResponse_eq P _ indexR _ ee se heeI hseI,
    ⟨rfl, rfl⟩, ⟨rfl, rfl⟩⟩
  · simp [initiationMsg, initiationBody, encStaticOf, encStampOf, Chain.sealText, awgMsgInitSize]
  · simp [responseMsg, responseBody, Chain.sealEmpty, awgMsgRespSize]

/-- **With WireGuard's words two conforming ends talk.** -/
theorem Meeting.Conforms.talks {m : Meeting} {cfg : Config} (h : m.Conforms P cfg)
    (h1 : cfg.h1 = 1) (h2 : cfg.h2 = 2) : m.Talks P cfg := by
  set psk := if cfg.havePresharedKey then some cfg.presharedKey else none with hpsk
  obtain ⟨i₁, msg, r₁, r₂, reply, i₂, hcreate, hmsg, hconsume, hrespond, hreply, htake, hto, hfrom⟩ :=
    handshake_mirrors P psk (awgRandomWord m.idx) m.peerIndex m.nanos m.nowSeconds h.es h.ss h.ee h.se
  rw [← h.peer] at hcreate
  obtain ⟨hpad1, hprot1⟩ := h.padding .init (by simp)
  obtain ⟨hpad2, hprot2⟩ := h.padding .response (by simp)
  obtain ⟨hpad4, hprot4⟩ := h.padding .transport (by simp)
  -- out and back through the framing
  have hroom : paddingFor cfg .init + msg.length ≤ m.outCap := by
    rw [hmsg]
    exact h.outRoom
  have hpeerRoom : paddingFor cfg .response + reply.length ≤ m.peerCap := by
    rw [hreply]
    exact h.peerRoom
  obtain ⟨pkt, hwrap⟩ := wrap_some P m.pad hpad1 hprot1 hroom
  obtain ⟨back, hback⟩ := wrap_some P m.peerPad hpad2 hprot2 hpeerRoom
  obtain ⟨-, hunwrap⟩ := unwrap_wrap P hwrap (by rw [hmsg, awgMsgInitSize]; omega)
  obtain ⟨hbackLen, hunback⟩ := unwrap_wrap P hback (by rw [hreply, awgMsgRespSize]; omega)
  have hsent : m.initiation P cfg = ({ m.sess with
      pending := i₁
      handshaking := true
      handshakeSentMs := m.sentMs
      handshakeTries := m.sess.handshakeTries + 1 }, some pkt) := by
    unfold Meeting.initiation awgSessionBuildInitiation
    simp only [← hpsk, hcreate, hwrap]
  have hanswer : m.answer P cfg pkt = some (r₂, back) := by
    unfold Meeting.answer
    simp only [← hpsk, hunwrap, hmsg, List.drop_left' (length_awgRandomBytes m.pad _), h1, h2,
      peerConsumeInitiation_one, peerCreateResponse_two, hconsume, hrespond, hback]
    rfl
  have hback92 : (back.length : Int) = cfg.s2 + awgMsgRespSize := by
    rw [hbackLen, hreply]
    rfl
  have hdone : m.answered P cfg back = ⟨.established,
      ({ (m.initiation P cfg).1 with pending := i₂ } : Session).promote m.answeredMs, m.drop,
      awgRandomBytes m.peerPad (paddingFor cfg .response).toNat ++ reply, [], none⟩ := by
    unfold Meeting.answered awgSessionOnDatagram
    simp only [hsent, hback92, and_self, if_true, hunback, hreply, ne_eq, not_true, if_false,
      List.drop_left' (length_awgRandomBytes m.peerPad _), htake]
  refine ⟨pkt, by rw [hsent], r₂, back, hanswer, by rw [hdone], ?_⟩
  rw [hdone]
  exact (promote_justInstalled _ m.answeredMs).dataFlows P hto hfrom hpad4 hprot4 m.drop

theorem Meeting.Talks.reply {m : Meeting} {cfg : Config} (h : m.Talks P cfg) :
    (m.initiation P cfg).2.isSome = true ∧
      (m.answered P cfg (m.reply P cfg)).result = .established := by
  obtain ⟨pkt, hpkt, peer, back, hback, hestablished, -⟩ := h
  have hreply : m.reply P cfg = back := by
    simp only [Meeting.reply, hpkt, hback]
  refine ⟨?_, ?_⟩
  · rw [hpkt]
    rfl
  · rw [hreply]
    exact hestablished

/-- What an answer installs is the pending handshake, at the time of the answer. -/
theorem established_promote {cfg : Config} {g : ReplayDrop} {s : Session} {pkt : Bytes}
    {payloadCap : Int} {nowMs : UInt64}
    (h : (awgSessionOnDatagram P cfg g s pkt payloadCap nowMs).result = .established) :
    ∃ pending, (awgSessionOnDatagram P cfg g s pkt payloadCap nowMs).sess
      = { s with pending := pending }.promote nowMs := by
  unfold awgSessionOnDatagram at h ⊢
  dsimp only at h ⊢
  by_cases hanswer : s.handshaking = true ∧ (pkt.length : Int) = cfg.s2 + awgMsgRespSize
  · rw [if_pos hanswer] at h ⊢
    by_cases hlen : (awgUnwrap P cfg .response pkt).1 ≠ awgMsgRespSize
    · rw [if_pos hlen] at h
      cases h
    · rw [if_neg hlen] at h ⊢
      rcases hconsume : awgConsumeResponse P s.pending ((awgUnwrap P cfg .response pkt).2.1.drop
        (awgUnwrap P cfg .response pkt).2.2) with ⟨pending, ok⟩
      rw [hconsume] at h
      cases ok with
      | false => cases h
      | true => exact ⟨pending, rfl⟩
  · rw [if_neg hanswer] at h
    split at h
    · cases h
    · exact absurd h (rxTransport_pending P cfg g s pkt payloadCap nowMs).2.2

/-- The timers `awg_session_init` draws. -/
def Session.drawn (s : Session) : List Int :=
  [s.rekeyAfterS, s.rejectAfterS, s.keepaliveS, s.rekeyTimeoutS, s.maxTries]

theorem buildInitiation_drawn (cfg : Config) (s : Session) (outCap : Int) (nowMs : UInt64)
    (idx eph nanos pad : Entropy) (nowSeconds : UInt64) :
    (awgSessionBuildInitiation P cfg s outCap nowMs idx eph nanos pad nowSeconds).1.drawn
      = s.drawn := by
  unfold awgSessionBuildInitiation
  dsimp only
  split
  · rfl
  · split
    · rfl
    · rfl

theorem promote_times (s : Session) (nowMs : UInt64) :
    (s.promote nowMs).establishedMs = nowMs ∧ (s.promote nowMs).lastTxMs = nowMs ∧
      (s.promote nowMs).drawn = s.drawn := by
  unfold Session.promote
  dsimp only
  split
  · exact ⟨rfl, rfl, rfl⟩
  · exact ⟨rfl, rfl, rfl⟩

/-- The session once the reply is in: its times are those of the reply, its timers those
it was started with. -/
theorem Meeting.Talks.answered {m : Meeting} {cfg : Config} (h : m.Talks P cfg) :
    let s := (m.answered P cfg (m.reply P cfg)).sess
    s.established = true ∧ s.handshaking = false ∧ s.establishedMs = m.answeredMs ∧
      s.lastTxMs = m.answeredMs ∧ s.drawn = m.sess.drawn := by
  intro s
  obtain ⟨pending, hsess⟩ := established_promote P (h.reply P).2
  have hs : s = { (m.initiation P cfg).1 with pending := pending }.promote m.answeredMs := hsess
  have hnew := promote_justInstalled
    { (m.initiation P cfg).1 with pending := pending } m.answeredMs
  obtain ⟨hms, htx, hdrawn⟩ := promote_times
    { (m.initiation P cfg).1 with pending := pending } m.answeredMs
  have hstart : (m.initiation P cfg).1.drawn = m.sess.drawn :=
    buildInitiation_drawn P cfg m.sess m.outCap m.sentMs m.idx m.eph m.nanos m.pad m.nowSeconds
  rw [hs]
  exact ⟨hnew.established, hnew.handshaking, hms, htx, hdrawn.trans hstart⟩

/--
**The configured type words, and when they are used.**  Of every message of every kind:
an initiation carries `h1` exactly when that is 1, a response is taken with `h2` exactly
when that is 2, and transport packets are sent and taken with `h4`.  The client and a
peer with the same configuration complete a handshake and exchange data exactly when
`h1 = 1` and `h2 = 2`.
-/
theorem type_words_iff (cfg : Config) :
    (∀ s outCap nowMs idx eph nanos pad nowSeconds out,
      (awgSessionBuildInitiation P cfg s outCap nowMs idx eph nanos pad nowSeconds).2 = some out →
        (typeWord P cfg .init out = cfg.h1 ↔ cfg.h1 = 1)) ∧
    (∀ s payload outCap nowMs e n out,
      (awgSessionBuildData P cfg s payload outCap nowMs e).2 = some (n, out) ∨
        (awgSessionBuildKeepalive P cfg s outCap nowMs e).2 = some (n, out) →
        typeWord P cfg .transport out = cfg.h4) ∧
    (∀ g s pkt payloadCap nowMs,
      (awgSessionOnDatagram P cfg g s pkt payloadCap nowMs).result = .established →
        (typeWord P cfg .response pkt = cfg.h2 ↔ cfg.h2 = 2)) ∧
    (∀ g s pkt payloadCap nowMs,
      (awgSessionOnDatagram P cfg g s pkt payloadCap nowMs).result = .payload ∨
        (awgSessionOnDatagram P cfg g s pkt payloadCap nowMs).result = .handled →
        typeWord P cfg .transport pkt = cfg.h4) ∧
    ∀ m : Meeting, m.Conforms P cfg → (m.Talks P cfg ↔ cfg.h1 = 1 ∧ cfg.h2 = 2) := by
  refine ⟨?_, ?_, ?_, ?_, ?_⟩
  · intro s outCap nowMs idx eph nanos pad nowSeconds out h
    rw [buildInitiation_word P h]
    exact eq_comm
  · intro s payload outCap nowMs e n out h
    rcases h with hdata | hkeepalive
    · exact buildData_word P hdata
    · exact buildKeepalive_word P hkeepalive
  · intro g s pkt payloadCap nowMs h
    rw [established_word P h]
    exact eq_comm
  · intro g s pkt payloadCap nowMs h
    exact accepted_word P h
  · intro m h
    constructor
    · intro htalks
      exact htalks.words P
    · intro hwords
      exact h.talks P hwords.1 hwords.2

/-! ### Two meetings -/

/-- The words do not enter into the initiation. -/
theorem initiation_without_words (m : Meeting) (cfg : Config) (h1 h2 : UInt32) :
    m.initiation P { cfg with h1 := h1, h2 := h2 } = m.initiation P cfg := rfl

/-- The bytes 1 to 32 and 33 to 64, clamped, as static and as ephemeral keys. -/
def firstKeyBytes : Entropy := fun i => UInt8.ofNat (i + 1)

def secondKeyBytes : Entropy := fun i => UInt8.ofNat (i + 33)

/-- A configuration whose file names the keys, the endpoint and the words `H1` and `H2`. -/
def wordsConfig (h1 h2 : UInt32) : Config :=
  { Config.default with
    privateKey := awgGeneratePrivate firstKeyBytes
    havePrivateKey := true
    peerPublicKey :=
      awgPublicFromPrivate standardPrimitives (awgGeneratePrivate secondKeyBytes)
    havePeerPublicKey := true
    endpointHost := [49, 46, 50, 46, 51, 46, 52]
    h1 := h1
    h2 := h2 }

/-- A fresh session meets the peer it was given the key of. -/
def sampleMeeting : Meeting where
  sess := Session.zero
  drop := ⟨0, false⟩
  idx := fun _ => 7
  eph := firstKeyBytes
  nanos := fun _ => 0
  pad := fun _ => 0
  nowSeconds := 1700000000
  sentMs := 0
  answeredMs := 10
  outCap := 2048
  payloadCap := 2048
  peerPriv := awgGeneratePrivate secondKeyBytes
  peerIndex := 9
  peerEph := secondKeyBytes
  peerPad := fun _ => 0
  peerCap := 2048

theorem sampleMeeting_conforms (h1 h2 : UInt32) :
    sampleMeeting.Conforms standardPrimitives (wordsConfig h1 h2) := by
  have hdh : DhAgrees standardPrimitives (awgGeneratePrivate firstKeyBytes)
      (awgGeneratePrivate secondKeyBytes) := by decide +kernel
  refine ⟨?_, ?_, ?_, ?_, ?_, ?_, ?_, ?_⟩
  · simp only [wordsConfig, sampleMeeting]
  · simpa only [sampleMeeting] using hdh
  · simpa only [wordsConfig, sampleMeeting] using hdh
  · simpa only [sampleMeeting] using hdh
  · simpa only [wordsConfig, sampleMeeting] using hdh
  · intro kind _
    cases kind <;> simp [paddingFor, wordsConfig, Config.default]
  · simp [wordsConfig, Config.default, awgMsgInitSize, sampleMeeting]
  · simp [wordsConfig, Config.default, awgMsgRespSize, sampleMeeting]

/-- The sample meeting with the session that `awg_session_init` left, at times of choice. -/
def startedMeeting (cfg : Config) (sentMs answeredMs : UInt64) : Meeting :=
  { sampleMeeting with
    sess := awgSessionInit cfg fun _ _ => 0
    outCap := 4096
    sentMs := sentMs
    answeredMs := answeredMs }

theorem startedMeeting_talks (sentMs answeredMs : UInt64) :
    (startedMeeting (wordsConfig 1 2) sentMs answeredMs).Talks standardPrimitives
      (wordsConfig 1 2) := by
  have h := sampleMeeting_conforms 1 2
  have hroom : (wordsConfig 1 2).s1 + awgMsgInitSize
      ≤ (startedMeeting (wordsConfig 1 2) sentMs answeredMs).outCap := by
    simp [wordsConfig, Config.default, awgMsgInitSize, startedMeeting]
  have hconforms : (startedMeeting (wordsConfig 1 2) sentMs answeredMs).Conforms
      standardPrimitives (wordsConfig 1 2) :=
    ⟨h.peer, h.es, h.ss, h.ee, h.se, h.padding, hroom, h.peerRoom⟩
  exact hconforms.talks standardPrimitives rfl rfl

/-- With WireGuard's words they talk. -/
theorem type_words_standard : sampleMeeting.Talks standardPrimitives (wordsConfig 1 2) := by
  have hwords := (type_words_iff standardPrimitives (wordsConfig 1 2)).2.2.2.2
  exact (hwords sampleMeeting (sampleMeeting_conforms 1 2)).mpr ⟨rfl, rfl⟩

/-- With `H1 = 5` the initiation carries 1 all the same, and they never do. -/
theorem otherWords_silent :
    (∃ out, (sampleMeeting.initiation standardPrimitives (wordsConfig 5 2)).2 = some out ∧
      typeWord standardPrimitives (wordsConfig 5 2) .init out = 1) ∧
    (wordsConfig 5 2).h1 = 5 ∧
    sampleMeeting.Conforms standardPrimitives (wordsConfig 5 2) ∧
    ¬ sampleMeeting.Talks standardPrimitives (wordsConfig 5 2) := by
  -- the initiation does not depend on the words, and with WireGuard's it is sent
  have hcfg : { wordsConfig 1 2 with h1 := 5, h2 := 2 } = wordsConfig 5 2 := by
    simp only [wordsConfig]
  have hsame := initiation_without_words standardPrimitives sampleMeeting (wordsConfig 1 2) 5 2
  rw [hcfg] at hsame
  obtain ⟨out, hout, -⟩ := (sampleMeeting_conforms 1 2).talks standardPrimitives rfl rfl
  rw [← hsame] at hout
  have hword : typeWord standardPrimitives (wordsConfig 5 2) .init out = 1 :=
    buildInitiation_word standardPrimitives hout
  refine ⟨⟨out, hout, hword⟩, rfl, sampleMeeting_conforms 5 2, ?_⟩
  intro htalks
  have h5 : (5 : UInt32) = 1 := (htalks.words standardPrimitives).1
  exact absurd h5 (by decide)

end SysAwg
