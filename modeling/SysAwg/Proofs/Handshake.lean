/-
Both ends of a handshake derive the same keys.

The two roles run separate code.  What they have in common is written down once, as
a chain of a chaining key and a hash that ephemeral keys, Diffie-Hellman values and
sealed texts are mixed into (`Chain`).  Each of the four functions is shown to move
its handshake along that chain: the creating side for any message it builds, the
consuming side for a message with those fields whose texts were sealed on the same
chain.  Agreement is then agreement of the Diffie-Hellman values.
-/
import SysAwg.Noise
import SysAwg.Standard
import SysAwg.Proofs.Cipher

namespace SysAwg

variable (P : Primitives)

/-! ### The chain

A link of the chain says what one field or one value does to the chaining key and the hash.
It is given the key and the text outright, so the two sides, which have them from different
sources, can be compared link by link.
-/

/-- The chaining key and the running hash. -/
structure Chain where
  ck : Key
  h : Key

def Chain.start (responderPub : Key) : Chain :=
  let ck := hash2 P construction []
  ⟨ck, SysAwg.mixHash P (hash2 P ck.toList identifier) responderPub.toList⟩

/-- An ephemeral key goes by in the clear. -/
def Chain.ephemeral (c : Chain) (e : Key) : Chain :=
  ⟨(kdf P c.ck e.toList).1, SysAwg.mixHash P c.h e.toList⟩

/-- A Diffie-Hellman value is mixed in. -/
def Chain.dh (c : Chain) (d : Key) : Chain := ⟨(kdf P c.ck d.toList).1, c.h⟩

/-- The ciphertext of a text sealed under a Diffie-Hellman value. -/
def Chain.sealText (c : Chain) (d : Key) (text : Bytes) : Bytes :=
  chacha20poly1305Encrypt P text c.h.toList 0 (kdf P c.ck d.toList).2.1

/-- The chain after that text. -/
def Chain.afterText (c : Chain) (d : Key) (text : Bytes) : Chain :=
  ⟨(kdf P c.ck d.toList).1, SysAwg.mixHash P c.h (c.sealText P d text)⟩

/-- The hash once the preshared key is in. -/
def Chain.pskHash (c : Chain) (psk : Key) : Key :=
  SysAwg.mixHash P c.h (kdf P c.ck psk.toList).2.1.toList

/-- The empty text sealed under the preshared key. -/
def Chain.sealEmpty (c : Chain) (psk : Key) : Bytes :=
  chacha20poly1305Encrypt P [] (c.pskHash P psk).toList 0 (kdf P c.ck psk.toList).2.2

def Chain.afterEmpty (c : Chain) (psk : Key) : Chain :=
  ⟨(kdf P c.ck psk.toList).1, SysAwg.mixHash P (c.pskHash P psk) (c.sealEmpty P psk)⟩

/-- The chain after the initiation, from what went over the wire and the two values
its texts were sealed under. -/
def initiationChain (responderPub e es ss staticPub : Key) (stamp : Bytes) : Chain :=
  (((Chain.start P responderPub).ephemeral P e).afterText P es staticPub.toList).afterText P ss stamp

def responseChain (c : Chain) (e ee se : Key) : Chain := ((c.ephemeral P e).dh P ee).dh P se

/-! ### The initiation -/

def initiationBody (index : UInt32) (e : Key) (encStatic encStamp : Bytes) : Bytes :=
  Bytes.le32 1 ++ Bytes.le32 index ++ e.toList ++ encStatic ++ encStamp

def initiationMsg (recvPub : Key) (index : UInt32) (e : Key) (encStatic encStamp : Bytes) : Bytes :=
  initiationBody index e encStatic encStamp ++
    (mac1 P recvPub (initiationBody index e encStatic encStamp)).toList ++ List.replicate 16 0

theorem initiation_fields (recvPub : Key) (index : UInt32) (e : Key) {encStatic encStamp : Bytes}
    (hs : encStatic.length = 48) (ht : encStamp.length = 28) :
    Bytes.word32 (initiationMsg P recvPub index e encStatic encStamp) 0 = 1 ∧
    Bytes.word32 (initiationMsg P recvPub index e encStatic encStamp) 4 = index ∧
    Bytes.block 32 (initiationMsg P recvPub index e encStatic encStamp) 8 = e ∧
    Bytes.slice (initiationMsg P recvPub index e encStatic encStamp) 40 48 = encStatic ∧
    Bytes.slice (initiationMsg P recvPub index e encStatic encStamp) 88 28 = encStamp ∧
    Bytes.slice (initiationMsg P recvPub index e encStatic encStamp) 0 116
      = initiationBody index e encStatic encStamp ∧
    Bytes.slice (initiationMsg P recvPub index e encStatic encStamp) 116 16
      = (mac1 P recvPub (initiationBody index e encStatic encStamp)).toList := by
  set body := initiationBody index e encStatic encStamp with hbody
  set mac := (mac1 P recvPub body).toList with hmac
  have hbodyLen : body.length = 116 := by simp [hbody, initiationBody, hs, ht]
  have hmacLen : mac.length = 16 := by simp [hmac]
  have hmsg : initiationMsg P recvPub index e encStatic encStamp
      = body ++ mac ++ List.replicate 16 0 := rfl
  have hflat : body ++ mac ++ List.replicate 16 0 = Bytes.le32 1 ++ (Bytes.le32 index ++
      (e.toList ++ (encStatic ++ (encStamp ++ (mac ++ List.replicate 16 0))))) := by
    simp only [hbody, initiationBody, List.append_assoc]
  rw [hmsg]
  refine ⟨?_, ?_, ?_, ?_, ?_, ?_, ?_⟩
  · rw [hflat]
    exact Bytes.word32_append [] _ 1 rfl
  · rw [hflat, ← List.append_assoc]
    exact Bytes.word32_append (Bytes.le32 1) _ index rfl
  · rw [hflat, ← List.append_assoc, ← List.append_assoc]
    exact Bytes.block_append (Bytes.le32 1 ++ Bytes.le32 index) _ e rfl
  · rw [hflat, ← List.append_assoc, ← List.append_assoc, ← List.append_assoc]
    exact Bytes.slice_append (Bytes.le32 1 ++ Bytes.le32 index ++ e.toList) _ _ (by simp) hs
  · rw [hflat, ← List.append_assoc, ← List.append_assoc, ← List.append_assoc, ← List.append_assoc]
    exact Bytes.slice_append (Bytes.le32 1 ++ Bytes.le32 index ++ e.toList ++ encStatic) _ _
      (by simp [hs]) ht
  · rw [List.append_assoc]
    exact Bytes.slice_append [] body _ rfl hbodyLen
  · exact Bytes.slice_append body mac _ hbodyLen hmacLen

def ephemeralChain (responderPub e : Key) : Chain := (Chain.start P responderPub).ephemeral P e

def encStaticOf (responderPub e es staticPub : Key) : Bytes :=
  (ephemeralChain P responderPub e).sealText P es staticPub.toList

def encStampOf (responderPub e es ss staticPub : Key) (stamp : Bytes) : Bytes :=
  ((ephemeralChain P responderPub e).afterText P es staticPub.toList).sealText P ss stamp

@[simp] theorem length_tai64n (nowSeconds : UInt64) (nanos : Entropy) :
    (tai64n nowSeconds nanos).length = 12 := by
  simp [tai64n]

/-- **Creating an initiation** moves along the chain and lays the fields out. -/
theorem createInitiation_eq (hs : Handshake) (eph nanos : Entropy) (nowSeconds : UInt64)
    {e es ss : Key} (he : awgPublicFromPrivate P (awgGeneratePrivate eph) = e)
    (hes : x25519 P (awgGeneratePrivate eph) hs.peerPub = some es)
    (hss : x25519 P hs.sPriv hs.peerPub = some ss) :
    awgCreateInitiation P hs eph nanos nowSeconds =
      ({ hs with
          ck := (initiationChain P hs.peerPub e es ss hs.sPub (tai64n nowSeconds nanos)).ck
          h := (initiationChain P hs.peerPub e es ss hs.sPub (tai64n nowSeconds nanos)).h
          ePriv := awgGeneratePrivate eph
          ePub := e },
        some (initiationMsg P hs.peerPub hs.localIndex e (encStaticOf P hs.peerPub e es hs.sPub)
          (encStampOf P hs.peerPub e es ss hs.sPub (tai64n nowSeconds nanos)))) := by
  subst he
  simp only [awgCreateInitiation, chainStart, Handshake.mixKey, Handshake.mixHash, hes, hss]
  rfl

/-- **Consuming an initiation** whose texts were sealed on the responder's own chain
succeeds, and moves along the same chain. -/
theorem consumeInitiation_eq (hs : Handshake) (index : UInt32) (e es ss staticPub : Key)
    (stamp : Bytes) (hstamp : stamp.length = 12) (hes : x25519 P hs.sPriv e = some es)
    (hss : x25519 P hs.sPriv staticPub = some ss) :
    awgConsumeInitiation P hs (initiationMsg P hs.sPub index e (encStaticOf P hs.sPub e es staticPub)
        (encStampOf P hs.sPub e es ss staticPub stamp)) =
      ({ hs with
          ck := (initiationChain P hs.sPub e es ss staticPub stamp).ck
          h := (initiationChain P hs.sPub e es ss staticPub stamp).h
          remoteIndex := index
          peerEph := e
          peerPub := staticPub }, true) := by
  have hstaticLen : (encStaticOf P hs.sPub e es staticPub).length = 48 := by
    simp [encStaticOf, Chain.sealText]
  have hstampLen : (encStampOf P hs.sPub e es ss staticPub stamp).length = 28 := by
    simp [encStampOf, Chain.sealText, hstamp]
  obtain ⟨htype, hindex, heph, hstatic, hst, hbody, hmac⟩ :=
    initiation_fields P hs.sPub index e hstaticLen hstampLen
  have hpub : Bytes.block 32 staticPub.toList 0 = staticPub := by
    simpa using Bytes.block_append [] [] staticPub rfl
  -- Each text opens because it was sealed with the key and hash the responder has by then.
  have hopenStatic : chacha20poly1305Decrypt P (encStaticOf P hs.sPub e es staticPub)
      (ephemeralChain P hs.sPub e).h.toList 0 (kdf P (ephemeralChain P hs.sPub e).ck es.toList).2.1
      = some staticPub.toList := decrypt_encrypt P _ _ _ _
  have hopenStamp : chacha20poly1305Decrypt P (encStampOf P hs.sPub e es ss staticPub stamp)
      (SysAwg.mixHash P (ephemeralChain P hs.sPub e).h (encStaticOf P hs.sPub e es staticPub)).toList
      0 (kdf P (kdf P (ephemeralChain P hs.sPub e).ck es.toList).1 ss.toList).2.1
      = some stamp := decrypt_encrypt P _ _ _ _
  simp only [ephemeralChain, Chain.start, Chain.ephemeral] at hopenStatic hopenStamp
  simp only [awgConsumeInitiation, htype, ne_eq, not_true, if_false, chainStart, hbody, hmac,
    cryptoEqual_self, Bool.not_true, Bool.false_eq_true, hindex, heph, Handshake.mixKey,
    Handshake.mixHash, hes, hstatic, hst, hopenStatic, hpub, hss,
    hopenStamp]
  rfl

/-! ### The response -/

def responseBody (localIndex remoteIndex : UInt32) (e : Key) (encEmpty : Bytes) : Bytes :=
  Bytes.le32 2 ++ Bytes.le32 localIndex ++ Bytes.le32 remoteIndex ++ e.toList ++ encEmpty

def responseMsg (recvPub : Key) (localIndex remoteIndex : UInt32) (e : Key) (encEmpty : Bytes) :
    Bytes :=
  responseBody localIndex remoteIndex e encEmpty ++
    (mac1 P recvPub (responseBody localIndex remoteIndex e encEmpty)).toList ++
    List.replicate 16 0

theorem response_fields (recvPub : Key) (localIndex remoteIndex : UInt32) (e : Key)
    {encEmpty : Bytes} (hs : encEmpty.length = 16) :
    Bytes.word32 (responseMsg P recvPub localIndex remoteIndex e encEmpty) 0 = 2 ∧
    Bytes.word32 (responseMsg P recvPub localIndex remoteIndex e encEmpty) 4 = localIndex ∧
    Bytes.word32 (responseMsg P recvPub localIndex remoteIndex e encEmpty) 8 = remoteIndex ∧
    Bytes.block 32 (responseMsg P recvPub localIndex remoteIndex e encEmpty) 12 = e ∧
    Bytes.slice (responseMsg P recvPub localIndex remoteIndex e encEmpty) 44 16 = encEmpty ∧
    Bytes.slice (responseMsg P recvPub localIndex remoteIndex e encEmpty) 0 60
      = responseBody localIndex remoteIndex e encEmpty ∧
    Bytes.slice (responseMsg P recvPub localIndex remoteIndex e encEmpty) 60 16
      = (mac1 P recvPub (responseBody localIndex remoteIndex e encEmpty)).toList := by
  set body := responseBody localIndex remoteIndex e encEmpty with hbody
  set mac := (mac1 P recvPub body).toList with hmac
  have hbodyLen : body.length = 60 := by simp [hbody, responseBody, hs]
  have hmacLen : mac.length = 16 := by simp [hmac]
  have hmsg : responseMsg P recvPub localIndex remoteIndex e encEmpty
      = body ++ mac ++ List.replicate 16 0 := rfl
  have hflat : body ++ mac ++ List.replicate 16 0 = Bytes.le32 2 ++ (Bytes.le32 localIndex ++
      (Bytes.le32 remoteIndex ++ (e.toList ++ (encEmpty ++ (mac ++ List.replicate 16 0))))) := by
    simp only [hbody, responseBody, List.append_assoc]
  rw [hmsg]
  refine ⟨?_, ?_, ?_, ?_, ?_, ?_, ?_⟩
  · rw [hflat]
    exact Bytes.word32_append [] _ 2 rfl
  · rw [hflat, ← List.append_assoc]
    exact Bytes.word32_append (Bytes.le32 2) _ localIndex rfl
  · rw [hflat, ← List.append_assoc, ← List.append_assoc]
    exact Bytes.word32_append (Bytes.le32 2 ++ Bytes.le32 localIndex) _ remoteIndex rfl
  · rw [hflat, ← List.append_assoc, ← List.append_assoc, ← List.append_assoc]
    exact Bytes.block_append (Bytes.le32 2 ++ Bytes.le32 localIndex ++ Bytes.le32 remoteIndex) _ e
      rfl
  · rw [hflat, ← List.append_assoc, ← List.append_assoc, ← List.append_assoc, ← List.append_assoc]
    exact Bytes.slice_append
      (Bytes.le32 2 ++ Bytes.le32 localIndex ++ Bytes.le32 remoteIndex ++ e.toList) _ _
      (by simp) hs
  · rw [List.append_assoc]
    exact Bytes.slice_append [] body _ rfl hbodyLen
  · exact Bytes.slice_append body mac _ hbodyLen hmacLen

/-- **Creating a response** moves along the chain, lays the fields out and splits the
chaining key into the two transport keys. -/
theorem createResponse_eq (hs : Handshake) (eph : Entropy) {e ee se : Key}
    (he : awgPublicFromPrivate P (awgGeneratePrivate eph) = e)
    (hee : x25519 P (awgGeneratePrivate eph) hs.peerEph = some ee)
    (hse : x25519 P (awgGeneratePrivate eph) hs.peerPub = some se) :
    awgCreateResponse P hs eph =
      ({ hs with
          ck := ((responseChain P ⟨hs.ck, hs.h⟩ e ee se).afterEmpty P hs.psk).ck
          h := ((responseChain P ⟨hs.ck, hs.h⟩ e ee se).afterEmpty P hs.psk).h
          ePriv := awgGeneratePrivate eph
          ePub := e
          recvKey := (kdf P ((responseChain P ⟨hs.ck, hs.h⟩ e ee se).afterEmpty P hs.psk).ck []).1
          sendKey :=
            (kdf P ((responseChain P ⟨hs.ck, hs.h⟩ e ee se).afterEmpty P hs.psk).ck []).2.1
          established := true },
        some (responseMsg P hs.peerPub hs.localIndex hs.remoteIndex e
          ((responseChain P ⟨hs.ck, hs.h⟩ e ee se).sealEmpty P hs.psk))) := by
  subst he
  simp only [awgCreateResponse, Handshake.mixKey, Handshake.mixHash, hee, hse]
  rfl

/-- **Consuming a response** sealed on the initiator's own chain succeeds, and splits
the same chaining key the other way round. -/
theorem consumeResponse_eq (hs : Handshake) (remoteIndex : UInt32) (e ee se : Key)
    (hee : x25519 P hs.ePriv e = some ee) (hse : x25519 P hs.sPriv e = some se) :
    awgConsumeResponse P hs (responseMsg P hs.sPub remoteIndex hs.localIndex e
        ((responseChain P ⟨hs.ck, hs.h⟩ e ee se).sealEmpty P hs.psk)) =
      ({ hs with
          ck := ((responseChain P ⟨hs.ck, hs.h⟩ e ee se).afterEmpty P hs.psk).ck
          h := ((responseChain P ⟨hs.ck, hs.h⟩ e ee se).afterEmpty P hs.psk).h
          remoteIndex := remoteIndex
          peerEph := e
          sendKey := (kdf P ((responseChain P ⟨hs.ck, hs.h⟩ e ee se).afterEmpty P hs.psk).ck []).1
          recvKey :=
            (kdf P ((responseChain P ⟨hs.ck, hs.h⟩ e ee se).afterEmpty P hs.psk).ck []).2.1
          established := true }, true) := by
  have hemptyLen : ((responseChain P ⟨hs.ck, hs.h⟩ e ee se).sealEmpty P hs.psk).length = 16 := by
    simp [Chain.sealEmpty]
  obtain ⟨htype, hindex, hlocal, heph, hempty, hbody, hmac⟩ :=
    response_fields P hs.sPub remoteIndex hs.localIndex e hemptyLen
  have hck : (responseChain P ⟨hs.ck, hs.h⟩ e ee se).ck
      = (kdf P (kdf P (kdf P hs.ck e.toList).1 ee.toList).1 se.toList).1 := rfl
  have hopen : chacha20poly1305Decrypt P
      ((responseChain P ⟨hs.ck, hs.h⟩ e ee se).sealEmpty P hs.psk)
      (SysAwg.mixHash P (SysAwg.mixHash P hs.h e.toList)
        (kdf P (responseChain P ⟨hs.ck, hs.h⟩ e ee se).ck hs.psk.toList).2.1.toList).toList 0
      (kdf P (responseChain P ⟨hs.ck, hs.h⟩ e ee se).ck hs.psk.toList).2.2
      = some [] := decrypt_encrypt P _ _ _ _
  simp only [awgConsumeResponse, htype, hlocal, ne_eq, not_true, if_false, hbody, hmac,
    cryptoEqual_self, Bool.not_true, Bool.false_eq_true, hindex, heph, Handshake.mixKey,
    Handshake.mixHash, hee, hse, hempty, ← hck, hopen]
  rfl

/-! ### Agreement

After the four calls both sides have gone along one chain.  Where its values come from
differs: each is a Diffie-Hellman of one side's private and the other's public key, and that
these are equal is the only thing assumed.
-/

/-- The two sides of a Diffie-Hellman exchange compute the same value, and it is
accepted. -/
def DhAgrees (a b : Key) : Prop :=
  P.x25519 a (awgPublicFromPrivate P b) = P.x25519 b (awgPublicFromPrivate P a) ∧
    P.x25519 a (awgPublicFromPrivate P b) ≠ Key.zero

instance (a b : Key) : Decidable (DhAgrees P a b) := inferInstanceAs (Decidable (_ ∧ _))

theorem DhAgrees.shared {a b : Key} (h : DhAgrees P a b) :
    ∃ d, x25519 P a (awgPublicFromPrivate P b) = some d ∧
      x25519 P b (awgPublicFromPrivate P a) = some d := by
  obtain ⟨hsame, hne⟩ := h
  refine ⟨P.x25519 a (awgPublicFromPrivate P b), ?_, ?_⟩
  · simp [x25519, hne]
  · rw [hsame] at hne ⊢
    simp [x25519, hne]

/--
**Handshake agreement.**  Whatever the static keys, the preshared key, the indices and
the random choices: when the two sides run the four functions on undisturbed messages,
every call succeeds, and they end with the same chaining key and hash, with crossed
transport keys, the initiator's public key at the responder, and each other's index.
-/
theorem handshake_agreement (sI sR : Key) (psk : Option Key) (indexI indexR : UInt32)
    (ephI nanos ephR : Entropy) (nowSeconds : UInt64)
    (hes : DhAgrees P (awgGeneratePrivate ephI) sR) (hss : DhAgrees P sI sR)
    (hee : DhAgrees P (awgGeneratePrivate ephI) (awgGeneratePrivate ephR))
    (hse : DhAgrees P sI (awgGeneratePrivate ephR)) :
    ∃ i₁ msg r₁ r₂ reply i₂,
      awgCreateInitiation P (awgHandshakeBegin P sI (some (awgPublicFromPrivate P sR)) psk indexI)
        ephI nanos nowSeconds = (i₁, some msg) ∧
      awgConsumeInitiation P (awgHandshakeBegin P sR none psk indexR) msg = (r₁, true) ∧
      awgCreateResponse P r₁ ephR = (r₂, some reply) ∧
      awgConsumeResponse P i₁ reply = (i₂, true) ∧
      msg.length = awgMsgInitSize ∧ reply.length = awgMsgRespSize ∧
      i₂.ck = r₂.ck ∧ i₂.h = r₂.h ∧ i₂.sendKey = r₂.recvKey ∧ i₂.recvKey = r₂.sendKey ∧
      r₂.peerPub = awgPublicFromPrivate P sI ∧
      i₂.remoteIndex = indexR ∧ r₂.remoteIndex = indexI ∧
      i₂.established = true ∧ r₂.established = true := by
  obtain ⟨es, hesI, hesR⟩ := hes.shared
  obtain ⟨ss, hssI, hssR⟩ := hss.shared
  obtain ⟨ee, heeI, heeR⟩ := hee.shared
  obtain ⟨se, hseI, hseR⟩ := hse.shared
  refine ⟨_, _, _, _, _, _, createInitiation_eq P _ ephI nanos nowSeconds rfl hesI hssI,
    consumeInitiation_eq P _ indexI _ es ss _ _ (length_tai64n _ _) hesR hssR,
    createResponse_eq P _ ephR rfl heeR hseR, consumeResponse_eq P _ indexR _ ee se heeI hseI,
    ?_, ?_, rfl, rfl, rfl, rfl, rfl, rfl, rfl, rfl, rfl⟩
  · simp [initiationMsg, initiationBody, encStaticOf, encStampOf, Chain.sealText, awgMsgInitSize]
  · simp [responseMsg, responseBody, Chain.sealEmpty, awgMsgRespSize]

/-- The standard primitives, with each side's static key as its ephemeral one. -/
theorem handshake_agreement_standard :
    DhAgrees standardPrimitives (awgGeneratePrivate fun i => UInt8.ofNat (i + 1))
      (awgGeneratePrivate fun i => UInt8.ofNat (i + 33)) ∧
    ∃ i₁ msg r₁,
      awgCreateInitiation standardPrimitives
        (awgHandshakeBegin standardPrimitives (awgGeneratePrivate fun i => UInt8.ofNat (i + 1))
          (some (awgPublicFromPrivate standardPrimitives
            (awgGeneratePrivate fun i => UInt8.ofNat (i + 33)))) none 7)
        (fun i => UInt8.ofNat (i + 1)) (fun _ => 0) 1700000000 = (i₁, some msg) ∧
      awgConsumeInitiation standardPrimitives
        (awgHandshakeBegin standardPrimitives (awgGeneratePrivate fun i => UInt8.ofNat (i + 33))
          none none 9) msg = (r₁, true) := by
  have hdh : DhAgrees standardPrimitives (awgGeneratePrivate fun i => UInt8.ofNat (i + 1))
      (awgGeneratePrivate fun i => UInt8.ofNat (i + 33)) := by decide +kernel
  obtain ⟨i₁, msg, r₁, -, -, -, hcreate, hconsume, -⟩ :=
    handshake_agreement standardPrimitives _ _ none 7 9 (fun i => UInt8.ofNat (i + 1))
      (fun _ => 0) (fun i => UInt8.ofNat (i + 33)) 1700000000 hdh hdh hdh hdh
  exact ⟨hdh, i₁, msg, r₁, hcreate, hconsume⟩

end SysAwg
