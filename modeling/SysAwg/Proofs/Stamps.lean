/-
The time stamps of initiations.

The server ignores an initiation whose stamp is not greater than the last one it took.
`tai64n` puts the clock's seconds first, so stamps of different seconds are in order.
Below the second it draws at random, and remembers nothing: two initiations of one second
are in order only if the draws are.
-/
import SysAwg.Lib.BigEndian
import SysAwg.Proofs.Handshake
import SysAwg.Standard

namespace SysAwg

/-! ### One stamp against another

Stamps are byte strings and are compared as such, which is the order of the numbers in
them: first the seconds, then the nanoseconds.
-/

/-- What the eight bytes of the seconds spell. -/
def stampSeconds (nowSeconds : UInt64) : Nat := (nowSeconds + 0x400000000000000a).toNat

/-- The nanoseconds drawn. -/
def stampNanos (e : Entropy) : UInt32 := awgRandomWord e % 1000000000

theorem bigEndian_tai64n (nowSeconds : UInt64) (e : Entropy) :
    Bytes.bigEndian (tai64n nowSeconds e)
      = stampSeconds nowSeconds * 256 ^ 4 + (stampNanos e).toNat := by
  have hseconds : stampSeconds nowSeconds % 256 ^ 8 = stampSeconds nowSeconds :=
    Nat.mod_eq_of_lt (UInt64.toNat_lt _)
  unfold tai64n
  dsimp only
  rw [Bytes.bigEndian_append, Bytes.bigEndian_leBytes, Bytes.bigEndian_le32, List.length_reverse,
    Bytes.length_le32]
  show stampSeconds nowSeconds % 256 ^ 8 * 256 ^ 4 + _ = _
  rw [hseconds]
  rfl

/-- **The order of two stamps**: the seconds decide, and after them the nanoseconds. -/
theorem tai64n_lt_iff (s s' : UInt64) (e e' : Entropy) :
    tai64n s e < tai64n s' e' ↔
      stampSeconds s < stampSeconds s' ∨
        stampSeconds s = stampSeconds s' ∧ stampNanos e < stampNanos e' := by
  have hlen : (tai64n s e).length = (tai64n s' e').length := by
    rw [length_tai64n, length_tai64n]
  rw [Bytes.lt_iff_bigEndian hlen, bigEndian_tai64n, bigEndian_tai64n, UInt32.lt_iff_toNat_lt]
  exact Bytes.digits_lt_iff (UInt32.toNat_lt _) (UInt32.toNat_lt _)

/-- The first clock reading whose seconds do not fit any more. -/
def stampWraps : UInt64 := 0xbffffffffffffff6

/-- With a clock that does not go back, a stamp is greater than an earlier one unless both
belong to one second and the draws are not in order, or the seconds have overflowed in
between. -/
theorem tai64n_lt_iff_of_le {s s' : UInt64} (hle : s ≤ s') (e e' : Entropy) :
    tai64n s e < tai64n s' e' ↔
      (s = s' → stampNanos e < stampNanos e') ∧ ¬ (s < stampWraps ∧ stampWraps ≤ s') := by
  have hs : stampSeconds s = (s.toNat + 4611686018427387914) % 18446744073709551616 :=
    UInt64.toNat_add _ _
  have hs' : stampSeconds s' = (s'.toNat + 4611686018427387914) % 18446744073709551616 :=
    UInt64.toNat_add _ _
  have hw : stampWraps.toNat = 13835058055282163702 := by decide
  have hb : s.toNat < 18446744073709551616 := s.toNat_lt
  have hb' : s'.toNat < 18446744073709551616 := s'.toNat_lt
  rw [UInt64.le_iff_toNat_le] at hle
  rw [tai64n_lt_iff, UInt64.lt_iff_toNat_lt, UInt64.le_iff_toNat_le, ← UInt64.toNat_inj, hs, hs',
    hw]
  by_cases hnanos : stampNanos e < stampNanos e'
  · simp only [hnanos, and_true, implies_true, true_and]
    omega
  · simp only [hnanos, and_false, or_false, imp_false]
    omega

/-! ### A sequence of initiations -/

/-- One call of `awg_create_initiation`: the handshake it is made for, what it draws, and
what `awg_now_seconds` returns. -/
structure InitiationCall where
  hs : Handshake
  eph : Entropy
  nanos : Entropy
  nowSeconds : UInt64

def InitiationCall.stamp (c : InitiationCall) : Bytes := tai64n c.nowSeconds c.nanos

variable (P : Primitives)

/-- Neither Diffie-Hellman of the call comes out zero. -/
def InitiationCall.keysAgree (c : InitiationCall) : Bool :=
  (x25519 P (awgGeneratePrivate c.eph) c.hs.peerPub).isSome &&
    (x25519 P c.hs.sPriv c.hs.peerPub).isSome

def InitiationCall.message (c : InitiationCall) : Option Bytes :=
  (awgCreateInitiation P c.hs c.eph c.nanos c.nowSeconds).2

/-- The stamps of all initiations made, in the order of the calls. -/
def initiationStamps (calls : List InitiationCall) : List Bytes :=
  calls.filterMap fun c => (c.message P).map fun _ => c.stamp

/-- An initiation is made exactly if both keys agree, and then it carries the stamp of the
call, sealed. -/
theorem InitiationCall.message_spec (c : InitiationCall) :
    (c.message P).isSome = c.keysAgree P ∧
      ∀ msg, c.message P = some msg → ∃ e es ss,
        Bytes.slice msg 88 28 = encStampOf P c.hs.peerPub e es ss c.hs.sPub c.stamp := by
  unfold InitiationCall.message InitiationCall.keysAgree
  cases hes : x25519 P (awgGeneratePrivate c.eph) c.hs.peerPub with
  | none =>
      have hnone : (awgCreateInitiation P c.hs c.eph c.nanos c.nowSeconds).2 = none := by
        simp only [awgCreateInitiation, chainStart, Handshake.mixKey, Handshake.mixHash, hes]
      rw [hnone]
      refine ⟨rfl, ?_⟩
      intro msg hmsg
      cases hmsg
  | some es =>
      cases hss : x25519 P c.hs.sPriv c.hs.peerPub with
      | none =>
          have hnone : (awgCreateInitiation P c.hs c.eph c.nanos c.nowSeconds).2 = none := by
            simp only [awgCreateInitiation, chainStart, Handshake.mixKey, Handshake.mixHash, hes,
              hss]
          rw [hnone]
          refine ⟨rfl, ?_⟩
          intro msg hmsg
          cases hmsg
      | some ss =>
          rw [createInitiation_eq P c.hs c.eph c.nanos c.nowSeconds rfl hes hss]
          refine ⟨rfl, fun msg hmsg => ?_⟩
          obtain rfl := Option.some.inj hmsg
          have hstatic : (encStaticOf P c.hs.peerPub
              (awgPublicFromPrivate P (awgGeneratePrivate c.eph)) es c.hs.sPub).length = 48 := by
            simp [encStaticOf, Chain.sealText]
          have hstamp : (encStampOf P c.hs.peerPub
              (awgPublicFromPrivate P (awgGeneratePrivate c.eph)) es ss c.hs.sPub
              (tai64n c.nowSeconds c.nanos)).length = 28 := by
            simp [encStampOf, Chain.sealText]
          obtain ⟨-, -, -, -, hfield, -, -⟩ :=
            initiation_fields P c.hs.peerPub c.hs.localIndex _ hstatic hstamp
          exact ⟨_, es, ss, hfield⟩

/-- A client that knows the server's public key. -/
theorem keysAgree_of_dhAgrees {c : InitiationCall} {sI sR : Key} {psk : Option Key} {index : UInt32}
    (hhs : c.hs = awgHandshakeBegin P sI (some (awgPublicFromPrivate P sR)) psk index)
    (hes : DhAgrees P (awgGeneratePrivate c.eph) sR) (hss : DhAgrees P sI sR) :
    c.keysAgree P = true := by
  have hpub : c.hs.peerPub = awgPublicFromPrivate P sR := by
    rw [hhs]
    rfl
  have hpriv : c.hs.sPriv = sI := by
    rw [hhs]
    rfl
  obtain ⟨es, hes, -⟩ := hes.shared
  obtain ⟨ss, hss, -⟩ := hss.shared
  unfold InitiationCall.keysAgree
  rw [hpub, hpriv, hes, hss]
  rfl

theorem initiationStamps_eq (calls : List InitiationCall) :
    initiationStamps P calls
      = (calls.filter (InitiationCall.keysAgree P)).map InitiationCall.stamp := by
  induction calls with
  | nil => rfl
  | cons c calls ih =>
      have hmade := (c.message_spec P).1
      unfold initiationStamps at ih ⊢
      rw [List.filterMap_cons, List.filter_cons, ← hmade]
      cases c.message P with
      | none => exact ih
      | some msg =>
          show c.stamp :: _ = _
          rw [ih]
          rfl

/-- Two calls whose stamps come out in order: they do not draw out of order within one
second, and the seconds do not overflow between them. -/
def InOrder (c d : InitiationCall) : Prop :=
  (c.nowSeconds = d.nowSeconds → stampNanos c.nanos < stampNanos d.nanos) ∧
    ¬ (c.nowSeconds < stampWraps ∧ stampWraps ≤ d.nowSeconds)

instance (c d : InitiationCall) : Decidable (InOrder c d) :=
  inferInstanceAs (Decidable (_ ∧ _))

/--
**Stamps increase exactly as long as no second sees two initiations with draws out of
order.**  For every sequence of calls of `awg_create_initiation`, for any handshakes and
any random bytes, during which the clock does not go back: the stamp of each initiation is
greater than that of every earlier one if and only if any two initiations made in the same
second drew increasing nanoseconds (and the 64-bit seconds did not overflow).
-/
theorem stamps_increase_iff (calls : List InitiationCall)
    (hclock : calls.Pairwise fun c d => c.nowSeconds ≤ d.nowSeconds) :
    (initiationStamps P calls).Pairwise (· < ·) ↔
      (calls.filter (InitiationCall.keysAgree P)).Pairwise InOrder := by
  have hmade := hclock.filter (InitiationCall.keysAgree P)
  rw [initiationStamps_eq, List.pairwise_map]
  constructor
  · intro hinc
    refine (hinc.and hmade).imp ?_
    rintro c d ⟨hlt, hle⟩
    exact (tai64n_lt_iff_of_le hle _ _).mp hlt
  · intro hord
    refine (hord.and hmade).imp ?_
    rintro c d ⟨horder, hle⟩
    exact (tai64n_lt_iff_of_le hle _ _).mpr horder

/-- An initiation of the client with the standard primitives, at one second of the clock
and with one draw. -/
def sampleCall (nowSeconds : UInt64) (draw : UInt8) : InitiationCall where
  hs := awgHandshakeBegin standardPrimitives (awgGeneratePrivate fun i => UInt8.ofNat (i + 1))
    (some (awgPublicFromPrivate standardPrimitives
      (awgGeneratePrivate fun i => UInt8.ofNat (i + 33)))) none 7
  eph := fun i => UInt8.ofNat (i + 1)
  nanos := fun _ => draw
  nowSeconds := nowSeconds

theorem sampleCall_keysAgree (nowSeconds : UInt64) (draw : UInt8) :
    (sampleCall nowSeconds draw).keysAgree standardPrimitives = true := by
  have hdh : DhAgrees standardPrimitives (awgGeneratePrivate fun i => UInt8.ofNat (i + 1))
      (awgGeneratePrivate fun i => UInt8.ofNat (i + 33)) := by decide +kernel
  exact keysAgree_of_dhAgrees standardPrimitives rfl hdh hdh

theorem sampleCalls_made (calls : List (UInt64 × UInt8)) :
    (calls.map fun c => sampleCall c.1 c.2).filter (InitiationCall.keysAgree standardPrimitives)
      = calls.map fun c => sampleCall c.1 c.2 := by
  refine List.filter_eq_self.mpr fun c hc => ?_
  obtain ⟨p, -, rfl⟩ := List.mem_map.mp hc
  exact sampleCall_keysAgree p.1 p.2

/-- Two seconds, and two draws in order within the second one. -/
theorem stamps_increase_three :
    (initiationStamps standardPrimitives
      ([(1700000000, 9), (1700000001, 1), (1700000001, 2)].map
        fun c => sampleCall c.1 c.2)).Pairwise (· < ·) := by
  refine (stamps_increase_iff standardPrimitives _ ?_).mpr ?_
  · simp [sampleCall]
  · rw [sampleCalls_made]
    decide

/-- Two initiations in one second, the second with the smaller draw: its stamp is the
smaller one, though the clock has not gone back. -/
theorem stamps_decrease_in_second :
    ((1700000000 : UInt64) ≤ 1700000000) ∧
      initiationStamps standardPrimitives
        ([(1700000000, 2), (1700000000, 1)].map fun c => sampleCall c.1 c.2)
        = [[64, 0, 0, 0, 101, 83, 241, 10, 2, 2, 2, 2], [64, 0, 0, 0, 101, 83, 241, 10, 1, 1, 1, 1]] ∧
      ¬ (initiationStamps standardPrimitives
        ([(1700000000, 2), (1700000000, 1)].map fun c => sampleCall c.1 c.2)).Pairwise (· < ·) := by
  have hstamps : initiationStamps standardPrimitives
      ([(1700000000, 2), (1700000000, 1)].map fun c => sampleCall c.1 c.2)
      = [[64, 0, 0, 0, 101, 83, 241, 10, 2, 2, 2, 2],
        [64, 0, 0, 0, 101, 83, 241, 10, 1, 1, 1, 1]] := by
    rw [initiationStamps_eq, sampleCalls_made]
    decide +kernel
  refine ⟨by decide, hstamps, ?_⟩
  rw [hstamps]
  decide

end SysAwg
