/-
Key exchange over Curve25519.

The field is one because its modulus is prime, and the base point has prime order; both
primes come with a certificate.  What `x25519` computes is then the abscissa of a multiple
of a point, and the two sides of an exchange reach the same multiple of the base point in
two ways.  It is never zero: the clamped scalars are below eight times the order, and the
only point of abscissa zero has order two.
-/
import Mathlib.FieldTheory.Finite.Basic
import SysAwg.Lib.Lucas
import SysAwg.Lib.MontgomeryCurve
import SysAwg.Proofs.X25519
import SysAwg.Proofs.TypeWords

namespace SysAwg.X25519

open Standard (prime leNat)
open Montgomery (Pair climb curve)
open WeierstrassCurve.Affine (Point)

/-! ### The two primes

Lucas's test asks for the factors of one less than the prime, and then for those of each
large factor, so the certificate is a list that ends with small primes.
-/

/-- The order of the base point. -/
def order : Nat := 2 ^ 252 + 27742317777372353535851937790883648493

/-- Every prime that the two rest on. -/
def primeCertificate : List Lucas.Witness :=
  [⟨57896044618658097711785492504343953926634992332820282019728792003956564819949, 2,
      [2, 2, 3, 65147, 74058212732561358302231226437062788676166966415465897661863160754340907]⟩,
    ⟨7237005577332262213973186563042994240857116359379907606001950938285454250989, 2,
      [2, 2, 3, 11, 198211423230930754013084525763697, 276602624281642239937218680557139826668747]⟩,
    ⟨74058212732561358302231226437062788676166966415465897661863160754340907, 2,
      [2, 3, 353, 57467, 132049, 1923133, 31757755568855353, 75445702479781427272750846543864801]⟩,
    ⟨276602624281642239937218680557139826668747, 2,
      [2, 7, 19757330305831588566944191468367130476339]⟩,
    ⟨19757330305831588566944191468367130476339, 2,
      [2, 269, 213441916511, 172054593956031949258510691]⟩,
    ⟨75445702479781427272750846543864801, 7,
      [2, 2, 2, 2, 2, 3, 3, 5, 5, 75707, 72106336199, 1919519569386763]⟩,
    ⟨198211423230930754013084525763697, 5, [2, 2, 2, 2, 3, 23, 58964693, 3044861653679985063343]⟩,
    ⟨172054593956031949258510691, 2, [2, 5, 1361, 2851, 4434155615661930479]⟩,
    ⟨3044861653679985063343, 5, [2, 3, 11, 30703, 82163, 132667, 137849]⟩,
    ⟨4434155615661930479, 17, [2, 41, 43, 1257559732178653]⟩,
    ⟨31757755568855353, 10, [2, 2, 2, 3, 31, 107, 223, 4153, 430751]⟩,
    ⟨1919519569386763, 2, [2, 3, 7, 19, 47, 47, 127, 8574133]⟩,
    ⟨1257559732178653, 2, [2, 2, 3, 7, 23, 531581, 1224481]⟩,
    ⟨213441916511, 13, [2, 5, 73, 292386187]⟩, ⟨72106336199, 7, [2, 13, 2773320623]⟩,
    ⟨2773320623, 5, [2, 2437, 569003]⟩, ⟨292386187, 2, [2, 3, 3, 3, 3, 307, 5879]⟩,
    ⟨58964693, 2, [2, 2, 14741173]⟩, ⟨14741173, 2, [2, 2, 3, 3, 409477]⟩,
    ⟨8574133, 2, [2, 2, 3, 7, 103, 991]⟩, ⟨1923133, 2, [2, 2, 3, 43, 3727]⟩,
    ⟨1224481, 13, [2, 2, 2, 2, 2, 3, 5, 2551]⟩, ⟨569003, 2, [2, 7, 97, 419]⟩,
    ⟨531581, 2, [2, 2, 5, 7, 3797]⟩, ⟨430751, 17, [2, 5, 5, 5, 1723]⟩,
    ⟨409477, 2, [2, 2, 3, 34123]⟩, ⟨137849, 3, [2, 2, 2, 17231]⟩, ⟨132667, 5, [2, 3, 22111]⟩,
    ⟨132049, 26, [2, 2, 2, 2, 3, 3, 7, 131]⟩, ⟨82163, 2, [2, 41081]⟩, ⟨75707, 2, [2, 37853]⟩,
    ⟨65147, 2, [2, 32573]⟩, ⟨57467, 2, [2, 59, 487]⟩, ⟨41081, 3, [2, 2, 2, 5, 13, 79]⟩,
    ⟨37853, 2, [2, 2, 9463]⟩, ⟨34123, 2, [2, 3, 11, 11, 47]⟩, ⟨32573, 2, [2, 2, 17, 479]⟩,
    ⟨30703, 3, [2, 3, 7, 17, 43]⟩, ⟨22111, 6, [2, 3, 5, 11, 67]⟩, ⟨17231, 13, [2, 5, 1723]⟩,
    ⟨9463, 3, [2, 3, 19, 83]⟩, ⟨5879, 11, [2, 2939]⟩, ⟨4153, 5, [2, 2, 2, 3, 173]⟩,
    ⟨3797, 2, [2, 2, 13, 73]⟩, ⟨3727, 3, [2, 3, 3, 3, 3, 23]⟩, ⟨2939, 2, [2, 13, 113]⟩,
    ⟨2851, 2, [2, 3, 5, 5, 19]⟩, ⟨2551, 6, [2, 3, 5, 5, 17]⟩, ⟨2437, 2, [2, 2, 3, 7, 29]⟩,
    ⟨1723, 3, [2, 3, 7, 41]⟩, ⟨1361, 3, [2, 2, 2, 2, 5, 17]⟩, ⟨991, 6, [2, 3, 3, 5, 11]⟩,
    ⟨487, 3, [2, 3, 3, 3, 3, 3]⟩, ⟨479, 13, [2, 239]⟩, ⟨419, 2, [2, 11, 19]⟩,
    ⟨353, 3, [2, 2, 2, 2, 2, 11]⟩, ⟨307, 5, [2, 3, 3, 17]⟩, ⟨269, 2, [2, 2, 67]⟩,
    ⟨239, 7, [2, 7, 17]⟩, ⟨223, 3, [2, 3, 37]⟩, ⟨173, 2, [2, 2, 43]⟩, ⟨131, 2, [2, 5, 13]⟩,
    ⟨127, 3, [2, 3, 3, 7]⟩, ⟨113, 3, [2, 2, 2, 2, 7]⟩, ⟨107, 2, [2, 53]⟩, ⟨103, 5, [2, 3, 17]⟩,
    ⟨97, 5, [2, 2, 2, 2, 2, 3]⟩, ⟨83, 2, [2, 41]⟩, ⟨79, 3, [2, 3, 13]⟩, ⟨73, 5, [2, 2, 2, 3, 3]⟩,
    ⟨67, 2, [2, 3, 11]⟩, ⟨59, 2, [2, 29]⟩, ⟨53, 2, [2, 2, 13]⟩, ⟨47, 5, [2, 23]⟩,
    ⟨43, 3, [2, 3, 7]⟩, ⟨41, 6, [2, 2, 2, 5]⟩, ⟨37, 2, [2, 2, 3, 3]⟩, ⟨31, 3, [2, 3, 5]⟩,
    ⟨29, 2, [2, 2, 7]⟩, ⟨23, 5, [2, 11]⟩, ⟨19, 2, [2, 3, 3]⟩, ⟨17, 3, [2, 2, 2, 2]⟩,
    ⟨13, 2, [2, 2, 3]⟩, ⟨11, 2, [2, 5]⟩, ⟨7, 3, [2, 3]⟩, ⟨5, 2, [2, 2]⟩, ⟨3, 2, [2]⟩, ⟨2, 1, []⟩]

theorem primeCertificate_certified : Lucas.certified primeCertificate = true := by
  decide +kernel

theorem prime_prime : prime.Prime :=
  Lucas.certified_prime primeCertificate_certified (primeCertificate.get ⟨0, by decide⟩)
    (List.get_mem _ _)

theorem order_prime : order.Prime :=
  Lucas.certified_prime primeCertificate_certified (primeCertificate.get ⟨1, by decide⟩)
    (List.get_mem _ _)

instance : Fact prime.Prime := ⟨prime_prime⟩

instance : Fact order.Prime := ⟨order_prime⟩

theorem small_ne_zero {n : Nat} (hpos : 0 < n) (hlt : n < prime) : (n : ZMod prime) ≠ 0 := by
  rw [ne_eq, ZMod.natCast_eq_zero_iff]
  exact Nat.not_dvd_of_pos_of_lt hpos hlt

theorem two_ne : (2 : ZMod prime) ≠ 0 := small_ne_zero (n := 2) (by decide) (by decide)

theorem a24_ne : (121665 : ZMod prime) ≠ 0 := small_ne_zero (n := 121665) (by decide) (by decide)

theorem a24_succ_ne : (121665 : ZMod prime) + 1 ≠ 0 := by
  have h := small_ne_zero (n := 121666) (by decide) (by decide)
  intro hzero
  refine h ?_
  push_cast
  linear_combination hzero

/-! ### Abscissas

The ladder leaves a fraction, and the code's division gives zero where the denominator is
zero.  Zero is also an abscissa on the curve, that of the point of order two, and so far
nothing tells the two apart.
-/

instance a24_atLeastTwo : Nat.AtLeastTwo 121665 := ⟨by decide⟩

/-- Points of the curve. -/
abbrev Pt := (curve (121665 : ZMod prime)).Point

/-- The abscissa, and zero at infinity. -/
def abscissa : Pt → ZMod prime
  | .zero => 0
  | .some u _ _ => u

/-- The power chain divides. -/
theorem mul_pow_eq (u : ZMod prime) {z : ZMod prime} (hz : z ≠ 0) :
    u * z * z ^ (prime - 2) = u := by
  have hfermat : z * z ^ (prime - 2) = 1 := by
    rw [← pow_succ', show prime - 2 + 1 = prime - 1 by rw [prime]; omega]
    exact ZMod.pow_card_sub_one_eq_one hz
  rw [mul_assoc, hfermat, mul_one]

theorem quotient_stands {P : Pt} {s : Pair (ZMod prime)} (h : Montgomery.Stands P s.x2 s.z2) :
    quotient s = abscissa P := by
  cases P with
  | zero =>
      obtain ⟨hz, -⟩ := h
      rw [quotient, hz, zero_pow (by rw [prime]; omega), mul_zero]
      rfl
  | some u v hu =>
      obtain ⟨hz, hx⟩ := h
      rw [quotient, hx, mul_pow_eq u hz]
      rfl

theorem clamped_lt (scalar : Bytes) : clamped scalar < 2 ^ 256 := by
  rw [clamped, Nat.shiftRight_eq_div_pow, Nat.shiftLeft_eq]
  omega

/-- **Multiplication of a point**, for any base that is the abscissa of one and not zero. -/
theorem quotient_summit {P : Pt} (hP : abscissa P ≠ 0) (scalar base : Bytes)
    (hbase : ((leNat base : Nat) : ZMod prime) = abscissa P) :
    quotient (summit scalar base) = abscissa (clamped scalar • P) := by
  cases P with
  | zero => exact absurd rfl hP
  | some u v hu =>
      rw [summit, hbase]
      exact quotient_stands
        (Montgomery.stands_climb hP two_ne a24_ne a24_succ_ne (clamped_lt scalar))

/-! ### The base point

For multiples of the base point the two can be told apart, because its order is a large
prime: a multiple is infinity only for multiples of the order, and the origin never.
-/

/-- An ordinate over the abscissa 9. -/
def baseOrdinate : Nat :=
  14781619447589544791020593568409986887264606134616475288964881837755586237401

theorem base_nonsingular :
    (curve (121665 : ZMod prime)).Nonsingular ((9 : Nat) : ZMod prime)
      ((baseOrdinate : Nat) : ZMod prime) := by
  have hordinate : baseOrdinate * baseOrdinate % prime = (9 ^ 3 + 486662 * 9 ^ 2 + 9) % prime := by
    decide +kernel
  have hcurve : ((baseOrdinate : Nat) : ZMod prime) * (baseOrdinate : Nat)
      = ((9 : Nat) : ZMod prime) ^ 3 + 486662 * ((9 : Nat) : ZMod prime) ^ 2 + (9 : Nat) := by
    have h := (ZMod.natCast_eq_natCast_iff' _ _ prime).mpr hordinate
    push_cast at h ⊢
    exact h
  have hne : ((2 * baseOrdinate : Nat) : ZMod prime) ≠ 0 :=
    small_ne_zero (by decide) (by decide +kernel)
  refine (WeierstrassCurve.Affine.nonsingular_iff _ _).mpr ⟨?_, Or.inr ?_⟩
  · rw [WeierstrassCurve.Affine.equation_iff]
    simp only [curve]
    linear_combination hcurve
  · simp only [curve]
    intro heq
    refine hne ?_
    push_cast
    linear_combination heq

/-- The point every public key is a multiple of. -/
def basePoint : Pt := .some _ _ base_nonsingular

theorem nine_ne : ((9 : Nat) : ZMod prime) ≠ 0 := small_ne_zero (by decide) (by decide)

/-- Multiplying the base point. -/
theorem stands_base {k n : Nat} (hk : k < 2 ^ n) :
    Montgomery.Stands (k • basePoint)
      (climb 121665 ((9 : Nat) : ZMod prime) k.testBit n false (Pair.start (9 : Nat))).x2
      (climb 121665 ((9 : Nat) : ZMod prime) k.testBit n false (Pair.start (9 : Nat))).z2 :=
  Montgomery.stands_climb nine_ne two_ne a24_ne a24_succ_ne hk

/-- The ladder itself tells when a multiple is infinity. -/
theorem nsmul_base_of_ladder {k n : Nat} (hk : k < 2 ^ n)
    (hzero : Standard.ladder k 9 n false 1 0 9 1 (fun _ z => z) = 0) : k • basePoint = 0 := by
  have hstart : Casts ⟨1, 0, 9, 1⟩ (Pair.start ((9 : Nat) : ZMod prime)) := by
    refine ⟨Nat.cast_one, Nat.cast_zero, rfl, Nat.cast_one, prime_pos, ?_⟩
    show 1 < prime
    rw [prime]
    omega
  obtain ⟨r, hr, hcasts⟩ := ladder_casts k 9 (fun _ z => z) n false hstart
  have hstands := stands_base hk
  have hz : r.z2 = 0 := hr.symm.trans hzero
  rw [← hcasts.z2, hz, Nat.cast_zero] at hstands
  generalize k • basePoint = P at hstands
  cases P with
  | zero => rfl
  | some u v hu => exact absurd rfl hstands.1

theorem order_nsmul : order • basePoint = 0 :=
  nsmul_base_of_ladder (n := 253) (by decide) (by decide +kernel)

theorem base_order : addOrderOf basePoint = order :=
  addOrderOf_eq_prime order_nsmul (Point.some_ne_zero _)

theorem nsmul_base_eq_zero {k : Nat} : k • basePoint = 0 ↔ order ∣ k := by
  rw [← addOrderOf_dvd_iff_nsmul_eq_zero, base_order]

/-- Only the order's multiples take the base point to infinity or to the origin. -/
theorem abscissa_ne_zero {k : Nat} (hk : ¬ order ∣ k) : abscissa (k • basePoint) ≠ 0 := by
  generalize hP : k • basePoint = P
  cases P with
  | zero => exact absurd (nsmul_base_eq_zero.mp hP) hk
  | some u v hu =>
      intro hzero
      change u = 0 at hzero
      subst hzero
      have hdouble : (k + k) • basePoint = 0 := by
        rw [add_nsmul, hP]
        exact Montgomery.origin_add_self hu
      rcases order_prime.dvd_mul.mp (two_mul k ▸ nsmul_base_eq_zero.mp hdouble) with h | h
      · exact absurd (Nat.le_of_dvd (by omega) h) (by rw [order]; omega)
      · exact hk h

/-- A clamped scalar is eight times something below the order. -/
theorem order_not_dvd_clamped (scalar : Bytes) : ¬ order ∣ clamped scalar := by
  have hform : clamped scalar = 8 * (2 ^ 251 + leNat scalar / 2 ^ 3 % 2 ^ 251) := by
    rw [clamped, Nat.shiftRight_eq_div_pow, Nat.shiftLeft_eq]
    omega
  rw [hform, order_prime.dvd_mul]
  rintro (h | h)
  · exact absurd (Nat.le_of_dvd (by omega) h) (by rw [order]; omega)
  · refine absurd (Nat.le_of_dvd (by omega) h) ?_
    rw [order]
    omega

/-! ### The exchange

A public key is the abscissa of a multiple of the base point.  Multiplying it by the other
private key gives an abscissa of a multiple by both, and the order of the two factors does
not matter.
-/

/-- A public key is the abscissa of the private key's multiple of the base point. -/
theorem publicKey_abscissa (b : Key) :
    ((leNat (Standard.x25519 b x25519BasePoint).toList : Nat) : ZMod prime)
      = abscissa (clamped b.toList • basePoint) := by
  obtain ⟨out, hout, hbytes, hcast⟩ := quotient_residue b x25519BasePoint
  have hnine : leNat x25519BasePoint.toList = 9 := by decide
  have hbase : abscissa basePoint ≠ 0 := nine_ne
  have hlt : out < 256 ^ 32 := by
    rw [prime] at hout
    omega
  rw [hbytes, Standard.leNat_natBytes, Nat.mod_eq_of_lt hlt, hcast,
    quotient_summit hbase b.toList x25519BasePoint.toList (by rw [hnine]; rfl)]

theorem shared_abscissa (a b : Key) :
    ∃ out < prime, Standard.x25519 a (Standard.x25519 b x25519BasePoint) = Standard.natBytes 32 out ∧
      (out : ZMod prime) = abscissa ((clamped a.toList * clamped b.toList) • basePoint) := by
  obtain ⟨out, hout, hbytes, hcast⟩ := quotient_residue a (Standard.x25519 b x25519BasePoint)
  refine ⟨out, hout, hbytes, ?_⟩
  rw [hcast, quotient_summit (abscissa_ne_zero (order_not_dvd_clamped b.toList)) a.toList _
    (publicKey_abscissa b), smul_smul]

/-- **The exchange agrees**, and what it agrees on is not zero: for any two private keys. -/
theorem standard_agrees (a b : Key) : DhAgrees standardPrimitives a b := by
  obtain ⟨out, hout, hbytes, hcast⟩ := shared_abscissa a b
  obtain ⟨out', hout', hbytes', hcast'⟩ := shared_abscissa b a
  have hlt : out < 256 ^ 32 := by
    rw [prime] at hout
    omega
  have hdvd : ¬ order ∣ clamped a.toList * clamped b.toList := by
    rw [order_prime.dvd_mul, not_or]
    exact ⟨order_not_dvd_clamped _, order_not_dvd_clamped _⟩
  have hne : out ≠ 0 := by
    intro hzero
    rw [hzero, Nat.cast_zero] at hcast
    exact abscissa_ne_zero hdvd hcast.symm
  have hsame : out = out' := by
    have hres : (out : ZMod prime) = out' := by rw [hcast, hcast', Nat.mul_comm]
    have hmod := (ZMod.natCast_eq_natCast_iff' _ _ _).mp hres
    rwa [Nat.mod_eq_of_lt hout, Nat.mod_eq_of_lt hout'] at hmod
  refine ⟨?_, ?_⟩
  · show Standard.x25519 a (Standard.x25519 b x25519BasePoint)
      = Standard.x25519 b (Standard.x25519 a x25519BasePoint)
    rw [hbytes, hbytes', hsame]
  · show Standard.x25519 a (Standard.x25519 b x25519BasePoint) ≠ Key.zero
    rw [hbytes, ne_eq, natBytes_eq_zero hlt]
    exact hne

/-- **Both ends compute the same secret.**  Whatever two private keys are taken and whatever
was on the stack of the four calls: each side, handed the other's public key, stores the same
32 bytes and reports success. -/
theorem exchange_agrees (t₁ t₂ t₃ t₄ : Fe) (a b : Key) :
    ∃ shared : Key,
      x25519 t₁ a.toList (x25519 t₂ b.toList x25519BasePoint.toList).1 = (shared.toList, 0) ∧
        x25519 t₃ b.toList (x25519 t₄ a.toList x25519BasePoint.toList).1 = (shared.toList, 0) := by
  have hsame : Standard.x25519 a (Standard.x25519 b x25519BasePoint)
      = Standard.x25519 b (Standard.x25519 a x25519BasePoint) := (standard_agrees a b).1
  have hne : Standard.x25519 a (Standard.x25519 b x25519BasePoint) ≠ Key.zero :=
    (standard_agrees a b).2
  refine ⟨Standard.x25519 a (Standard.x25519 b x25519BasePoint), ?_, ?_⟩
  · rw [x25519_stores t₂, x25519_stores t₁, if_neg hne]
  · rw [x25519_stores t₄, x25519_stores t₃, ← hsame, if_neg hne]

end SysAwg.X25519

namespace SysAwg

/-- **Any two ends that know each other talk.**  Of the keys, the random bytes, the indices and
the state the client is in nothing is asked: if the client was given the peer's public key, the
words are WireGuard's and the paddings leave room, the handshake completes and data flows both
ways. -/
theorem keyed_ends_talk (m : Meeting) (cfg : Config)
    (hpeer : cfg.peerPublicKey = awgPublicFromPrivate standardPrimitives m.peerPriv)
    (h1 : cfg.h1 = 1) (h2 : cfg.h2 = 2)
    (hpadding : ∀ kind, kind ≠ .cookie → 0 ≤ paddingFor cfg kind ∧
      (cfg.haveHeaderProtection = true → 12 ≤ paddingFor cfg kind))
    (hout : cfg.s1 + awgMsgInitSize ≤ m.outCap) (hroom : cfg.s2 + awgMsgRespSize ≤ m.peerCap) :
    m.Talks standardPrimitives cfg :=
  Meeting.Conforms.talks standardPrimitives
    ⟨hpeer, X25519.standard_agrees _ _, X25519.standard_agrees _ _, X25519.standard_agrees _ _,
      X25519.standard_agrees _ _, hpadding, hout, hroom⟩ h1 h2

theorem keyed_ends_talk_sample : sampleMeeting.Talks standardPrimitives (wordsConfig 1 2) := by
  refine keyed_ends_talk sampleMeeting (wordsConfig 1 2) ?_ rfl rfl ?_ ?_ ?_
  · simp only [wordsConfig, sampleMeeting]
  · intro kind _
    cases kind <;> simp [paddingFor, wordsConfig, Config.default]
  · simp [wordsConfig, Config.default, awgMsgInitSize, sampleMeeting]
  · simp [wordsConfig, Config.default, awgMsgRespSize, sampleMeeting]

end SysAwg
