/-
The compiled AEAD is the one the handshake and the transport are proved with.

Two things separate them.  The cipher works on 32-bit words in place where the protocol's
model works on numbers, and the authenticator is fed in six pieces with a padding computed
by a mask where the model hands it one message.  The first is word against number, a
quarter round at a time; the second is the theorem about updates.
-/
import SysAwg.Aead
import SysAwg.Proofs.Cipher
import SysAwg.Proofs.Poly1305
import SysAwg.Proofs.Words32

namespace SysAwg.Aead

open SysAwg.Standard (leNat force_eq toNat_plus leNat_words length_words exists_words)
open SysAwg.Poly1305 (State poly1305Init)

/-! ### Words against numbers

A sum of words is the sum of numbers reduced once, and a rotation of a word that of the
number.  With that each quarter round on one side is one on the other, and a double round is
eight of them.
-/

theorem toNat_rotl32 (v : UInt32) {n : UInt32} {k : Nat} (hn : n.toNat = k)
    (hsub : (32 - n).toNat = 32 - k) (hk : 0 < k ∧ k < 32) :
    (rotl32 v n).toNat = Standard.rotl32 v.toNat k := by
  rw [rotl32, Standard.rotl32, UInt32.toNat_or, UInt32.toNat_shiftLeft, UInt32.toNat_shiftRight, hn,
    hsub, Nat.mod_eq_of_lt hk.2, Nat.mod_eq_of_lt (show 32 - k < 32 by omega)]

/-- A quarter round on numbers is the one on words. -/
theorem quarterround_toNat {α : Type} (a b c d : UInt32) (k : Nat → Nat → Nat → Nat → α) :
    Standard.quarterround a.toNat b.toNat c.toNat d.toNat k
      = k (quarterround a b c d).1.toNat (quarterround a b c d).2.1.toNat
          (quarterround a b c d).2.2.1.toNat (quarterround a b c d).2.2.2.toNat := by
  have h16 : ∀ v, Standard.rotl32 v.toNat 16 = (rotl32 v 16).toNat := fun v =>
    (@toNat_rotl32 v 16 16 (by decide) (by decide) (by omega)).symm
  have h12 : ∀ v, Standard.rotl32 v.toNat 12 = (rotl32 v 12).toNat := fun v =>
    (@toNat_rotl32 v 12 12 (by decide) (by decide) (by omega)).symm
  have h8 : ∀ v, Standard.rotl32 v.toNat 8 = (rotl32 v 8).toNat := fun v =>
    (@toNat_rotl32 v 8 8 (by decide) (by decide) (by omega)).symm
  have h7 : ∀ v, Standard.rotl32 v.toNat 7 = (rotl32 v 7).toNat := fun v =>
    (@toNat_rotl32 v 7 7 (by decide) (by decide) (by omega)).symm
  simp only [Standard.quarterround, force_eq, ← toNat_plus, ← UInt32.toNat_xor, h16, h12, h8, h7,
    quarterround]

def numbers (block : Vector UInt32 16) : List Nat := block.toList.map UInt32.toNat

/-- The four column rounds touch four words each. -/
theorem columns (v0 v1 v2 v3 v4 v5 v6 v7 v8 v9 v10 v11 v12 v13 v14 v15 : UInt32) :
    quarterAt (quarterAt (quarterAt (quarterAt
        #v[v0, v1, v2, v3, v4, v5, v6, v7, v8, v9, v10, v11, v12, v13, v14, v15] 0 4 8 12) 1 5 9 13)
        2 6 10 14) 3 7 11 15 =
      (let p := quarterround v0 v4 v8 v12
      let q := quarterround v1 v5 v9 v13
      let r := quarterround v2 v6 v10 v14
      let s := quarterround v3 v7 v11 v15
      #v[p.1, q.1, r.1, s.1, p.2.1, q.2.1, r.2.1, s.2.1, p.2.2.1, q.2.2.1, r.2.2.1, s.2.2.1,
        p.2.2.2, q.2.2.2, r.2.2.2, s.2.2.2]) := by
  simp [quarterAt, Vector.getD, Array.getD]

theorem diagonals (v0 v1 v2 v3 v4 v5 v6 v7 v8 v9 v10 v11 v12 v13 v14 v15 : UInt32) :
    quarterAt (quarterAt (quarterAt (quarterAt
        #v[v0, v1, v2, v3, v4, v5, v6, v7, v8, v9, v10, v11, v12, v13, v14, v15] 0 5 10 15) 1 6 11 12)
        2 7 8 13) 3 4 9 14 =
      (let p := quarterround v0 v5 v10 v15
      let q := quarterround v1 v6 v11 v12
      let r := quarterround v2 v7 v8 v13
      let s := quarterround v3 v4 v9 v14
      #v[p.1, q.1, r.1, s.1, s.2.1, p.2.1, q.2.1, r.2.1, r.2.2.1, s.2.2.1, p.2.2.1, q.2.2.1,
        q.2.2.2, r.2.2.2, s.2.2.2, p.2.2.2]) := by
  simp [quarterAt, Vector.getD, Array.getD]

/-- The rounds on sixteen numbers are the ones on the words in place. -/
theorem innerBlock_numbers (n : Nat) (v0 v1 v2 v3 v4 v5 v6 v7 v8 v9 v10 v11 v12 v13 v14 v15 : UInt32) :
    Standard.innerBlocks n v0.toNat v1.toNat v2.toNat v3.toNat v4.toNat v5.toNat v6.toNat v7.toNat
        v8.toNat v9.toNat v10.toNat v11.toNat v12.toNat v13.toNat v14.toNat v15.toNat
      = numbers (rounds n #v[v0, v1, v2, v3, v4, v5, v6, v7, v8, v9, v10, v11, v12, v13, v14, v15]) := by
  induction n generalizing v0 v1 v2 v3 v4 v5 v6 v7 v8 v9 v10 v11 v12 v13 v14 v15 with
  | zero => simp [Standard.innerBlocks, numbers, rounds]
  | succ n ih =>
      simp only [Standard.innerBlocks, quarterround_toNat, ih]
      rw [rounds, innerBlock, columns, diagonals]

/-! ### The stream -/

theorem zipWith_plus (a b : List UInt32) :
    List.zipWith (fun x y => (x + y) % 4294967296) (a.map UInt32.toNat) (b.map UInt32.toNat)
      = (List.zipWith (· + ·) a b).map UInt32.toNat := by
  rw [List.zipWith_map, List.map_zipWith]
  simp only [toNat_plus]

/-- **The stream block**, word by word, is the one of the protocol's model. -/
theorem chacha20Block_eq (state : Vector UInt32 16) :
    chacha20Block state = (Standard.chacha20Block state).toList := by
  obtain ⟨v0, v1, v2, v3, v4, v5, v6, v7, v8, v9, v10, v11, v12, v13, v14, v15, hv⟩ :=
    exists_words state
  have hlen : (List.zipWith (· + ·) (rounds 10 state).toList state.toList).length = 16 := by simp
  have hpack : Standard.chacha20Block state = Standard.natBytes 64
      (Standard.packWords (List.zipWith (fun a b => (a + b) % 4294967296)
        (numbers (rounds 10 state)) (state.toList.map UInt32.toNat))) := by
    rw [hv, ← innerBlock_numbers]
    exact force_eq _ _
  have hbytes : (chacha20Block state).length = 64 := by rw [chacha20Block, length_words, hlen]
  have hlt := Standard.leNat_lt (chacha20Block state)
  rw [hbytes] at hlt
  rw [hpack, numbers, zipWith_plus, ← leNat_words]
  exact (Standard.toList_natBytes hbytes (Nat.mod_eq_of_lt hlt).symm).symm

theorem chacha20Loop_eq (fuel : Nat) (ctx : Chacha20Ctx) (input : Bytes) :
    chacha20Loop fuel ctx input = SysAwg.chacha20Loop standardPrimitives fuel ctx input := by
  induction fuel generalizing ctx input with
  | zero => rfl
  | succ fuel ih =>
      simp only [chacha20Loop, SysAwg.chacha20Loop, chacha20Block_eq, ih]
      rfl

theorem chacha20_eq (ctx : Chacha20Ctx) (input : Bytes) :
    chacha20 ctx input = SysAwg.chacha20 standardPrimitives ctx input := by
  rw [chacha20, SysAwg.chacha20, chacha20Loop_eq]

/-! ### The message and its tag

The padding's length is rounded up by a mask of 32 bits, which is right as long as the
length is far below 2^32.  Six pieces handed over in turn are then the message of the model,
and the authenticator does not care where one ends.
-/

/-- The mask rounds up, as long as the length fits. -/
theorem paddedTo16_eq {len : Nat} (h : len + 15 < 2 ^ 32) : paddedTo16 len = (len + 15) / 16 * 16 := by
  have hof : (UInt64.ofNat (len + 15)).toNat = len + 15 :=
    UInt64.toNat_ofNat_of_lt' (show _ < 2 ^ 64 by omega)
  have hmask : (0xFFFFFFF0 : UInt64).toNat = 0xFFFFFFF0 := rfl
  rw [paddedTo16, UInt64.toNat_and, hof, hmask]
  generalize len + 15 = n at h
  -- the quotient by sixteen stays whole, the remainder goes
  have hquot : (n &&& 0xFFFFFFF0) / 2 ^ 4 = n / 2 ^ 4 := by
    rw [← Nat.shiftRight_eq_div_pow, Nat.shiftRight_and_distrib, Nat.shiftRight_eq_div_pow]
    show n / 2 ^ 4 &&& 2 ^ 28 - 1 = _
    rw [Nat.and_two_pow_sub_one_eq_mod]
    omega
  have hrem : (n &&& 0xFFFFFFF0) % 2 ^ 4 = 0 := by
    rw [Nat.and_mod_two_pow]
    exact Nat.and_zero _
  omega

theorem zeros_eq {len : Nat} (h : len + 15 < 2 ^ 32) :
    List.replicate (UInt64.ofNat (paddedTo16 len) - UInt64.ofNat len).toNat (0 : UInt8)
      = padTo16 len := by
  have hle : len ≤ (len + 15) / 16 * 16 := by omega
  have hpad : (UInt64.ofNat ((len + 15) / 16 * 16)).toNat = (len + 15) / 16 * 16 :=
    UInt64.toNat_ofNat_of_lt' (show _ < 2 ^ 64 by omega)
  have hlen : (UInt64.ofNat len).toNat = len := UInt64.toNat_ofNat_of_lt' (show _ < 2 ^ 64 by omega)
  rw [paddedTo16_eq h, padTo16, UInt64.toNat_sub_of_le _ _ (by rw [UInt64.le_iff_toNat_le]; omega),
    hpad, hlen]

/-- The six updates hand over the message of the protocol's model. -/
theorem aeadTagOf_eq (ctx : State) (key : Key) {ad ct : Bytes} (had : ad.length < 2 ^ 31)
    (hct : ct.length < 2 ^ 31) :
    aeadTagOf (poly1305Init ctx key) ad ct = (Standard.poly1305 key (aeadMessage ad ct)).toList := by
  have hpieces : aeadTagOf (poly1305Init ctx key) ad ct
      = Poly1305.poly1305 ctx key [ad, padTo16 ad.length, ct, padTo16 ct.length,
          Bytes.leBytes 8 (UInt64.ofNat ad.length), Bytes.leBytes 8 (UInt64.ofNat ct.length)] := by
    simp only [aeadTagOf, updateZeros, zeros_eq (show ad.length + 15 < 2 ^ 32 by omega),
      zeros_eq (show ct.length + 15 < 2 ^ 32 by omega), Poly1305.poly1305, List.foldl]
  rw [hpieces, Poly1305.poly1305_computes]
  simp only [aeadMessage, List.flatten_cons, List.flatten_nil, List.append_nil, List.append_assoc]

/-- **The compiled AEAD is the one of the protocol's model**, in both directions, with the
primitives the client is linked with. -/
theorem aead_computes (ctx : State) (src ad : Bytes) (nonce : UInt64) (key : Key)
    (hsrc : src.length < 2 ^ 31) (had : ad.length < 2 ^ 31) :
    chacha20poly1305Encrypt ctx src ad nonce key
        = SysAwg.chacha20poly1305Encrypt standardPrimitives src ad nonce key ∧
      chacha20poly1305Decrypt ctx src ad nonce key
        = SysAwg.chacha20poly1305Decrypt standardPrimitives src ad nonce key := by
  have hkey : generatePoly1305Key ctx key nonce
      = (poly1305Init ctx (SysAwg.generatePoly1305Key standardPrimitives key nonce).2,
        (SysAwg.generatePoly1305Key standardPrimitives key nonce).1) := by
    rw [generatePoly1305Key, SysAwg.generatePoly1305Key, chacha20_eq]
  constructor
  · simp only [chacha20poly1305Encrypt, SysAwg.chacha20poly1305Encrypt, hkey, chacha20_eq]
    rw [aeadTagOf_eq _ _ had (by rw [chacha20_length]; exact hsrc)]
    rfl
  · unfold chacha20poly1305Decrypt SysAwg.chacha20poly1305Decrypt
    by_cases hlen : src.length ≥ 16
    · have hct : (src.take (src.length - 16)).length < 2 ^ 31 := by
        rw [List.length_take]
        omega
      rw [if_pos hlen, if_neg (show ¬ src.length < 16 by omega)]
      simp only [hkey, chacha20_eq]
      rw [aeadTagOf_eq _ _ had hct]
      rfl
    · rw [if_neg hlen, if_pos (show src.length < 16 by omega)]

theorem aead_computes_seventeen :
    chacha20poly1305Encrypt ⟨Poly1305.Limbs.zero, Poly1305.Limbs.zero, ⟨0, 0, 0, 0⟩, 0,
        Vector.replicate 16 0, false⟩ (List.replicate 17 1) [2, 3, 4] 5 Key.zero
      = SysAwg.chacha20poly1305Encrypt standardPrimitives (List.replicate 17 1) [2, 3, 4] 5
          Key.zero :=
  (aead_computes _ _ _ _ _ (by simp) (by simp)).1

end SysAwg.Aead
