/-
What the cipher code guarantees whatever the block function is.

`chacha20` is an exclusive or with a stream that depends on the context and on
nothing else, so it undoes itself.  The AEAD's tag covers the ciphertext and the
associated data under a one-time key that both directions derive the same way, so
decryption inverts encryption for equal key, nonce and associated data.
-/
import SysAwg.Crypto

namespace SysAwg

variable (P : Primitives)

/-! ### The stream -/

theorem chacha20Loop_length :
    ∀ (fuel : Nat) (ctx : Chacha20Ctx) (input : Bytes), input.length ≤ fuel * 64 →
      (chacha20Loop P fuel ctx input).2.length = input.length := by
  intro fuel
  induction fuel with
  | zero =>
      intro ctx input h
      simp [chacha20Loop] at h ⊢
      simp [h]
  | succ fuel ih =>
      intro ctx input h
      rw [chacha20Loop]
      by_cases hlast : input.length ≤ 64
      · simp only [hlast, if_true]
        exact Bytes.length_xor (by simpa using hlast)
      · simp only [hlast, if_false, List.length_append]
        rw [Bytes.length_xor (by simp), ih _ _ (by simp; omega)]
        simp only [List.length_take, List.length_drop]
        omega

theorem chacha20Loop_twice :
    ∀ (fuel : Nat) (ctx : Chacha20Ctx) (input : Bytes), input.length ≤ fuel * 64 →
      (chacha20Loop P fuel ctx (chacha20Loop P fuel ctx input).2).2 = input := by
  intro fuel
  induction fuel with
  | zero =>
      intro ctx input h
      simp [chacha20Loop] at h ⊢
      simp [h]
  | succ fuel ih =>
      intro ctx input h
      have hlen := chacha20Loop_length P (fuel + 1) ctx input h
      by_cases hlast : input.length ≤ 64
      · have hone : (chacha20Loop P (fuel + 1) ctx input).2
            = Bytes.xor input (P.chacha20Block ctx).toList := by
          rw [chacha20Loop]
          simp only [hlast, if_true]
        rw [hone] at hlen ⊢
        rw [chacha20Loop]
        simp only [hlen, hlast, if_true]
        exact Bytes.xor_xor_cancel _ _ (by simpa using hlast)
      · -- The first block comes back by itself, and the rest by the induction.
        have hrest : (input.drop 64).length ≤ fuel * 64 := by
          rw [List.length_drop]
          omega
        have hfirst : (input.take 64).length = 64 := by
          rw [List.length_take]
          omega
        have hmany : (chacha20Loop P (fuel + 1) ctx input).2
            = Bytes.xor (input.take 64) (P.chacha20Block ctx).toList
              ++ (chacha20Loop P fuel ctx.bump (input.drop 64)).2 := by
          rw [chacha20Loop]
          simp only [hlast, if_false]
        have hx : (Bytes.xor (input.take 64) (P.chacha20Block ctx).toList).length = 64 := by
          rw [Bytes.length_xor (by simp), hfirst]
        rw [hmany] at hlen ⊢
        rw [chacha20Loop]
        simp only [hlen, hlast, if_false]
        rw [List.take_left' hx, List.drop_left' hx, ih _ _ hrest,
          Bytes.xor_xor_cancel _ _ (by simp), List.take_append_drop]

/-- `chacha20` keeps the length of its text. -/
@[simp] theorem chacha20_length (ctx : Chacha20Ctx) (input : Bytes) :
    (chacha20 P ctx input).2.length = input.length := by
  unfold chacha20
  split
  · rename_i h
    simp [h]
  · exact chacha20Loop_length P _ ctx input (by omega)

/-- **ChaCha20 undoes itself** when it is started from the same context. -/
theorem chacha20_twice (ctx : Chacha20Ctx) (input : Bytes) :
    (chacha20 P ctx (chacha20 P ctx input).2).2 = input := by
  by_cases h : input.length = 0
  · have hnil : input = [] := List.length_eq_zero_iff.mp h
    subst hnil
    rfl
  · have hout := chacha20_length P ctx input
    have hrun : (chacha20 P ctx input).2 = (chacha20Loop P input.length ctx input).2 := by
      simp [chacha20, h]
    rw [hrun] at hout ⊢
    unfold chacha20
    simp only [hout, h, if_false]
    exact chacha20Loop_twice P _ ctx input (by omega)

/-! ### The AEAD -/

@[simp] theorem cryptoEqual_self (a : Bytes) : cryptoEqual a a = true := by
  have hzero : ∀ n : Nat, (List.replicate n (0 : UInt8)).foldl (· ||| ·) 0 = 0 := by
    intro n
    induction n with
    | zero => rfl
    | succ n ih => simpa [List.replicate_succ] using ih
  simp [cryptoEqual, hzero]

@[simp] theorem chacha20poly1305Encrypt_length (src ad : Bytes) (nonce : UInt64) (key : Key) :
    (chacha20poly1305Encrypt P src ad nonce key).length = src.length + 16 := by
  simp [chacha20poly1305Encrypt]

/-- **Decryption inverts encryption** for equal key, nonce and associated data. -/
theorem decrypt_encrypt (src ad : Bytes) (nonce : UInt64) (key : Key) :
    chacha20poly1305Decrypt P (chacha20poly1305Encrypt P src ad nonce key) ad nonce key
      = some src := by
  have hlen := chacha20poly1305Encrypt_length P src ad nonce key
  have hct : (chacha20 P (generatePoly1305Key P key nonce).1 src).2.length = src.length :=
    chacha20_length P _ src
  have htake : (chacha20poly1305Encrypt P src ad nonce key).take src.length
      = (chacha20 P (generatePoly1305Key P key nonce).1 src).2 := List.take_left' hct
  have hdrop : (chacha20poly1305Encrypt P src ad nonce key).drop src.length
      = (P.poly1305 (generatePoly1305Key P key nonce).2 (aeadMessage ad
          (chacha20 P (generatePoly1305Key P key nonce).1 src).2)).toList := List.drop_left' hct
  unfold chacha20poly1305Decrypt
  rw [hlen, if_neg (by omega), Nat.add_sub_cancel]
  simp only [htake, hdrop, cryptoEqual_self, if_true, chacha20_twice]

end SysAwg
