/-
Wrapping a message, and unwrapping it again.

`awg_wrap` puts random padding in front of a message and, with header protection on,
passes the cipher over the message with the padding's first twelve bytes as the nonce.
`awg_unwrap` computes padding and nonce again on its own.  The pass does not touch the
padding, so both sides start the same key stream at the same byte, however many blocks
the message takes.
-/
import SysAwg.Proofs.Transport

namespace SysAwg

variable (P : Primitives)

/-- A datagram `awg_wrap` built: the padding is one it takes, and the message follows. -/
theorem wrap_eq {cfg : Config} {kind : Kind} {msg out : Bytes} {outCap : Int} {e : Entropy}
    (h : awgWrap P cfg kind msg outCap e = some out) :
    (cfg.haveHeaderProtection = true → 12 ≤ paddingFor cfg kind) ∧ 0 ≤ paddingFor cfg kind ∧
      out = if cfg.haveHeaderProtection
        then headerPass P cfg (awgRandomBytes e (paddingFor cfg kind).toNat ++ msg)
          (paddingFor cfg kind).toNat msg.length
        else awgRandomBytes e (paddingFor cfg kind).toNat ++ msg := by
  unfold awgWrap at h
  dsimp only at h
  by_cases hshort : cfg.haveHeaderProtection = true ∧ paddingFor cfg kind < 12
  · rw [if_pos hshort] at h
    cases h
  · rw [if_neg hshort] at h
    by_cases hroom : paddingFor cfg kind < 0 ∨ paddingFor cfg kind + msg.length > outCap
    · rw [if_pos hroom] at h
      cases h
    · rw [if_neg hroom] at h
      refine ⟨?_, by omega, (Option.some.inj h).symm⟩
      intro hp
      by_contra hlt
      exact hshort ⟨hp, by omega⟩

/-- **Unwrapping undoes wrapping.** -/
theorem unwrap_wrap {cfg : Config} {kind : Kind} {msg out : Bytes} {outCap : Int} {e : Entropy}
    (h : awgWrap P cfg kind msg outCap e = some out) (hmsg : 0 < msg.length) :
    (out.length : Int) = paddingFor cfg kind + msg.length ∧
      awgUnwrap P cfg kind out = ((msg.length : Int),
        awgRandomBytes e (paddingFor cfg kind).toNat ++ msg, (paddingFor cfg kind).toNat) := by
  obtain ⟨hprot, hpad, hout⟩ := wrap_eq P h
  have hclear : (awgRandomBytes e (paddingFor cfg kind).toNat ++ msg).length
      = (paddingFor cfg kind).toNat + msg.length := by simp
  have hshort : ¬ (cfg.haveHeaderProtection = true ∧ paddingFor cfg kind < 12) := by
    rintro ⟨hp, hlt⟩
    have := hprot hp
    omega
  have hpass := headerPass_length P cfg (le_of_eq hclear.symm)
  have hlen : (out.length : Int) = paddingFor cfg kind + msg.length := by
    have hsame : out.length = (awgRandomBytes e (paddingFor cfg kind).toNat ++ msg).length := by
      rw [hout]
      split
      · exact hpass
      · rfl
    rw [hsame, hclear]
    omega
  refine ⟨hlen, ?_⟩
  have hmsgLen : ((out.length : Int) - paddingFor cfg kind).toNat = msg.length := by omega
  unfold awgUnwrap
  dsimp only
  rw [if_neg hshort, if_neg (by omega), hmsgLen, hlen]
  refine Prod.ext (by show paddingFor cfg kind + (msg.length : Int) - _ = _; omega)
    (Prod.ext ?_ rfl)
  show (if cfg.haveHeaderProtection then headerPass P cfg out _ _ else out) = _
  rw [hout]
  split
  · rename_i hp
    have h12 : 12 ≤ (paddingFor cfg kind).toNat := by have := hprot hp; omega
    exact headerPass_twice P cfg h12 (le_of_eq hclear.symm)
  · rfl

/--
**`awg_unwrap` undoes `awg_wrap`.**  For every configuration and kind, a datagram made of
a message that is not empty unwraps to that message: the length is the message's, the
offset is the kind's padding, and the padding itself is left as it came.
-/
theorem wrap_round_trip (cfg : Config) (kind : Kind) (msg : Bytes) (outCap : Int) (e : Entropy)
    (out : Bytes) (hmsg : msg ≠ []) (h : awgWrap P cfg kind msg outCap e = some out) :
    (out.length : Int) = paddingFor cfg kind + msg.length ∧
      ∃ pkt off, awgUnwrap P cfg kind out = ((msg.length : Int), pkt, off) ∧
        (off : Int) = paddingFor cfg kind ∧ pkt.length = out.length ∧ pkt.drop off = msg ∧
        pkt.take off = out.take off := by
  obtain ⟨hlen, hunwrap⟩ := unwrap_wrap P h (List.length_pos_iff.mpr hmsg)
  obtain ⟨-, hpad, hout⟩ := wrap_eq P h
  have hrandom := length_awgRandomBytes e (paddingFor cfg kind).toNat
  refine ⟨hlen, _, _, hunwrap, Int.toNat_of_nonneg hpad, ?_, ?_, ?_⟩
  · rw [List.length_append, hrandom]
    omega
  · exact List.drop_left' hrandom
  · rw [hout]
    split
    · exact (Bytes.take_overlay (by rw [List.length_append, hrandom]; omega)).symm
    · rfl

/-- Header protection on, and forty bytes of padding before an initiation. -/
def paddedConfig : Config := { Config.default with haveHeaderProtection := true, s1 := 40 }

theorem wrap_round_trip_protected :
    ∃ out pkt, awgWrap standardPrimitives paddedConfig .init (List.replicate 160 7) 2048
        (fun i => UInt8.ofNat i) = some out ∧ out.length = 200 ∧
      awgUnwrap standardPrimitives paddedConfig .init out = (160, pkt, 40) ∧
      pkt.drop 40 = List.replicate 160 7 ∧ pkt.take 40 = out.take 40 := by
  have hpadding : paddingFor paddedConfig .init = 40 := rfl
  have hwraps : ∀ P msg, msg.length = 160 → ∃ out, awgWrap P paddedConfig .init msg 2048
      (fun i => UInt8.ofNat i) = some out := by
    intro P msg hmsg
    unfold awgWrap
    rw [hpadding, hmsg]
    exact ⟨_, rfl⟩
  obtain ⟨out, hout⟩ := hwraps standardPrimitives (List.replicate 160 7) List.length_replicate
  obtain ⟨hlen, pkt, off, hunwrap, hoff, -, hmsg, hpad⟩ :=
    wrap_round_trip standardPrimitives paddedConfig .init (List.replicate 160 7) 2048
      (fun i => UInt8.ofNat i) out (by decide) hout
  rw [hpadding] at hlen hoff
  rw [List.length_replicate] at hlen hunwrap
  have h40 : off = 40 := by omega
  subst h40
  exact ⟨out, pkt, hout, by omega, hunwrap, hmsg, hpad⟩

end SysAwg
