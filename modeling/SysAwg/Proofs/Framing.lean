/-
Where the framing stays inside its buffers.

Two things can go wrong.  A sum of a padding and a length can leave the range of an
`int`, and without header protection a negative padding passes the checks of every
function but `awg_wrap`.  Nothing else can: a configuration with neither meets no fault,
whatever the message, the datagram and the capacity, and one with either meets a fault
on an input of the sizes the client handles.

The checked functions stop at the first fault, so whether they stop is a statement about
their result.  It is turned into arithmetic operation by operation, with the lemmas of
`Lib.Checked`, and what is left for each function is a condition on the padding and the
sizes.
-/
import SysAwg.Framing
import SysAwg.Standard
import SysAwg.Proofs.Transport

namespace SysAwg

open Checked

variable (P : Primitives)

/-! ### What a header pass needs -/

@[simp] theorem safe_headerPass_bind {β : Type} (cfg : Config) (cap off n : Int)
    (k : Unit → Checked β) :
    Safe (headerPassChecked cfg cap off n >>= k) ↔
      (cfg.haveHeaderProtection = true → 12 ≤ cap ∧ 0 ≤ off ∧ 0 ≤ n ∧ off + n ≤ cap) ∧
        Safe (k ()) := by
  unfold headerPassChecked
  by_cases hp : cfg.haveHeaderProtection = true
  · simp only [hp, if_true, bind_assoc, safe_span_bind, forall_const]
    constructor
    · rintro ⟨⟨-, -, h12⟩, hrange, hk⟩
      exact ⟨⟨by omega, hrange⟩, hk⟩
    · rintro ⟨⟨h12, hrange⟩, hk⟩
      exact ⟨⟨by omega, by omega, by omega⟩, hrange, hk⟩
  · simp [hp]

theorem ok_headerPass_bind {β : Type} {cfg : Config} {cap off n : Int} {k : Unit → Checked β}
    {b : β} (h : (headerPassChecked cfg cap off n >>= k) = .ok b) : k () = .ok b := by
  unfold headerPassChecked at h
  by_cases hp : cfg.haveHeaderProtection = true
  · simp only [hp, if_true, bind_assoc] at h
    exact ok_span_bind (ok_span_bind h)
  · simpa [hp] using h

/-! ### What each function needs

Each function is gone through once, operation by operation, and what has to hold for it to
get to its end is collected into one condition on paddings and sizes.  The conditions are
exact: they say when the function meets a fault as well as when it does not.
-/

/-- `awg_wrap` needs the sum of padding and message to be an `int`. -/
theorem wrap_safe_iff (cfg : Config) (kind : Kind) {msg : Bytes} (hmsg : msg.length ≤ 4096)
    (outCap : Int) (e : Entropy) :
    Safe (awgWrapChecked P cfg kind msg outCap e) ↔ paddingFor cfg kind + msg.length ≤ intMax := by
  unfold awgWrapChecked
  dsimp only
  generalize paddingFor cfg kind = pad
  by_cases hshort : cfg.haveHeaderProtection = true ∧ pad < 12
  · simp only [hshort, and_self, if_true, safe_ok, true_iff, intMax]
    omega
  · by_cases hneg : pad < 0
    · simp only [hshort, hneg, if_true, if_false, safe_ok, true_iff, intMax]
      omega
    · simp only [hshort, hneg, if_false, safe_int_bind]
      constructor
      · intro h
        exact h.1.2
      · intro h
        refine ⟨⟨by simp only [intMin]; omega, h⟩, ?_⟩
        split
        · exact safe_ok _
        · simp only [safe_span_bind, safe_headerPass_bind]
          refine ⟨by omega, by omega, fun hp => ?_, safe_ok _⟩
          have h12 : 12 ≤ pad := by
            by_contra hlt
            exact hshort ⟨hp, by omega⟩
          omega

/-- `awg_unwrap` needs a padding that is not negative, unless header protection refuses it. -/
theorem unwrap_safe_iff (cfg : Config) (kind : Kind) {pkt : Bytes} (hpkt : pkt.length ≤ 4096) :
    Safe (awgUnwrapChecked P cfg kind pkt) ↔
      (cfg.haveHeaderProtection = true ∨ 0 ≤ paddingFor cfg kind) := by
  unfold awgUnwrapChecked
  dsimp only
  generalize paddingFor cfg kind = pad
  by_cases hshort : cfg.haveHeaderProtection = true ∧ pad < 12
  · simp [hshort]
  · by_cases hlen : (pkt.length : Int) ≤ pad
    · simp only [hshort, hlen, if_true, if_false, safe_ok, true_iff]
      omega
    · simp only [hshort, hlen, if_false, safe_int_bind, safe_headerPass_bind, safe_span_bind,
        safe_ok, and_true, intMin, intMax]
      constructor
      · intro h
        exact Or.inr h.2.2.1
      · intro h
        have hpad : 0 ≤ pad := by
          rcases h with hp | hpad
          · by_contra hlt
            exact hshort ⟨hp, by omega⟩
          · exact hpad
        refine ⟨by omega, fun hp => ?_, by omega⟩
        have h12 : 12 ≤ pad := by
          by_contra hlt
          exact hshort ⟨hp, by omega⟩
        omega

/-- `awg_transport_seal` needs its sum to be an `int`, and a padding that is not negative
as soon as the packet fits. -/
theorem seal_safe_iff (cfg : Config) (hs : Handshake) (counter : UInt64) {payload : Bytes}
    (hpayload : payload.length ≤ 4096) (outCap : Int) (e : Entropy) :
    Safe (awgTransportSealChecked P cfg hs counter payload outCap e) ↔
      (cfg.haveHeaderProtection = true ∧ cfg.s4 < 12) ∨
        (intMin ≤ cfg.s4 + 16 ∧ cfg.s4 + 32 + paddedLen payload.length ≤ intMax ∧
          (0 ≤ cfg.s4 ∨ outCap < cfg.s4 + 32 + paddedLen payload.length)) := by
  have hle := le_paddedLen payload.length
  have hmore : paddedLen payload.length ≤ payload.length + 15 := by
    unfold paddedLen
    omega
  unfold awgTransportSealChecked
  dsimp only
  generalize cfg.s4 = pad
  by_cases hshort : cfg.haveHeaderProtection = true ∧ pad < 12
  · simp [hshort]
  · have h12 : cfg.haveHeaderProtection = true → 12 ≤ pad := by
      intro hp
      by_contra hlt
      exact hshort ⟨hp, by omega⟩
    simp only [hshort, if_false, false_or, safe_int_bind, transportHdr, aeadTag, intMin, intMax]
    by_cases hroom : pad + 16 + paddedLen payload.length + 16 > outCap
    · simp only [Nat.cast_ofNat, hroom, if_true, safe_ok, and_true]
      omega
    · simp only [Nat.cast_ofNat, hroom, if_false, safe_span_bind, safe_headerPass_bind, safe_ok,
        and_true]
      constructor
      · intro h
        omega
      · intro h
        refine ⟨by omega, by omega, by omega, by omega, by omega, by omega, by omega, by omega,
          by omega, fun hp => ?_⟩
        have := h12 hp
        omega

/-- Rejecting needs what the header pass before it needed. -/
theorem openReject_safe_iff (cfg : Config) (pkt : Bytes) :
    Safe (openRejectChecked P cfg pkt) ↔
      (cfg.haveHeaderProtection = true → 12 ≤ pkt.length ∧ 0 ≤ cfg.s4 ∧
        cfg.s4 + 16 ≤ pkt.length) := by
  unfold openRejectChecked
  simp only [safe_headerPass_bind, safe_ok, and_true, transportHdr]
  constructor
  · intro h hp
    have := h hp
    omega
  · intro h hp
    have := h hp
    omega

/-- `awg_transport_open` needs its sum to be an `int`, and a padding that is not negative
as soon as the datagram is long enough. -/
theorem open_safe_iff (cfg : Config) (hs : Handshake) {pkt : Bytes} (hpkt : pkt.length ≤ 4096)
    {outCap : Int} :
    Safe (awgTransportOpenChecked P cfg hs pkt outCap) ↔
      (cfg.haveHeaderProtection = true ∧ cfg.s4 < 12) ∨
        (intMin ≤ cfg.s4 + 16 ∧ cfg.s4 + 32 ≤ intMax ∧
          (0 ≤ cfg.s4 ∨ pkt.length < cfg.s4 + 32)) := by
  unfold awgTransportOpenChecked
  dsimp only
  by_cases hshort : cfg.haveHeaderProtection = true ∧ cfg.s4 < 12
  · simp [hshort]
  · have h12 : cfg.haveHeaderProtection = true → 12 ≤ cfg.s4 := by
      intro hp
      by_contra hlt
      exact hshort ⟨hp, by omega⟩
    simp only [hshort, if_false, false_or, safe_int_bind, transportHdr, aeadTag, Nat.cast_ofNat]
    by_cases hlen : (pkt.length : Int) < cfg.s4 + 16 + 16
    · simp only [hlen, if_true, safe_ok, and_true, intMin, intMax]
      omega
    · -- the pass keeps the length, so all later indices are checked against the same bound
      have hclear : (if cfg.haveHeaderProtection = true
          then headerPass P cfg pkt cfg.s4.toNat 16 else pkt).length = pkt.length := by
        split
        · rename_i hp
          have := h12 hp
          exact headerPass_length P cfg (by omega)
        · rfl
      simp only [hlen, if_false, safe_headerPass_bind, safe_span_bind, hclear, intMin, intMax]
      generalize (if cfg.haveHeaderProtection = true
          then headerPass P cfg pkt cfg.s4.toNat 16 else pkt) = clear at hclear
      constructor
      · intro h
        omega
      · intro h
        have hreject : Safe (openRejectChecked P cfg clear) := by
          rw [openReject_safe_iff, hclear]
          intro hp
          have := h12 hp
          omega
        refine ⟨by omega, by omega, fun hp => ?_, by omega, ?_⟩
        · have := h12 hp
          omega
        · split
          · exact hreject
          · simp only [safe_span_bind]
            refine ⟨by omega, ?_⟩
            split
            · exact hreject
            · simp only [safe_span_bind, safe_int_bind, intMin, intMax]
              refine ⟨by omega, by omega, by omega, by omega, ?_⟩
              split
              · exact hreject
              · simp only [safe_span_bind]
                refine ⟨by omega, by omega, ?_⟩
                split
                · exact hreject
                · exact safe_ok _

/-! ### A safe call computes what the plain one computes

The checked functions are a second model of the same code, so it has to be shown that they
agree with the first: a call that meets no fault leaves what the plain function leaves.
-/

theorem wrap_checked_eq {cfg : Config} {kind : Kind} {msg : Bytes} {outCap : Int} {e : Entropy}
    (h : Safe (awgWrapChecked P cfg kind msg outCap e)) :
    awgWrapChecked P cfg kind msg outCap e = .ok (awgWrap P cfg kind msg outCap e) := by
  obtain ⟨r, hr⟩ := h
  rw [hr]
  congr 1
  unfold awgWrapChecked at hr
  unfold awgWrap
  dsimp only at hr ⊢
  by_cases hshort : cfg.haveHeaderProtection = true ∧ paddingFor cfg kind < 12
  · rw [if_pos hshort] at hr ⊢
    exact (Except.ok.inj hr).symm
  · rw [if_neg hshort] at hr ⊢
    by_cases hneg : paddingFor cfg kind < 0
    · rw [if_pos hneg] at hr
      rw [if_pos (Or.inl hneg)]
      exact (Except.ok.inj hr).symm
    · rw [if_neg hneg] at hr
      have hr := ok_int_bind hr
      by_cases hroom : paddingFor cfg kind + msg.length > outCap
      · rw [if_pos hroom] at hr
        rw [if_pos (Or.inr hroom)]
        exact (Except.ok.inj hr).symm
      · rw [if_neg hroom] at hr
        rw [if_neg (not_or.mpr ⟨hneg, hroom⟩)]
        have hr := ok_headerPass_bind (ok_span_bind (ok_span_bind hr))
        exact (Except.ok.inj hr).symm

theorem unwrap_checked_eq {cfg : Config} {kind : Kind} {pkt : Bytes}
    (h : Safe (awgUnwrapChecked P cfg kind pkt)) :
    awgUnwrapChecked P cfg kind pkt = .ok (awgUnwrap P cfg kind pkt) := by
  obtain ⟨r, hr⟩ := h
  rw [hr]
  congr 1
  unfold awgUnwrapChecked at hr
  unfold awgUnwrap
  dsimp only at hr ⊢
  by_cases hshort : cfg.haveHeaderProtection = true ∧ paddingFor cfg kind < 12
  · rw [if_pos hshort] at hr ⊢
    exact (Except.ok.inj hr).symm
  · rw [if_neg hshort] at hr ⊢
    by_cases hlen : (pkt.length : Int) ≤ paddingFor cfg kind
    · rw [if_pos hlen] at hr ⊢
      exact (Except.ok.inj hr).symm
    · rw [if_neg hlen] at hr ⊢
      have hr := ok_span_bind (ok_headerPass_bind (ok_int_bind hr))
      exact (Except.ok.inj hr).symm

theorem seal_checked_eq {cfg : Config} {hs : Handshake} {counter : UInt64} {payload : Bytes}
    {outCap : Int} {e : Entropy}
    (h : Safe (awgTransportSealChecked P cfg hs counter payload outCap e)) :
    awgTransportSealChecked P cfg hs counter payload outCap e
      = .ok (awgTransportSeal P cfg hs counter payload outCap e) := by
  obtain ⟨r, hr⟩ := h
  rw [hr]
  congr 1
  unfold awgTransportSealChecked at hr
  unfold awgTransportSeal
  dsimp only at hr ⊢
  by_cases hshort : cfg.haveHeaderProtection = true ∧ cfg.s4 < 12
  · rw [if_pos hshort] at hr ⊢
    exact (Except.ok.inj hr).symm
  · rw [if_neg hshort] at hr ⊢
    have hr := ok_int_bind (ok_int_bind (ok_int_bind (ok_int_bind hr)))
    by_cases hroom : cfg.s4 + transportHdr + paddedLen payload.length + aeadTag > outCap
    · rw [if_pos hroom] at hr ⊢
      exact (Except.ok.inj hr).symm
    · rw [if_neg hroom] at hr ⊢
      have hr := ok_span_bind (ok_span_bind (ok_span_bind (ok_span_bind (ok_span_bind hr))))
      have hr := ok_headerPass_bind hr
      exact (Except.ok.inj hr).symm

/-- A packet sealed without a fault is the sealed packet, and its padding is not negative. -/
theorem seal_ok {cfg : Config} {hs : Handshake} {counter : UInt64} {payload : Bytes}
    {r : Int × Bytes} {outCap : Int} {e : Entropy}
    (h : awgTransportSealChecked P cfg hs counter payload outCap e = .ok (some r)) :
    0 ≤ cfg.s4 ∧ awgTransportSeal P cfg hs counter payload outCap e = some r := by
  have hseal := seal_checked_eq P ⟨_, h⟩
  rw [h] at hseal
  refine ⟨?_, (Except.ok.inj hseal).symm⟩
  unfold awgTransportSealChecked at h
  dsimp only at h
  split at h
  · cases h
  · have h := ok_int_bind (ok_int_bind (ok_int_bind (ok_int_bind h)))
    split at h
    · cases h
    · have hsafe := (safe_span_bind _ _ _ _).mp ⟨_, h⟩
      exact hsafe.1.2.1

theorem openReject_checked_eq {cfg : Config} {pkt : Bytes} {r : OpenResult}
    (h : openRejectChecked P cfg pkt = .ok r) : r = openReject P cfg pkt := by
  unfold openRejectChecked at h
  have h := ok_headerPass_bind h
  exact (Except.ok.inj h).symm

theorem open_checked_eq {cfg : Config} {hs : Handshake} {pkt : Bytes} {outCap : Int}
    (h : Safe (awgTransportOpenChecked P cfg hs pkt outCap)) :
    awgTransportOpenChecked P cfg hs pkt outCap = .ok (awgTransportOpen P cfg hs pkt outCap) := by
  obtain ⟨r, hr⟩ := h
  rw [hr]
  congr 1
  unfold awgTransportOpenChecked at hr
  unfold awgTransportOpen
  dsimp only at hr ⊢
  split at hr
  · rename_i hshort
    rw [if_pos hshort]
    exact (Except.ok.inj hr).symm
  · rename_i hshort
    rw [if_neg hshort]
    have hr := ok_int_bind (ok_int_bind hr)
    split at hr
    · rename_i hlen
      rw [if_pos hlen]
      exact (Except.ok.inj hr).symm
    · rename_i hlen
      rw [if_neg hlen]
      have hr := ok_span_bind (ok_headerPass_bind hr)
      generalize (if cfg.haveHeaderProtection = true
          then headerPass P cfg pkt cfg.s4.toNat transportHdr else pkt) = clear at hr ⊢
      split at hr
      · rename_i htype
        rw [if_pos htype]
        exact openReject_checked_eq P hr
      · rename_i htype
        rw [if_neg htype]
        have hr := ok_span_bind hr
        split at hr
        · rename_i hindex
          rw [if_pos hindex]
          exact openReject_checked_eq P hr
        · rename_i hindex
          rw [if_neg hindex]
          have hr := ok_int_bind (ok_int_bind (ok_int_bind (ok_span_bind hr)))
          split at hr
          · rename_i hplain
            rw [if_pos hplain]
            exact openReject_checked_eq P hr
          · rename_i hplain
            rw [if_neg hplain]
            have hr := ok_span_bind (ok_span_bind hr)
            rcases htag : chacha20poly1305Decrypt P
                (Bytes.slice clear (cfg.s4.toNat + transportHdr)
                  ((clear.length : Int) - cfg.s4 - transportHdr).toNat) []
                (Bytes.wordOf 8 (clear.drop (cfg.s4.toNat + 8))) hs.recvKey with _ | plain
            · rw [htag] at hr
              exact openReject_checked_eq P hr
            · rw [htag] at hr
              exact (Except.ok.inj hr).symm

/-! ### Which configurations are safe

From conditions on single calls to one on the configuration.  A padding that is bad fails on
some input of ordinary size, and that input is given.
-/

/-- The four functions stay inside their buffers and their `int`s on everything the client
gives them, and refuse what does not fit. -/
structure FramingSafe (cfg : Config) : Prop where
  wrap : ∀ (kind : Kind) (msg : Bytes) (outCap : Int) (e : Entropy),
    msg.length = awgMsgInitSize ∨ msg.length = awgMsgRespSize → 0 < outCap → outCap ≤ intMax →
    Safe (awgWrapChecked P cfg kind msg outCap e) ∧
      (paddingFor cfg kind + msg.length > outCap →
        awgWrapChecked P cfg kind msg outCap e = .ok none)
  unwrap : ∀ (kind : Kind) (pkt : Bytes), 1 ≤ pkt.length → pkt.length ≤ 4096 →
    Safe (awgUnwrapChecked P cfg kind pkt) ∧
      ((pkt.length : Int) ≤ paddingFor cfg kind →
        awgUnwrapChecked P cfg kind pkt = .ok (-1, pkt, 0))
  sealing : ∀ (hs : Handshake) (counter : UInt64) (payload : Bytes) (outCap : Int) (e : Entropy),
    payload.length ≤ 1400 → 0 < outCap → outCap ≤ intMax →
    Safe (awgTransportSealChecked P cfg hs counter payload outCap e) ∧
      (cfg.s4 + 32 + paddedLen payload.length > outCap →
        awgTransportSealChecked P cfg hs counter payload outCap e = .ok none)
  opening : ∀ (hs : Handshake) (pkt : Bytes) (outCap : Int), 1 ≤ pkt.length → pkt.length ≤ 4096 →
    0 < outCap → outCap ≤ intMax →
    Safe (awgTransportOpenChecked P cfg hs pkt outCap) ∧
      ((pkt.length : Int) < cfg.s4 + 32 →
        awgTransportOpenChecked P cfg hs pkt outCap = .ok ⟨-1, pkt, none, none⟩)

/-- No padding is so large that a sum overflows, and none is negative unless header
protection is on, which refuses it. -/
structure PaddingsFit (cfg : Config) : Prop where
  messages : ∀ kind, paddingFor cfg kind + 148 ≤ intMax
  transport : cfg.s4 + 1440 ≤ intMax
  nonneg : cfg.haveHeaderProtection = true ∨ ∀ kind, 0 ≤ paddingFor cfg kind

theorem paddedLen_le (n : Nat) (h : n ≤ 1400) : paddedLen n ≤ 1408 := by
  unfold paddedLen
  omega

theorem FramingSafe.of_fit {cfg : Config} (h : PaddingsFit cfg) : FramingSafe P cfg := by
  have hmax : intMax = 2147483647 := rfl
  have hmin : intMin = -2147483648 := rfl
  have hs4 : (cfg.haveHeaderProtection = true ∧ cfg.s4 < 12) ∨ 0 ≤ cfg.s4 := by
    rcases h.nonneg with hp | hpad
    · by_cases hlt : cfg.s4 < 12
      · exact Or.inl ⟨hp, hlt⟩
      · exact Or.inr (by omega)
    · exact Or.inr (hpad .transport)
  refine ⟨?_, ?_, ?_, ?_⟩
  · intro kind msg outCap e hmsg hpos hcap
    have hlen : msg.length ≤ 148 := by
      simp only [awgMsgInitSize, awgMsgRespSize] at hmsg
      omega
    have hsafe : Safe (awgWrapChecked P cfg kind msg outCap e) := by
      rw [wrap_safe_iff P cfg kind (by omega)]
      have := h.messages kind
      omega
    refine ⟨hsafe, ?_⟩
    intro hroom
    rw [wrap_checked_eq P hsafe]
    unfold awgWrap
    dsimp only
    split
    · rfl
    · rw [if_pos (Or.inr hroom)]
  · intro kind pkt hpos hpkt
    have hsafe : Safe (awgUnwrapChecked P cfg kind pkt) := by
      rw [unwrap_safe_iff P cfg kind hpkt]
      rcases h.nonneg with hp | hpad
      · exact Or.inl hp
      · exact Or.inr (hpad kind)
    refine ⟨hsafe, ?_⟩
    intro hshort
    rw [unwrap_checked_eq P hsafe]
    unfold awgUnwrap
    dsimp only
    by_cases hnonce : cfg.haveHeaderProtection = true ∧ paddingFor cfg kind < 12
    · rw [if_pos hnonce]
    · rw [if_neg hnonce, if_pos hshort]
  · intro hs counter payload outCap e hpayload hpos hcap
    have hpad := paddedLen_le payload.length hpayload
    have hsafe : Safe (awgTransportSealChecked P cfg hs counter payload outCap e) := by
      rw [seal_safe_iff P cfg hs counter (by omega)]
      rcases hs4 with hshort | hnonneg
      · exact Or.inl hshort
      · have := h.transport
        exact Or.inr ⟨by omega, by omega, Or.inl hnonneg⟩
    refine ⟨hsafe, ?_⟩
    intro hroom
    rw [seal_checked_eq P hsafe]
    unfold awgTransportSeal
    dsimp only
    split
    · rfl
    · rw [if_pos (by simp only [transportHdr, aeadTag]; omega)]
  · intro hs pkt outCap hpos hpkt hcap hcap'
    have hsafe : Safe (awgTransportOpenChecked P cfg hs pkt outCap) := by
      rw [open_safe_iff P cfg hs hpkt]
      rcases hs4 with hshort | hnonneg
      · exact Or.inl hshort
      · have := h.transport
        exact Or.inr ⟨by omega, by omega, Or.inl hnonneg⟩
    refine ⟨hsafe, ?_⟩
    intro hshort
    rw [open_checked_eq P hsafe]
    unfold awgTransportOpen
    dsimp only
    split
    · rfl
    · rw [if_pos (by simp only [transportHdr, aeadTag]; omega)]

/-- Each function, on one input, tells one part of the condition. -/
theorem PaddingsFit.of_safe {cfg : Config} (h : FramingSafe P cfg) : PaddingsFit cfg := by
  have hmax : intMax = 2147483647 := rfl
  have hmin : intMin = -2147483648 := rfl
  refine ⟨?_, ?_, ?_⟩
  · intro kind
    have hlen : (List.replicate 148 (0 : UInt8)).length = 148 := List.length_replicate
    have hsafe := (h.wrap kind (List.replicate 148 0) 1 (fun _ => 0) (Or.inl hlen) (by omega)
      (by omega)).1
    rw [wrap_safe_iff P cfg kind (by omega), hlen] at hsafe
    exact hsafe
  · have hlen : (List.replicate 1400 (0 : UInt8)).length = 1400 := List.length_replicate
    have hsafe := (h.sealing Handshake.zero 0 (List.replicate 1400 0) 1 (fun _ => 0) (by omega)
      (by omega) (by omega)).1
    rw [seal_safe_iff P cfg _ _ (by omega), hlen] at hsafe
    have hpad : paddedLen 1400 = 1408 := rfl
    rw [hpad] at hsafe
    omega
  · by_cases hp : cfg.haveHeaderProtection = true
    · exact Or.inl hp
    · refine Or.inr ?_
      intro kind
      have hsafe := (h.unwrap kind [0] (by simp) (by simp)).1
      rw [unwrap_safe_iff P cfg kind (by simp)] at hsafe
      rcases hsafe with hprot | hpad
      · exact absurd hprot hp
      · exact hpad

/--
**The framing stays inside its buffers exactly when the paddings fit.**  For every
configuration, the four functions meet no fault on messages of a handshake's size, inner
packets up to 1400 bytes, datagrams up to 4096 bytes and every capacity, and refuse what
does not fit, if and only if no padding overflows a sum and, without header protection,
none is negative.
-/
theorem framing_safe_iff (cfg : Config) : FramingSafe P cfg ↔ PaddingsFit cfg := by
  constructor
  · intro h
    exact PaddingsFit.of_safe P h
  · intro h
    exact FramingSafe.of_fit P h

/-- What the loader makes of a file with the three required settings and `S4 = -1`. -/
def negativePadding : Config :=
  { Config.default with
    havePrivateKey := true
    havePeerPublicKey := true
    endpointHost := [49, 46, 50, 46, 51, 46, 52]
    s4 := -1 }

/-- Sealing an empty packet asks for `(size_t)-1` random bytes. -/
theorem negativePadding_unsafe :
    negativePadding.accepted = true ∧
      awgTransportSealChecked standardPrimitives negativePadding Handshake.zero 0 [] 2048
        (fun _ => 0) = .error .outOfBounds ∧
      ¬ FramingSafe standardPrimitives negativePadding := by
  have hfault : awgTransportSealChecked standardPrimitives negativePadding Handshake.zero 0 [] 2048
      (fun _ => 0) = .error .outOfBounds := by rfl
  refine ⟨rfl, hfault, ?_⟩
  intro h
  obtain ⟨r, hr⟩ := (h.sealing Handshake.zero 0 [] 2048 (fun _ => 0) (by simp) (by decide)
    (by decide)).1
  rw [hfault] at hr
  cases hr

end SysAwg
