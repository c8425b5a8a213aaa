/-
Sealing and opening a transport packet.

`awg_transport_seal` lays out random padding, a 16-byte header and the sealed body,
then makes a second pass over the header with the padding's first twelve bytes as
the nonce.  `awg_transport_open` computes every offset again on its own.  The pass
never touches the nonce it reads, because header protection is refused for paddings
below twelve bytes, so a second pass undoes the first; after it, each side looks at
the same clear packet.
-/
import SysAwg.Noise
import SysAwg.Standard
import SysAwg.Proofs.Cipher

namespace SysAwg

variable (P : Primitives)

/-! ### The header pass -/

/-- The cipher is set up from the first twelve bytes only. -/
theorem headerCipherInit_congr (key : Key) {a b : Bytes}
    (h : ∀ i, i < 12 → a.getD i 0 = b.getD i 0) :
    headerCipherInit key a = headerCipherInit key b := by
  have hword : ∀ off, off + 3 < 12 → Bytes.word32 a off = Bytes.word32 b off := by
    intro off hoff
    simp only [Bytes.word32]
    rw [h off (by omega), h (off + 1) (by omega), h (off + 2) (by omega), h (off + 3) (by omega)]
  simp only [headerCipherInit]
  rw [hword 0 (by omega), hword 4 (by omega), hword 8 (by omega)]

theorem headerPass_length (cfg : Config) {buf : Bytes} {off n : Nat}
    (h : off + n ≤ buf.length) : (headerPass P cfg buf off n).length = buf.length := by
  unfold headerPass
  refine Bytes.length_overlay ?_
  rw [chacha20_length, Bytes.length_slice h]
  exact h

/-- A second pass undoes the first, as long as the nonce lies outside the bytes passed over. -/
theorem headerPass_twice (cfg : Config) {buf : Bytes} {off n : Nat} (hoff : 12 ≤ off)
    (h : off + n ≤ buf.length) :
    headerPass P cfg (headerPass P cfg buf off n) off n = buf := by
  have hle : off ≤ buf.length := by omega
  have hslice : (Bytes.slice buf off n).length = n := Bytes.length_slice h
  set ctx := headerCipherInit cfg.headerProtectionKey buf with hctx
  set once := (chacha20 P ctx (Bytes.slice buf off n)).2 with honce
  have honceLen : once.length = n := by rw [honce, chacha20_length, hslice]
  have hfirst : headerPass P cfg buf off n = Bytes.overlay buf off once := rfl
  have hnonce : headerCipherInit cfg.headerProtectionKey (Bytes.overlay buf off once) = ctx :=
    headerCipherInit_congr _ fun i hi => Bytes.getD_overlay hle (by omega) 0
  have hread : Bytes.slice (Bytes.overlay buf off once) off n = once :=
    Bytes.slice_overlay hle honceLen
  calc headerPass P cfg (headerPass P cfg buf off n) off n
      = Bytes.overlay (Bytes.overlay buf off once) off (chacha20 P ctx once).2 := by
        rw [hfirst]
        simp only [headerPass]
        rw [hnonce, hread]
    _ = Bytes.overlay buf off (Bytes.slice buf off n) := by
        rw [honce, chacha20_twice, ← honce, Bytes.overlay_overlay hle (by rw [honceLen, hslice])]
    _ = buf := Bytes.overlay_slice buf h

/-! ### The clear packet

Without header protection the clear packet is what is sent; with it, it is what both sides
see between their two passes.  Everything that opening checks is a field of this packet.
-/

/-- A transport packet before header protection. -/
def clearPacket (cfg : Config) (hs : Handshake) (counter : UInt64) (payload : Bytes)
    (e : Entropy) : Bytes :=
  awgRandomBytes e cfg.s4.toNat ++
    (Bytes.le32 cfg.h4 ++ Bytes.le32 hs.remoteIndex ++ Bytes.leBytes 8 counter) ++
    chacha20poly1305Encrypt P
      (payload ++ List.replicate (paddedLen payload.length - payload.length) 0) [] counter
      hs.sendKey

theorem le_paddedLen (n : Nat) : n ≤ paddedLen n := by
  unfold paddedLen
  omega

theorem clearPacket_length (cfg : Config) (hs : Handshake) (counter : UInt64) (payload : Bytes)
    (e : Entropy) : (clearPacket P cfg hs counter payload e).length
      = cfg.s4.toNat + 32 + paddedLen payload.length := by
  have hle := le_paddedLen payload.length
  simp only [clearPacket, List.length_append, length_awgRandomBytes, Bytes.length_le32,
    Bytes.length_leBytes, chacha20poly1305Encrypt_length, List.length_replicate]
  omega

/-- What a successful seal produces: the clear packet, passed over once if need be. -/
theorem seal_eq {cfg : Config} {hs : Handshake} {counter : UInt64} {payload pkt : Bytes}
    {n outCap : Int} {e : Entropy}
    (h : awgTransportSeal P cfg hs counter payload outCap e = some (n, pkt)) :
    n = cfg.s4 + 32 + paddedLen payload.length ∧ pkt = if cfg.haveHeaderProtection
      then headerPass P cfg (clearPacket P cfg hs counter payload e) cfg.s4.toNat transportHdr
      else clearPacket P cfg hs counter payload e := by
  by_cases hshort : cfg.haveHeaderProtection ∧ cfg.s4 < 12
  · simp [awgTransportSeal, hshort] at h
  · by_cases hroom : cfg.s4 + transportHdr + paddedLen payload.length + aeadTag > outCap
    · simp only [awgTransportSeal, hshort, hroom, if_true, if_false] at h
      cases h
    · simp only [awgTransportSeal, hshort, hroom, if_false] at h
      have hpair := Prod.mk.inj (Option.some.inj h)
      refine ⟨?_, hpair.2.symm⟩
      rw [← hpair.1, transportHdr, aeadTag]
      omega

/-- Opening makes the same pass and looks at the clear packet again. -/
theorem open_clear (cfg : Config) {clear pkt : Bytes}
    (hprot : cfg.haveHeaderProtection = true → 12 ≤ cfg.s4)
    (hlen : cfg.s4.toNat + 16 ≤ clear.length)
    (hpkt : pkt = if cfg.haveHeaderProtection
      then headerPass P cfg clear cfg.s4.toNat transportHdr else clear) :
    (if cfg.haveHeaderProtection then headerPass P cfg pkt cfg.s4.toNat transportHdr else pkt)
        = clear ∧ pkt.length = clear.length := by
  subst hpkt
  by_cases hp : cfg.haveHeaderProtection = true
  · simp only [hp, if_true]
    have h12 : 12 ≤ cfg.s4.toNat := by have := hprot hp; omega
    exact ⟨headerPass_twice P cfg h12 hlen, headerPass_length P cfg hlen⟩
  · simp only [hp]
    exact ⟨rfl, rfl⟩

theorem clearPacket_fields (cfg : Config) (hs : Handshake) (counter : UInt64) (payload : Bytes)
    (e : Entropy) :
    Bytes.word32 (clearPacket P cfg hs counter payload e) cfg.s4.toNat = cfg.h4 ∧
    Bytes.word32 (clearPacket P cfg hs counter payload e) (cfg.s4.toNat + 4) = hs.remoteIndex ∧
    Bytes.wordOf 8 ((clearPacket P cfg hs counter payload e).drop (cfg.s4.toNat + 8)) = counter ∧
    Bytes.slice (clearPacket P cfg hs counter payload e) (cfg.s4.toNat + 16)
        (paddedLen payload.length + 16)
      = chacha20poly1305Encrypt P
          (payload ++ List.replicate (paddedLen payload.length - payload.length) 0) [] counter
          hs.sendKey := by
  have hle := le_paddedLen payload.length
  set pad := awgRandomBytes e cfg.s4.toNat with hpad
  have hpadLen : pad.length = cfg.s4.toNat := by rw [hpad, length_awgRandomBytes]
  set body := chacha20poly1305Encrypt P
    (payload ++ List.replicate (paddedLen payload.length - payload.length) 0) [] counter
    hs.sendKey with hbody
  have hbodyLen : body.length = paddedLen payload.length + 16 := by
    rw [hbody, chacha20poly1305Encrypt_length, List.length_append, List.length_replicate]
    omega
  have hclear : clearPacket P cfg hs counter payload e
      = pad ++ (Bytes.le32 cfg.h4 ++ Bytes.le32 hs.remoteIndex ++ Bytes.leBytes 8 counter)
        ++ body := rfl
  rw [hclear]
  refine ⟨?_, ?_, ?_, ?_⟩
  · have := Bytes.word32_append pad (Bytes.le32 hs.remoteIndex ++ Bytes.leBytes 8 counter ++ body)
      cfg.h4 hpadLen
    simpa only [List.append_assoc] using this
  · have hbefore : (pad ++ Bytes.le32 cfg.h4).length = cfg.s4.toNat + 4 := by simp [hpadLen]
    have := Bytes.word32_append (pad ++ Bytes.le32 cfg.h4) (Bytes.leBytes 8 counter ++ body)
      hs.remoteIndex hbefore
    simpa only [List.append_assoc] using this
  · have hbefore : (pad ++ (Bytes.le32 cfg.h4 ++ Bytes.le32 hs.remoteIndex)).length
        = cfg.s4.toNat + 8 := by simp [hpadLen]
    have hdrop : (pad ++ (Bytes.le32 cfg.h4 ++ Bytes.le32 hs.remoteIndex ++
          Bytes.leBytes 8 counter) ++ body).drop (cfg.s4.toNat + 8)
        = Bytes.leBytes 8 counter ++ body := by
      rw [← List.append_assoc, List.append_assoc _ (Bytes.leBytes 8 counter)]
      exact List.drop_left' hbefore
    rw [hdrop]
    exact Bytes.wordOf_leBytes counter body
  · have hbefore : (pad ++ (Bytes.le32 cfg.h4 ++ Bytes.le32 hs.remoteIndex ++
        Bytes.leBytes 8 counter)).length = cfg.s4.toNat + 16 := by simp [hpadLen]
    have := Bytes.slice_append
      (pad ++ (Bytes.le32 cfg.h4 ++ Bytes.le32 hs.remoteIndex ++ Bytes.leBytes 8 counter)) body []
      hbefore hbodyLen
    simpa using this

/-- The other end of a keypair: it seals with the key this end opens with, and names the
index this end chose. -/
structure Mirrors (peer hs : Handshake) : Prop where
  key : peer.sendKey = hs.recvKey
  index : peer.remoteIndex = hs.localIndex

theorem nonce_fits_of_seal {cfg : Config} {hs : Handshake} {counter : UInt64} {payload : Bytes}
    {r : Int × Bytes} {outCap : Int} {e : Entropy}
    (h : awgTransportSeal P cfg hs counter payload outCap e = some r) :
    cfg.haveHeaderProtection = true → 12 ≤ cfg.s4 := by
  intro hp
  by_contra hlt
  have hshort : cfg.haveHeaderProtection = true ∧ cfg.s4 < 12 := ⟨hp, by omega⟩
  unfold awgTransportSeal at h
  rw [if_pos hshort] at h
  cases h

/-- Opening what the other end sealed. -/
theorem open_sealed {cfg : Config} {a b : Handshake} {counter : UInt64} {payload pkt : Bytes}
    {n sealCap openCap : Int} {e : Entropy} (hs4 : 0 ≤ cfg.s4)
    (hprot : cfg.haveHeaderProtection = true → 12 ≤ cfg.s4) (hab : Mirrors a b)
    (hseal : awgTransportSeal P cfg a counter payload sealCap e = some (n, pkt))
    (hcap : (paddedLen payload.length : Int) ≤ openCap) :
    (pkt.length : Int) = cfg.s4 + 32 + paddedLen payload.length ∧
    awgTransportOpen P cfg b pkt openCap
      = ⟨paddedLen payload.length, clearPacket P cfg a counter payload e,
          some (payload ++ List.replicate (paddedLen payload.length - payload.length) 0),
          some counter⟩ := by
  have hclearLen := clearPacket_length P cfg a counter payload e
  obtain ⟨-, hpkt⟩ := seal_eq P hseal
  obtain ⟨hsame, hlen⟩ := open_clear P cfg hprot (by omega) hpkt
  obtain ⟨htype, hidx, hctr, hbody⟩ := clearPacket_fields P cfg a counter payload e
  have hpktLen : (pkt.length : Int) = cfg.s4 + 32 + paddedLen payload.length := by
    rw [hlen, hclearLen]
    omega
  have hnopad : ¬ (cfg.haveHeaderProtection = true ∧ cfg.s4 < 12) := by
    rintro ⟨hp, hlt⟩
    have := hprot hp
    omega
  have hlong : ¬ ((pkt.length : Int) < cfg.s4 + transportHdr + aeadTag) := by
    simp only [transportHdr, aeadTag]
    omega
  have hcipher : (((clearPacket P cfg a counter payload e).length : Int) - cfg.s4
      - transportHdr).toNat = paddedLen payload.length + 16 := by
    rw [hclearLen, transportHdr]
    omega
  have hplain : ((clearPacket P cfg a counter payload e).length : Int) - cfg.s4 - transportHdr
      - aeadTag = paddedLen payload.length := by
    rw [hclearLen, transportHdr, aeadTag]
    omega
  have hfits : ¬ ((paddedLen payload.length : Int) < 0
      ∨ (paddedLen payload.length : Int) > openCap) := by omega
  refine ⟨hpktLen, ?_⟩
  unfold awgTransportOpen
  simp only [hnopad, hlong, if_false, hsame, htype, hidx, hab.index, ne_eq, not_true, hplain,
    hfits, hctr, hcipher]
  rw [show transportHdr = 16 from rfl, hbody, hab.key, decrypt_encrypt]

/--
**A sealed packet opens to its payload.**  Whatever the configuration, the counter,
the payload and the random padding, a packet sealed under one end of a keypair has
`n = s4 + 32 +` padded length bytes, and the other end opens it to the payload followed
by zeros up to the next multiple of sixteen, with the same counter.
-/
theorem transport_round_trip (cfg : Config) (a b : Handshake) (counter : UInt64)
    (payload pkt : Bytes) (n sealCap openCap : Int) (e : Entropy) (hs4 : 0 ≤ cfg.s4)
    (hprot : cfg.haveHeaderProtection = true → 12 ≤ cfg.s4) (hkey : a.sendKey = b.recvKey)
    (hindex : a.remoteIndex = b.localIndex)
    (hseal : awgTransportSeal P cfg a counter payload sealCap e = some (n, pkt))
    (hcap : (paddedLen payload.length : Int) ≤ openCap) :
    n = cfg.s4 + 32 + paddedLen payload.length ∧ (pkt.length : Int) = n ∧
    (awgTransportOpen P cfg b pkt openCap).ret = paddedLen payload.length ∧
    (awgTransportOpen P cfg b pkt openCap).out
      = some (payload ++ List.replicate (paddedLen payload.length - payload.length) 0) ∧
    (awgTransportOpen P cfg b pkt openCap).counter = some counter := by
  obtain ⟨hn, -⟩ := seal_eq P hseal
  obtain ⟨hlen, hopen⟩ := open_sealed P hs4 hprot ⟨hkey, hindex⟩ hseal hcap
  rw [hopen]
  exact ⟨hn, hlen.trans hn.symm, rfl, rfl, rfl⟩

/-- Three bytes through header protection under the standard primitives. -/
theorem transport_round_trip_three :
    ∃ n pkt, awgTransportSeal standardPrimitives
        { Config.default with s4 := 12, haveHeaderProtection := true }
        { Handshake.zero with remoteIndex := 5 } 9 [1, 2, 3] 100 (fun _ => 7) = some (n, pkt) ∧
      n = 60 ∧
      (awgTransportOpen standardPrimitives
        { Config.default with s4 := 12, haveHeaderProtection := true }
        { Handshake.zero with localIndex := 5 } pkt 16).out
          = some [1, 2, 3, 0, 0, 0, 0, 0, 0, 0, 0, 0, 0, 0, 0, 0] := by
  obtain ⟨hn, -, -, hout, -⟩ := transport_round_trip standardPrimitives
    { Config.default with s4 := 12, haveHeaderProtection := true }
    { Handshake.zero with remoteIndex := 5 } { Handshake.zero with localIndex := 5 } 9 [1, 2, 3] _ _
    100 16 (fun _ => 7) (by decide) (fun _ => by decide) rfl rfl rfl (by decide)
  exact ⟨_, _, rfl, hn, hout⟩

end SysAwg
