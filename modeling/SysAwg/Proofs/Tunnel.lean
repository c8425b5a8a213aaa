/-
What comes out of the tunnel.

A packet is opened under the keypair whose index it carries, and under no other, as long
as the client's indices differ; there it opens to what the peer put in.  So every payload
that comes out is one the peer sent, and the window, which takes a counter once, lets each
come out once.

`Tunnel.Inv` says this of the whole: what is on the wires was sealed under the keypairs in
the log, and what came out came from the wire.  A call of
the client keeps it because the call is logged, a packet of the peer's because the peer
counts up, and an arrival through the theorem about one packet.  Delivery is the other half:
a counter the window has not met, under keys that are there, goes through.
-/
import SysAwg.Tunnel
import SysAwg.Proofs.Dispatch
import SysAwg.Proofs.Keypairs
import SysAwg.Proofs.Retired
import SysAwg.Proofs.TypeWords

namespace SysAwg

variable (P : Primitives)

/-! ### One packet

An index is chosen by the client and comes back in every packet meant for it.  A packet with
another index is refused before anything is decrypted.
-/

/-- A sealed packet opens under the index it carries and no other, given room. -/
theorem open_sealed_inv {cfg : Config} {peer hs : Handshake} {counter : UInt64}
    {payload pkt : Bytes} {n sealCap openCap : Int} {e : Entropy} (hs4 : 0 ≤ cfg.s4)
    (hseal : awgTransportSeal P cfg peer counter payload sealCap e = some (n, pkt))
    (hopen : 0 ≤ (awgTransportOpen P cfg hs pkt openCap).ret) :
    peer.remoteIndex = hs.localIndex ∧ (paddedLen payload.length : Int) ≤ openCap := by
  have hprot := nonce_fits_of_seal P hseal
  obtain ⟨-, hpkt⟩ := seal_eq P hseal
  have hclearLen := clearPacket_length P cfg peer counter payload e
  obtain ⟨hsame, hlen⟩ := open_clear P cfg hprot (by omega) hpkt
  obtain ⟨-, hidx, -, -⟩ := clearPacket_fields P cfg peer counter payload e
  unfold awgTransportOpen at hopen
  dsimp only at hopen
  rw [hsame, hidx] at hopen
  split at hopen
  · exact absurd hopen (by simp)
  · split at hopen
    · exact absurd hopen (by simp)
    · split at hopen
      · exact absurd hopen (by simp [openReject])
      · split at hopen
        · exact absurd hopen (by simp [openReject])
        · rename_i hindex
          split at hopen
          · exact absurd hopen (by simp [openReject])
          · rename_i hroom
            refine ⟨Decidable.not_not.mp hindex, ?_⟩
            rw [hclearLen] at hroom
            simp only [transportHdr, aeadTag] at hroom
            omega

theorem open_sealed_of_ret {cfg : Config} {peer hs : Handshake} {counter : UInt64}
    {payload pkt : Bytes} {n sealCap openCap : Int} {e : Entropy} (hs4 : 0 ≤ cfg.s4)
    (hends : Mirrors peer hs)
    (hseal : awgTransportSeal P cfg peer counter payload sealCap e = some (n, pkt))
    (hopen : 0 ≤ (awgTransportOpen P cfg hs pkt openCap).ret) :
    (awgTransportOpen P cfg hs pkt openCap).out = some (zeroPadded payload) ∧
      (awgTransportOpen P cfg hs pkt openCap).counter = some counter := by
  have hprot := nonce_fits_of_seal P hseal
  obtain ⟨-, hroom⟩ := open_sealed_inv P hs4 hseal hopen
  rw [(open_sealed P hs4 hprot hends hseal hroom).2]
  exact ⟨rfl, rfl⟩

/-! ### One datagram -/

theorem rxOpened_payload (g : ReplayDrop) (s : Session) (r : OpenResult) (onPrev : Bool)
    (nowMs : UInt64) : (rxOpened g s r onPrev nowMs).result = .payload →
      (rxOpened g s r onPrev nowMs).payload = r.out.getD [] ∧
        (rxOpened g s r onPrev nowMs).opened = some (onPrev, r.counter.getD 0) := by
  unfold rxOpened
  dsimp only
  cases onPrev with
  | true =>
      simp only [if_true]
      split
      · exact fun h => RxResult.noConfusion h
      · split
        · exact fun h => RxResult.noConfusion h
        · exact fun _ => ⟨rfl, rfl⟩
  | false =>
      simp only [Bool.false_eq_true, if_false]
      split
      · exact fun h => RxResult.noConfusion h
      · split
        · exact fun h => RxResult.noConfusion h
        · exact fun _ => ⟨rfl, rfl⟩

/-- How a payload comes out: the datagram opened under a keypair the session holds, and the
counter it carries is noted for it. -/
theorem onDatagram_payload {cfg : Config} {g : ReplayDrop} {s : Session} {pkt : Bytes}
    {payloadCap : Int} {nowMs : UInt64}
    (h : (awgSessionOnDatagram P cfg g s pkt payloadCap nowMs).result = .payload) :
    ∃ onPrev hs, (if onPrev then s.havePrev = true ∧ hs = s.prev
        else s.established = true ∧ hs = s.cur) ∧
      0 ≤ (awgTransportOpen P cfg hs pkt payloadCap).ret ∧
      (awgSessionOnDatagram P cfg g s pkt payloadCap nowMs).payload
        = (awgTransportOpen P cfg hs pkt payloadCap).out.getD [] ∧
      (awgSessionOnDatagram P cfg g s pkt payloadCap nowMs).opened
        = some (onPrev, (awgTransportOpen P cfg hs pkt payloadCap).counter.getD 0) := by
  have hsame : (s.expirePrev nowMs).cur = s.cur := (expirePrev_cur s nowMs).1.cur
  unfold awgSessionOnDatagram at h ⊢
  dsimp only at h ⊢
  split at h
  · split at h
    · cases h
    · split at h
      · cases h
      · cases h
  · rename_i hanswer
    rw [if_neg hanswer]
    split at h
    · cases h
    · rename_i hest
      rw [if_neg hest]
      have hest' : s.established = true := by simpa using hest
      by_cases hcur : (awgTransportOpen P cfg s.cur pkt payloadCap).ret ≥ 0
      · have hfirst : rxTransport P cfg g s pkt payloadCap nowMs = rxOpened g (s.expirePrev nowMs)
            (awgTransportOpen P cfg s.cur pkt payloadCap) false nowMs := by
          unfold rxTransport
          dsimp only
          rw [hsame, if_pos hcur]
        rw [hfirst] at h ⊢
        exact ⟨false, s.cur, ⟨hest', rfl⟩, hcur, rxOpened_payload _ _ _ _ _ h⟩
      · by_cases hhave : (s.expirePrev nowMs).havePrev = true
        · rw [rxTransport_prev P g (by omega) hhave] at h ⊢
          split at h
          · rename_i hprev
            rw [if_pos hprev]
            have hkept := (expirePrev_prev s nowMs).1 hhave
            exact ⟨true, s.prev, ⟨hkept.1, rfl⟩, hprev, rxOpened_payload _ _ _ _ _ h⟩
          · cases h
        · exfalso
          unfold rxTransport at h
          dsimp only at h
          rw [hsame, if_neg hcur, if_neg hhave] at h
          cases h

/-! ### What the whole keeps

Of the network nothing is assumed, so the invariant is about what it carries: every parcel
on the wires was sealed under a keypair that was installed, with a number that is not used
again, and whatever came out is one of them.
-/

/-- The packet was sealed under the other end of the keypair its number names. -/
def Parcel.SealedFor (cfg : Config) (installed : List Handshake) (p : Parcel) : Prop :=
  ∃ hs peer n outCap e, installed[p.id]? = some hs ∧ Mirrors peer hs ∧
    awgTransportSeal P cfg peer p.counter p.payload outCap e = some (n, p.bytes)

/-- The packet was sealed under the keypair its number names. -/
def Parcel.SealedBy (cfg : Config) (installed : List Handshake) (p : Parcel) : Prop :=
  ∃ hs n outCap e, installed[p.id]? = some hs ∧
    awgTransportSeal P cfg hs p.counter p.payload outCap e = some (n, p.bytes)

/-- A payload that came out is the one of a packet on the wire, and this is its key. -/
def CameFrom (wire : List Parcel) (d : Option Nat × Bytes) (key : Nat × UInt64) : Prop :=
  ∃ k p, d.1 = some k ∧ wire[k]? = some p ∧ d.2 = zeroPadded p.payload ∧ key = p.key

/-- What holds of the whole at every moment. -/
structure Tunnel.Inv (cfg : Config) (t : Tunnel) : Prop where
  accepting : AcceptInv t.run
  sealing : SealInv t.run
  wire : ∀ p ∈ t.wire, p.SealedFor P cfg (installedIn t.run.log)
  sent : ∀ p ∈ t.sent, p.SealedBy P cfg (installedIn t.run.log)
  /-- Every packet the client sent was logged. -/
  logged : t.sent.map Parcel.key = sealedIn t.run.log
  /-- Every payload that came out was accepted, each for itself and in order. -/
  delivered : ∃ keys, List.Forall₂ (CameFrom t.wire) t.delivered keys ∧
    keys.Sublist (acceptedIn t.run.log)

/-- The client's own end of every keypair has an index of its own. -/
def Tunnel.Distinct (t : Tunnel) : Prop := ((installedIn t.run.log).map Handshake.localIndex).Nodup

theorem Parcel.SealedFor.mono {cfg : Config} {installed : List Handshake} {p : Parcel}
    (h : p.SealedFor P cfg installed) (more : List Handshake) :
    p.SealedFor P cfg (installed ++ more) := by
  obtain ⟨hs, peer, n, outCap, e, hid, hends, hseal⟩ := h
  refine ⟨hs, peer, n, outCap, e, ?_, hends, hseal⟩
  rw [List.getElem?_append_left (List.getElem?_eq_some_iff.mp hid).1, hid]

theorem Parcel.SealedBy.mono {cfg : Config} {installed : List Handshake} {p : Parcel}
    (h : p.SealedBy P cfg installed) (more : List Handshake) :
    p.SealedBy P cfg (installed ++ more) := by
  obtain ⟨hs, n, outCap, e, hid, hseal⟩ := h
  refine ⟨hs, n, outCap, e, ?_, hseal⟩
  rw [List.getElem?_append_left (List.getElem?_eq_some_iff.mp hid).1, hid]

theorem CameFrom.mono {wire : List Parcel} {d : Option Nat × Bytes} {key : Nat × UInt64}
    (h : CameFrom wire d key) (more : List Parcel) : CameFrom (wire ++ more) d key := by
  obtain ⟨k, p, hd, hk, hbytes, hkey⟩ := h
  refine ⟨k, p, hd, ?_, hbytes, hkey⟩
  rw [List.getElem?_append_left (List.getElem?_eq_some_iff.mp hk).1, hk]

/-! ### The client's calls -/

/-- What a builder of data packets hands out, it sealed under `cur`, and it was logged. -/
theorem parcel_logged {cfg : Config} {r : Run} {payload : Bytes}
    {out : Session × Option (Int × Bytes)} (hinv : SealInv r)
    (hsealed : ∀ n bytes, out.2 = some (n, bytes) → r.sess.established = true ∧
      ∃ outCap e, awgTransportSeal P cfg r.sess.cur r.sess.txCounter payload outCap e
        = some (n, bytes)) :
    installedIn (r.logSeal out).log = installedIn r.log ∧
      acceptedIn (r.logSeal out).log = acceptedIn r.log ∧
      sealedIn (r.logSeal out).log = sealedIn r.log ++ (r.parcel payload out).map Parcel.key ∧
      ∀ p ∈ r.parcel payload out, p.SealedBy P cfg (installedIn r.log) := by
  obtain ⟨s, result⟩ := out
  cases result with
  | none => exact ⟨rfl, rfl, by simp [Run.logSeal, Run.parcel], by simp [Run.parcel]⟩
  | some result =>
      obtain ⟨n, bytes⟩ := result
      obtain ⟨hest, outCap, e, hseal⟩ := hsealed n bytes rfl
      refine ⟨by simp [Run.logSeal], by simp [Run.logSeal],
        by simp [Run.logSeal, Run.parcel, Parcel.key], ?_⟩
      intro p hp
      obtain rfl := List.mem_singleton.mp hp
      exact ⟨r.sess.cur, n, outCap, e, hinv.cur hest, hseal⟩

theorem buildData_sealed {cfg : Config} {s : Session} {payload : Bytes} {outCap : Int}
    {nowMs : UInt64} {e : Entropy} {n : Int} {bytes : Bytes}
    (h : (awgSessionBuildData P cfg s payload outCap nowMs e).2 = some (n, bytes)) :
    s.established = true ∧ ∃ outCap e,
      awgTransportSeal P cfg s.cur s.txCounter payload outCap e = some (n, bytes) := by
  unfold awgSessionBuildData at h
  split at h
  · cases h
  · rename_i hest
    split at h
    · cases h
    · rename_i n' bytes' hseal
      split at h
      · cases h
      · obtain ⟨rfl, rfl⟩ := Prod.mk.inj (Option.some.inj h)
        exact ⟨by simpa using hest, outCap, e, hseal⟩

/-- What a call adds to the log is what it hands out. -/
theorem call_logged {cfg : Config} {r : Run} {op : Op} (hcall : op.Call cfg) (hinv : SealInv r) :
    installedIn (r.step P op).log = installedIn r.log ∧
      acceptedIn (r.step P op).log = acceptedIn r.log ∧
      sealedIn (r.step P op).log = sealedIn r.log ++ (r.outgoing P op).map Parcel.key ∧
      ∀ p ∈ r.outgoing P op, p.SealedBy P cfg (installedIn r.log) := by
  cases op with
  | onDatagram => exact hcall.elim
  | buildData c payload outCap nowMs e =>
      obtain rfl : c = cfg := hcall
      exact parcel_logged P hinv fun n bytes h => buildData_sealed P h
  | buildKeepalive c outCap nowMs e =>
      obtain rfl : c = cfg := hcall
      refine parcel_logged P hinv fun n bytes h => ?_
      obtain ⟨keepalives, packets, heq⟩ := buildKeepalive_eq P c r.sess outCap nowMs e
      rw [heq] at h
      exact buildData_sealed P h
  | init => exact ⟨rfl, rfl, by simp [Run.outgoing, Run.step], by simp [Run.outgoing]⟩
  | buildInitiation => exact ⟨rfl, rfl, by simp [Run.outgoing, Run.step], by simp [Run.outgoing]⟩
  | wipe => exact ⟨rfl, rfl, by simp [Run.outgoing, Run.step], by simp [Run.outgoing]⟩

theorem Tunnel.Inv.call {cfg : Config} {t : Tunnel} (h : t.Inv P cfg) {op : Op}
    (hcall : op.Call cfg) :
    Tunnel.Inv P cfg { t with run := t.run.step P op, sent := t.sent ++ t.run.outgoing P op } := by
  obtain ⟨hinst, hacc, hsealed, hout⟩ := call_logged P hcall h.sealing
  refine ⟨h.accepting.step P op, h.sealing.step P op, ?_, ?_, ?_, ?_⟩
  · rw [hinst]
    exact h.wire
  · rw [hinst]
    intro p hp
    rcases List.mem_append.mp hp with hold | hnew
    · exact h.sent p hold
    · exact hout p hnew
  · rw [List.map_append, hsealed, h.logged]
  · rw [hacc]
    exact h.delivered

/-! ### The wire

A datagram from the wire is one the peer sealed under some keypair, or is a stray one.  The
first opens under its own keypair or not at all, and the second is assumed to open under
none.
-/

theorem Tunnel.Inv.post {cfg : Config} {t : Tunnel} (h : t.Inv P cfg) {p : Parcel}
    (hp : p.SealedFor P cfg (installedIn t.run.log)) :
    Tunnel.Inv P cfg { t with wire := t.wire ++ [p] } := by
  obtain ⟨keys, hfrom, hsub⟩ := h.delivered
  refine ⟨h.accepting, h.sealing, ?_, h.sent, h.logged, keys, ?_, hsub⟩
  · intro q hq
    rcases List.mem_append.mp hq with hold | hnew
    · exact h.wire q hold
    · obtain rfl := List.mem_singleton.mp hnew
      exact hp
  · exact hfrom.imp fun _ _ hd => hd.mono [p]

theorem logRx_grows (r : Run) (o : RxOutcome) :
    (∃ more, installedIn (r.logRx o).log = installedIn r.log ++ more) ∧
      ∃ more, acceptedIn (r.logRx o).log = acceptedIn r.log ++ more := by
  unfold Run.logRx
  dsimp only
  split
  · exact ⟨⟨_, installedIn_installed _ _⟩, ⟨[], by simp⟩⟩
  · exact ⟨⟨[], by simp⟩, ⟨[], by simp⟩⟩
  · rename_i onPrev counter _ _ _
    cases onPrev with
    | true => exact ⟨⟨[], by simp⟩, ⟨_, acceptedIn_accepted _ _ _ _⟩⟩
    | false => exact ⟨⟨[], by simp⟩, ⟨_, acceptedIn_accepted _ _ _ _⟩⟩
  · exact ⟨⟨[], by simp⟩, ⟨[], by simp⟩⟩

theorem logRx_payload {r : Run} {o : RxOutcome} {onPrev : Bool} {counter : UInt64}
    (hresult : o.result = .payload) (hopened : o.opened = some (onPrev, counter)) :
    acceptedIn (r.logRx o).log
      = acceptedIn r.log ++ [(if onPrev then r.prevId else r.curId, counter)] := by
  unfold Run.logRx
  rw [hresult, hopened]
  cases onPrev with
  | true => simp
  | false => simp

/-- A datagram, whatever it is: it is enough to account for a payload. -/
theorem Tunnel.Inv.receive {cfg : Config} {t : Tunnel} (h : t.Inv P cfg) {origin : Option Nat}
    {pkt : Bytes} {payloadCap : Int} {nowMs : UInt64}
    (hpayload : ∀ (onPrev : Bool) (hs : Handshake), (if onPrev then t.run.sess.havePrev = true ∧ hs = t.run.sess.prev
        else t.run.sess.established = true ∧ hs = t.run.sess.cur) →
      0 ≤ (awgTransportOpen P cfg hs pkt payloadCap).ret →
      CameFrom t.wire (origin, (awgTransportOpen P cfg hs pkt payloadCap).out.getD [])
        (if onPrev then t.run.prevId else t.run.curId,
          (awgTransportOpen P cfg hs pkt payloadCap).counter.getD 0)) :
    (t.receive P cfg origin pkt payloadCap nowMs).Inv P cfg := by
  have hstep := onDatagram_step P cfg t.run.drop t.run.sess pkt payloadCap nowMs
  have hout := @onDatagram_payload P cfg t.run.drop t.run.sess pkt payloadCap nowMs
  unfold Tunnel.receive
  generalize awgSessionOnDatagram P cfg t.run.drop t.run.sess pkt payloadCap nowMs = o at hstep hout
  obtain ⟨⟨newKeys, hinst⟩, more, hacc⟩ := logRx_grows t.run o
  obtain ⟨keys, hfrom, hsub⟩ := h.delivered
  refine ⟨h.accepting.logRx hstep, h.sealing.logRx hstep, ?_, ?_, ?_, ?_⟩
  · intro p hp
    show p.SealedFor P cfg (installedIn (t.run.logRx o).log)
    rw [hinst]
    exact (h.wire p hp).mono P newKeys
  · intro p hp
    show p.SealedBy P cfg (installedIn (t.run.logRx o).log)
    rw [hinst]
    exact (h.sent p hp).mono P newKeys
  · exact h.logged.trans (logRx_sealed t.run o).symm
  · dsimp only
    split
    · rename_i hresult
      obtain ⟨onPrev, hs, hheld, hret, hbytes, hopened⟩ := hout hresult
      have hkey := hpayload onPrev hs hheld hret
      rw [← hbytes] at hkey
      refine ⟨_, List.rel_append hfrom (List.Forall₂.cons hkey .nil), ?_⟩
      rw [logRx_payload hresult hopened]
      exact hsub.append (List.Sublist.refl _)
    · refine ⟨keys, hfrom, ?_⟩
      rw [hacc]
      exact hsub.trans (List.sublist_append_left _ _)

theorem Tunnel.Distinct.unique {t : Tunnel} (h : t.Distinct) {i j : Nat} {a b : Handshake}
    (hi : (installedIn t.run.log)[i]? = some a) (hj : (installedIn t.run.log)[j]? = some b)
    (hindex : a.localIndex = b.localIndex) : i = j ∧ a = b := by
  have hi' := congrArg (Option.map Handshake.localIndex) hi
  have hj' := congrArg (Option.map Handshake.localIndex) hj
  rw [← List.getElem?_map] at hi' hj'
  have hlt := (List.getElem?_eq_some_iff.mp hi').1
  have hij : i = j := by
    refine (List.getElem?_inj hlt h).mp ?_
    rw [hi', hj', Option.map_some, Option.map_some, hindex]
  refine ⟨hij, ?_⟩
  rw [hij, hj] at hi
  exact (Option.some.inj hi).symm

/-- The keypair a datagram was opened under is the one its number names. -/
theorem AcceptInv.held {r : Run} (h : AcceptInv r) {onPrev : Bool} {hs : Handshake}
    (hheld : if onPrev then r.sess.havePrev = true ∧ hs = r.sess.prev
      else r.sess.established = true ∧ hs = r.sess.cur) :
    (installedIn r.log)[if onPrev then r.prevId else r.curId]? = some hs := by
  cases onPrev with
  | true =>
      obtain ⟨hhave, rfl⟩ := hheld
      exact h.prev hhave
  | false =>
      obtain ⟨hest, rfl⟩ := hheld
      exact h.cur hest

/-- A packet of the peer's that opens, opens under its own keypair to its own payload. -/
theorem Tunnel.Inv.arrive {cfg : Config} {t : Tunnel} (hs4 : 0 ≤ cfg.s4) (h : t.Inv P cfg)
    (hdistinct : t.Distinct) {k : Nat} {p : Parcel} (hk : t.wire[k]? = some p)
    (payloadCap : Int) (nowMs : UInt64) :
    (t.receive P cfg (some k) p.bytes payloadCap nowMs).Inv P cfg := by
  refine h.receive P ?_
  intro onPrev hs hheld hret
  obtain ⟨own, peer, n, outCap, e, hid, hends, hseal⟩ := h.wire p (List.mem_of_getElem? hk)
  have hnamed := h.accepting.held hheld
  obtain ⟨hindex, -⟩ := open_sealed_inv P hs4 hseal hret
  obtain ⟨hsame, rfl⟩ := hdistinct.unique hid hnamed (hends.index.symm.trans hindex)
  obtain ⟨hout, hcounter⟩ := open_sealed_of_ret P hs4 hends hseal hret
  rw [hout, hcounter, ← hsame]
  exact ⟨k, p, rfl, hk, rfl, rfl⟩

theorem Tunnel.Inv.stray {cfg : Config} {t : Tunnel} (h : t.Inv P cfg) {pkt : Bytes}
    {payloadCap : Int} (nowMs : UInt64)
    (hforged : ∀ hs ∈ installedIn t.run.log, (awgTransportOpen P cfg hs pkt payloadCap).ret < 0) :
    (t.receive P cfg none pkt payloadCap nowMs).Inv P cfg := by
  refine h.receive P ?_
  intro onPrev hs hheld hret
  have hmem := List.mem_of_getElem? (h.accepting.held hheld)
  exact absurd (hforged hs hmem) (by omega)

theorem Tunnel.Inv.start (cfg : Config) (draws : Fin 5 → Entropy) :
    (Tunnel.start cfg draws).Inv P cfg where
  accepting := AcceptInv.start cfg draws
  sealing := SealInv.start cfg draws
  wire := by simp [Tunnel.start]
  sent := by simp [Tunnel.start]
  logged := rfl
  delivered := ⟨[], .nil, List.nil_sublist _⟩

theorem Tunnel.Step.installed {cfg : Config} {t t' : Tunnel} (h : t.Step P cfg t') :
    ∃ more, installedIn t'.run.log = installedIn t.run.log ++ more := by
  cases h with
  | call op hcall =>
      refine ⟨[], ?_⟩
      rw [List.append_nil]
      cases op with
      | onDatagram => exact hcall.elim
      | buildData => exact (logSeal_places _ _).2.2.2
      | buildKeepalive => exact (logSeal_places _ _).2.2.2
      | init => rfl
      | buildInitiation => rfl
      | wipe => rfl
  | post => exact ⟨[], by rw [List.append_nil]⟩
  | arrive => exact (logRx_grows _ _).1
  | stray => exact (logRx_grows _ _).1

theorem Tunnel.Inv.step {cfg : Config} {t t' : Tunnel} (hs4 : 0 ≤ cfg.s4) (h : t.Inv P cfg)
    (hdistinct : t.Distinct) (hstep : t.Step P cfg t') : t'.Inv P cfg := by
  cases hstep with
  | call op hcall => exact h.call P hcall
  | post id hs peer payload bytes n outCap e hid hends hseal =>
      exact h.post P ⟨hs, peer, n, outCap, e, hid, hends, hseal⟩
  | arrive k p payloadCap nowMs hk => exact h.arrive P hs4 hdistinct hk payloadCap nowMs
  | stray pkt payloadCap nowMs hforged => exact h.stray P nowMs hforged

theorem Tunnel.Step.distinct {cfg : Config} {t t' : Tunnel} (h : t.Step P cfg t')
    (hdistinct : t'.Distinct) : t.Distinct := by
  obtain ⟨more, hinst⟩ := h.installed
  unfold Tunnel.Distinct at hdistinct ⊢
  rw [hinst, List.map_append] at hdistinct
  exact hdistinct.of_append_left

/-- The whole at every moment, as long as the indices drawn so far differ. -/
theorem Tunnel.Reachable.inv {cfg : Config} {draws : Fin 5 → Entropy} {t : Tunnel}
    (hs4 : 0 ≤ cfg.s4) (h : Tunnel.Reachable P cfg draws t) (hdistinct : t.Distinct) :
    t.Inv P cfg := by
  induction h with
  | start => exact Tunnel.Inv.start P cfg draws
  | step _ hstep ih =>
      have hbefore := hstep.distinct P hdistinct
      exact (ih hbefore).step P hs4 hbefore hstep

/-! ### What comes out

Two payloads that come out are two entries of the log, and the window takes a counter once.
So the keys of what came out are different, and each is the key of one packet on the wire.
-/

theorem exists_of_mem_left {α β : Type} {R : α → β → Prop} {as : List α} {bs : List β}
    (h : List.Forall₂ R as bs) {a : α} (ha : a ∈ as) : ∃ b ∈ bs, R a b := by
  induction h with
  | nil => simp at ha
  | cons hab _ ih =>
      rcases List.mem_cons.mp ha with rfl | hlater
      · exact ⟨_, List.mem_cons_self .., hab⟩
      · obtain ⟨b, hb, hR⟩ := ih hlater
        exact ⟨b, List.mem_cons_of_mem _ hb, hR⟩

theorem nodup_of_keys {α β γ : Type} {R : α → β → Prop} {f : α → γ}
    (hkey : ∀ a a' b b', R a b → R a' b' → f a = f a' → b = b') {as : List α} {bs : List β}
    (h : List.Forall₂ R as bs) (hnodup : bs.Nodup) : (as.map f).Nodup := by
  induction h with
  | nil => exact List.nodup_nil
  | cons hab hrest ih =>
      obtain ⟨hnot, hnodup⟩ := List.nodup_cons.mp hnodup
      refine List.nodup_cons.mpr ⟨?_, ih hnodup⟩
      intro hmem
      obtain ⟨a', ha', hf⟩ := List.mem_map.mp hmem
      obtain ⟨b', hb', hR⟩ := exists_of_mem_left hrest ha'
      rw [hkey _ _ _ _ hab hR hf.symm] at hnot
      exact hnot hb'

/-- Fewer than `2^64` packets have different keypairs or counters. -/
theorem SealInv.nodup {r : Run} (h : SealInv r) (hfew : (sealedIn r.log).length < 2 ^ 64) :
    (sealedIn r.log).Nodup := by
  refine nodup_of_countersOf fun id => ?_
  have hle : (countersOf (sealedIn r.log) id).length ≤ 2 ^ 64 := by
    have := List.length_filter_le (fun p : Nat × UInt64 => decide (p.1 = id)) (sealedIn r.log)
    simp only [countersOf, List.length_map]
    omega
  have hcount : (countersOf (sealedIn r.log) id).map UInt64.toNat
      = List.range (countersOf (sealedIn r.log) id).length := by
    conv_lhs => rw [h.counters id]
    exact toNat_map_ofNat_range hle
  refine List.Nodup.of_map UInt64.toNat ?_
  rw [hcount]
  exact List.nodup_range

/--
**The tunnel delivers what was sent, and each packet at most once.**  In every state the whole
can come to, however the network orders, repeats and drops, and whatever it makes up: every
payload that came out at the client's end is the payload of a packet the peer sent, zeros
added, and no packet's came out twice.  The other way, every packet the client handed to its
socket opens at the other end of its keypair to the payload it was built from, and no two
carry the same keypair and counter.
-/
theorem tunnel_delivers_once {cfg : Config} {draws : Fin 5 → Entropy} {t : Tunnel}
    (hs4 : 0 ≤ cfg.s4) (h : Tunnel.Reachable P cfg draws t) (hdistinct : t.Distinct) :
    (∀ d ∈ t.delivered, ∃ k p, d.1 = some k ∧ t.wire[k]? = some p ∧ d.2 = zeroPadded p.payload) ∧
      (t.delivered.map Prod.fst).Nodup ∧
      (∀ p ∈ t.sent, ∃ hs, (installedIn t.run.log)[p.id]? = some hs ∧
        ∀ (peer : Handshake) (openCap : Int), Mirrors hs peer →
          (paddedLen p.payload.length : Int) ≤ openCap →
          (awgTransportOpen P cfg peer p.bytes openCap).out = some (zeroPadded p.payload) ∧
            (awgTransportOpen P cfg peer p.bytes openCap).counter = some p.counter) ∧
      (t.sent.length < 2 ^ 64 → (t.sent.map Parcel.key).Nodup) := by
  have hinv := h.inv P hs4 hdistinct
  obtain ⟨keys, hfrom, hsub⟩ := hinv.delivered
  refine ⟨?_, ?_, ?_, ?_⟩
  · intro d hd
    obtain ⟨key, -, k, p, horigin, hk, hbytes, -⟩ := exists_of_mem_left hfrom hd
    exact ⟨k, p, horigin, hk, hbytes⟩
  · refine nodup_of_keys ?_ hfrom (hsub.nodup hinv.accepting.nodup)
    rintro a a' b b' ⟨k, p, ha, hk, -, rfl⟩ ⟨k', p', ha', hk', -, rfl⟩ hsame
    obtain rfl : k = k' := Option.some.inj (ha.symm.trans (hsame.trans ha'))
    rw [hk] at hk'
    rw [Option.some.inj hk']
  · intro p hp
    obtain ⟨hs, n, outCap, e, hid, hseal⟩ := hinv.sent p hp
    refine ⟨hs, hid, ?_⟩
    intro peer openCap hends hroom
    rw [(open_sealed P hs4 (nonce_fits_of_seal P hseal) hends hseal hroom).2]
    exact ⟨rfl, rfl⟩
  · intro hfew
    rw [hinv.logged]
    refine hinv.sealing.nodup ?_
    rwa [← hinv.logged, List.length_map]

/-! ### What gets through

Delivery needs more than safety: that the keys are there, that no handshake takes the
datagram for its own, and that the counter is one the window takes.  Under these the packet
goes all the way through.
-/

/-- The highest counter of the window is one that was accepted, or none was. -/
def CurTop (r : Run) : Prop :=
  r.sess.established = true →
    r.sess.curWindow.max = 0 ∨ r.sess.curWindow.max ∈ takenUnder r.log r.curId

theorem CurTop.keep {r : Run} (h : CurTop r) {s : Session} {g : ReplayDrop} {log : List KeyEvent}
    (hest : s.established = r.sess.established) (hwin : s.curWindow = r.sess.curWindow)
    (hgrows : ∃ more, acceptedIn log = acceptedIn r.log ++ more) :
    CurTop { r with sess := s, drop := g, log := log } := by
  intro he
  rcases h (hest ▸ he) with hzero | ⟨ctr, hmem, heq⟩
  · exact Or.inl (hwin ▸ hzero)
  · obtain ⟨more, hacc⟩ := hgrows
    refine Or.inr ⟨ctr, ?_, heq.trans (congrArg Window.max hwin.symm)⟩
    rw [hacc]
    exact List.mem_append_left _ hmem

theorem CurTop.logRx {r : Run} (h : CurTop r) {o : RxOutcome}
    (hstep : RxStep r.sess o.sess o.result o.opened) : CurTop (r.logRx o) := by
  obtain ⟨result, sess, drop, pkt, payload, opened⟩ := o
  dsimp only at hstep
  cases hstep with
  | quiet opened hcur hprev hcurWin hprevWin =>
      exact h.keep hcur.established hcurWin ⟨[], by simp⟩
  | install pending nowMs hsess =>
      intro _
      refine Or.inl ?_
      show sess.curWindow.max = 0
      rw [hsess]
      rfl
  | acceptCur result ctr hres hest hcur hprev hcurWin hprevWin =>
      have hafter : CurTop { r with
          sess := sess
          drop := drop
          log := r.log ++ [.accepted r.curId r.sess.cur ctr] } := by
        intro _
        have hmax := Window.max_of_offer hcurWin
        rcases Nat.le_total r.sess.curWindow.max ctr.toNat with hle | hle
        · refine Or.inr ⟨ctr, by simp, ?_⟩
          rw [hmax]
          exact (Nat.max_eq_right hle).symm
        · rw [Nat.max_eq_left hle] at hmax
          rcases h hest with hzero | ⟨old, hmem, heq⟩
          · exact Or.inl (hmax.trans hzero)
          · exact Or.inr ⟨old, by simp [hmem], heq.trans hmax.symm⟩
      rcases hres with rfl | rfl
      · exact hafter
      · exact hafter
  | acceptPrev result ctr hres hhave hcur hprev hcurWin hprevWin =>
      have hafter : CurTop { r with
          sess := sess
          drop := drop
          log := r.log ++ [.accepted r.prevId r.sess.prev ctr] } :=
        h.keep hcur.established hcurWin ⟨_, acceptedIn_accepted _ _ _ _⟩
      rcases hres with rfl | rfl
      · exact hafter
      · exact hafter

theorem CurTop.logSeal {r : Run} (h : CurTop r) {out : Session × Option (Int × Bytes)}
    (hstep : TxStep r.sess out) : CurTop (r.logSeal out) := by
  cases hstep with
  | failed => exact h
  | sent s' out hest hkeys hcounter =>
      exact h.keep hkeys.established hkeys.curWindow ⟨[], by simp⟩

theorem CurTop.step {r : Run} (h : CurTop r) (op : Op) : CurTop (r.step P op) := by
  cases op with
  | init cfg draws => exact fun he => Bool.noConfusion he
  | buildInitiation cfg outCap nowMs idx eph nanos pad nowSeconds =>
      obtain ⟨hkeys, -⟩ :=
        buildInitiation_step P cfg r.sess outCap nowMs idx eph nanos pad nowSeconds
      exact h.keep hkeys.established hkeys.curWindow ⟨[], by simp⟩
  | buildData cfg payload outCap nowMs e => exact h.logSeal (buildData_step P _ _ _ _ _ _)
  | buildKeepalive cfg outCap nowMs e => exact h.logSeal (buildKeepalive_step P _ _ _ _ _)
  | onDatagram cfg pkt payloadCap nowMs => exact h.logRx (onDatagram_step P _ _ _ _ _ _)
  | wipe => exact fun he => Bool.noConfusion he

theorem Tunnel.Reachable.curTop {cfg : Config} {draws : Fin 5 → Entropy} {t : Tunnel}
    (h : Tunnel.Reachable P cfg draws t) : CurTop t.run := by
  induction h with
  | start => exact fun he => Bool.noConfusion he
  | step _ hstep ih => cases hstep with
    | call op hcall => exact ih.step P op
    | post => exact ih
    | arrive => exact ih.logRx (onDatagram_step P _ _ _ _ _ _)
    | stray => exact ih.logRx (onDatagram_step P _ _ _ _ _ _)

/-- The window of `cur` takes just the fresh counters. -/
theorem fresh_iff {t : Tunnel} {p : Parcel} (haccept : AcceptInv t.run) (htop : CurTop t.run)
    (hest : t.run.sess.established = true) (hcur : p.id = t.run.curId) (g : ReplayDrop) :
    (replayOk g t.run.sess.rxWindowMax t.run.sess.rxWindowBits p.counter).fresh = true ↔
      t.Fresh p := by
  have htracks := haccept.curTracks hest
  have hoffer := replayOk_offer g t.run.sess.rxWindowMax t.run.sess.rxWindowBits p.counter
  have hsome := htracks.offer_isSome_iff (by omega) p.counter.toNat
  have htaken : p.counter.toNat ∈ takenUnder t.run.log t.run.curId ↔ p.key ∈ acceptedIn t.run.log := by
    constructor
    · rintro ⟨ctr, hmem, heq⟩
      rw [UInt64.toNat_inj.mp heq, ← hcur] at hmem
      exact hmem
    · intro hmem
      exact ⟨p.counter, by rw [← hcur]; exact hmem, rfl⟩
  have hreach : t.run.sess.curWindow.max < p.counter.toNat + 64 ↔
      ∀ q ∈ acceptedIn t.run.log, q.1 = p.id → q.2.toNat < p.counter.toNat + 64 := by
    constructor
    · intro hmax q hq hid
      have hle := htracks.le_max q.2.toNat ⟨q.2, by rw [← hcur, ← hid]; exact hq, rfl⟩
      omega
    · intro hall
      rcases htop hest with hzero | ⟨ctr, hmem, heq⟩
      · omega
      · have hlt := hall _ hmem hcur.symm
        rw [← heq]
        exact hlt
  rw [htaken, hreach] at hsome
  unfold Tunnel.Fresh
  rw [← hsome]
  show _ ↔ ((windowOf _ _).offer p.counter.toNat).isSome = true
  rw [hoffer]
  split
  · simp [*]
  · simp [*]

/-- Under `cur` the window decides. -/
theorem rxOpened_cur_result (g : ReplayDrop) (s : Session) {r : OpenResult} (hret : r.ret ≠ 0)
    (nowMs : UInt64) :
    (rxOpened g s r false nowMs).result
      = if (replayOk g s.rxWindowMax s.rxWindowBits (r.counter.getD 0)).fresh = true then .payload
        else .ignored := by
  unfold rxOpened
  dsimp only
  by_cases hfresh : (replayOk g s.rxWindowMax s.rxWindowBits (r.counter.getD 0)).fresh = true
  · simp [hfresh, hret]
  · simp [hfresh]

theorem expirePrev_rxWindow (s : Session) (nowMs : UInt64) :
    (s.expirePrev nowMs).rxWindowMax = s.rxWindowMax ∧
      (s.expirePrev nowMs).rxWindowBits = s.rxWindowBits := by
  unfold Session.expirePrev
  split
  · exact ⟨rfl, rfl⟩
  · exact ⟨rfl, rfl⟩

/--
**What is fresh gets through.**  A packet of the peer's under the client's current keypair that
arrives while the session holds the keys comes out, as it was sent, if it did not come out
before and fewer than 64 counters lie between it and the highest accepted; otherwise nothing
comes out.  (Not mistaken for the answer to a handshake, and with room for it.)
-/
theorem tunnel_delivers_in_window {cfg : Config} {draws : Fin 5 → Entropy} {t : Tunnel}
    (hs4 : 0 ≤ cfg.s4) (h : Tunnel.Reachable P cfg draws t) (hdistinct : t.Distinct) {k : Nat}
    {p : Parcel} (hk : t.wire[k]? = some p) (hest : t.run.sess.established = true)
    (hcur : p.id = t.run.curId) (hpayload : p.payload ≠ []) {payloadCap : Int}
    (hroom : (paddedLen p.payload.length : Int) ≤ payloadCap)
    (hanswer : ¬ (t.run.sess.handshaking = true ∧ (p.bytes.length : Int) = cfg.s2 + awgMsgRespSize))
    (nowMs : UInt64) :
    (t.receive P cfg (some k) p.bytes payloadCap nowMs).delivered
      = if t.Fresh p then t.delivered ++ [(some k, zeroPadded p.payload)] else t.delivered := by
  have hinv := h.inv P hs4 hdistinct
  obtain ⟨hs, peer, n, outCap, e, hid, hends, hseal⟩ := hinv.wire p (List.mem_of_getElem? hk)
  have hnamed := hinv.accepting.cur hest
  rw [hcur, hnamed] at hid
  obtain rfl := Option.some.inj hid
  obtain ⟨-, hopen⟩ := open_sealed P hs4 (nonce_fits_of_seal P hseal) hends hseal hroom
  have hsame := expirePrev_cur t.run.sess nowMs
  have hrx : awgSessionOnDatagram P cfg t.run.drop t.run.sess p.bytes payloadCap nowMs
      = rxOpened t.run.drop (t.run.sess.expirePrev nowMs)
        (awgTransportOpen P cfg t.run.sess.cur p.bytes payloadCap) false nowMs := by
    unfold awgSessionOnDatagram rxTransport
    dsimp only
    rw [if_neg hanswer, if_neg (by simp [hest]), hsame.1.cur, if_pos]
    rw [hopen]
    exact Int.natCast_nonneg _
  have hret : (awgTransportOpen P cfg t.run.sess.cur p.bytes payloadCap).ret ≠ 0 := by
    rw [hopen]
    have hpos := List.length_pos_iff.mpr hpayload
    have hle := le_paddedLen p.payload.length
    show (paddedLen p.payload.length : Int) ≠ 0
    omega
  have hresult := rxOpened_cur_result t.run.drop (t.run.sess.expirePrev nowMs) hret nowMs
  have hcontent := rxOpened_payload t.run.drop (t.run.sess.expirePrev nowMs)
    (awgTransportOpen P cfg t.run.sess.cur p.bytes payloadCap) false nowMs
  have hfresh := fresh_iff hinv.accepting (h.curTop P) hest hcur t.run.drop
  have hcounter : (awgTransportOpen P cfg t.run.sess.cur p.bytes payloadCap).counter.getD 0
      = p.counter := by rw [hopen]; rfl
  have hout : (awgTransportOpen P cfg t.run.sess.cur p.bytes payloadCap).out.getD []
      = zeroPadded p.payload := by rw [hopen]; rfl
  rw [(expirePrev_rxWindow _ _).1, (expirePrev_rxWindow _ _).2, hcounter] at hresult
  unfold Tunnel.receive
  rw [hrx]
  dsimp only
  by_cases hnew : t.Fresh p
  · rw [if_pos (hfresh.mpr hnew)] at hresult
    rw [if_pos hresult, if_pos hnew, (hcontent hresult).1, hout]
  · rw [if_neg (mt hfresh.mp hnew)] at hresult
    rw [if_neg (by rw [hresult]; exact RxResult.noConfusion), if_neg hnew]

/-! ### A tunnel that is up -/

/-- A handshake was begun and answered. -/
def upTunnel (cfg : Config) : Tunnel :=
  let m := startedMeeting cfg 0 10
  let t := Tunnel.start cfg fun _ _ => 0
  let t := { t with
    run := t.run.step P (.buildInitiation cfg m.outCap m.sentMs m.idx m.eph m.nanos m.pad
      m.nowSeconds) }
  t.receive P cfg none (m.reply P cfg) m.payloadCap m.answeredMs

theorem upTunnel_state (cfg : Config) (htalks : (startedMeeting cfg 0 10).Talks P cfg) :
    Tunnel.Reachable P cfg (fun _ _ => 0) (upTunnel P cfg) ∧
      installedIn (upTunnel P cfg).run.log = [(upTunnel P cfg).run.sess.cur] ∧
      (upTunnel P cfg).run.curId = 0 ∧ (upTunnel P cfg).run.sess.established = true ∧
      (upTunnel P cfg).run.sess.handshaking = false ∧ (upTunnel P cfg).wire = [] ∧
      (upTunnel P cfg).delivered = [] ∧ acceptedIn (upTunnel P cfg).run.log = [] := by
  let m := startedMeeting cfg 0 10
  let t : Tunnel := { Tunnel.start cfg fun _ _ => 0 with
    run := (Run.start cfg fun _ _ => 0).step P (.buildInitiation cfg m.outCap m.sentMs m.idx m.eph
      m.nanos m.pad m.nowSeconds) }
  have hresult : (m.answered P cfg (m.reply P cfg)).result = .established := (htalks.reply P).2
  obtain ⟨hest, hhandshaking, -⟩ := htalks.answered P
  have hrun : (upTunnel P cfg).run = t.run.logRx (m.answered P cfg (m.reply P cfg)) := rfl
  have hdelivered : (upTunnel P cfg).delivered
      = if (m.answered P cfg (m.reply P cfg)).result = .payload
        then [(none, (m.answered P cfg (m.reply P cfg)).payload)] else [] := rfl
  rw [logRx_established hresult] at hrun
  have hreach : Tunnel.Reachable P cfg (fun _ _ => 0) t := .step .start (.call _ rfl)
  refine ⟨?_, ?_, ?_, ?_, ?_, rfl, ?_, ?_⟩
  · refine .step hreach (.stray (m.reply P cfg) m.payloadCap m.answeredMs ?_)
    intro hs hmem
    exact absurd hmem List.not_mem_nil
  · rw [hrun]
    rfl
  · rw [hrun]
    rfl
  · rw [hrun]
    exact hest
  · rw [hrun]
    exact hhandshaking
  · rw [hdelivered, hresult]
    rfl
  · rw [hrun]
    rfl

/-- The peer sends three bytes. -/
def postedTunnel (cfg : Config) (bytes : Bytes) : Tunnel :=
  { upTunnel P cfg with wire := [⟨0, 0, [1, 2, 3], bytes⟩] }

theorem postedTunnel_run (cfg : Config) (bytes : Bytes) :
    (postedTunnel P cfg bytes).run = (upTunnel P cfg).run ∧
      (postedTunnel P cfg bytes).delivered = (upTunnel P cfg).delivered := ⟨rfl, rfl⟩

theorem postedTunnel_state (cfg : Config) (htalks : (startedMeeting cfg 0 10).Talks P cfg)
    (hs4 : cfg.s4 = 0) (hplain : cfg.haveHeaderProtection = false) :
    ∃ bytes, Tunnel.Reachable P cfg (fun _ _ => 0) (postedTunnel P cfg bytes) := by
  obtain ⟨hreach, hinst, -, -, -, hwire, -⟩ := upTunnel_state P cfg htalks
  let cur := (upTunnel P cfg).run.sess.cur
  let peer : Handshake := { Handshake.zero with
    sendKey := cur.recvKey
    remoteIndex := cur.localIndex }
  have hroom : cfg.s4 + 32 + paddedLen ([1, 2, 3] : Bytes).length ≤ 2048 := by
    simp [hs4, paddedLen]
  obtain ⟨n, bytes, hseal⟩ := seal_some P peer 0 (fun _ => 5) (by simp [hplain]) hroom
  refine ⟨bytes, .step hreach ?_⟩
  have hid : (installedIn (upTunnel P cfg).run.log)[0]? = some cur := by rw [hinst]; rfl
  exact .post 0 cur peer [1, 2, 3] bytes n 2048 (fun _ => 5) hid ⟨rfl, rfl⟩ hseal

theorem tunnel_delivers_in_window_posted :
    ∃ bytes, ((postedTunnel standardPrimitives (wordsConfig 1 2) bytes).receive standardPrimitives
      (wordsConfig 1 2) (some 0) bytes 2048 20).delivered
        = [(some 0, [1, 2, 3] ++ List.replicate 13 0)] := by
  have htalks := startedMeeting_talks 0 10
  obtain ⟨-, hinst, hcur, hest, hhandshaking, -, hdelivered, haccepted⟩ :=
    upTunnel_state standardPrimitives (wordsConfig 1 2) htalks
  have hs4 : (wordsConfig 1 2).s4 = 0 := by simp [wordsConfig, Config.default]
  have hplain : (wordsConfig 1 2).haveHeaderProtection = false := by
    simp [wordsConfig, Config.default]
  obtain ⟨bytes, hreach⟩ :=
    postedTunnel_state standardPrimitives (wordsConfig 1 2) htalks hs4 hplain
  obtain ⟨hrun, hsame⟩ := postedTunnel_run standardPrimitives (wordsConfig 1 2) bytes
  have hdistinct : (postedTunnel standardPrimitives (wordsConfig 1 2) bytes).Distinct := by
    rw [Tunnel.Distinct, hrun, hinst]
    exact List.nodup_singleton _
  have hfresh : (postedTunnel standardPrimitives (wordsConfig 1 2) bytes).Fresh
      ⟨0, 0, [1, 2, 3], bytes⟩ := by
    rw [Tunnel.Fresh, hrun, haccepted]
    exact ⟨List.not_mem_nil, fun q hq => absurd hq List.not_mem_nil⟩
  rw [← hrun] at hest hhandshaking hcur
  have hroom : (paddedLen ([1, 2, 3] : Bytes).length : Int) ≤ 2048 := by simp [paddedLen]
  have hout := tunnel_delivers_in_window standardPrimitives (le_of_eq hs4.symm) hreach hdistinct
    (k := 0) (p := ⟨0, 0, [1, 2, 3], bytes⟩) rfl hest hcur.symm (by simp) hroom
    (by rw [hhandshaking]; simp) 20
  rw [if_pos hfresh] at hout
  refine ⟨bytes, hout.trans ?_⟩
  rw [hsame, hdelivered]
  simp [zeroPadded, paddedLen]

/-- Without a handshake outstanding nothing is installed, and none becomes outstanding. -/
theorem onDatagram_idle {s : Session} (h : s.handshaking = false) (cfg : Config) (g : ReplayDrop)
    (pkt : Bytes) (payloadCap : Int) (nowMs : UInt64) :
    (awgSessionOnDatagram P cfg g s pkt payloadCap nowMs).sess.handshaking = false ∧
      (awgSessionOnDatagram P cfg g s pkt payloadCap nowMs).result ≠ .established := by
  unfold awgSessionOnDatagram
  rw [if_neg (by simp [h])]
  split
  · exact ⟨h, RxResult.noConfusion⟩
  · obtain ⟨-, hsame, hresult⟩ := rxTransport_pending P cfg g s pkt payloadCap nowMs
    exact ⟨hsame.trans h, hresult⟩

theorem receive_idle (cfg : Config) {t : Tunnel} (h : t.run.sess.handshaking = false)
    (origin : Option Nat) (pkt : Bytes) (payloadCap : Int) (nowMs : UInt64) :
    (t.receive P cfg origin pkt payloadCap nowMs).run.sess.handshaking = false ∧
      installedIn (t.receive P cfg origin pkt payloadCap nowMs).run.log
        = installedIn t.run.log := by
  obtain ⟨hidle, hresult⟩ := onDatagram_idle P h cfg t.run.drop pkt payloadCap nowMs
  refine ⟨?_, (logRx_other hresult).2.2⟩
  have hsess : (t.receive P cfg origin pkt payloadCap nowMs).run.sess
      = (awgSessionOnDatagram P cfg t.run.drop t.run.sess pkt payloadCap nowMs).sess := logRx_sess _ _
  rw [hsess]
  exact hidle

/-- The datagram of the three bytes arrives, and then once more. -/
def repeatedTunnel (cfg : Config) (bytes : Bytes) : Tunnel :=
  ((postedTunnel P cfg bytes).receive P cfg (some 0) bytes 2048 20).receive P cfg (some 0) bytes
    2048 21

theorem tunnel_delivers_once_posted :
    ∃ bytes, Tunnel.Reachable standardPrimitives (wordsConfig 1 2) (fun _ _ => 0)
        (repeatedTunnel standardPrimitives (wordsConfig 1 2) bytes) ∧
      ((repeatedTunnel standardPrimitives (wordsConfig 1 2) bytes).delivered.map Prod.fst).Nodup := by
  have htalks := startedMeeting_talks 0 10
  obtain ⟨-, hinst, -, -, hhandshaking, -, -, -⟩ :=
    upTunnel_state standardPrimitives (wordsConfig 1 2) htalks
  have hs4 : (wordsConfig 1 2).s4 = 0 := by simp [wordsConfig, Config.default]
  have hplain : (wordsConfig 1 2).haveHeaderProtection = false := by
    simp [wordsConfig, Config.default]
  obtain ⟨bytes, hposted⟩ :=
    postedTunnel_state standardPrimitives (wordsConfig 1 2) htalks hs4 hplain
  obtain ⟨hrun, -⟩ := postedTunnel_run standardPrimitives (wordsConfig 1 2) bytes
  rw [← hrun] at hinst hhandshaking
  obtain ⟨hidle, honce⟩ := receive_idle standardPrimitives (wordsConfig 1 2) hhandshaking (some 0)
    bytes 2048 20
  obtain ⟨-, htwice⟩ := receive_idle standardPrimitives (wordsConfig 1 2) hidle (some 0) bytes
    2048 21
  have hreach := (hposted.step (.arrive 0 ⟨0, 0, [1, 2, 3], bytes⟩ 2048 20 rfl)).step
    (.arrive 0 ⟨0, 0, [1, 2, 3], bytes⟩ 2048 21 rfl)
  have hdistinct : (repeatedTunnel standardPrimitives (wordsConfig 1 2) bytes).Distinct := by
    rw [Tunnel.Distinct, repeatedTunnel, htwice, honce, hinst]
    exact List.nodup_singleton _
  exact ⟨bytes, hreach,
    (tunnel_delivers_once standardPrimitives (le_of_eq hs4.symm) hreach hdistinct).2.1⟩

end SysAwg
