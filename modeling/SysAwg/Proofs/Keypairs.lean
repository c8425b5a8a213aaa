/-
No nonce is used twice, and no packet is accepted twice.

Both are statements about whole runs, and both come down to how the log and the
session move together.  Sending: the counters sealed under the keypair in `cur` are
the numbers up to `tx_counter`, and a new keypair has sealed nothing.  Receiving:
each of the two windows knows exactly the counters accepted under its keypair, and
moves to `prev` with it.  `SealInv` and `AcceptInv` say this; a step keeps each, by
cases on what a step can do.
-/
import SysAwg.Proofs.Outstanding
import SysAwg.Proofs.SessionSteps
import Mathlib.Data.List.Range
import Mathlib.Algebra.Order.Group.Nat

namespace SysAwg

variable (P : Primitives)

/-! ### Reading the log -/

section Log

variable (log : List KeyEvent) (id id' : Nat) (hs : Handshake) (ctr : UInt64)

@[simp] theorem installedIn_installed :
    installedIn (log ++ [.installed hs]) = installedIn log ++ [hs] := by
  simp [installedIn]

@[simp] theorem installedIn_sealedWith :
    installedIn (log ++ [.sealedWith id hs ctr]) = installedIn log := by
  simp [installedIn]

@[simp] theorem installedIn_accepted :
    installedIn (log ++ [.accepted id hs ctr]) = installedIn log := by
  simp [installedIn]

@[simp] theorem sealedIn_installed : sealedIn (log ++ [.installed hs]) = sealedIn log := by
  simp [sealedIn]

@[simp] theorem sealedIn_sealedWith :
    sealedIn (log ++ [.sealedWith id hs ctr]) = sealedIn log ++ [(id, ctr)] := by
  simp [sealedIn]

@[simp] theorem sealedIn_accepted :
    sealedIn (log ++ [.accepted id hs ctr]) = sealedIn log := by
  simp [sealedIn]

@[simp] theorem acceptedIn_installed : acceptedIn (log ++ [.installed hs]) = acceptedIn log := by
  simp [acceptedIn]

@[simp] theorem acceptedIn_sealedWith :
    acceptedIn (log ++ [.sealedWith id hs ctr]) = acceptedIn log := by
  simp [acceptedIn]

@[simp] theorem acceptedIn_accepted :
    acceptedIn (log ++ [.accepted id hs ctr]) = acceptedIn log ++ [(id, ctr)] := by
  simp [acceptedIn]

theorem countersOf_append (pairs : List (Nat × UInt64)) :
    countersOf (pairs ++ [(id, ctr)]) id'
      = if id = id' then countersOf pairs id' ++ [ctr] else countersOf pairs id' := by
  by_cases h : id = id' <;> simp [countersOf, h]

theorem countersOf_eq_nil {pairs : List (Nat × UInt64)} (h : ∀ p ∈ pairs, p.1 ≠ id) :
    countersOf pairs id = [] := by
  simp only [countersOf, List.map_eq_nil_iff, List.filter_eq_nil_iff, decide_eq_true_eq]
  exact h

end Log

/-- An index into the installed keypairs survives a further installation. -/
theorem getElem?_installed_mono {l : List Handshake} {i : Nat} {hs : Handshake}
    (h : l[i]? = some hs) (x : Handshake) : (l ++ [x])[i]? = some hs := by
  have hlt : i < l.length := (List.getElem?_eq_some_iff.mp h).1
  rw [List.getElem?_append_left hlt, h]

/-! ### What a datagram is logged as

Whatever a datagram does, it does one of three things to keypairs and windows: nothing, take
a packet, or install the keypair of a handshake.  The log gets an entry in the last two
cases.
-/

theorem logRx_established {r : Run} {o : RxOutcome} (h : o.result = .established) :
    r.logRx o = ⟨o.sess, o.drop, (installedIn r.log).length,
      if r.sess.established then r.curId else r.prevId, r.log ++ [.installed o.sess.cur]⟩ := by
  unfold Run.logRx
  rw [h]

theorem logRx_other {r : Run} {o : RxOutcome} (h : o.result ≠ .established) :
    (r.logRx o).curId = r.curId ∧ (r.logRx o).prevId = r.prevId ∧
      installedIn (r.logRx o).log = installedIn r.log := by
  unfold Run.logRx
  dsimp only
  split
  · rename_i hresult
    exact absurd hresult h
  · exact ⟨rfl, rfl, rfl⟩
  · rename_i onPrev counter _ _ _
    cases onPrev
    · exact ⟨rfl, rfl, by simp⟩
    · exact ⟨rfl, rfl, by simp⟩
  · exact ⟨rfl, rfl, rfl⟩

theorem logRx_sealed (r : Run) (o : RxOutcome) : sealedIn (r.logRx o).log = sealedIn r.log := by
  unfold Run.logRx
  dsimp only
  split
  · simp
  · rfl
  · rename_i onPrev counter _ _ _
    cases onPrev
    · simp
    · simp
  · rfl

/-! ### Sending

The counter in the session and the counters in the log advance together.  A keypair changes
only when another one is installed, and that one starts at zero with nothing logged under
it.
-/

/-- What sending depends on. -/
structure SealInv (r : Run) : Prop where
  /-- `cur` holds the keypair its number names. -/
  cur : r.sess.established = true → (installedIn r.log)[r.curId]? = some r.sess.cur
  /-- Packets were sealed under installed keypairs only. -/
  ids : ∀ p ∈ sealedIn r.log, p.1 < (installedIn r.log).length
  /-- The counters under one keypair count up from zero. -/
  counters : ∀ id, countersOf (sealedIn r.log) id
    = (List.range (countersOf (sealedIn r.log) id).length).map UInt64.ofNat
  /-- `tx_counter` is the next counter of `cur`. -/
  next : r.sess.established = true →
    r.sess.txCounter = UInt64.ofNat (countersOf (sealedIn r.log) r.curId).length
  /-- A logged packet was sealed under the keypair its number names. -/
  named : ∀ id hs ctr, KeyEvent.sealedWith id hs ctr ∈ r.log → (installedIn r.log)[id]? = some hs

theorem SealInv.start (cfg : Config) (draws : Fin 5 → Entropy) : SealInv (Run.start cfg draws) where
  cur := fun h => Bool.noConfusion h
  ids := by simp [Run.start, sealedIn]
  counters := by simp [Run.start, sealedIn, countersOf]
  next := fun h => Bool.noConfusion h
  named := by simp [Run.start]

theorem SealInv.forget {r : Run} (h : SealInv r) {s : Session} (hs : s.established = false) :
    SealInv { r with sess := s } where
  cur := fun hest => by rw [hs] at hest; cases hest
  ids := h.ids
  counters := h.counters
  next := fun hest => by rw [hs] at hest; cases hest
  named := h.named

/-- Nothing about `cur` changed, and nothing about sending was logged. -/
theorem SealInv.keep {r : Run} (h : SealInv r) {s : Session} {g : ReplayDrop}
    (hcur : CurKept r.sess s) {log : List KeyEvent} (hinst : installedIn log = installedIn r.log)
    (hseal : sealedIn log = sealedIn r.log)
    (hmem : ∀ id hs ctr, KeyEvent.sealedWith id hs ctr ∈ log → .sealedWith id hs ctr ∈ r.log) :
    SealInv { r with sess := s, drop := g, log := log } where
  cur := by
    intro hest
    rw [hcur.established] at hest
    rw [hinst, hcur.cur]
    exact h.cur hest
  ids := by
    rw [hinst, hseal]
    exact h.ids
  counters := by
    rw [hseal]
    exact h.counters
  next := by
    intro hest
    rw [hcur.established] at hest
    rw [hseal, hcur.txCounter]
    exact h.next hest
  named := by
    intro id hs ctr hlog
    rw [hinst]
    exact h.named id hs ctr (hmem id hs ctr hlog)

/-- A packet sealed under `cur` takes the next number. -/
theorem SealInv.logSeal {r : Run} (h : SealInv r) {out : Session × Option (Int × Bytes)}
    (hstep : TxStep r.sess out) : SealInv (r.logSeal out) := by
  cases hstep with
  | failed => exact h
  | sent s' out hest hkeys hcounter =>
      have hcur := h.cur hest
      have hlen : ∀ id, (countersOf (sealedIn r.log ++ [(r.curId, r.sess.txCounter)]) id).length
          = (countersOf (sealedIn r.log) id).length + if r.curId = id then 1 else 0 := by
        intro id
        rw [countersOf_append]
        split <;> simp
      simp only [Run.logSeal]
      refine ⟨?_, ?_, ?_, ?_, ?_⟩
      · intro _
        simpa [hkeys.cur] using hcur
      · intro p hp
        simp only [sealedIn_sealedWith, List.mem_append, List.mem_singleton,
          installedIn_sealedWith] at hp ⊢
        rcases hp with hp | rfl
        · exact h.ids p hp
        · exact (List.getElem?_eq_some_iff.mp hcur).1
      · intro id
        simp only [sealedIn_sealedWith]
        rw [hlen, countersOf_append]
        by_cases hid : r.curId = id
        · subst hid
          simp only [if_true, List.range_succ, List.map_append, List.map_cons, List.map_nil]
          rw [← h.counters, h.next hest]
        · simp only [hid, if_false, Nat.add_zero]
          exact h.counters id
      · intro _
        simp only [sealedIn_sealedWith]
        rw [hlen, hcounter, h.next hest]
        simp
      · intro id hs ctr hmem
        simp only [List.mem_append, List.mem_singleton, installedIn_sealedWith] at hmem ⊢
        rcases hmem with hmem | heq
        · exact h.named id hs ctr hmem
        · cases heq
          exact hcur

/-- A keypair that was just installed has sealed nothing yet. -/
theorem SealInv.install {r : Run} (h : SealInv r) {s : Session} {g : ReplayDrop} {prevId : Nat}
    (hzero : s.txCounter = 0) :
    SealInv ⟨s, g, (installedIn r.log).length, prevId, r.log ++ [.installed s.cur]⟩ where
  cur := by simp
  ids := by
    intro p hp
    have := h.ids p (by simpa using hp)
    simp only [installedIn_installed, List.length_append, List.length_singleton]
    omega
  counters := by simpa using h.counters
  next := by
    intro _
    have hnone : countersOf (sealedIn r.log) (installedIn r.log).length = [] :=
      countersOf_eq_nil _ fun p hp => Nat.ne_of_lt (h.ids p hp)
    simp [hzero, hnone]
  named := by
    intro id hs ctr hmem
    have hold : KeyEvent.sealedWith id hs ctr ∈ r.log := by simpa using hmem
    rw [installedIn_installed]
    exact getElem?_installed_mono (h.named id hs ctr hold) _

theorem SealInv.logRx {r : Run} (h : SealInv r) {o : RxOutcome}
    (hstep : RxStep r.sess o.sess o.result o.opened) : SealInv (r.logRx o) := by
  obtain ⟨result, sess, drop, pkt, payload, opened⟩ := o
  dsimp only at hstep
  cases hstep with
  | quiet opened hcur _ _ _ => exact h.keep hcur rfl rfl fun _ _ _ hm => hm
  | install pending nowMs hsess =>
      subst hsess
      exact h.install rfl
  | acceptCur result ctr hres _ hcur _ _ _ =>
      rcases hres with rfl | rfl
      · exact h.keep hcur (by simp) (by simp) (by simp)
      · exact h.keep hcur (by simp) (by simp) (by simp)
  | acceptPrev result ctr hres _ hcur _ _ _ =>
      rcases hres with rfl | rfl
      · exact h.keep hcur (by simp) (by simp) (by simp)
      · exact h.keep hcur (by simp) (by simp) (by simp)

theorem SealInv.step {r : Run} (h : SealInv r) (op : Op) : SealInv (r.step P op) := by
  cases op with
  | init cfg draws => exact h.forget rfl
  | buildInitiation cfg outCap nowMs idx eph nanos pad nowSeconds =>
      obtain ⟨hkeys, hctr⟩ :=
        buildInitiation_step P cfg r.sess outCap nowMs idx eph nanos pad nowSeconds
      exact h.keep ⟨hkeys.cur, hkeys.established, hctr⟩ rfl rfl fun _ _ _ hm => hm
  | buildData cfg payload outCap nowMs e => exact h.logSeal (buildData_step P _ _ _ _ _ _)
  | buildKeepalive cfg outCap nowMs e => exact h.logSeal (buildKeepalive_step P _ _ _ _ _)
  | onDatagram cfg pkt payloadCap nowMs => exact h.logRx (onDatagram_step P _ _ _ _ _ _)
  | wipe => exact h.forget rfl

theorem SealInv.exec {r : Run} (h : SealInv r) (ops : List Op) : SealInv (r.exec P ops) :=
  List.foldlRecOn ops _ h fun _ hr op _ => hr.step P op

/-- Pairs are distinct as soon as the counters under each keypair are. -/
theorem nodup_of_countersOf {pairs : List (Nat × UInt64)}
    (h : ∀ id, (countersOf pairs id).Nodup) : pairs.Nodup := by
  induction pairs with
  | nil => exact List.nodup_nil
  | cons p pairs ih =>
      have hcons : ∀ id, countersOf (p :: pairs) id
          = if p.1 = id then p.2 :: countersOf pairs id else countersOf pairs id := by
        intro id
        by_cases hid : p.1 = id <;> simp [countersOf, hid]
      refine List.nodup_cons.mpr ⟨?_, ih fun id => ?_⟩
      · intro hmem
        have hdup := h p.1
        rw [hcons, if_pos rfl, List.nodup_cons] at hdup
        apply hdup.1
        simp only [countersOf, List.mem_map, List.mem_filter, decide_eq_true_eq]
        exact ⟨p, ⟨hmem, rfl⟩, rfl⟩
      · have hid := h id
        rw [hcons] at hid
        split at hid
        · exact (List.nodup_cons.mp hid).2
        · exact hid

/-- The first `2^64` counters are distinct. -/
theorem toNat_map_ofNat_range {n : Nat} (h : n ≤ 2 ^ 64) :
    ((List.range n).map UInt64.ofNat).map UInt64.toNat = List.range n := by
  rw [List.map_map]
  conv_rhs => rw [← List.map_id (List.range n)]
  refine List.map_congr_left ?_
  intro i hi
  have hlt : i < 2 ^ 64 := (List.mem_range.mp hi).trans_le h
  simpa using hlt

/--
**No nonce is used twice.**  In every run with fewer than `2^64` sealed packets, no
two of them share keypair and counter.  Under each keypair the counters are
`0, 1, 2, …` in order, and a packet's number names the keypair it was sealed under.
-/
theorem nonces_never_repeat (cfg : Config) (draws : Fin 5 → Entropy) (ops : List Op)
    (hfew : (sealedIn ((Run.start cfg draws).exec P ops).log).length < 2 ^ 64) :
    (sealedIn ((Run.start cfg draws).exec P ops).log).Nodup ∧
    (∀ id, (countersOf (sealedIn ((Run.start cfg draws).exec P ops).log) id).map UInt64.toNat
      = List.range (countersOf (sealedIn ((Run.start cfg draws).exec P ops).log) id).length) ∧
    (∀ id hs ctr, KeyEvent.sealedWith id hs ctr ∈ ((Run.start cfg draws).exec P ops).log →
      (installedIn ((Run.start cfg draws).exec P ops).log)[id]? = some hs) := by
  have hinv := (SealInv.start cfg draws).exec P ops
  set log := ((Run.start cfg draws).exec P ops).log with hlog
  have hcount : ∀ id, (countersOf (sealedIn log) id).map UInt64.toNat
      = List.range (countersOf (sealedIn log) id).length := by
    intro id
    have hle : (countersOf (sealedIn log) id).length ≤ 2 ^ 64 := by
      have := List.length_filter_le (fun p : Nat × UInt64 => decide (p.1 = id)) (sealedIn log)
      simp only [countersOf, List.length_map]
      omega
    conv_lhs => rw [hinv.counters id]
    exact toNat_map_ofNat_range hle
  refine ⟨nodup_of_countersOf fun id => ?_, hcount, hinv.named⟩
  have hnd : ((countersOf (sealedIn log) id).map UInt64.toNat).Nodup := by
    rw [hcount id]
    exact List.nodup_range
  exact hnd.of_map _

/-- Every operation adds at most one entry to the log. -/
theorem Run.log_length_step (r : Run) (op : Op) : (r.step P op).log.length ≤ r.log.length + 1 := by
  have hseal : ∀ out, (r.logSeal out).log.length ≤ r.log.length + 1 := by
    rintro ⟨s, _ | _⟩ <;> simp [Run.logSeal]
  have hrx : ∀ o, (r.logRx o).log.length ≤ r.log.length + 1 := by
    intro o
    unfold Run.logRx
    dsimp only
    split <;> simp
  cases op with
  | init cfg draws => exact Nat.le_succ _
  | buildInitiation cfg outCap nowMs idx eph nanos pad nowSeconds => exact Nat.le_succ _
  | buildData cfg payload outCap nowMs e => exact hseal _
  | buildKeepalive cfg outCap nowMs e => exact hseal _
  | onDatagram cfg pkt payloadCap nowMs => exact hrx _
  | wipe => exact Nat.le_succ _

/-- A run seals no more packets than it has operations, so fewer than `2^64` of these
suffice. -/
theorem Run.sealed_length_exec (r : Run) (ops : List Op) :
    (sealedIn (r.exec P ops).log).length ≤ r.log.length + ops.length := by
  have hlog : (r.exec P ops).log.length ≤ r.log.length + ops.length := by
    induction ops generalizing r with
    | nil => exact le_rfl
    | cons op ops ih =>
        have hrest := ih (r.step P op)
        have hone := r.log_length_step P op
        show ((r.step P op).exec P ops).log.length ≤ _
        simp only [List.length_cons]
        omega
  exact (List.length_filterMap_le _ _).trans hlog

/-- The client of the handshake above. -/
def sampleConfig : Config :=
  { Config.default with
    privateKey := waitingHandshake.sPriv
    peerPublicKey := waitingHandshake.peerPub }

/-- An initiation, the peer's answer, a packet and a keepalive. -/
def sampleOps : List Op :=
  [.buildInitiation sampleConfig 2048 0 (fun i => if i = 0 then 7 else 0)
      (fun i => UInt8.ofNat (i + 65)) (fun _ => 0) (fun _ => 0) 1700000000,
    .onDatagram sampleConfig genuineAnswer 2048 10,
    .buildData sampleConfig [1, 2, 3] 2048 20 (fun _ => 5),
    .buildKeepalive sampleConfig 2048 30 (fun _ => 6)]

theorem nonces_never_repeat_sample :
    (sealedIn ((Run.start sampleConfig fun _ _ => 0).exec standardPrimitives sampleOps).log).Nodup := by
  have hlen := Run.sealed_length_exec standardPrimitives (Run.start sampleConfig fun _ _ => 0)
    sampleOps
  exact (nonces_never_repeat standardPrimitives _ _ _ (hlen.trans_lt (by decide))).1

/-! ### Receiving

The two windows belong to the keypairs in `cur` and `prev`, and each knows exactly what was
accepted under its own.  A rekey moves a keypair and its window at once, so what was
accepted before it is still refused after it.
-/

/-- The counters accepted under one keypair. -/
def takenUnder (log : List KeyEvent) (id : Nat) : Set Nat :=
  {c | ∃ ctr, (id, ctr) ∈ acceptedIn log ∧ ctr.toNat = c}

theorem takenUnder_accepted (log : List KeyEvent) (id id' : Nat) (hs : Handshake) (ctr : UInt64) :
    takenUnder (log ++ [.accepted id hs ctr]) id'
      = if id = id' then insert ctr.toNat (takenUnder log id') else takenUnder log id' := by
  ext c
  by_cases hid : id = id'
  · subst hid
    simp only [takenUnder, acceptedIn_accepted, List.mem_append, List.mem_singleton,
      Prod.mk.injEq, true_and, Set.mem_ofPred_eq, if_true, Set.mem_insert_iff]
    constructor
    · rintro ⟨x, hx | rfl, rfl⟩
      · exact .inr ⟨x, hx, rfl⟩
      · exact .inl rfl
    · rintro (rfl | ⟨x, hx, rfl⟩)
      · exact ⟨ctr, .inr rfl, rfl⟩
      · exact ⟨x, .inl hx, rfl⟩
  · have hne : ∀ x : UInt64, ¬ (id' = id ∧ x = ctr) := fun x h => hid h.1.symm
    simp [takenUnder, hid, hne]

/-- What receiving depends on. -/
structure AcceptInv (r : Run) : Prop where
  /-- `cur` holds the keypair its number names. -/
  cur : r.sess.established = true → (installedIn r.log)[r.curId]? = some r.sess.cur
  /-- So does `prev`. -/
  prev : r.sess.havePrev = true → (installedIn r.log)[r.prevId]? = some r.sess.prev
  /-- There is no `prev` without a `cur`, and they are different keypairs. -/
  older : r.sess.havePrev = true → r.sess.established = true ∧ r.prevId < r.curId
  /-- Packets were accepted under installed keypairs only. -/
  ids : ∀ p ∈ acceptedIn r.log, p.1 < (installedIn r.log).length
  /-- The window of `cur` knows the counters accepted under it. -/
  curTracks : r.sess.established = true → r.sess.curWindow.Tracks (takenUnder r.log r.curId)
  /-- So does the window of `prev`. -/
  prevTracks : r.sess.havePrev = true → r.sess.prevWindow.Tracks (takenUnder r.log r.prevId)
  /-- No counter was accepted twice under one keypair. -/
  nodup : (acceptedIn r.log).Nodup
  /-- A logged packet was accepted under the keypair its number names. -/
  named : ∀ id hs ctr, KeyEvent.accepted id hs ctr ∈ r.log → (installedIn r.log)[id]? = some hs

theorem AcceptInv.start (cfg : Config) (draws : Fin 5 → Entropy) :
    AcceptInv (Run.start cfg draws) where
  cur := fun h => Bool.noConfusion h
  prev := fun h => Bool.noConfusion h
  older := fun h => Bool.noConfusion h
  ids := by simp [Run.start, acceptedIn]
  curTracks := fun h => Bool.noConfusion h
  prevTracks := fun h => Bool.noConfusion h
  nodup := by simp [Run.start, acceptedIn]
  named := by simp [Run.start]

theorem AcceptInv.forget {r : Run} (h : AcceptInv r) {s : Session} (hs : s.established = false)
    (hp : s.havePrev = false) : AcceptInv { r with sess := s } where
  cur := fun hest => by rw [hs] at hest; cases hest
  prev := fun hhave => by rw [hp] at hhave; cases hhave
  older := fun hhave => by rw [hp] at hhave; cases hhave
  ids := h.ids
  curTracks := fun hest => by rw [hs] at hest; cases hest
  prevTracks := fun hhave => by rw [hp] at hhave; cases hhave
  nodup := h.nodup
  named := h.named

/-- Both keypairs stay with their windows, and nothing about receiving was logged. -/
theorem AcceptInv.keep {r : Run} (h : AcceptInv r) {s : Session} {g : ReplayDrop}
    {log : List KeyEvent} (hinst : installedIn log = installedIn r.log)
    (hacc : acceptedIn log = acceptedIn r.log)
    (hmem : ∀ id hs ctr, KeyEvent.accepted id hs ctr ∈ log → .accepted id hs ctr ∈ r.log)
    (hcur : s.cur = r.sess.cur) (hest : s.established = r.sess.established)
    (hprev : PrevKept r.sess s) (hcurWin : s.curWindow = r.sess.curWindow)
    (hprevWin : s.havePrev = true → s.prevWindow = r.sess.prevWindow) :
    AcceptInv { r with sess := s, drop := g, log := log } := by
  have htaken : ∀ id, takenUnder log id = takenUnder r.log id := by
    intro id
    simp only [takenUnder, hacc]
  refine ⟨?_, ?_, ?_, ?_, ?_, ?_, ?_, ?_⟩
  · intro he
    rw [hinst, hcur]
    exact h.cur (hest ▸ he)
  · intro hh
    rw [hinst, (hprev hh).2]
    exact h.prev (hprev hh).1
  · intro hh
    obtain ⟨he, hlt⟩ := h.older (hprev hh).1
    exact ⟨hest.trans he, hlt⟩
  · rw [hacc, hinst]
    exact h.ids
  · intro he
    rw [hcurWin, htaken]
    exact h.curTracks (hest ▸ he)
  · intro hh
    rw [hprevWin hh, htaken]
    exact h.prevTracks (hprev hh).1
  · rw [hacc]
    exact h.nodup
  · intro id hs ctr hlog
    rw [hinst]
    exact h.named id hs ctr (hmem id hs ctr hlog)

/-- A counter that is new under an installed keypair is accepted; the windows must say so. -/
theorem AcceptInv.accept {r : Run} (h : AcceptInv r) {s : Session} {g : ReplayDrop} {id : Nat}
    {hs : Handshake} {ctr : UInt64} (hname : (installedIn r.log)[id]? = some hs)
    (hnew : ctr.toNat ∉ takenUnder r.log id) (hcur : CurKept r.sess s)
    (hprev : PrevKept r.sess s)
    (hcurT : s.established = true →
      s.curWindow.Tracks (takenUnder (r.log ++ [.accepted id hs ctr]) r.curId))
    (hprevT : s.havePrev = true →
      s.prevWindow.Tracks (takenUnder (r.log ++ [.accepted id hs ctr]) r.prevId)) :
    AcceptInv { r with sess := s, drop := g, log := r.log ++ [.accepted id hs ctr] } where
  cur := by
    intro he
    rw [installedIn_accepted, hcur.cur]
    exact h.cur (hcur.established ▸ he)
  prev := by
    intro hh
    rw [installedIn_accepted, (hprev hh).2]
    exact h.prev (hprev hh).1
  older := by
    intro hh
    obtain ⟨he, hlt⟩ := h.older (hprev hh).1
    exact ⟨hcur.established.trans he, hlt⟩
  ids := by
    intro p hp
    rw [installedIn_accepted]
    rw [acceptedIn_accepted, List.mem_append, List.mem_singleton] at hp
    rcases hp with hp | rfl
    · exact h.ids p hp
    · exact (List.getElem?_eq_some_iff.mp hname).1
  curTracks := hcurT
  prevTracks := hprevT
  nodup := by
    rw [acceptedIn_accepted]
    refine List.nodup_append.mpr ⟨h.nodup, List.nodup_singleton _, ?_⟩
    intro a ha b hb hab
    rw [List.mem_singleton] at hb
    subst hab hb
    exact hnew ⟨ctr, ha, rfl⟩
  named := by
    intro id' hs' ctr' hmem
    rw [installedIn_accepted]
    rw [List.mem_append, List.mem_singleton] at hmem
    rcases hmem with hmem | heq
    · exact h.named id' hs' ctr' hmem
    · cases heq
      exact hname

/-- A keypair that was just installed has accepted nothing, and the one it replaces
takes its window along. -/
theorem AcceptInv.install {r : Run} (h : AcceptInv r) {s : Session} {g : ReplayDrop}
    {pending : Handshake} {nowMs : UInt64}
    (hs : s = { r.sess with pending := pending }.promote nowMs) :
    AcceptInv ⟨s, g, (installedIn r.log).length, if r.sess.established then r.curId else r.prevId,
      r.log ++ [.installed s.cur]⟩ := by
  have htaken : ∀ id, takenUnder (r.log ++ [.installed s.cur]) id = takenUnder r.log id := by
    intro id
    simp only [takenUnder, acceptedIn_installed]
  have hnone : takenUnder r.log (installedIn r.log).length = ∅ := by
    ext c
    simp only [Set.mem_empty_iff_false, iff_false]
    rintro ⟨ctr, hmem, -⟩
    exact absurd (h.ids _ hmem) (lt_irrefl _)
  -- A `prev` afterwards is the old `cur`: without one there was no `prev` either.
  have hold : s.havePrev = true → r.sess.established = true ∧ s.prev = r.sess.cur ∧
      s.prevWindow = r.sess.curWindow := by
    intro hh
    by_cases he : r.sess.established = true
    · obtain ⟨hprev, hwin⟩ := promote_rekey (s := { r.sess with pending := pending }) he nowMs
      rw [hs]
      exact ⟨he, hprev, hwin⟩
    · have hf : r.sess.established = false := by simpa using he
      rw [hs, promote_first (s := { r.sess with pending := pending }) hf] at hh
      exact absurd (h.older hh).1 he
  refine ⟨?_, ?_, ?_, ?_, ?_, ?_, ?_, ?_⟩
  · intro _
    rw [installedIn_installed, List.getElem?_append_right le_rfl]
    simp
  · intro hh
    obtain ⟨he, hprev, -⟩ := hold hh
    simp only [he, if_true, hprev, installedIn_installed]
    exact getElem?_installed_mono (h.cur he) _
  · intro hh
    obtain ⟨he, -, -⟩ := hold hh
    simp only [he, if_true]
    exact ⟨by rw [hs]; rfl, (List.getElem?_eq_some_iff.mp (h.cur he)).1⟩
  · intro p hp
    have := h.ids p (by simpa using hp)
    simp only [installedIn_installed, List.length_append, List.length_singleton]
    omega
  · intro _
    rw [htaken, hnone, hs]
    exact Window.empty_tracks
  · intro hh
    obtain ⟨he, -, hwin⟩ := hold hh
    rw [htaken, hwin]
    simpa only [he, if_true] using h.curTracks he
  · rw [acceptedIn_installed]
    exact h.nodup
  · intro id hs' ctr hmem
    have hlogged : KeyEvent.accepted id hs' ctr ∈ r.log := by simpa using hmem
    rw [installedIn_installed]
    exact getElem?_installed_mono (h.named id hs' ctr hlogged) _

theorem AcceptInv.logRx {r : Run} (h : AcceptInv r) {o : RxOutcome}
    (hstep : RxStep r.sess o.sess o.result o.opened) : AcceptInv (r.logRx o) := by
  obtain ⟨result, sess, drop, pkt, payload, opened⟩ := o
  dsimp only at hstep
  cases hstep with
  | quiet opened hcur hprev hcurWin hprevWin =>
      exact h.keep rfl rfl (fun _ _ _ hm => hm) hcur.cur hcur.established hprev hcurWin hprevWin
  | install pending nowMs hsess =>
      exact h.install hsess
  | acceptCur result ctr hres hest hcur hprev hcurWin hprevWin =>
      obtain ⟨hnew, htracks⟩ := (h.curTracks hest).taken (by decide) hcurWin
      have hafter : AcceptInv { r with
          sess := sess
          drop := drop
          log := r.log ++ [.accepted r.curId r.sess.cur ctr] } := by
        refine h.accept (h.cur hest) hnew hcur hprev (fun _ => ?_) (fun hh => ?_)
        · rwa [takenUnder_accepted, if_pos rfl]
        · have hne : r.curId ≠ r.prevId := Nat.ne_of_gt (h.older (hprev hh).1).2
          rw [takenUnder_accepted, if_neg hne, hprevWin hh]
          exact h.prevTracks (hprev hh).1
      rcases hres with rfl | rfl
      · exact hafter
      · exact hafter
  | acceptPrev result ctr hres hhave hcur hprev hcurWin hprevWin =>
      obtain ⟨hnew, htracks⟩ := (h.prevTracks hhave).taken (by decide) hprevWin
      have hafter : AcceptInv { r with
          sess := sess
          drop := drop
          log := r.log ++ [.accepted r.prevId r.sess.prev ctr] } := by
        refine h.accept (h.prev hhave) hnew hcur hprev (fun he => ?_) (fun _ => ?_)
        · have hne : r.prevId ≠ r.curId := Nat.ne_of_lt (h.older hhave).2
          rw [takenUnder_accepted, if_neg hne, hcurWin]
          exact h.curTracks (hcur.established ▸ he)
        · rwa [takenUnder_accepted, if_pos rfl]
      rcases hres with rfl | rfl
      · exact hafter
      · exact hafter

theorem AcceptInv.logSeal {r : Run} (h : AcceptInv r) {out : Session × Option (Int × Bytes)}
    (hstep : TxStep r.sess out) : AcceptInv (r.logSeal out) := by
  cases hstep with
  | failed => exact h
  | sent s' out hest hkeys hcounter =>
      exact h.keep (by simp) (by simp) (by simp) hkeys.cur hkeys.established
        (fun hh => ⟨hkeys.havePrev ▸ hh, hkeys.prev⟩) hkeys.curWindow (fun _ => hkeys.prevWindow)

theorem AcceptInv.step {r : Run} (h : AcceptInv r) (op : Op) : AcceptInv (r.step P op) := by
  cases op with
  | init cfg draws => exact h.forget rfl rfl
  | buildInitiation cfg outCap nowMs idx eph nanos pad nowSeconds =>
      obtain ⟨hkeys, -⟩ :=
        buildInitiation_step P cfg r.sess outCap nowMs idx eph nanos pad nowSeconds
      exact h.keep rfl rfl (fun _ _ _ hm => hm) hkeys.cur hkeys.established
        (fun hh => ⟨hkeys.havePrev ▸ hh, hkeys.prev⟩) hkeys.curWindow (fun _ => hkeys.prevWindow)
  | buildData cfg payload outCap nowMs e => exact h.logSeal (buildData_step P _ _ _ _ _ _)
  | buildKeepalive cfg outCap nowMs e => exact h.logSeal (buildKeepalive_step P _ _ _ _ _)
  | onDatagram cfg pkt payloadCap nowMs => exact h.logRx (onDatagram_step P _ _ _ _ _ _)
  | wipe => exact h.forget rfl rfl

theorem AcceptInv.exec {r : Run} (h : AcceptInv r) (ops : List Op) : AcceptInv (r.exec P ops) :=
  List.foldlRecOn ops _ h fun _ hr op _ => hr.step P op

/--
**No datagram is accepted twice.**  In every run, for each keypair and each counter,
at most one call took a datagram with that counter under that keypair, whether the
keypair was then in `cur` or in `prev`; and the number logged names the keypair.
-/
theorem accepted_at_most_once (cfg : Config) (draws : Fin 5 → Entropy) (ops : List Op) :
    (acceptedIn ((Run.start cfg draws).exec P ops).log).Nodup ∧
    ∀ id hs ctr, KeyEvent.accepted id hs ctr ∈ ((Run.start cfg draws).exec P ops).log →
      (installedIn ((Run.start cfg draws).exec P ops).log)[id]? = some hs := by
  have hinv := (AcceptInv.start cfg draws).exec P ops
  exact ⟨hinv.nodup, hinv.named⟩

end SysAwg
