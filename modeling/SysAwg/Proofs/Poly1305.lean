/-
The compiled authenticator computes Poly1305, however the message is cut.

`poly1305_update` takes full blocks straight from the caller and keeps the rest in
`buffer`; the next call fills it up first.  `Absorbed` says what the context knows after
any number of calls: the blocks of the message so far went into `h`, and the buffer starts
with what is left.  An update keeps it, so the whole run of updates depends only on the
message they spell, and `poly1305_finish` then gives the tag of that message.
-/
import SysAwg.Proofs.Poly1305Limbs
import SysAwg.Lib.Blocks
import Mathlib.Data.Nat.ModEq

namespace SysAwg.Poly1305

open SysAwg.Standard (leNat)
open Blocks (feed Held)

/-- What a full block does to `h`. -/
def step (r : Limbs) (h : Limbs) (b : Bytes) : Limbs :=
  partialReduce (mulR r (addBlock ((1 : UInt64) <<< 24) h b))

theorem u8to32_take {m : Bytes} {off : Nat} (h : off + 4 ≤ 16) :
    u8to32 (m.take 16) off = u8to32 m off := by
  have hget : ∀ i, i < 16 → (m.take 16).getD i 0 = m.getD i 0 := by
    intro i hi
    simp [List.getD_eq_getElem?_getD, List.getElem?_take_of_lt hi]
  simp only [u8to32, hget off (by omega), hget (off + 1) (by omega), hget (off + 2) (by omega),
    hget (off + 3) (by omega)]

theorem addBlock_take (hibit : UInt64) (h : Limbs) (m : Bytes) :
    addBlock hibit h (m.take 16) = addBlock hibit h m := by
  simp only [addBlock]
  rw [u8to32_take (by omega), u8to32_take (by omega), u8to32_take (by omega),
    u8to32_take (by omega), u8to32_take (by omega)]

/-- `poly1305_blocks` takes the full blocks one by one. -/
theorem blocksLoop_eq_feed (r : Limbs) (fuel : Nat) (h : Limbs) (m : Bytes)
    (hfuel : m.length ≤ fuel) :
    blocksLoop r ((1 : UInt64) <<< 24) fuel h m = feed (step r) 16 (m.length / 16) h m := by
  induction fuel generalizing h m with
  | zero =>
      have hzero : m.length / 16 = 0 := by omega
      rw [blocksLoop, hzero, feed]
  | succ fuel ih =>
      rw [blocksLoop]
      split
      · rename_i hge
        have hcount : m.length / 16 = (m.drop 16).length / 16 + 1 := by
          rw [List.length_drop]
          omega
        have hshort : (m.drop 16).length ≤ fuel := by
          rw [List.length_drop]
          omega
        rw [ih _ _ hshort, hcount, feed, step, addBlock_take]
      · rename_i hlt
        have hzero : m.length / 16 = 0 := by omega
        rw [hzero, feed]

theorem blocks_eq_feed {st : State} (hfinal : st.final = false) (m : Bytes) :
    poly1305Blocks st m = { st with h := feed (step st.r) 16 (m.length / 16) st.h m } := by
  simp only [poly1305Blocks, hfinal, Bool.false_eq_true, if_false]
  rw [blocksLoop_eq_feed st.r m.length st.h m (Nat.le_refl _)]

/-! ### The buffer -/

/-- Only the buffer changes. -/
theorem State.store_eq (st : State) (off : Nat) (m : Bytes) :
    st.store off m = { st with buffer := (st.store off m).buffer } := rfl

theorem buffer_store {st : State} {off : Nat} {m : Bytes} (h : off + m.length ≤ 16) :
    (st.store off m).buffer.toList = Bytes.overlay st.buffer.toList off m := by
  have hlen : (Bytes.overlay st.buffer.toList off m).length = 16 := by
    rw [Bytes.length_overlay (by simpa using h)]
    simp
  apply List.ext_getElem
  · rw [hlen]
    simp
  · intro i hi _
    have hi16 : i < (Bytes.overlay st.buffer.toList off m).length := by
      rw [hlen]
      simpa using hi
    simp [State.store, Bytes.block, List.getD_eq_getElem?_getD, List.getElem?_eq_getElem hi16]

theorem take_buffer_store {st : State} {off : Nat} {m : Bytes} (h : off + m.length ≤ 16) :
    (st.store off m).buffer.toList.take (off + m.length)
      = st.buffer.toList.take off ++ m := by
  have hoff : (st.buffer.toList.take off).length = off := by
    rw [List.length_take]
    simp
    omega
  rw [buffer_store h, Bytes.overlay]
  exact List.take_left' (by rw [List.length_append, hoff])

/-! ### Updates

An update has three parts, each under a test: fill the buffer up, take full blocks from the
piece, keep the rest.  The lemma goes through them in this order, with the message cut in
two after each.
-/

/-- What the context knows after the message so far. -/
structure Absorbed (r : Limbs) (pad : Pad) (msg : Bytes) (st : State) : Prop where
  r_eq : st.r = r
  pad_eq : st.pad = pad
  running : st.final = false
  short : st.leftover < 16
  held : Held (step r) 16 Limbs.zero msg st.h (st.buffer.toList.take st.leftover)

theorem Absorbed.init (st : State) (key : Key) :
    Absorbed (poly1305Init st key).r (poly1305Init st key).pad [] (poly1305Init st key) where
  r_eq := rfl
  pad_eq := rfl
  running := rfl
  short := show 0 < 16 by omega
  held := Held.start

/-- The full blocks of a piece, when nothing is left over. -/
theorem updateRest_eq {st : State} (hfinal : st.final = false) (m : Bytes) :
    updateRest st m =
      (let st' : State := { st with h := feed (step st.r) 16 (m.length / 16) st.h m }
      let m' := m.drop (m.length / 16 * 16)
      if m'.length ≠ 0 then
        { st'.store st'.leftover m' with leftover := st'.leftover + m'.length } else st') := by
  have htake : m.length / 16 * 16 ≤ m.length := Nat.div_mul_le_self _ _
  unfold updateRest
  by_cases hge : m.length ≥ 16
  · have hlen : (m.take (m.length / 16 * 16)).length / 16 = m.length / 16 := by
      rw [List.length_take]
      omega
    simp only [hge, if_true]
    rw [blocks_eq_feed hfinal, hlen, Blocks.feed_take _ _ _ _ htake]
  · have hzero : m.length / 16 = 0 := by omega
    simp only [hge, if_false, hzero, Nat.zero_mul, feed]

theorem Absorbed.updateRest {r : Limbs} {pad : Pad} {msg : Bytes} {st : State}
    (h : Absorbed r pad msg st) (hzero : st.leftover = 0) (m : Bytes) :
    Absorbed r pad (msg ++ m) (updateRest st m) := by
  have hrest : (m.drop (m.length / 16 * 16)).length < 16 := by
    rw [List.length_drop]
    omega
  have hfed : Held (step r) 16 Limbs.zero (msg ++ m) (feed (step r) 16 (m.length / 16) st.h m)
      (m.drop (m.length / 16 * 16)) := by
    have hpush := h.held.push m
    rw [hzero, List.take_zero, List.nil_append] at hpush
    exact hpush.flush (Nat.div_mul_le_self _ _)
  rw [updateRest_eq h.running, h.r_eq, hzero]
  generalize m.drop (m.length / 16 * 16) = m' at hrest hfed ⊢
  simp only [Nat.zero_add]
  split
  · refine ⟨rfl, h.pad_eq, h.running, hrest, ?_⟩
    have hbuf := @take_buffer_store { st with h := feed (step r) 16 (m.length / 16) st.h m } 0 m'
      (by omega)
    rw [Nat.zero_add, List.take_zero, List.nil_append] at hbuf
    exact hbuf.symm ▸ hfed
  · rename_i hnil
    have hnil' : m' = [] := List.length_eq_zero_iff.mp (by simpa using hnil)
    refine ⟨rfl, h.pad_eq, h.running, by simp, ?_⟩
    rw [hnil'] at hfed
    simpa using hfed

/-- A full buffer goes into `h`. -/
theorem Absorbed.flushed {r : Limbs} {pad : Pad} {msg : Bytes} {st : State} (hr : st.r = r)
    (hpad : st.pad = pad) (hrun : st.final = false)
    (hheld : Held (step r) 16 Limbs.zero msg st.h st.buffer.toList) :
    Absorbed r pad msg { poly1305Blocks st st.buffer.toList with leftover := 0 } := by
  have hone : feed (step r) 16 (st.buffer.toList.length / 16) st.h st.buffer.toList
      = step r st.h st.buffer.toList := by
    have htake : st.buffer.toList.take 16 = st.buffer.toList :=
      List.take_of_length_le (by simp)
    have hcount : st.buffer.toList.length / 16 = 1 := by simp
    rw [hcount, feed, feed, htake]
  rw [blocks_eq_feed hrun, hr, hone]
  exact ⟨rfl, hpad, hrun, by simp, hheld.flush_one (by simp)⟩

/-- **One update.**  The context knows the message with the piece behind it. -/
theorem Absorbed.update {r : Limbs} {pad : Pad} {msg : Bytes} {st : State}
    (h : Absorbed r pad msg st) (m : Bytes) : Absorbed r pad (msg ++ m) (poly1305Update st m) := by
  unfold poly1305Update
  split
  · rename_i hne
    have hshort := h.short
    generalize hwant : min (16 - st.leftover) m.length = want
    have hlen : (m.take want).length = want := by
      rw [List.length_take]
      omega
    -- the buffer is filled up first
    have hbuf := @take_buffer_store st st.leftover (m.take want) (by omega)
    have hpush := h.held.push (m.take want)
    rw [hlen] at hbuf
    rw [← hbuf] at hpush
    simp only
    rw [State.store_eq]
    generalize (st.store st.leftover (m.take want)).buffer = buffer at hpush ⊢
    split
    · rename_i hlt
      have hall : m.take want = m := List.take_of_length_le (by omega)
      rw [hall] at hpush
      exact ⟨h.r_eq, h.pad_eq, h.running, hlt, hpush⟩
    · rename_i hfull
      have hmsg : msg ++ m = msg ++ m.take want ++ m.drop want := by
        rw [List.append_assoc, List.take_append_drop]
      have hwhole : buffer.toList.take (st.leftover + want) = buffer.toList :=
        List.take_of_length_le (by simp; omega)
      rw [hwhole] at hpush
      rw [hmsg]
      refine Absorbed.updateRest ?_ rfl _
      exact @Absorbed.flushed _ _ _ { st with leftover := st.leftover + want, buffer := buffer }
        h.r_eq h.pad_eq h.running hpush
  · rename_i hzero
    exact h.updateRest (by simpa using hzero) m

theorem Absorbed.updates {r : Limbs} {pad : Pad} {msg : Bytes} {st : State}
    (h : Absorbed r pad msg st) (pieces : List Bytes) :
    Absorbed r pad (msg ++ pieces.flatten) (pieces.foldl poly1305Update st) := by
  induction pieces generalizing msg st with
  | nil => simpa using h
  | cons m pieces ih =>
      rw [List.flatten_cons, ← List.append_assoc]
      exact ih (h.update m)

/-! ### The same blocks on numbers

Blocks on limbs and blocks on numbers agree modulo the prime, so the two loops are related
rather than equal, and the relation is kept by each block.
-/

/-- What a full block does to the number `h` stands for. -/
def stepNat (r : Nat) (h : Nat) (b : Bytes) : Nat := (h + leNat b + 1 <<< 128) * r % p1305

/-- The limbs stand for a number below the prime. -/
def StandsFor (h : Limbs) (n : Nat) : Prop := h.Small ∧ h.value % p1305 = n

theorem step_standsFor {r : Limbs} (hr : r.Below (2 ^ 26)) {h : Limbs} {n : Nat} {b : Bytes}
    (hb : b.length = 16) (hh : StandsFor h n) : StandsFor (step r h b) (stepNat r.value n b) := by
  obtain ⟨hsmall, hval⟩ := hh
  obtain ⟨hmod, hsmall'⟩ := block_spec hr hsmall (.inr rfl) hb
  have hbit : 2 ^ 104 * ((1 : UInt64) <<< 24).toNat = 1 <<< 128 := by decide
  refine ⟨hsmall', ?_⟩
  rw [step, hmod, hbit, ← hval]
  exact (((Nat.mod_modEq h.value p1305).symm.add_right _).add_right _).mul_right _

/-- The loop over numbers, block by block. -/
theorem poly1305Loop_feed (r : Nat) {k fuel : Nat} (h : Nat) (m : Bytes) (hk : k * 16 ≤ m.length)
    (hfuel : k ≤ fuel) : Standard.poly1305Loop r fuel h m
      = Standard.poly1305Loop r (fuel - k) (feed (stepNat r) 16 k h m) (m.drop (k * 16)) := by
  induction k generalizing fuel h m with
  | zero => simp [feed]
  | succ k ih =>
      obtain ⟨fuel, rfl⟩ : ∃ f, fuel = f + 1 := ⟨fuel - 1, by omega⟩
      have hne : m.length ≠ 0 := by omega
      have hlen : (m.take 16).length = 16 := by
        rw [List.length_take]
        omega
      have hdrop : k * 16 ≤ (m.drop 16).length := by
        rw [List.length_drop]
        omega
      have hoff : (k + 1) * 16 = 16 + k * 16 := by omega
      rw [Standard.poly1305Loop, if_neg hne, Standard.force_eq, hlen, ih _ _ hdrop (by omega), feed,
        List.drop_drop, hoff, Nat.add_sub_add_right]
      rfl

/-- A short last block, or none. -/
theorem poly1305Loop_last (r fuel h : Nat) {m : Bytes} (hm : m.length < 16) :
    Standard.poly1305Loop r (fuel + 1) h m
      = if m.length = 0 then h else (h + leNat m + 1 <<< (8 * m.length)) * r % p1305 := by
  have htake : m.take 16 = m := List.take_of_length_le (by omega)
  have hdrop : m.drop 16 = [] := List.drop_of_length_le (by omega)
  rw [Standard.poly1305Loop]
  split
  · rfl
  · rw [Standard.force_eq, htake, hdrop]
    rcases fuel with _ | fuel
    · rfl
    · rfl

/-! ### The tag

The last block ends in a one that the padding stands behind, in place of the bit above it.
What is stored is the number, once reduced, plus the second half of the key.
-/

/-- What `poly1305_finish` makes of the limbs. -/
theorem mac_spec {h : Limbs} {n : Nat} (hh : StandsFor h n) {pad : Pad} (hpad : pad.Fits) :
    (addPad (packWords (selectReduced (fullyCarry h) (minusP (fullyCarry h)))) pad).value
      = (n + pad.value) % 2 ^ 128 := by
  obtain ⟨hsmall, hval⟩ := hh
  obtain ⟨⟨k, hcarry⟩, hbelow⟩ := fullyCarry_spec hsmall
  obtain ⟨hsel, hselBelow⟩ := selectReduced_spec hbelow
  obtain ⟨hpack, hfits⟩ := packWords_spec hselBelow
  have hn : (fullyCarry h).value % p1305 = n := by
    rw [← hval, hcarry, Nat.add_mul_mod_self_left]
  rw [addPad_spec hfits hpad, hpack, hsel, hn, Nat.mod_add_mod]

/-- The last block: what is left over, a one behind it, and zeros. -/
theorem finishBlock_spec {r : Limbs} (hr : r.Below (2 ^ 26)) {pad : Pad} {msg rest : Bytes}
    {st : State} (hst : Absorbed r pad msg st) (hrest : st.buffer.toList.take st.leftover = rest)
    {n : Nat} (hn : StandsFor st.h n) :
    StandsFor (finishBlock st).h
        (if rest.length = 0 then n else (n + leNat rest + 1 <<< (8 * rest.length)) * r.value % p1305) ∧
      (finishBlock st).pad = pad := by
  have hshort := hst.short
  have hlen : rest.length = st.leftover := by
    rw [← hrest, List.length_take]
    simp
    omega
  unfold finishBlock
  split
  · rename_i hne
    rw [if_neg (by omega)]
    have hfill : (1 :: List.replicate (15 - st.leftover) (0 : UInt8)).length = 16 - st.leftover := by
      simp
      omega
    have hbuf := @take_buffer_store st st.leftover (1 :: List.replicate (15 - st.leftover) 0)
      (by omega)
    rw [hfill, Nat.add_sub_cancel' (by omega), hrest] at hbuf
    simp only
    rw [State.store_eq]
    generalize (st.store st.leftover (1 :: List.replicate (15 - st.leftover) 0)).buffer = buffer
      at hbuf ⊢
    have hwhole : buffer.toList.take 16 = buffer.toList := List.take_of_length_le (by simp)
    rw [hwhole] at hbuf
    have hzeros : leNat buffer.toList = leNat rest + 1 <<< (8 * rest.length) := by
      rw [hbuf, Standard.leNat_append, leNat, Standard.leNat_replicate_zero, Nat.shiftLeft_eq,
        Nat.pow_mul]
      simp
    have hloop : blocksLoop r 0 16 st.h buffer.toList
        = partialReduce (mulR r (addBlock 0 st.h buffer.toList)) := by
      rw [blocksLoop, if_pos (by simp), blocksLoop, if_neg (by simp)]
    obtain ⟨hmod, hsmall⟩ := @block_spec r st.h hr hn.1 0 (.inl rfl) buffer.toList (by simp)
    constructor
    · simp only [poly1305Blocks, if_true, Vector.length_toList, hst.r_eq, hloop]
      refine ⟨hsmall, ?_⟩
      rw [hmod, hzeros, ← hn.2]
      simp only [UInt64.toNat_zero, Nat.mul_zero, Nat.add_zero, ← Nat.add_assoc]
      exact (((Nat.mod_modEq st.h.value p1305).symm.add_right _).add_right _).mul_right _
    · exact hst.pad_eq
  · rename_i hzero
    rw [if_pos (by omega)]
    exact ⟨hn, hst.pad_eq⟩

/-- The number loop, cut where the context's is. -/
theorem poly1305Loop_held {r : Limbs} (hr : r.Below (2 ^ 26)) {msg rest : Bytes} {h : Limbs}
    (hheld : Held (step r) 16 Limbs.zero msg h rest) (hrest : rest.length < 16) :
    ∃ n, StandsFor h n ∧ Standard.poly1305Loop r.value (msg.length + 1) 0 msg
      = if rest.length = 0 then n
        else (n + leNat rest + 1 <<< (8 * rest.length)) * r.value % p1305 := by
  obtain ⟨k, hlen, hh, hdrop⟩ := hheld.count
  have hk : k * 16 ≤ msg.length := by omega
  have hzero : StandsFor Limbs.zero 0 := ⟨⟨by decide, by decide, by decide, by decide, by decide⟩, rfl⟩
  refine ⟨feed (stepNat r.value) 16 k 0 msg, ?_, ?_⟩
  · rw [hh]
    have hstep : ∀ h n b, b.length = 16 → StandsFor h n →
        StandsFor (step r h b) (stepNat r.value n b) := by
      intro h n b hb hst
      exact step_standsFor hr hb hst
    exact Blocks.feed_rel hstep hk hzero
  · obtain ⟨fuel, hfuel⟩ : ∃ f, msg.length + 1 - k = f + 1 := ⟨msg.length - k, by omega⟩
    rw [poly1305Loop_feed r.value 0 msg hk (by omega), ← hdrop, hfuel, poly1305Loop_last _ _ _ hrest]

/-- **The compiled authenticator is Poly1305.**  Whatever the context held before, and
however the message is cut into updates, the tag is the one of the whole message. -/
theorem poly1305_computes (st : State) (key : Key) (pieces : List Bytes) :
    poly1305 st key pieces = (Standard.poly1305 key pieces.flatten).toList := by
  obtain ⟨hr, hrBelow, hpad, hpadFits⟩ := poly1305Init_spec st key
  have habs := (Absorbed.init st key).updates pieces
  rw [List.nil_append] at habs
  generalize (poly1305Init st key).r = r at *
  generalize (poly1305Init st key).pad = pad at *
  have hrest : ((pieces.foldl poly1305Update (poly1305Init st key)).buffer.toList.take
      (pieces.foldl poly1305Update (poly1305Init st key)).leftover).length < 16 := by
    have := habs.short
    rw [List.length_take]
    omega
  rw [poly1305]
  generalize pieces.foldl poly1305Update (poly1305Init st key) = fin at *
  obtain ⟨n, hn, hloop⟩ := poly1305Loop_held hrBelow habs.held hrest
  obtain ⟨hblock, hblockPad⟩ := finishBlock_spec hrBelow habs rfl hn
  rw [← hloop] at hblock
  have hmac := mac_spec hblock (hblockPad ▸ hpadFits)
  symm
  rw [Standard.poly1305, Standard.force_eq]
  apply Standard.toList_natBytes
  · rfl
  · show leNat (u32to8 _ ++ u32to8 _ ++ u32to8 _ ++ u32to8 _) = _
    rw [leNat_mac, hmac, hblockPad, hpad, hr]
    rfl

end SysAwg.Poly1305
