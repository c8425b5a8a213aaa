/-
The compiled digest computes BLAKE2s, however the input is cut.

The compression works on words in place, the protocol's model on packed numbers; a round on
one is a round on the other, and the ten rows of `sigma` follow by induction on the rows.
The buffer keeps a full block back until it is known not to be the last, so unlike the
authenticator's rest this one may hold a whole block: `Taken` says that it is empty only
before the first byte.
-/
import SysAwg.Blake2s
import SysAwg.Lib.Blocks
import SysAwg.Proofs.Words32
import Mathlib.Tactic.Ring

namespace SysAwg.Blake2s

open SysAwg.Standard (leNat force_eq packWords word toNat_plus toNat_plus3 exists_words)
open Blocks (feed Held)

/-! ### Words against numbers

The sixteen words of a round are spread out as sixteen variables on the model's side, so a
row of `sigma` is followed variable by variable.
-/

theorem toNat_rotr32 (v : UInt32) {n : UInt32} {k : Nat} (hn : n.toNat = k)
    (hsub : (32 - n).toNat = 32 - k) (hk : 0 < k ∧ k < 32) :
    (rotr32 v n).toNat = Standard.rotr32 v.toNat k := by
  rw [rotr32, Standard.rotr32, UInt32.toNat_xor, UInt32.toNat_shiftLeft, UInt32.toNat_shiftRight, hn,
    hsub, Nat.mod_eq_of_lt hk.2, Nat.mod_eq_of_lt (show 32 - k < 32 by omega)]

/-- The mixing function on numbers is the one on words. -/
theorem b2sG_toNat {α : Type} (a b c d x y : UInt32) (k : Nat → Nat → Nat → Nat → α) :
    Standard.b2sG a.toNat b.toNat c.toNat d.toNat x.toNat y.toNat k
      = k (b2sG a b c d x y).1.toNat (b2sG a b c d x y).2.1.toNat
          (b2sG a b c d x y).2.2.1.toNat (b2sG a b c d x y).2.2.2.toNat := by
  have h16 : ∀ v, Standard.rotr32 v.toNat 16 = (rotr32 v 16).toNat := fun v =>
    (@toNat_rotr32 v 16 16 (by decide) (by decide) (by omega)).symm
  have h12 : ∀ v, Standard.rotr32 v.toNat 12 = (rotr32 v 12).toNat := fun v =>
    (@toNat_rotr32 v 12 12 (by decide) (by decide) (by omega)).symm
  have h8 : ∀ v, Standard.rotr32 v.toNat 8 = (rotr32 v 8).toNat := fun v =>
    (@toNat_rotr32 v 8 8 (by decide) (by decide) (by omega)).symm
  have h7 : ∀ v, Standard.rotr32 v.toNat 7 = (rotr32 v 7).toNat := fun v =>
    (@toNat_rotr32 v 7 7 (by decide) (by decide) (by omega)).symm
  simp only [Standard.b2sG, force_eq, ← toNat_plus3, ← toNat_plus, ← UInt32.toNat_xor, h16, h12, h8,
    h7, b2sG]

/-- Four columns and four diagonals, written out. -/
theorem b2sRound_words (m : Nat → UInt32) (s : List Nat)
    (v0 v1 v2 v3 v4 v5 v6 v7 v8 v9 v10 v11 v12 v13 v14 v15 : UInt32) :
    b2sRound m #v[v0, v1, v2, v3, v4, v5, v6, v7, v8, v9, v10, v11, v12, v13, v14, v15] s =
      (let p := b2sG v0 v4 v8 v12 (m (s.getD 0 0)) (m (s.getD 1 0))
      let q := b2sG v1 v5 v9 v13 (m (s.getD 2 0)) (m (s.getD 3 0))
      let r := b2sG v2 v6 v10 v14 (m (s.getD 4 0)) (m (s.getD 5 0))
      let t := b2sG v3 v7 v11 v15 (m (s.getD 6 0)) (m (s.getD 7 0))
      let p' := b2sG p.1 q.2.1 r.2.2.1 t.2.2.2 (m (s.getD 8 0)) (m (s.getD 9 0))
      let q' := b2sG q.1 r.2.1 t.2.2.1 p.2.2.2 (m (s.getD 10 0)) (m (s.getD 11 0))
      let r' := b2sG r.1 t.2.1 p.2.2.1 q.2.2.2 (m (s.getD 12 0)) (m (s.getD 13 0))
      let t' := b2sG t.1 p.2.1 q.2.2.1 r.2.2.2 (m (s.getD 14 0)) (m (s.getD 15 0))
      #v[p'.1, q'.1, r'.1, t'.1, t'.2.1, p'.2.1, q'.2.1, r'.2.1, r'.2.2.1, t'.2.2.1, p'.2.2.1,
        q'.2.2.1, q'.2.2.2, r'.2.2.2, t'.2.2.2, p'.2.2.2]) := by
  simp [b2sRound, b2sGAt, Vector.getD, Array.getD]

def folded (v : Vector UInt32 16) : List UInt32 :=
  (List.range 8).map fun i => v.getD i 0 ^^^ v.getD (i + 8) 0

theorem length_row {s : List Nat} (h : s ∈ Standard.sigma) : s.length = 16 := by
  revert s
  decide

/-- A row of sixteen entries, written out. -/
theorem exists_entries {s : List Nat} (h : s.length = 16) :
    ∃ s0 s1 s2 s3 s4 s5 s6 s7 s8 s9 s10 s11 s12 s13 s14 s15,
      s = [s0, s1, s2, s3, s4, s5, s6, s7, s8, s9, s10, s11, s12, s13, s14, s15] := by
  refine ⟨s.getD 0 0, s.getD 1 0, s.getD 2 0, s.getD 3 0, s.getD 4 0, s.getD 5 0, s.getD 6 0,
    s.getD 7 0, s.getD 8 0, s.getD 9 0, s.getD 10 0, s.getD 11 0, s.getD 12 0, s.getD 13 0,
    s.getD 14 0, s.getD 15 0, ?_⟩
  apply List.ext_getElem
  · simpa using h
  · intro i hi _
    rw [h] at hi
    interval_cases i <;> simp [List.getD_eq_getElem?_getD, h]

theorem b2sRounds_nil (mN v0 v1 v2 v3 v4 v5 v6 v7 v8 v9 v10 v11 v12 v13 v14 v15 : Nat) :
    Standard.b2sRounds mN [] v0 v1 v2 v3 v4 v5 v6 v7 v8 v9 v10 v11 v12 v13 v14 v15
      = (v0 ^^^ v8) + (v1 ^^^ v9) <<< 32 + (v2 ^^^ v10) <<< 64 + (v3 ^^^ v11) <<< 96 +
        (v4 ^^^ v12) <<< 128 + (v5 ^^^ v13) <<< 160 + (v6 ^^^ v14) <<< 192 +
        (v7 ^^^ v15) <<< 224 := rfl

theorem b2sRounds_cons (mN : Nat) (rows : List (List Nat))
    (s0 s1 s2 s3 s4 s5 s6 s7 s8 s9 s10 s11 s12 s13 s14 s15 : Nat)
    (v0 v1 v2 v3 v4 v5 v6 v7 v8 v9 v10 v11 v12 v13 v14 v15 : Nat) :
    Standard.b2sRounds mN
        ([s0, s1, s2, s3, s4, s5, s6, s7, s8, s9, s10, s11, s12, s13, s14, s15] :: rows)
        v0 v1 v2 v3 v4 v5 v6 v7 v8 v9 v10 v11 v12 v13 v14 v15 =
      Standard.b2sG v0 v4 v8 v12 (word mN s0) (word mN s1) fun v0 v4 v8 v12 =>
      Standard.b2sG v1 v5 v9 v13 (word mN s2) (word mN s3) fun v1 v5 v9 v13 =>
      Standard.b2sG v2 v6 v10 v14 (word mN s4) (word mN s5) fun v2 v6 v10 v14 =>
      Standard.b2sG v3 v7 v11 v15 (word mN s6) (word mN s7) fun v3 v7 v11 v15 =>
      Standard.b2sG v0 v5 v10 v15 (word mN s8) (word mN s9) fun v0 v5 v10 v15 =>
      Standard.b2sG v1 v6 v11 v12 (word mN s10) (word mN s11) fun v1 v6 v11 v12 =>
      Standard.b2sG v2 v7 v8 v13 (word mN s12) (word mN s13) fun v2 v7 v8 v13 =>
      Standard.b2sG v3 v4 v9 v14 (word mN s14) (word mN s15) fun v3 v4 v9 v14 =>
      Standard.b2sRounds mN rows v0 v1 v2 v3 v4 v5 v6 v7 v8 v9 v10 v11 v12 v13 v14 v15 := rfl

/-- The rounds on numbers are the ones on words. -/
theorem b2sRounds_words {mN : Nat} {m : Nat → UInt32} (hm : ∀ i, word mN i = (m i).toNat)
    (rows : List (List Nat)) (hrows : ∀ s ∈ rows, s.length = 16)
    (v0 v1 v2 v3 v4 v5 v6 v7 v8 v9 v10 v11 v12 v13 v14 v15 : UInt32) :
    Standard.b2sRounds mN rows v0.toNat v1.toNat v2.toNat v3.toNat v4.toNat v5.toNat v6.toNat
        v7.toNat v8.toNat v9.toNat v10.toNat v11.toNat v12.toNat v13.toNat v14.toNat v15.toNat
      = packWords ((folded (rows.foldl (b2sRound m)
          #v[v0, v1, v2, v3, v4, v5, v6, v7, v8, v9, v10, v11, v12, v13, v14, v15])).map
          UInt32.toNat) := by
  induction rows generalizing v0 v1 v2 v3 v4 v5 v6 v7 v8 v9 v10 v11 v12 v13 v14 v15 with
  | nil =>
      have hfolded : folded #v[v0, v1, v2, v3, v4, v5, v6, v7, v8, v9, v10, v11, v12, v13, v14, v15]
          = [v0 ^^^ v8, v1 ^^^ v9, v2 ^^^ v10, v3 ^^^ v11, v4 ^^^ v12, v5 ^^^ v13, v6 ^^^ v14,
            v7 ^^^ v15] := rfl
      rw [List.foldl_nil, hfolded, b2sRounds_nil]
      have hnil : packWords (([] : List UInt32).map UInt32.toNat) = 0 := rfl
      simp only [Standard.packWords_cons, hnil, UInt32.toNat_xor, Nat.shiftLeft_eq]
      ring
  | cons s rows ih =>
      have hrest : ∀ t ∈ rows, t.length = 16 := fun t ht => hrows t (List.mem_cons_of_mem s ht)
      obtain ⟨s0, s1, s2, s3, s4, s5, s6, s7, s8, s9, s10, s11, s12, s13, s14, s15, hs⟩ :=
        exists_entries (hrows s List.mem_cons_self)
      rw [List.foldl_cons, b2sRound_words, hs]
      simp only [b2sRounds_cons, hm, b2sG_toNat, List.getD_cons_zero, List.getD_cons_succ]
      exact ih hrest _ _ _ _ _ _ _ _ _ _ _ _ _ _ _ _

/-! ### Compression -/

/-- The packed state. -/
def packed (h : Vector UInt32 8) : Nat := packWords (h.toList.map UInt32.toNat)

theorem word_packed (h : Vector UInt32 8) (i : Nat) : word (packed h) i = (h.toList.getD i 0).toNat :=
  Standard.word_packWords h.toList i

theorem exists_eight (h : Vector UInt32 8) :
    ∃ h0 h1 h2 h3 h4 h5 h6 h7, h = #v[h0, h1, h2, h3, h4, h5, h6, h7] := by
  refine ⟨h[0], h[1], h[2], h[3], h[4], h[5], h[6], h[7], ?_⟩
  apply Vector.ext
  intro i hi
  interval_cases i <;> rfl

theorem workVariables_words (h0 h1 h2 h3 h4 h5 h6 h7 t0 t1 : UInt32) (last : Bool) :
    workVariables #v[h0, h1, h2, h3, h4, h5, h6, h7] t0 t1 last =
      #v[h0, h1, h2, h3, h4, h5, h6, h7, 0x6A09E667, 0xBB67AE85, 0x3C6EF372, 0xA54FF53A,
        0x510E527F ^^^ t0, 0x9B05688C ^^^ t1, if last then 0xE07C2654 else 0x1F83D9AB,
        0x5BE0CD19] := by
  have hnot : ~~~(0x1F83D9AB : UInt32) = 0xE07C2654 := by decide
  have happend : #v[h0, h1, h2, h3, h4, h5, h6, h7] ++ blake2sIv =
      #v[h0, h1, h2, h3, h4, h5, h6, h7, 0x6A09E667, 0xBB67AE85, 0x3C6EF372, 0xA54FF53A, 0x510E527F,
        0x9B05688C, 0x1F83D9AB, 0x5BE0CD19] := rfl
  rw [workVariables, happend]
  cases last <;> simp [Vector.getD, Array.getD, hnot]

theorem compress_toList (h : Vector UInt32 8) (t0 t1 : UInt32) (b : Bytes) (last : Bool) :
    (compress h t0 t1 b last).toList = List.zipWith (· ^^^ ·) h.toList
      (folded (Standard.sigma.foldl (b2sRound fun i => Bytes.word32 b (4 * i))
        (workVariables h t0 t1 last))) := by
  generalize hv : Standard.sigma.foldl (b2sRound fun i => Bytes.word32 b (4 * i))
    (workVariables h t0 t1 last) = v
  rw [compress, hv]
  obtain ⟨h0, h1, h2, h3, h4, h5, h6, h7, rfl⟩ := exists_eight h
  rfl

/-- Compressing words is compressing numbers. -/
theorem packed_compress (h : Vector UInt32 8) {t : Nat} {t0 t1 : UInt32} (ht0 : word t 0 = t0.toNat)
    (ht1 : word t 1 = t1.toNat) (b : Bytes) (last : Bool) :
    packed (compress h t0 t1 b last) = Standard.blake2sCompress (packed h) t last (leNat b) := by
  have hm : ∀ i, word (leNat b) i = (Bytes.word32 b (4 * i)).toNat := by
    intro i
    have hpow : 2 ^ (32 * i) = 256 ^ (4 * i) := by
      rw [show 256 = 2 ^ 8 from rfl, ← Nat.pow_mul, ← Nat.mul_assoc]
    have hread := Standard.word32_toNat b (4 * i)
    rw [← hpow, ← Nat.shiftRight_eq_div_pow] at hread
    exact hread.symm
  have hlen : ∀ v, (folded v).length = 8 := by
    intro v
    simp [folded]
  rw [packed, compress_toList, ← Standard.packWords_xor _ _ (by rw [hlen]; simp)]
  refine congrArg (packed h ^^^ ·) ?_
  obtain ⟨h0, h1, h2, h3, h4, h5, h6, h7, rfl⟩ := exists_eight h
  have hrounds := b2sRounds_words hm Standard.sigma (fun s hs => length_row hs) h0 h1 h2 h3 h4 h5 h6
    h7 0x6A09E667 0xBB67AE85 0x3C6EF372 0xA54FF53A (0x510E527F ^^^ t0) (0x9B05688C ^^^ t1)
    (if last then 0xE07C2654 else 0x1F83D9AB) 0x5BE0CD19
  have hlast : (if last then 0xE07C2654 else 0x1F83D9AB : UInt32).toNat
      = if last then 0xE07C2654 else 0x1F83D9AB := by
    cases last <;> rfl
  rw [workVariables_words, ← hrounds, hlast, UInt32.toNat_xor, UInt32.toNat_xor, ← ht0, ← ht1]
  simp only [word_packed]
  rfl

/-! ### The buffer

The buffer is never empty once a byte has come in, because a full block stays in it until
the next byte.  So the blocks that have been compressed are as many as fit strictly below
the input so far.
-/

/-- The chained state and the count of bytes. -/
structure Chain where
  h : Vector UInt32 8
  t0 : UInt32
  t1 : UInt32

/-- What a full block that is not the last does. -/
def chainStep (c : Chain) (b : Bytes) : Chain :=
  let t0 := c.t0 + 64
  let t1 := if t0 < 64 then c.t1 + 1 else c.t1
  ⟨compress c.h t0 t1 b false, t0, t1⟩

def Ctx.chain (ctx : Ctx) : Chain := ⟨ctx.h, ctx.t0, ctx.t1⟩

/-- What the context knows after the input so far. -/
structure Taken (c₀ : Chain) (outlen : Nat) (msg : Bytes) (ctx : Ctx) : Prop where
  outlen_eq : ctx.outlen = outlen
  fits : ctx.c ≤ 64
  /-- A block is only taken when a byte follows it. -/
  kept : ctx.c = 0 → msg = []
  held : Held chainStep 64 c₀ msg ctx.chain (ctx.b.toList.take ctx.c)

theorem take_set {b : Vector UInt8 64} {c : Nat} (hc : c < 64) (x : UInt8) :
    (b.setIfInBounds c x).toList.take (c + 1) = b.toList.take c ++ [x] := by
  have hset : (b.setIfInBounds c x).toList = b.toList.set c x := by
    simp [Vector.toList_setIfInBounds]
  have hlen : c < b.toList.length := by simpa using hc
  rw [hset, List.take_add_one, List.take_set_of_le (Nat.le_refl c), List.getElem?_set_self hlen]
  rfl

/-- One byte. -/
theorem Taken.byte {c₀ : Chain} {outlen : Nat} {msg : Bytes} {ctx : Ctx}
    (h : Taken c₀ outlen msg ctx) (x : UInt8) : Taken c₀ outlen (msg ++ [x]) (updateByte ctx x) := by
  have hput : ∀ ctx' : Ctx, ctx'.outlen = outlen → ctx'.c < 64 →
      Held chainStep 64 c₀ msg ctx'.chain (ctx'.b.toList.take ctx'.c) →
      Taken c₀ outlen (msg ++ [x])
        { ctx' with b := ctx'.b.setIfInBounds ctx'.c x, c := ctx'.c + 1 } := by
    intro ctx' hout hlt hheld
    refine ⟨hout, hlt, fun h => absurd h (Nat.succ_ne_zero _), ?_⟩
    have hpush := hheld.push [x]
    rw [← take_set hlt x] at hpush
    exact hpush
  unfold updateByte
  by_cases hfull : ctx.c = 64
  · have hblock : ctx.b.toList.take ctx.c = ctx.b.toList := List.take_of_length_le (by simp [hfull])
    have hheld := h.held
    rw [hblock] at hheld
    have hflush := hheld.flush_one (by simp)
    simp only [hfull, if_true]
    refine hput { ctx.countAndCompress 64 false with c := 0 } h.outlen_eq ?_ ?_
    · show 0 < 64
      omega
    · rw [List.take_zero]
      exact hflush
  · have hlt := h.fits
    simp only [hfull, if_false]
    exact hput ctx h.outlen_eq (by omega) h.held

/-- Any number of bytes, in any number of pieces. -/
theorem Taken.update {c₀ : Chain} {outlen : Nat} {msg : Bytes} {ctx : Ctx}
    (h : Taken c₀ outlen msg ctx) (input : Bytes) :
    Taken c₀ outlen (msg ++ input) (blake2sUpdate ctx input) := by
  induction input generalizing msg ctx with
  | nil =>
      rw [List.append_nil]
      exact h
  | cons x input ih =>
      have hsplit : msg ++ x :: input = msg ++ [x] ++ input := by simp
      rw [hsplit]
      exact ih (h.byte x)

theorem Taken.updates {c₀ : Chain} {outlen : Nat} {msg : Bytes} {ctx : Ctx}
    (h : Taken c₀ outlen msg ctx) (pieces : List Bytes) :
    Taken c₀ outlen (msg ++ pieces.flatten) (pieces.foldl blake2sUpdate ctx) := by
  induction pieces generalizing msg ctx with
  | nil => simpa using h
  | cons m pieces ih =>
      rw [List.flatten_cons, ← List.append_assoc]
      exact ih (h.update m)

/-! ### The same blocks on numbers

The model's loop is given the whole input at once and looks whether anything follows a
block.  The code does not know what follows, but waits, and so both compress the same
blocks, and the same one last.
-/

/-- What a full block does to the packed state and the count. -/
def stepNat (p : Nat × Nat) (b : Bytes) : Nat × Nat :=
  (Standard.blake2sCompress p.1 (p.2 + 64) false (leNat b), p.2 + 64)

/-- The two words of the count stand for it modulo 2^64. -/
def Counts (t0 t1 : UInt32) (t : Nat) : Prop := t % 2 ^ 64 = t0.toNat + 2 ^ 32 * t1.toNat

/-- The words the compression reads. -/
theorem Counts.words {t0 t1 : UInt32} {t : Nat} (h : Counts t0 t1 t) :
    word t 0 = t0.toNat ∧ word t 1 = t1.toNat := by
  have h0 := t0.toNat_lt
  have h1 := t1.toNat_lt
  unfold Counts at h
  constructor
  · rw [word, Nat.mul_zero, Nat.shiftRight_zero]
    omega
  · rw [word, Nat.mul_one, Nat.shiftRight_eq_div_pow]
    omega

theorem Counts.add {t0 t1 : UInt32} {t n : Nat} (h : Counts t0 t1 t) (hn : n ≤ 64) :
    Counts (t0 + UInt32.ofNat n)
      (if t0 + UInt32.ofNat n < UInt32.ofNat n then t1 + 1 else t1) (t + n) := by
  have h0 := t0.toNat_lt
  have h1 := t1.toNat_lt
  have hof : (UInt32.ofNat n).toNat = n := UInt32.toNat_ofNat_of_lt' (show _ < 4294967296 by omega)
  have hsum : (t0 + UInt32.ofNat n).toNat = (t0.toNat + n) % 2 ^ 32 := by
    rw [UInt32.toNat_add, hof]
  have hone : (t1 + 1).toNat = (t1.toNat + 1) % 2 ^ 32 := UInt32.toNat_add t1 1
  unfold Counts at h ⊢
  split
  · rename_i hlt
    rw [UInt32.lt_iff_toNat_lt, hsum, hof] at hlt
    rw [hsum, hone]
    omega
  · rename_i hge
    rw [UInt32.lt_iff_toNat_lt, hsum, hof] at hge
    rw [hsum]
    omega

/-- The chain stands for a packed state and a count. -/
def StandsFor (c : Chain) (p : Nat × Nat) : Prop := packed c.h = p.1 ∧ Counts c.t0 c.t1 p.2

theorem step_standsFor {c : Chain} {p : Nat × Nat} (b : Bytes) (h : StandsFor c p) :
    StandsFor (chainStep c b) (stepNat p b) := by
  obtain ⟨hh, ht⟩ := h
  have hadd := ht.add (show 64 ≤ 64 by omega)
  obtain ⟨hw0, hw1⟩ := hadd.words
  refine ⟨?_, hadd⟩
  rw [stepNat, ← hh]
  exact packed_compress c.h hw0 hw1 b false

/-- The loop over numbers, block by block: each but the last has a byte behind it. -/
theorem blake2sLoop_feed {k fuel : Nat} (p : Nat × Nat) (m : Bytes)
    (hk : k = 0 ∨ k * 64 < m.length) (hfuel : k ≤ fuel) :
    Standard.blake2sLoop fuel p.1 p.2 m
      = Standard.blake2sLoop (fuel - k) (feed stepNat 64 k p m).1 (feed stepNat 64 k p m).2
          (m.drop (k * 64)) := by
  induction k generalizing fuel p m with
  | zero => simp [feed]
  | succ k ih =>
      obtain ⟨fuel, rfl⟩ : ∃ f, fuel = f + 1 := ⟨fuel - 1, by omega⟩
      have hlong : ¬ m.length ≤ 64 := by omega
      have hdrop : k = 0 ∨ k * 64 < (m.drop 64).length := by
        rw [List.length_drop]
        omega
      have hoff : (k + 1) * 64 = 64 + k * 64 := by omega
      rw [Standard.blake2sLoop, if_neg hlong, force_eq, force_eq, feed, hoff, Nat.add_sub_add_right,
        ← List.drop_drop]
      exact ih (stepNat p (m.take 64)) (m.drop 64) hdrop (by omega)

theorem blake2sLoop_last (fuel : Nat) (p : Nat × Nat) {m : Bytes} (hm : m.length ≤ 64) :
    Standard.blake2sLoop (fuel + 1) p.1 p.2 m
      = Standard.blake2sCompress p.1 (p.2 + m.length) true (leNat m) := by
  rw [Standard.blake2sLoop, if_pos hm, force_eq]

/-- The whole run over numbers, cut where the context's is. -/
theorem blake2sLoop_taken {c₀ : Chain} {p₀ : Nat × Nat} (h₀ : StandsFor c₀ p₀) {outlen : Nat}
    {msg : Bytes} {ctx : Ctx} (h : Taken c₀ outlen msg ctx) :
    ∃ p, StandsFor ctx.chain p ∧ Standard.blake2sLoop (msg.length + 1) p₀.1 p₀.2 msg
      = Standard.blake2sCompress p.1 (p.2 + ctx.c) true (leNat (ctx.b.toList.take ctx.c)) := by
  obtain ⟨k, hlen, hchain, hdrop⟩ := h.held.count
  have hfits := h.fits
  have hrest : (ctx.b.toList.take ctx.c).length = ctx.c := by
    rw [List.length_take]
    simp
    omega
  rw [hrest] at hlen
  have hk : k = 0 ∨ k * 64 < msg.length := by
    by_cases hzero : ctx.c = 0
    · have hnil := h.kept hzero
      rw [hnil, List.length_nil] at hlen
      omega
    · omega
  obtain ⟨fuel, hfuel⟩ : ∃ f, msg.length + 1 - k = f + 1 := ⟨msg.length - k, by omega⟩
  refine ⟨feed stepNat 64 k p₀ msg, ?_, ?_⟩
  · rw [hchain]
    have hstep : ∀ c p b, b.length = 64 → StandsFor c p → StandsFor (chainStep c b) (stepNat p b) := by
      intro c p b _ hst
      exact step_standsFor b hst
    exact Blocks.feed_rel hstep (by omega) h₀
  · rw [blake2sLoop_feed p₀ msg hk (by omega), hfuel, ← hdrop,
      blake2sLoop_last _ _ (by rw [hrest]; exact hfits), hrest]

/-! ### The start -/

/-- A short piece is only stored. -/
theorem blake2sUpdate_short {ctx : Ctx} {input : Bytes} (h : ctx.c + input.length ≤ 64) :
    (blake2sUpdate ctx input).b.toList = Bytes.overlay ctx.b.toList ctx.c input ∧
      (blake2sUpdate ctx input).chain = ctx.chain ∧
      (blake2sUpdate ctx input).outlen = ctx.outlen := by
  induction input generalizing ctx with
  | nil => simp [blake2sUpdate, Bytes.overlay]
  | cons x input ih =>
      have hlt : ctx.c < 64 := by
        rw [List.length_cons] at h
        omega
      have hbyte : updateByte ctx x = { ctx with b := ctx.b.setIfInBounds ctx.c x, c := ctx.c + 1 } := by
        rw [updateByte, if_neg (by omega)]
      have hset : (ctx.b.setIfInBounds ctx.c x).toList = ctx.b.toList.set ctx.c x := by simp
      obtain ⟨hb, hchain, hout⟩ := @ih (updateByte ctx x) (by
        rw [hbyte]
        rw [List.length_cons] at h
        show ctx.c + 1 + input.length ≤ 64
        omega)
      have hstep : blake2sUpdate ctx (x :: input) = blake2sUpdate (updateByte ctx x) input := rfl
      rw [hbyte] at hb hchain hout
      rw [hstep, hbyte]
      refine ⟨?_, hchain, hout⟩
      have hoff : ctx.c + 1 + input.length = ctx.c + (input.length + 1) := by omega
      rw [hb, Bytes.overlay, Bytes.overlay, take_set hlt x, hset, hoff,
        List.drop_set_of_lt (show ctx.c < ctx.c + (input.length + 1) by omega), List.length_cons]
      simp

/-- The input a key puts in front: a block of its own, or nothing. -/
def keyBlock (key : Bytes) : Bytes :=
  if key.length > 0 then key ++ List.replicate (64 - key.length) 0 else []

/-- The chain `blake2s_init` starts with. -/
def startChain (outlen keylen : Nat) : Chain where
  h := blake2sIv.setIfInBounds 0 (blake2sIv.getD 0 0 ^^^ ((0x01010000 : UInt32) ^^^
    (UInt32.ofNat keylen <<< 8) ^^^ UInt32.ofNat outlen))
  t0 := 0
  t1 := 0

theorem startChain_standsFor {outlen keylen : Nat} (hout : outlen ≤ 32) (hkey : keylen ≤ 32) :
    StandsFor (startChain outlen keylen)
      (Standard.blake2sIv ^^^ 0x01010000 ^^^ (keylen <<< 8) ^^^ outlen, 0) := by
  have hof : ∀ n, n ≤ 32 → (UInt32.ofNat n).toNat = n := by
    intro n hn
    exact UInt32.toNat_ofNat_of_lt' (show _ < 4294967296 by omega)
  have hshift : (UInt32.ofNat keylen <<< 8).toNat = keylen <<< 8 := by
    have h := Bytes.toNat_shiftLeft (UInt32.ofNat keylen) (show 8 < 32 by omega)
    rw [hof keylen hkey] at h
    refine Eq.trans h ?_
    rw [Nat.shiftLeft_eq]
    omega
  refine ⟨?_, rfl⟩
  generalize hx : (0x01010000 : UInt32) ^^^ (UInt32.ofNat keylen <<< 8) ^^^ UInt32.ofNat outlen = x
  have hxNat : x.toNat = 0x01010000 ^^^ (keylen <<< 8) ^^^ outlen := by
    rw [← hx, UInt32.toNat_xor, UInt32.toNat_xor, hshift, hof outlen hout]
    rfl
  have hlist : (startChain outlen keylen).h.toList
      = List.zipWith (· ^^^ ·) blake2sIv.toList [x, 0, 0, 0, 0, 0, 0, 0] := by
    rw [startChain, hx]
    simp [blake2sIv, Vector.getD, Array.getD]
  have hiv : packed blake2sIv = Standard.blake2sIv := by decide
  have hpad : packWords ([x, 0, 0, 0, 0, 0, 0, 0].map UInt32.toNat) = x.toNat := by
    have hnil : packWords (([] : List UInt32).map UInt32.toNat) = 0 := rfl
    simp only [Standard.packWords_cons, hnil, UInt32.toNat_zero, Nat.mul_zero, Nat.add_zero]
  have hlen : blake2sIv.toList.length = [x, 0, 0, 0, 0, 0, 0, 0].length := rfl
  rw [packed, hlist, ← Standard.packWords_xor _ _ hlen, hpad]
  show packed blake2sIv ^^^ x.toNat = _
  rw [hiv, hxNat, Nat.xor_assoc, Nat.xor_assoc, Nat.xor_assoc]

/-- `blake2s_init` starts with the key's block. -/
theorem blake2sInit_taken (ctx : Ctx) {outlen : Nat} {key : Bytes}
    (h : ¬(outlen = 0 ∨ outlen > 32 ∨ key.length > 32)) :
    ∃ ctx', blake2sInit ctx outlen key = some ctx' ∧
      Taken (startChain outlen key.length) outlen (keyBlock key) ctx' := by
  rw [blake2sInit, if_neg h]
  simp only
  split
  · rename_i hpos
    refine ⟨_, rfl, ?_⟩
    have hlen : key.length ≤ 32 := by omega
    have hshort := @blake2sUpdate_short
      { ctx with
        h := blake2sIv.setIfInBounds 0 (blake2sIv.getD 0 0 ^^^ ((0x01010000 : UInt32) ^^^
          (UInt32.ofNat key.length <<< 8) ^^^ UInt32.ofNat outlen))
        t0 := 0
        t1 := 0
        c := 0
        outlen := outlen
        b := Vector.ofFn fun i => if key.length ≤ i.val then 0 else ctx.b.getD i.val 0 } key
      (show 0 + key.length ≤ 64 by omega)
    generalize blake2sUpdate _ key = ctx' at hshort ⊢
    obtain ⟨hb, hchain, hout⟩ := hshort
    have hzeros : (Vector.ofFn fun i : Fin 64 =>
        if key.length ≤ i.val then 0 else ctx.b.getD i.val 0).toList.drop key.length
        = List.replicate (64 - key.length) 0 := by
      apply List.ext_getElem
      · simp
      · intro i _ _
        simp
    have hblock : ctx'.b.toList = keyBlock key := by
      rw [hb, keyBlock, if_pos hpos, Bytes.overlay, List.take_zero, List.nil_append, Nat.zero_add,
        hzeros]
    refine ⟨hout, Nat.le_refl 64, fun h0 => absurd h0 (show ¬(64 = 0) by omega), ?_⟩
    have hall : ctx'.b.toList.take 64 = keyBlock key := by
      rw [← hblock]
      exact List.take_of_length_le (by simp)
    show Held chainStep 64 _ _ ctx'.chain (ctx'.b.toList.take 64)
    rw [hall, hchain]
    have hpush := (@Held.start _ _ chainStep 64 (startChain outlen key.length)).push (keyBlock key)
    rwa [List.nil_append] at hpush
  · rename_i hzero
    refine ⟨_, rfl, rfl, Nat.zero_le _, fun _ => by rw [keyBlock, if_neg hzero], ?_⟩
    rw [keyBlock, if_neg hzero]
    exact Held.start

/-! ### The digest -/

theorem digest_bytes {outlen : Nat} (hout : outlen ≤ 32) (h : Vector UInt32 8) :
    ((List.range outlen).map fun i =>
        (h.getD (i >>> 2) 0 >>> UInt32.ofNat (8 * (i &&& 3))).toUInt8)
      = (Standard.natBytes outlen (packed h)).toList := by
  apply List.ext_getElem
  · simp
  · intro i hi _
    rw [List.length_map, List.length_range] at hi
    have hquot : i >>> 2 = i / 4 := Nat.shiftRight_eq_div_pow i 2
    have hrem : i &&& 3 = i % 4 := Nat.and_two_pow_sub_one_eq_mod i 2
    have hlt : i / 4 < 8 := by omega
    have hget : h.getD (i / 4) 0 = h.toList.getD (i / 4) 0 := by
      simp [Vector.getD, Array.getD, List.getD_eq_getElem?_getD, hlt]
    have hof : (UInt32.ofNat (8 * (i % 4))).toNat = 8 * (i % 4) :=
      UInt32.toNat_ofNat_of_lt' (show _ < 4294967296 by omega)
    have hword := word_packed h (i / 4)
    rw [word] at hword
    have hsplit : packed h >>> (8 * i) = packed h >>> (32 * (i / 4)) / 2 ^ (8 * (i % 4)) := by
      rw [← Nat.shiftRight_eq_div_pow, ← Nat.shiftRight_add]
      congr 1
      omega
    simp only [List.getElem_map, List.getElem_range, Standard.natBytes, Vector.getElem_toList,
      Vector.getElem_ofFn]
    apply UInt8.toNat_inj.mp
    rw [UInt32.toNat_toUInt8, UInt32.toNat_shiftRight, hquot, hrem, hof, hget, ← hword,
      UInt8.toNat_ofNat', hsplit, Nat.shiftRight_eq_div_pow]
    have hr : i % 4 < 4 := Nat.mod_lt i (by omega)
    generalize packed h >>> (32 * (i / 4)) = y
    generalize i % 4 = r at hr
    have hpow : 4294967296 = 2 ^ (8 * r) * 2 ^ (32 - 8 * r) := by
      rw [← Nat.pow_add, Nat.add_sub_cancel' (by omega)]
    rw [Nat.mod_eq_of_lt (show 8 * r < 32 by omega), hpow, Nat.mod_mul_right_div_self,
      Nat.mod_mod_of_dvd _ (Nat.pow_dvd_pow 2 (by omega))]

/-- The last block, filled up with zeros. -/
theorem filled_bytes {ctx : Ctx} (h : ctx.c ≤ 64) :
    (Vector.ofFn fun i : Fin 64 => if ctx.c ≤ i.val then 0 else ctx.b.getD i.val 0).toList
      = ctx.b.toList.take ctx.c ++ List.replicate (64 - ctx.c) 0 := by
  apply List.ext_getElem
  · simp
    omega
  · intro i hi _
    have htake : (ctx.b.toList.take ctx.c).length = ctx.c := by
      simp
      omega
    by_cases hlt : i < ctx.c
    · rw [List.getElem_append_left (by omega)]
      simp [hlt, Vector.getD, Array.getD]
    · rw [List.getElem_append_right (by omega)]
      simp [hlt]

/-- `blake2s_final` marks the last block and stores the digest. -/
theorem blake2sFinal_eq {outlen : Nat} (hout : outlen ≤ 32) {c₀ : Chain} {msg : Bytes} {ctx : Ctx}
    (h : Taken c₀ outlen msg ctx) {p : Nat × Nat} (hp : StandsFor ctx.chain p) :
    blake2sFinal ctx = (Standard.natBytes outlen (Standard.blake2sCompress p.1 (p.2 + ctx.c) true
      (leNat (ctx.b.toList.take ctx.c)))).toList := by
  obtain ⟨hh, ht⟩ := hp
  obtain ⟨hw0, hw1⟩ := (ht.add h.fits).words
  simp only [Ctx.chain] at hh hw0 hw1
  have hnum : leNat (Vector.ofFn fun i : Fin 64 =>
      if ctx.c ≤ i.val then 0 else ctx.b.getD i.val 0).toList
      = leNat (ctx.b.toList.take ctx.c) := by
    rw [filled_bytes h.fits, Standard.leNat_append, Standard.leNat_replicate_zero, Nat.mul_zero,
      Nat.add_zero]
  rw [← hnum, blake2sFinal]
  generalize (Vector.ofFn fun i : Fin 64 => if ctx.c ≤ i.val then 0 else ctx.b.getD i.val 0) = filled
  simp only [Ctx.countAndCompress, h.outlen_eq]
  rw [digest_bytes hout, ← hh]
  refine congrArg (fun n => (Standard.natBytes outlen n).toList) ?_
  exact packed_compress ctx.h hw0 hw1 filled.toList true

/-- **The compiled digest is BLAKE2s.**  Whatever the context held before, and however the
input is cut into updates, the digest is the one of the whole input; parameters out of range
are refused. -/
theorem blake2s_computes (ctx : Ctx) (outlen : Nat) (key : Bytes) (pieces : List Bytes) :
    blake2s ctx outlen key pieces
      = if outlen = 0 ∨ outlen > 32 ∨ key.length > 32 then none
        else some (Standard.blake2s outlen key pieces.flatten).toList := by
  rw [blake2s]
  by_cases h : outlen = 0 ∨ outlen > 32 ∨ key.length > 32
  · rw [if_pos h, blake2sInit, if_pos h]
    rfl
  · obtain ⟨ctx', hinit, htaken⟩ := blake2sInit_taken ctx h
    have hout : outlen ≤ 32 := by omega
    have hkey : key.length ≤ 32 := by omega
    have hall := htaken.updates pieces
    obtain ⟨p, hp, hloop⟩ := blake2sLoop_taken (startChain_standsFor hout hkey) hall
    have hdata : (if key.length > 0 then key ++ List.replicate (64 - key.length) 0 ++ pieces.flatten
        else pieces.flatten) = keyBlock key ++ pieces.flatten := by
      rw [keyBlock]
      split
      · rfl
      · rfl
    rw [if_neg h, hinit, Option.map_some, blake2sFinal_eq hout hall hp, ← hloop, Standard.blake2s]
    simp only [force_eq, hdata]

end SysAwg.Blake2s
