/-
Draws stay in their ranges, and where the ranges do not.

`parse_range` compares its two numbers as `long`s and stores them as `int`s, so a range can
come out upside down, or wider than the `int` its width is computed in.  Everything else
about it holds of every text.  A junk packet is cut to the 128 bytes of its slot, so its
length is in the configured range exactly if that range begins inside the slot.

For ranges the question is what `parse_range` can return: one number twice, or two numbers
that were in order as `long`s.  A draw is then safe or not by the width alone.  For junk
packets the buffer is followed slot by slot, and the length that was cut is compared with
the range.
-/
import SysAwg.Draws
import SysAwg.ConfigText
import SysAwg.Proofs.Spacing

namespace SysAwg

open Checked Bytes

/-! ### Ranges

The width is computed as an `int` and the draw reduced by it as an unsigned word.  If the
width is an `int` and not below one, the remainder is below it and the sum stays in the
range.
-/

theorem asInt_range (n : Int) : intMin ≤ asInt n ∧ asInt n ≤ intMax := by
  simp only [asInt, intMin, intMax]
  omega

theorem asInt_eq {n : Int} (h : intMin ≤ n ∧ n ≤ intMax) : asInt n = n := by
  simp only [asInt, intMin, intMax] at h ⊢
  omega

/-- **A draw is safe exactly if the width is an `int`**, and then it is in the range. -/
theorem awgRangePickChecked_iff {r : Range} (hr : r.IsInt) (e : Entropy) :
    (r.min ≤ r.max ∧ ∃ x, awgRangePickChecked r e = .ok x ∧ r.min ≤ x ∧ x ≤ r.max) ↔
      r.min ≤ r.max ∧ r.max - r.min < intMax := by
  obtain ⟨⟨hmin, hmin'⟩, ⟨hmax, hmax'⟩⟩ := hr
  refine and_congr_right fun hle => ?_
  unfold awgRangePickChecked
  by_cases hdeg : r.max ≤ r.min
  · rw [if_pos hdeg]
    simp only [intMax] at *
    exact iff_of_true ⟨r.min, rfl, le_refl _, hle⟩ (by omega)
  · rw [if_neg hdeg]
    constructor
    · rintro ⟨x, hx, -, -⟩
      have hsafe : Safe (int (r.max - r.min) >>= fun width => int (width + 1) >>= fun width =>
          Checked.mod (awgRandomWord e).toNat (UInt32.ofInt width).toNat >>= fun k =>
            int (r.min + asInt k)) := ⟨x, hx⟩
      rw [safe_int_bind, safe_int_bind] at hsafe
      have hwidth := hsafe.2.1.2
      omega
    · intro hwidth
      have hpos : 0 < r.max - r.min := by omega
      have hmod : (UInt32.ofInt (r.max - r.min + 1)).toNat = (r.max - r.min + 1).toNat := by
        simp only [intMax] at hwidth
        rw [toNat_ofInt]
        omega
      have hk : (awgRandomWord e).toNat % (r.max - r.min + 1).toNat < (r.max - r.min + 1).toNat :=
        Nat.mod_lt _ (by omega)
      have hlow : intMin ≤ 0 := by decide
      rw [int_eq (by omega), ok_bind, int_eq (by omega), ok_bind, hmod, mod_eq (by omega), ok_bind]
      generalize (awgRandomWord e).toNat % (r.max - r.min + 1).toNat = k at hk ⊢
      rw [asInt_eq (by omega), int_eq (by omega)]
      exact ⟨_, rfl, by omega, by omega⟩

theorem awgRangePick_of_checked {r : Range} {e : Entropy} {x : Int}
    (h : awgRangePickChecked r e = .ok x) : awgRangePick r e = x := by
  unfold awgRangePickChecked at h
  unfold awgRangePick
  split at h
  · rename_i hdeg
    rw [if_pos hdeg]
    cases h
    rfl
  · rename_i hdeg
    rw [if_neg hdeg]
    have hdraw := ok_int (ok_mod_bind (ok_int_bind (ok_int_bind h)))
    rw [← hdraw]
    rw [toNat_ofInt]

/-- What the range of a text needs: the numbers on both sides of the dash keep their order
as `int`s, and their distance and one more is an `int`. -/
def RangeFits (s : Bytes) : Prop :=
  ∀ rest, (strtol s).2 = 45 :: rest → (strtol s).1 ≤ (strtol rest).1 →
    asInt (strtol s).1 ≤ asInt (strtol rest).1 ∧
      asInt (strtol rest).1 - asInt (strtol s).1 < intMax

/-- One number, or two. -/
theorem parseRange_cases (s : Bytes) :
    (parseRange s = ⟨asInt (strtol s).1, asInt (strtol s).1⟩ ∧ RangeFits s) ∨
      ∃ rest, (strtol s).2 = 45 :: rest ∧ (strtol s).1 ≤ (strtol rest).1 ∧
        parseRange s = ⟨asInt (strtol s).1, asInt (strtol rest).1⟩ := by
  unfold parseRange RangeFits
  cases hend : (strtol s).2 with
  | nil =>
    refine .inl ⟨rfl, ?_⟩
    intro rest h
    cases h
  | cons c rest =>
    dsimp only
    split
    · rename_i hdash
      subst hdash
      split
      · rename_i hle
        exact .inr ⟨rest, rfl, hle, rfl⟩
      · rename_i hlt
        refine .inl ⟨rfl, ?_⟩
        intro rest' h hle
        cases h
        exact absurd hle hlt
    · rename_i hdash
      refine .inl ⟨rfl, ?_⟩
      intro rest' h
      cases h
      exact absurd rfl hdash

theorem parseRange_isInt (s : Bytes) : (parseRange s).IsInt := by
  obtain ⟨heq, -⟩ | ⟨rest, -, -, heq⟩ := parseRange_cases s
  · rw [heq]
    exact ⟨asInt_range _, asInt_range _⟩
  · rw [heq]
    exact ⟨asInt_range _, asInt_range _⟩

theorem rangeFits_iff (s : Bytes) :
    ((parseRange s).min ≤ (parseRange s).max ∧ (parseRange s).max - (parseRange s).min < intMax) ↔
      RangeFits s := by
  obtain ⟨heq, hfits⟩ | ⟨rest, hend, hle, heq⟩ := parseRange_cases s
  · rw [heq]
    refine iff_of_true ⟨le_refl _, ?_⟩ hfits
    rw [Int.sub_self]
    decide
  · rw [heq]
    constructor
    · intro h rest' hend' _
      rw [hend] at hend'
      cases hend'
      exact h
    · intro h
      exact h rest hend hle

/-- The range of a text is in order, and a draw from it meets no fault and stays inside. -/
def RangeSound (s : Bytes) (e : Entropy) : Prop :=
  (parseRange s).min ≤ (parseRange s).max ∧
    ∃ x, awgRangePickChecked (parseRange s) e = .ok x ∧ (parseRange s).min ≤ x ∧
      x ≤ (parseRange s).max

theorem drawnOr_pos (v : Int) {dflt : Int} (h : 0 < dflt) : 0 < drawnOr v dflt := by
  unfold drawnOr
  split
  · exact h
  · omega

/-- **Ranges are sound exactly where the two numbers fit**, whatever is drawn; and the drawn
timers of a session are positive for every configuration. -/
theorem rangeSound_iff (s : Bytes) (e : Entropy) (cfg : Config) (draws : Fin 5 → Entropy) :
    (RangeSound s e ↔ RangeFits s) ∧
      0 < (awgSessionInit cfg draws).rekeyAfterS ∧ 0 < (awgSessionInit cfg draws).rejectAfterS ∧
      0 < (awgSessionInit cfg draws).rekeyTimeoutS ∧ 0 < (awgSessionInit cfg draws).keepaliveS ∧
      0 < (awgSessionInit cfg draws).maxTries := by
  refine ⟨?_, ?_, ?_, ?_, ?_, ?_⟩
  · exact (awgRangePickChecked_iff (parseRange_isInt s) e).trans (rangeFits_iff s)
  all_goals exact drawnOr_pos _ (by decide)

/-- Where the numbers fit, `awg_range_pick` draws from the range. -/
theorem awgRangePick_mem {s : Bytes} (h : RangeFits s) (e : Entropy) :
    (parseRange s).min ≤ awgRangePick (parseRange s) e ∧
      awgRangePick (parseRange s) e ≤ (parseRange s).max := by
  have hfits := (rangeFits_iff s).mpr h
  obtain ⟨-, x, hx, hrange⟩ := (awgRangePickChecked_iff (parseRange_isInt s) e).mpr hfits
  rw [awgRangePick_of_checked hx]
  exact hrange

/-- `4294967296` is not below 1 as a `long`, and 0 as an `int`. -/
theorem parseRange_upside_down :
    ¬ ∀ (s : Bytes) (e : Entropy), RangeSound s e := by
  intro h
  have horder := (h (ascii "1-4294967296") fun _ => 0).1
  revert horder
  decide

/-! ### Junk packets -/

/-- `Jmin` and `Jmax`: not negative, in order, and `int`s as their type says. -/
structure Config.JunkRange (cfg : Config) : Prop where
  min : 0 ≤ cfg.jmin
  order : cfg.jmin ≤ cfg.jmax
  isInt : cfg.jmax ≤ intMax

theorem junkLen_eq {cfg : Config} (hcfg : cfg.JunkRange) (cap : Nat) (e : Entropy) :
    ∃ k, 0 ≤ k ∧ k ≤ cfg.jmax - cfg.jmin ∧ junkLen cfg cap e = min (cfg.jmin + k) cap := by
  obtain ⟨hmin, horder, hint⟩ := hcfg
  have hlow : intMin ≤ 0 := by decide
  -- the reduced draw, as an `int`
  have hdraw : ∃ k : Int, 0 ≤ k ∧ k ≤ cfg.jmax - cfg.jmin ∧
      asInt (if cfg.jmax - cfg.jmin > 0
        then (awgRandomWord e).toNat % (UInt32.ofInt (cfg.jmax - cfg.jmin)).toNat else 0 : Nat) =
        k := by
    split
    · rename_i hspan
      have hword : (UInt32.ofInt (cfg.jmax - cfg.jmin)).toNat = (cfg.jmax - cfg.jmin).toNat := by
        rw [toNat_ofInt]
        simp only [intMax] at hint
        omega
      have hk : (awgRandomWord e).toNat % (cfg.jmax - cfg.jmin).toNat <
          (cfg.jmax - cfg.jmin).toNat := Nat.mod_lt _ (by omega)
      rw [hword]
      generalize (awgRandomWord e).toNat % (cfg.jmax - cfg.jmin).toNat = k at hk
      exact ⟨k, by omega, by omega, asInt_eq (by omega)⟩
    · exact ⟨0, le_refl _, by omega, rfl⟩
  obtain ⟨k, hk, hk', heq⟩ := hdraw
  refine ⟨k, hk, hk', ?_⟩
  unfold junkLen
  dsimp only
  rw [heq]
  by_cases hcut : cfg.jmin + k > cap
  · rw [if_pos hcut, if_neg (by omega), min_eq_right (by omega)]
  · rw [if_neg hcut, if_neg (by omega), min_eq_left (by omega)]

/-- The length drawn for packet `i`. -/
def junkSize (cfg : Config) (cap : Nat) (draws : Nat → JunkDraw) (i : Nat) : Nat :=
  (junkLen cfg cap (draws i).size).toNat

theorem junkLen_range (cfg : Config) (cap : Nat) (e : Entropy) :
    0 ≤ junkLen cfg cap e ∧ junkLen cfg cap e ≤ cap := by
  unfold junkLen
  dsimp only
  generalize cfg.jmin + asInt _ = len
  by_cases hcut : len > cap
  · rw [if_pos hcut, if_neg (by omega)]
    omega
  · rw [if_neg hcut]
    split
    · omega
    · omega

theorem junkSize_le (cfg : Config) (cap : Nat) (draws : Nat → JunkDraw) (i : Nat) :
    junkSize cfg cap draws i ≤ cap := by
  have hrange := junkLen_range cfg cap (draws i).size
  unfold junkSize
  omega

/-- What the loop of `awg_junk_packets` has done with the packets from `i` on. -/
structure JunkLaid (cfg : Config) (cap : Nat) (draws : Nat → JunkDraw) (i n : Nat)
    (bufs bufs' : Bytes) : Prop where
  length : bufs'.length = bufs.length
  filled : ∀ j, i ≤ j → j < i + n → bufs'.slice (j * cap) (junkSize cfg cap draws j) =
    awgRandomBytes (draws j).fill (junkSize cfg cap draws j)
  kept : ∀ p, (∀ j, i ≤ j → j < i + n → p < j * cap ∨ j * cap + junkSize cfg cap draws j ≤ p) →
    bufs'[p]? = bufs[p]?
  before : ∀ a m, a + m ≤ i * cap → bufs'.slice a m = bufs.slice a m

theorem junkLoop_laid (cfg : Config) (cap : Nat) (draws : Nat → JunkDraw) (n : Nat) :
    ∀ (i : Nat) (bufs : Bytes) (lens : List Int), (i + n) * cap ≤ bufs.length →
      JunkLaid cfg cap draws i n bufs (junkLoop cfg cap draws n i bufs lens).1 ∧
      (junkLoop cfg cap draws n i bufs lens).2 =
        lens ++ (List.range n).map fun j => ((junkSize cfg cap draws (i + j) : Nat) : Int) := by
  induction n with
  | zero =>
    intro i bufs lens _
    refine ⟨⟨rfl, ?_, fun p _ => rfl, fun a m _ => rfl⟩, (List.append_nil lens).symm⟩
    intro j hij hji
    omega
  | succ n ih =>
    intro i bufs lens hroom
    have hsize := junkSize_le cfg cap draws i
    have hend : (i + 1) * cap ≤ (i + 1 + n) * cap := Nat.mul_le_mul_right cap (by omega)
    have hnext : (i + 1) * cap = i * cap + cap := Nat.succ_mul i cap
    have hroom' : (i + 1 + n) * cap ≤ bufs.length := by
      rw [show i + 1 + n = i + (n + 1) by omega]
      exact hroom
    have hlen : (awgRandomBytes (draws i).fill (junkSize cfg cap draws i)).length =
        junkSize cfg cap draws i := length_awgRandomBytes ..
    have hfits : i * cap + (awgRandomBytes (draws i).fill (junkSize cfg cap draws i)).length ≤
        bufs.length := by
      omega
    have hint : ((junkSize cfg cap draws i : Nat) : Int) = junkLen cfg cap (draws i).size :=
      Int.toNat_of_nonneg (junkLen_range ..).1
    obtain ⟨hlaid, hlens⟩ := ih (i + 1)
      (bufs.overlay (i * cap) (awgRandomBytes (draws i).fill (junkSize cfg cap draws i)))
      (lens ++ [junkLen cfg cap (draws i).size]) (by rw [length_overlay hfits]; exact hroom')
    refine ⟨⟨?_, ?_, ?_, ?_⟩, ?_⟩
    · exact hlaid.length.trans (length_overlay hfits)
    · intro j hij hji
      rcases Nat.eq_or_lt_of_le hij with rfl | hlt
      · -- the packets that follow are written behind this one
        exact (hlaid.before _ _ (by omega)).trans (slice_overlay (by omega) hlen)
      · exact hlaid.filled j hlt (by omega)
    · intro p hp
      have hrest := hlaid.kept p fun j hij hji => hp j (by omega) (by omega)
      have hhere := hp i (le_refl i) (by omega)
      exact hrest.trans (getElem?_overlay hfits (by rw [hlen]; exact hhere))
    · intro a m ham
      exact (hlaid.before a m (by omega)).trans (slice_overlay_before (by omega) ham)
    · have hshift : ∀ j, i + 1 + j = i + (j + 1) := by omega
      refine hlens.trans ?_
      rw [List.range_succ_eq_map, List.map_cons, List.map_map, List.append_assoc, ← hint]
      simp only [hshift]
      rfl

/-- The junk packets sent follow the configuration: as many, as long, each the random bytes
of its own slot, and no other byte of the buffer touched. -/
structure JunkFollows (cfg : Config) (junk : Bytes) (draws : Nat → JunkDraw) : Prop where
  count : ((mainJunk cfg junk draws).2.length : Int) = cfg.jc
  sizes : ∀ p ∈ (mainJunk cfg junk draws).2, cfg.jmin ≤ p.length ∧ (p.length : Int) ≤ cfg.jmax
  slots : ∀ i p, (mainJunk cfg junk draws).2[i]? = some p →
    p.length ≤ 128 ∧ p = awgRandomBytes (draws i).fill p.length ∧
      (mainJunk cfg junk draws).1.slice (i * 128) p.length = p
  rest : ∀ k, (∀ i p, (mainJunk cfg junk draws).2[i]? = some p →
    k < i * 128 ∨ i * 128 + p.length ≤ k) → (mainJunk cfg junk draws).1[k]? = junk[k]?

variable {cfg : Config} {junk : Bytes}

theorem mainJunk_eq (hjc : 0 ≤ cfg.jc ∧ cfg.jc ≤ 16) (hjunk : junk.length = 16 * 128)
    (draws : Nat → JunkDraw) :
    JunkLaid cfg 128 draws 0 cfg.jc.toNat junk (mainJunk cfg junk draws).1 ∧
      (mainJunk cfg junk draws).2 = (List.range cfg.jc.toNat).map fun j =>
        awgRandomBytes (draws j).fill (junkSize cfg 128 draws j) := by
  have hroom : (0 + cfg.jc.toNat) * 128 ≤ junk.length := by omega
  obtain ⟨hlaid, hlens⟩ := junkLoop_laid cfg 128 draws cfg.jc.toNat 0 junk [] hroom
  by_cases hzero : cfg.jc ≤ 0
  · have hnone : cfg.jc.toNat = 0 := by omega
    have hmain : mainJunk cfg junk draws = (junk, []) := by
      simp [mainJunk, awgJunkPackets, if_neg (show ¬ cfg.jc > 16 by omega), hzero]
    rw [hmain, hnone]
    rw [hnone] at hlaid
    exact ⟨hlaid, rfl⟩
  · have hmain : mainJunk cfg junk draws =
        ((junkLoop cfg 128 draws cfg.jc.toNat 0 junk []).1,
          (List.range cfg.jc.toNat).map fun j =>
            (junkLoop cfg 128 draws cfg.jc.toNat 0 junk []).1.slice (j * 128)
              ((junkLoop cfg 128 draws cfg.jc.toNat 0 junk []).2.getD j 0).toNat) := by
      simp [mainJunk, awgJunkPackets, if_neg (show ¬ cfg.jc > 16 by omega), hzero]
    rw [hmain]
    refine ⟨hlaid, ?_⟩
    apply List.map_congr_left
    intro j hj
    have hj' := List.mem_range.mp hj
    have hget : ((junkLoop cfg 128 draws cfg.jc.toNat 0 junk []).2.getD j 0).toNat =
        junkSize cfg 128 draws j := by
      rw [hlens]
      simp [hj']
    rw [hget, hlaid.filled j (Nat.zero_le j) (by omega)]

theorem mainJunk_getElem? (hjc : 0 ≤ cfg.jc ∧ cfg.jc ≤ 16) (hjunk : junk.length = 16 * 128)
    (draws : Nat → JunkDraw) {i : Nat} {p : Bytes}
    (hp : (mainJunk cfg junk draws).2[i]? = some p) :
    i < cfg.jc.toNat ∧ p = awgRandomBytes (draws i).fill (junkSize cfg 128 draws i) := by
  rw [(mainJunk_eq hjc hjunk draws).2, List.getElem?_map, Option.map_eq_some_iff] at hp
  obtain ⟨j, hj, rfl⟩ := hp
  obtain ⟨hlt, hget⟩ := List.getElem?_eq_some_iff.mp hj
  rw [List.getElem_range] at hget
  subst hget
  exact ⟨by simpa using hlt, rfl⟩

/-- A length is in the range exactly if the range begins inside the slot. -/
theorem junkSize_in_range_iff (hcfg : cfg.JunkRange) (draws : Nat → JunkDraw) (i : Nat) :
    (cfg.jmin ≤ junkSize cfg 128 draws i ∧ (junkSize cfg 128 draws i : Int) ≤ cfg.jmax) ↔
      cfg.jmin ≤ 128 := by
  obtain ⟨k, hk, hk', heq⟩ := junkLen_eq hcfg 128 (draws i).size
  have hsize : ((junkSize cfg 128 draws i : Nat) : Int) = min (cfg.jmin + k) 128 := by
    unfold junkSize
    rw [Int.toNat_of_nonneg (junkLen_range ..).1, heq]
    rfl
  rw [hsize]
  omega

/-- **The junk packets follow `Jc`, `Jmin` and `Jmax` exactly if `Jmin` is at most the size
of a slot**, or none is sent; their number and their places are right in any case. -/
theorem junkFollows_iff (hjc : 0 ≤ cfg.jc ∧ cfg.jc ≤ 16) (hcfg : cfg.JunkRange)
    (hjunk : junk.length = 16 * 128) (draws : Nat → JunkDraw) :
    JunkFollows cfg junk draws ↔ cfg.jc = 0 ∨ cfg.jmin ≤ 128 := by
  obtain ⟨hlaid, hsent⟩ := mainJunk_eq hjc hjunk draws
  constructor
  · intro h
    by_contra hcond
    rw [not_or] at hcond
    have hfirst : awgRandomBytes (draws 0).fill (junkSize cfg 128 draws 0) ∈
        (mainJunk cfg junk draws).2 := by
      rw [hsent]
      exact List.mem_map.mpr ⟨0, List.mem_range.mpr (by omega), rfl⟩
    have hsize := h.sizes _ hfirst
    rw [length_awgRandomBytes] at hsize
    exact hcond.2 ((junkSize_in_range_iff hcfg draws 0).mp hsize)
  · intro hcond
    refine ⟨?_, ?_, ?_, ?_⟩
    · rw [hsent, List.length_map, List.length_range]
      exact Int.toNat_of_nonneg hjc.1
    · intro p hp
      rw [hsent] at hp
      obtain ⟨i, hi, rfl⟩ := List.mem_map.mp hp
      have hsome := List.mem_range.mp hi
      rw [length_awgRandomBytes]
      exact (junkSize_in_range_iff hcfg draws i).mpr (hcond.resolve_left (by omega))
    · intro i p hp
      obtain ⟨hi, rfl⟩ := mainJunk_getElem? hjc hjunk draws hp
      rw [length_awgRandomBytes]
      exact ⟨junkSize_le .., rfl, hlaid.filled i (Nat.zero_le i) (by omega)⟩
    · intro k hk
      apply hlaid.kept
      intro i _ hi
      have hi' : i < cfg.jc.toNat := by omega
      have hget : (mainJunk cfg junk draws).2[i]? =
          some (awgRandomBytes (draws i).fill (junkSize cfg 128 draws i)) := by
        rw [hsent]
        simp [hi']
      have hout := hk i _ hget
      rwa [length_awgRandomBytes] at hout

/-- Three junk packets of 40 to 70 bytes. -/
theorem junkFollows_usual :
    JunkFollows { Config.default with jc := 3, jmin := 40, jmax := 70 } (List.replicate 2048 0)
      fun _ => ⟨fun _ => 0, fun _ => 0⟩ := by
  refine (junkFollows_iff ?_ ?_ ?_ _).mpr (.inr ?_)
  · decide
  · exact ⟨by decide, by decide, by decide⟩
  · rw [List.length_replicate]
  · decide

/-- One junk packet of 200 to 300 bytes is cut to 128. -/
theorem junk_cut :
    ¬ ∀ (cfg : Config) (junk : Bytes) (draws : Nat → JunkDraw), 0 ≤ cfg.jc ∧ cfg.jc ≤ 16 →
      cfg.JunkRange → junk.length = 16 * 128 → JunkFollows cfg junk draws := by
  intro h
  have hjc : (0 : Int) ≤ 1 ∧ (1 : Int) ≤ 16 := by decide
  have hcfg : Config.JunkRange { Config.default with jc := 1, jmin := 200, jmax := 300 } :=
    ⟨by decide, by decide, by decide⟩
  have hjunk : (List.replicate 2048 (0 : UInt8)).length = 16 * 128 := List.length_replicate
  have hfollows := h _ _ (fun _ => ⟨fun _ => 0, fun _ => 0⟩) hjc hcfg hjunk
  have hsizes := hfollows.sizes
  rw [(mainJunk_eq hjc hjunk _).2] at hsizes
  have hfirst := hsizes _ (List.mem_map.mpr ⟨0, List.mem_range.mpr (by decide), rfl⟩)
  rw [length_awgRandomBytes] at hfirst
  have hmin := (junkSize_in_range_iff hcfg _ 0).mp hfirst
  revert hmin
  decide

end SysAwg
