/-
Limb arithmetic on field elements.

Every operation of `x25519.c` takes its operands anywhere below 2^256 and leaves a result
below 2^255 plus one word that is right modulo 2^255 - 19.  Only the subtraction asks for
more: what is subtracted must not exceed 2^256 - 38, which every result satisfies.  Each
loop is a carry chain; what is proved here is one equation per step, and the library sums
the steps up.

A result is stated twice, as a number and as an element of the field.  The number is
bounded, so that the next operation may use it; the element is the one the field operation
gives.  `el_add`, `el_sub` and `el_mul` say both, and with them the ladder can be followed
on elements.
-/
import SysAwg.X25519
import SysAwg.Lib.Word64
import SysAwg.Proofs.LeNat
import Mathlib.Data.ZMod.Basic

namespace SysAwg.X25519

open Limbs (value chain weigh Carries chain_value)
open Standard (prime)

/-- The number an element's limbs spell. -/
def Fe.val (x : Fe) : Nat := value x.limbs

/-- The element of the field they stand for. -/
def Fe.el (x : Fe) : ZMod prime := (x.val : Nat)

/-- What every operation leaves: below 2^255 plus one word. -/
def Fe.Tight (x : Fe) : Prop := x.val < 2 ^ 255 + 2 ^ 32

theorem Fe.val_lt (x : Fe) : x.val < 2 ^ 256 := by
  have h := Limbs.value_lt x.limbs
  rwa [x.size] at h

/-! ### One step

A word of 64 bits is its two halves, and this is all that a step has to do with it.  For the
signed carry of a subtraction the upper half counts as negative.
-/

/-- A double limb is its low and its high word. -/
theorem toNat_split (t : UInt64) :
    (t.toUInt32.toNat : Int) + 2 ^ 32 * ((t >>> 32).toUInt32.toNat : Int) = t.toNat := by
  have hlt := t.toNat_lt
  have hlow : t.toUInt32.toNat = t.toNat % 2 ^ 32 := UInt64.toNat_toUInt32 t
  have hshr : (t >>> 32).toNat = t.toNat / 2 ^ 32 := Word64.toNat_shr t rfl (by omega)
  have hhigh : (t >>> 32).toUInt32.toNat = (t >>> 32).toNat % 2 ^ 32 := UInt64.toNat_toUInt32 _
  omega

theorem adc0_carries : Carries adc0 (fun _ => True) (fun c => (c.toNat : Int))
    (fun x => (x.toNat : Int)) := by
  intro c x _
  refine ⟨trivial, ?_⟩
  have hc := c.toNat_lt
  have hx := x.toNat_lt
  have hsum : (c.toUInt64 + x.toUInt64).toNat = c.toNat + x.toNat :=
    Word64.toNat_add (show c.toNat + x.toNat < 2 ^ 64 by omega)
  have h := toNat_split (c.toUInt64 + x.toUInt64)
  rw [hsum] at h
  push_cast at h
  exact h

theorem adc_carries : Carries (fun c (p : UInt32 × UInt32) => adc c p.1 p.2) (fun c => c.toNat ≤ 1)
    (fun c => (c.toNat : Int)) (fun p => 1 * p.1.toNat + 1 * p.2.toNat) := by
  intro c p hc
  have hx := p.1.toNat_lt
  have hy := p.2.toNat_lt
  have hsum1 : (c.toUInt64 + p.1.toUInt64).toNat = c.toNat + p.1.toNat :=
    Word64.toNat_add (show c.toNat + p.1.toNat < 2 ^ 64 by omega)
  have hsum2 : (c.toUInt64 + p.1.toUInt64 + p.2.toUInt64).toNat = c.toNat + p.1.toNat + p.2.toNat := by
    rw [← hsum1]
    exact Word64.toNat_add (show _ + p.2.toNat < 2 ^ 64 by omega)
  have h := toNat_split (c.toUInt64 + p.1.toUInt64 + p.2.toUInt64)
  rw [hsum2] at h
  push_cast at h
  have hout := (c.toUInt64 + p.1.toUInt64 + p.2.toUInt64).toUInt32.toNat_lt
  refine ⟨?_, ?_⟩
  · show ((c.toUInt64 + p.1.toUInt64 + p.2.toUInt64) >>> 32).toUInt32.toNat ≤ 1
    omega
  · simp only [adc]
    linarith

theorem umaal_carries (mand : UInt32) :
    Carries (fun c (p : UInt32 × UInt32) => umaal c p.1 mand p.2) (fun _ => True)
      (fun c => (c.toNat : Int)) (fun p => 1 * p.1.toNat + mand.toNat * p.2.toNat) := by
  intro c p _
  refine ⟨trivial, ?_⟩
  have hc := c.toNat_lt
  have hm := mand.toNat_lt
  have hx := p.1.toNat_lt
  have hy := p.2.toNat_lt
  have hle : mand.toNat * p.2.toNat ≤ (2 ^ 32 - 1) * (2 ^ 32 - 1) :=
    Nat.mul_le_mul (by omega) (by omega)
  have hmul : (mand.toUInt64 * p.2.toUInt64).toNat = mand.toNat * p.2.toNat :=
    Word64.toNat_mul (show mand.toNat * p.2.toNat < 2 ^ 64 by omega)
  have hadd : (mand.toUInt64 * p.2.toUInt64 + p.1.toUInt64).toNat
      = mand.toNat * p.2.toNat + p.1.toNat := by
    rw [← hmul]
    exact Word64.toNat_add (show _ + p.1.toNat < 2 ^ 64 by omega)
  have hsum : (mand.toUInt64 * p.2.toUInt64 + p.1.toUInt64 + c.toUInt64).toNat
      = mand.toNat * p.2.toNat + p.1.toNat + c.toNat := by
    rw [← hadd]
    exact Word64.toNat_add (show _ + c.toNat < 2 ^ 64 by omega)
  have h := toNat_split (mand.toUInt64 * p.2.toUInt64 + p.1.toUInt64 + c.toUInt64)
  rw [hsum] at h
  push_cast at h
  simp only [umaal]
  linarith

/-- A signed double limb is its low word and what an arithmetic shift leaves. -/
theorem ofInt_split (c : Int) : ((UInt32.ofInt c).toNat : Int) + 2 ^ 32 * (c / 4294967296) = c := by
  rw [Bytes.toNat_ofInt]
  omega

theorem subStep_carries : Carries subStep (fun _ => True) (fun c => c)
    (fun p => 1 * p.1.toNat + -1 * p.2.toNat) := by
  intro c p _
  refine ⟨trivial, ?_⟩
  have h := ofInt_split (c + p.1.toNat - p.2.toNat)
  simp only [subStep]
  linarith

theorem canonStep_carries : Carries canonStep (fun _ => True) (fun c => c)
    (fun x => (x.toNat : Int)) := by
  intro c x _
  exact ⟨trivial, ofInt_split (c + x.toNat)⟩

/-! ### `propagate`

The bits from 255 on, with the carry above them, are taken off and come back times nineteen,
since 2^255 is nineteen modulo the prime.  What remains is below 2^255, and the product
below a word.
-/

/-- The last limb stands on its own above the other seven. -/
theorem Fe.split (x : Fe) : ∃ low top, x.limbs = low ++ [top] ∧ low.length = 7 := by
  have hne : x.limbs ≠ [] := by
    intro h
    have := x.size
    rw [h] at this
    simp at this
  refine ⟨x.limbs.dropLast, x.limbs.getLast hne, (List.dropLast_append_getLast hne).symm, ?_⟩
  rw [List.length_dropLast, x.size]

/-- Cut off, it is the bits from 224 on. -/
theorem Fe.val_split {x : Fe} {low : List UInt32} {top : UInt32} (h : x.limbs = low ++ [top])
    (hlow : low.length = 7) : x.val = value low + 2 ^ 224 * top.toNat ∧ value low < 2 ^ 224 := by
  have hlt := Limbs.value_lt low
  rw [hlow] at hlt
  refine ⟨?_, hlt⟩
  rw [Fe.val, h, Limbs.value_append, hlow, Limbs.value_cons, Limbs.value_nil, Nat.mul_zero,
    Nat.add_zero]

theorem Fe.getD_top {x : Fe} {low : List UInt32} {top : UInt32} (h : x.limbs = low ++ [top])
    (hlow : low.length = 7) : x.limbs.getD 7 0 = top := by
  rw [h, List.getD_eq_getElem?_getD, List.getElem?_append_right (by omega), hlow]
  rfl

/-- The top bit goes, the rest stays. -/
theorem Fe.val_clearTop (x : Fe) : x.clearTop.val = x.val % 2 ^ 255 := by
  obtain ⟨low, top, hx, hlow⟩ := x.split
  obtain ⟨hval, hlt⟩ := Fe.val_split hx hlow
  have hmask : (top &&& ~~~((1 : UInt32) <<< 31)).toNat = top.toNat % 2 ^ 31 := by
    rw [UInt32.toNat_and]
    exact Nat.and_two_pow_sub_one_eq_mod top.toNat 31
  have hset : x.clearTop.limbs = low ++ [top &&& ~~~((1 : UInt32) <<< 31)] := by
    show x.limbs.set 7 (x.limbs.getD 7 0 &&& _) = _
    rw [Fe.getD_top hx hlow, hx, List.set_append_right 7 _ (by omega), hlow]
    rfl
  have htop := top.toNat_lt
  rw [(Fe.val_split hset hlow).1, hmask, hval]
  omega

theorem Fe.top_bit (x : Fe) : (x.limbs.getD 7 0 >>> 31).toNat = x.val / 2 ^ 255 := by
  obtain ⟨low, top, hx, hlow⟩ := x.split
  obtain ⟨hval, hlt⟩ := Fe.val_split hx hlow
  have hshr : (top >>> 31).toNat = top.toNat / 2 ^ 31 := by
    rw [UInt32.toNat_shiftRight, Nat.shiftRight_eq_div_pow]
    rfl
  rw [Fe.getD_top hx hlow, hshr, hval]
  omega

/-- **`propagate`**: what lies above bit 255 comes back nineteen times. -/
theorem val_propagate {x : Fe} {o : UInt32} {k : Nat} (hk : x.val / 2 ^ 255 + 2 * o.toNat = k)
    (hsmall : 19 * k < 2 ^ 32) : (propagate x o).val = x.val % 2 ^ 255 + 19 * k := by
  have hbit := x.top_bit
  have hx := x.val_lt
  have hor : (o <<< 1 ||| x.limbs.getD 7 0 >>> 31).toNat = k := by
    have h := Bytes.toNat_shiftLeft_or o (x.limbs.getD 7 0 >>> 31) (show 1 < 32 by omega)
      (show _ < 2 by omega)
    rw [Nat.pow_one, Nat.mod_eq_of_lt (by omega)] at h
    refine Eq.trans h ?_
    omega
  have hcarry : (((x.limbs.getD 7 0 >>> 31) ||| (o <<< 1)) * 19).toNat = 19 * k := by
    rw [UInt32.or_comm, UInt32.toNat_mul, hor, Nat.mul_comm]
    exact Nat.mod_eq_of_lt hsmall
  obtain ⟨-, hval⟩ := chain_value adc0_carries trivial
    (c := ((x.limbs.getD 7 0 >>> 31) ||| (o <<< 1)) * 19) x.clearTop.limbs
  have hlt := (propagate x o).val_lt
  have hcut := x.val_clearTop
  rw [Limbs.weigh_toNat, hcarry, x.clearTop.size] at hval
  have hout : (propagate x o).val
      = value (chain adc0 (((x.limbs.getD 7 0 >>> 31) ||| (o <<< 1)) * 19) x.clearTop.limbs).1 := rfl
  rw [Fe.val] at hcut
  omega

theorem Tight_propagate {x : Fe} {o : UInt32} {k : Nat} (hk : x.val / 2 ^ 255 + 2 * o.toNat = k)
    (hsmall : 19 * k < 2 ^ 32) : (propagate x o).Tight := by
  rw [Fe.Tight, val_propagate hk hsmall]
  omega

/-! ### The operations -/

theorem two_pow_255 : ((2 ^ 255 : Nat) : ZMod prime) = 19 := by
  refine (ZMod.natCast_eq_natCast_iff _ 19 _).mpr ?_
  show 2 ^ 255 % (2 ^ 255 - 19) = 19 % (2 ^ 255 - 19)
  norm_num

/-- Folding the top is a congruence. -/
theorem el_propagate {x : Fe} {o : UInt32} {k : Nat} (total : Nat)
    (hk : x.val / 2 ^ 255 + 2 * o.toNat = k) (hsmall : 19 * k < 2 ^ 32) (htotal : total = x.val + 2 ^ 256 * o.toNat) :
    (propagate x o).el = (total : Nat) := by
  have hsplit : total = x.val % 2 ^ 255 + 2 ^ 255 * k := by omega
  rw [Fe.el, val_propagate hk hsmall, hsplit]
  push_cast
  have h := two_pow_255
  push_cast at h
  rw [h]

theorem Fe.val_walk₂ {κ : Type} (step : κ → UInt32 × UInt32 → UInt32 × κ) (c : κ) (x y : Fe) :
    (Fe.walk₂ step c x y).val = value (chain step c (x.limbs.zip y.limbs)).1 := rfl

theorem Fe.length_zip (x y : Fe) : (x.limbs.zip y.limbs).length = 8 := by
  rw [List.length_zip, x.size, y.size]
  rfl

/-- **`add`**, whatever the operands. -/
theorem el_add (a b : Fe) : (add a b).el = a.el + b.el ∧ (add a b).Tight := by
  have ha := a.val_lt
  have hb := b.val_lt
  have hzero : (0 : UInt32).toNat ≤ 1 := by decide
  obtain ⟨hcarry, hval⟩ := chain_value adc_carries hzero (a.limbs.zip b.limbs)
  rw [Limbs.weigh_zip 1 1 (a.size.trans b.size.symm), Fe.length_zip] at hval
  have hsum := Fe.val_walk₂ (fun c (p : UInt32 × UInt32) => adc c p.1 p.2) 0 a b
  have hlt := (Fe.walk₂ (fun c (p : UInt32 × UInt32) => adc c p.1 p.2) 0 a b).val_lt
  simp only [UInt32.toNat_zero, Fe.val] at *
  refine ⟨?_, Tight_propagate rfl ?_⟩
  · rw [add, el_propagate (a.val + b.val) rfl ?_ ?_]
    · rw [Nat.cast_add]
      rfl
    · rw [Fe.val, hsum]
      omega
    · rw [Fe.val, Fe.val, Fe.val, hsum]
      omega
  · rw [Fe.val, hsum]
    omega

/-- **`sub`**, as long as what is subtracted leaves room for the 38 that is borrowed. -/
theorem el_sub (a b : Fe) (hb : b.val + 38 ≤ 2 ^ 256) :
    (sub a b).el = a.el - b.el ∧ (sub a b).Tight := by
  have ha := a.val_lt
  obtain ⟨-, hval⟩ := chain_value subStep_carries trivial (c := (-38 : Int)) (a.limbs.zip b.limbs)
  rw [Limbs.weigh_zip 1 (-1) (a.size.trans b.size.symm), Fe.length_zip] at hval
  have hsum := Fe.val_walk₂ subStep (-38) a b
  have hlt := (Fe.walk₂ subStep (-38) a b).val_lt
  have ho : ((UInt32.ofInt (1 + (chain subStep (-38) (a.limbs.zip b.limbs)).2)).toNat : Int)
      = 1 + (chain subStep (-38) (a.limbs.zip b.limbs)).2 := by
    rw [Bytes.toNat_ofInt]
    simp only [Fe.val] at *
    omega
  simp only [Fe.val] at *
  refine ⟨?_, Tight_propagate rfl ?_⟩
  · have hcast : ((a.val + (2 ^ 256 - 38) - b.val : Nat) : ZMod prime) = a.el - b.el := by
      refine eq_sub_of_add_eq ?_
      rw [Fe.el, Fe.el, ← Nat.cast_add]
      have hback : a.val + (2 ^ 256 - 38) - b.val + b.val = a.val + 2 * prime := by
        rw [Fe.val, Fe.val, prime]
        omega
      rw [hback, Nat.cast_add, Nat.cast_mul, ZMod.natCast_self, mul_zero, add_zero]
    rw [sub, el_propagate (a.val + (2 ^ 256 - 38) - b.val) rfl ?_ ?_]
    · exact hcast
    · rw [Fe.val, hsum]
      omega
    · rw [Fe.val, Fe.val, Fe.val, hsum]
      omega
  · rw [Fe.val, hsum]
    omega

/-! ### Multiplication

A product is built up row by row in an accumulator of sixteen limbs.  Its upper half is
worth 2^256 times as much, which is 38 modulo the prime, so it is multiplied by that and
added to the lower.
-/

/-- The limbs a row works on, what is below them and what is above. -/
theorem exists_rows {accum : List UInt32} {i : Nat} (hlen : accum.length = 16) (hi : i < 8) :
    ∃ below row next above, accum = below ++ (row ++ next :: above) ∧ below.length = i ∧
      row.length = 8 ∧ accum.drop (i + 8) = next :: above := by
  obtain ⟨next, above, habove⟩ := List.exists_cons_of_length_pos
    (show 0 < (accum.drop (i + 8)).length by rw [List.length_drop, hlen]; omega)
  refine ⟨accum.take i, (accum.drop i).take 8, next, above, ?_, ?_, ?_, habove⟩
  · rw [← habove, ← List.drop_drop, List.take_append_drop, List.take_append_drop]
  · rw [List.length_take, hlen]
    omega
  · rw [List.length_take, List.length_drop, hlen]
    omega

/-- One row adds a limb times the other factor, into zeros above. -/
theorem value_mulRow (a : Fe) {accum : List UInt32} {i : Nat} (mand : UInt32)
    (hlen : accum.length = 16) (hi : i < 8) (hzero : value (accum.drop (i + 8)) = 0) :
    (mulRow a accum i mand).length = 16 ∧ value ((mulRow a accum i mand).drop (i + 9)) = 0 ∧
      value (mulRow a accum i mand) = value accum + 2 ^ (32 * i) * (mand.toNat * a.val) := by
  obtain ⟨below, row, next, above, hsplit, hbelow, hrow, habove⟩ := exists_rows hlen hi
  let step := fun c (p : UInt32 × UInt32) => umaal c p.1 mand p.2
  have hzip : (accum.drop i).zip a.limbs = row.zip a.limbs := by
    have hdrop : accum.drop i = row ++ next :: above := by
      rw [hsplit, ← hbelow, List.drop_left]
    have h := @List.zip_append _ _ row (next :: above) a.limbs [] (hrow.trans a.size.symm)
    rw [List.append_nil, List.zip_nil_right, List.append_nil] at h
    rw [hdrop, h]
  have hform : mulRow a accum i mand
      = below ++ ((chain step 0 (row.zip a.limbs)).1
          ++ (chain step 0 (row.zip a.limbs)).2 :: above) := by
    have htake : accum.take i = below := by rw [hsplit, ← hbelow, List.take_left]
    have hdrop : accum.drop (i + 9) = above := by
      rw [show i + 9 = i + 8 + 1 from rfl, ← List.drop_drop, habove, List.drop_one, List.tail_cons]
    show accum.take i ++ (chain step 0 ((accum.drop i).zip a.limbs)).1
      ++ (chain step 0 ((accum.drop i).zip a.limbs)).2 :: accum.drop (i + 9) = _
    rw [hzip, htake, hdrop, List.append_assoc]
  obtain ⟨-, hval⟩ := chain_value (umaal_carries mand) trivial (c := 0) (row.zip a.limbs)
  have hziplen : (row.zip a.limbs).length = 8 := by
    rw [List.length_zip, hrow, a.size]
    rfl
  have hrowlen : (chain step 0 (row.zip a.limbs)).1.length = 8 := by
    rw [Limbs.length_chain, hziplen]
  rw [Limbs.weigh_zip 1 mand.toNat (hrow.trans a.size.symm), hziplen] at hval
  have habovelen : above.length = 7 - i := by
    have h := congrArg List.length habove
    rw [List.length_drop, hlen, List.length_cons] at h
    omega
  have hnext : next.toNat = 0 ∧ value above = 0 := by
    rw [habove, Limbs.value_cons] at hzero
    omega
  have hpow : 2 ^ (32 * below.length) = 2 ^ (32 * i) := by rw [hbelow]
  rw [hform]
  refine ⟨?_, ?_, ?_⟩
  · rw [List.length_append, List.length_append, hrowlen, hbelow, List.length_cons, habovelen]
    omega
  · have hdrop : (below ++ ((chain step 0 (row.zip a.limbs)).1
        ++ (chain step 0 (row.zip a.limbs)).2 :: above)).drop (i + 9) = above := by
      rw [List.append_cons, ← List.append_assoc]
      refine List.drop_left' ?_
      simp only [List.length_append, hrowlen, hbelow, List.length_singleton]
    rw [hdrop, hnext.2]
  · have hsum : value row + mand.toNat * a.val = value (chain step 0 (row.zip a.limbs)).1
        + 2 ^ 256 * (chain step 0 (row.zip a.limbs)).2.toNat := by
      simp only [Fe.val, step, UInt32.toNat_zero] at *
      omega
    rw [hsplit, Limbs.value_append, Limbs.value_append, Limbs.value_append, Limbs.value_append,
      Limbs.value_cons, Limbs.value_cons, hrowlen, hrow, hpow, hnext.1, hnext.2]
    linear_combination 2 ^ (32 * i) * hsum.symm

theorem value_mulRows (a : Fe) {i : Nat} (b : List UInt32) {accum : List UInt32}
    (hlen : accum.length = 16) (hi : i + b.length ≤ 8) (hzero : value (accum.drop (i + 8)) = 0) :
    (mulRows a i b accum).length = 16 ∧
      value (mulRows a i b accum) = value accum + 2 ^ (32 * i) * (value b * a.val) := by
  induction b generalizing i accum with
  | nil =>
      refine ⟨hlen, ?_⟩
      rw [Limbs.value_nil, Nat.zero_mul, Nat.mul_zero, Nat.add_zero]
      rfl
  | cons mand b ih =>
      rw [List.length_cons] at hi
      obtain ⟨hlen', hzero', hval'⟩ := value_mulRow a mand hlen (by omega) hzero
      obtain ⟨hout, hval⟩ := ih (i := i + 1) hlen' (by omega)
        (by rw [Nat.add_right_comm]; exact hzero')
      refine ⟨hout, ?_⟩
      have hpow : 2 ^ (32 * (i + 1)) = 2 ^ (32 * i) * 2 ^ 32 := by rw [Nat.mul_succ, Nat.pow_add]
      show value (mulRows a (i + 1) b (mulRow a accum i mand)) = _
      rw [hval, hval', hpow, Limbs.value_cons]
      ring

theorem limbs_half {accum : List UInt32} {off : Nat} (h : off + 8 ≤ accum.length) :
    (half accum off).limbs = (accum.drop off).take 8 := by
  apply List.ext_getElem
  · rw [(half accum off).size, List.length_take, List.length_drop]
    omega
  · intro j hj _
    rw [(half accum off).size] at hj
    simp [half, List.getD_eq_getElem?_getD, List.getElem?_eq_getElem (show off + j < accum.length by omega)]

theorem value_halves {accum : List UInt32} (hlen : accum.length = 16) :
    value accum = (half accum 0).val + 2 ^ 256 * (half accum 8).val := by
  have hlow := limbs_half (show 0 + 8 ≤ accum.length by omega)
  have hhigh := limbs_half (show 8 + 8 ≤ accum.length by omega)
  have hall : (accum.drop 8).take 8 = accum.drop 8 :=
    List.take_of_length_le (by rw [List.length_drop, hlen])
  rw [List.drop_zero] at hlow
  have hcut : (accum.take 8).length = 8 := by rw [List.length_take, hlen]; rfl
  have h := Limbs.value_append (accum.take 8) (accum.drop 8)
  rw [List.take_append_drop, hcut] at h
  rw [h, Fe.val, Fe.val, hlow, hhigh, hall]

/-- Folding 2^256 as 38 is a congruence. -/
theorem cast_fold (low high : Nat) :
    ((low + 38 * high : Nat) : ZMod prime) = ((low + 2 ^ 256 * high : Nat) : ZMod prime) := by
  have hsplit : low + 2 ^ 256 * high = low + 38 * high + prime * (2 * high) := by
    rw [prime]
    omega
  rw [hsplit, Nat.cast_add (low + 38 * high), Nat.cast_mul prime, ZMod.natCast_self, zero_mul,
    add_zero]

/-- **`mul`**, by up to eight limbs. -/
theorem el_mulBy (a : Fe) {b : List UInt32} (hb : b.length ≤ 8) :
    (mulBy a b).el = a.el * (value b : Nat) ∧ (mulBy a b).Tight := by
  obtain ⟨hlen, hproduct⟩ := @value_mulRows a 0 b (List.replicate 16 0) rfl (by omega) rfl
  have hhalves := value_halves hlen
  rw [hproduct, Limbs.value_replicate_zero, Nat.mul_zero, Nat.pow_zero, Nat.one_mul,
    Nat.zero_add] at hhalves
  let low := half (product a b) 0
  let high := half (product a b) 8
  let step := fun c (p : UInt32 × UInt32) => umaal c p.1 38 p.2
  obtain ⟨-, hval⟩ := chain_value (umaal_carries 38) trivial (c := 0)
    (low.limbs.zip high.limbs)
  rw [Limbs.weigh_zip 1 _ (low.size.trans high.size.symm), Fe.length_zip] at hval
  have hfold : (Fe.walk₂ step 0 low high).val
      + 2 ^ 256 * (chain step 0 (low.limbs.zip high.limbs)).2.toNat = low.val + 38 * high.val := by
    rw [Fe.val_walk₂, Fe.val, Fe.val]
    have h38 : (38 : UInt32).toNat = 38 := rfl
    rw [h38] at hval
    simp only [UInt32.toNat_zero, step] at *
    omega
  have hlow := low.val_lt
  have hhigh := high.val_lt
  have hform : mulBy a b = propagate (Fe.walk₂ step 0 low high)
    (chain step 0 (low.limbs.zip high.limbs)).2 := rfl
  rw [hform]
  refine ⟨?_, Tight_propagate rfl ?_⟩
  · rw [el_propagate (low.val + 38 * high.val) rfl ?_ hfold.symm, cast_fold]
    · have hback : low.val + 2 ^ 256 * high.val = a.val * value b := by
        rw [Nat.mul_comm a.val]
        exact hhalves.symm
      rw [hback, Nat.cast_mul]
      rfl
    · omega
  · omega

theorem el_mul (a b : Fe) : (mul a b).el = a.el * b.el ∧ (mul a b).Tight :=
  el_mulBy a (Nat.le_of_eq b.size)

/-! ### `condswap` -/

def mask (swap : Bool) : UInt32 := if swap then 0xFFFFFFFF else 0

theorem Fe.ext_limbs {a b : Fe} (h : a.limbs = b.limbs) : a = b := by
  obtain ⟨la, ha⟩ := a
  obtain ⟨lb, hb⟩ := b
  have hlimbs : la = lb := h
  subst hlimbs
  rfl

/-- A walk without a carry is a map. -/
theorem limbs_map (f : UInt32 × UInt32 → UInt32) (a b : Fe) :
    (Fe.walk₂ (fun (_ : Unit) p => (f p, ())) () a b).limbs = (a.limbs.zip b.limbs).map f := by
  show (chain _ () (a.limbs.zip b.limbs)).1 = _
  induction a.limbs.zip b.limbs with
  | nil => rfl
  | cons p ps ih => rw [Limbs.chain_cons, List.map_cons, ih]

/-- **`condswap`** by a mask is a swap or nothing. -/
theorem condswap_mask (a b : Fe) (swap : Bool) :
    condswap a b (mask swap) = if swap then (b, a) else (a, b) := by
  have hfst : (a.limbs.zip b.limbs).map Prod.fst = a.limbs :=
    List.map_fst_zip (Nat.le_of_eq (a.size.trans b.size.symm))
  have hsnd : (a.limbs.zip b.limbs).map Prod.snd = b.limbs :=
    List.map_snd_zip (Nat.le_of_eq (b.size.trans a.size.symm))
  cases swap with
  | false =>
      have hkeep : ∀ x y : UInt32, x ^^^ y &&& 0 = x := by simp
      refine Prod.ext (Fe.ext_limbs ?_) (Fe.ext_limbs ?_)
      · refine Eq.trans (limbs_map _ a b) (Eq.trans (List.map_congr_left ?_) hfst)
        intro p _
        exact hkeep _ _
      · refine Eq.trans (limbs_map _ a b) (Eq.trans (List.map_congr_left ?_) hsnd)
        intro p _
        exact hkeep _ _
  | true =>
      have hones : ∀ x : UInt32, x &&& 0xFFFFFFFF = x := fun x => UInt32.and_neg_one
      have hxor : ∀ x y : UInt32, x ^^^ (x ^^^ y) = y := by
        intro x y
        rw [← UInt32.xor_assoc, UInt32.xor_self, UInt32.zero_xor]
      refine Prod.ext (Fe.ext_limbs ?_) (Fe.ext_limbs ?_)
      · refine Eq.trans (limbs_map _ a b) (Eq.trans (List.map_congr_left ?_) hsnd)
        intro p _
        rw [show mask true = 0xFFFFFFFF from rfl, hones]
        exact hxor _ _
      · refine Eq.trans (limbs_map _ a b) (Eq.trans (List.map_congr_left ?_) hfst)
        intro p _
        rw [show mask true = 0xFFFFFFFF from rfl, hones, UInt32.xor_comm p.1]
        exact hxor _ _

/-! ### `canon`

The value is brought below 2^255 after nineteen has been added, and the nineteen is taken
off again.  So a number from the prime on has lost the prime, and the others are as they
were.
-/

/-- The disjunction of the limbs tells zero. -/
theorem or_eq_zero (xs : List UInt32) (c : UInt32) :
    xs.foldl (· ||| ·) c = 0 ↔ c = 0 ∧ value xs = 0 := by
  induction xs generalizing c with
  | nil => simp
  | cons x xs ih =>
      have hor : c ||| x = 0 ↔ c = 0 ∧ x = 0 := UInt32.or_eq_zero_iff
      have hx : x = 0 ↔ x.toNat = 0 := UInt32.toNat_inj.symm
      rw [List.foldl_cons, ih, hor, Limbs.value_cons, hx, and_assoc]
      refine and_congr_right fun _ => ?_
      omega

theorem zero_mask (res : UInt32) :
    ((res.toUInt64 - 1) >>> 32).toUInt32 = if res = 0 then 0xFFFFFFFF else 0 := by
  by_cases h : res = 0
  · rw [if_pos h, h]
    rfl
  · rw [if_neg h]
    have hpos : res.toNat ≠ 0 := fun hzero => h (UInt32.toNat_inj.mp hzero)
    have hlt := res.toNat_lt
    have hsub : (res.toUInt64 - 1).toNat = res.toNat - 1 :=
      UInt64.toNat_sub_of_le _ _ (UInt64.le_iff_toNat_le.mpr (show 1 ≤ res.toNat by omega))
    have hshr : ((res.toUInt64 - 1) >>> 32).toNat = 0 := by
      have hquot : (res.toUInt64 - 1).toNat / 2 ^ 32 = 0 := by omega
      exact (Word64.toNat_shr (k := 32) (res.toUInt64 - 1) rfl (by omega)).trans hquot
    have hzero : (res.toUInt64 - 1) >>> 32 = 0 := UInt64.toNat_inj.mp hshr
    rw [hzero]
    rfl

theorem val_plus (x : Fe) :
    (x.walk adc0 19).val + 2 ^ 256 * (chain adc0 19 x.limbs).2.toNat = x.val + 19 := by
  obtain ⟨-, hval⟩ := chain_value adc0_carries trivial (c := 19) x.limbs
  have h19 : (19 : UInt32).toNat = 19 := rfl
  rw [Limbs.weigh_toNat, x.size, h19] at hval
  show value (chain adc0 19 x.limbs).1 + _ = value x.limbs + 19
  omega

theorem val_minus {y : Fe} (h : 19 ≤ y.val) : (y.walk canonStep (-19)).val + 19 = y.val := by
  obtain ⟨-, hval⟩ := chain_value canonStep_carries trivial (c := (-19 : Int)) y.limbs
  rw [Limbs.weigh_toNat, y.size] at hval
  have hlt := (y.walk canonStep (-19)).val_lt
  have hy := y.val_lt
  rw [Fe.val] at h hy
  have hdef : (y.walk canonStep (-19)).val = value (chain canonStep (-19) y.limbs).1 := rfl
  show _ = value y.limbs
  omega

/-- The addition of 19 and the fold: the same element, and the top bit is gone. -/
theorem val_ready {x : Fe} (h : x.Tight) :
    (propagate (x.walk adc0 19) (chain adc0 19 x.limbs).2).val = x.val % prime + 19 := by
  have hsum := val_plus x
  have hs := (x.walk adc0 19).val_lt
  rw [Fe.Tight] at h
  rw [val_propagate rfl (by omega), prime]
  omega

/-- **`canon`** leaves the least residue, and the mask tells zero. -/
theorem canon_spec {x : Fe} (h : x.Tight) :
    (canon x).1.val = x.val % prime ∧
      (canon x).2 = if x.val % prime = 0 then 0xFFFFFFFF else 0 := by
  have hready := val_ready h
  have hval : (canon x).1.val = x.val % prime := by
    have hminus := val_minus (show 19 ≤ _ by rw [hready]; omega)
    rw [hready] at hminus
    exact Nat.add_right_cancel hminus
  refine ⟨hval, (zero_mask ((canon x).1.limbs.foldl (· ||| ·) 0)).trans ?_⟩
  refine if_congr ?_ rfl rfl
  rw [or_eq_zero, ← hval]
  exact ⟨And.right, fun hzero => ⟨rfl, hzero⟩⟩

end SysAwg.X25519
