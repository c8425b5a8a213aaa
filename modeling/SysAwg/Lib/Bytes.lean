/-
Byte strings, read and written at offsets.

Wire formats are fixed layouts: a writer lays fields out one after another and a
reader takes them back at numeric offsets.  Two facts carry every such round trip.
A field is read back from wherever it was put, whatever stands before and after
it, and the little-endian encodings of a word determine the word.

A short string is read as if it went on with zeros, so that reading is total; the
programs verified with this file check lengths first.
-/
import Mathlib.Data.List.Basic
import Mathlib.Data.Vector.Basic
import Mathlib.Tactic.IntervalCases

abbrev Bytes := List UInt8

namespace Bytes

/-- The `n` bytes that start at offset `off`. -/
def slice (b : Bytes) (off n : Nat) : Bytes := (b.drop off).take n

/-- The `n` bytes at `off` as a fixed-size block. -/
def block (n : Nat) (b : Bytes) (off : Nat) : Vector UInt8 n :=
  Vector.ofFn fun i => b.getD (off + i) 0

/-- The byte string with `c` written over it at offset `off`. -/
def overlay (b : Bytes) (off : Nat) (c : Bytes) : Bytes :=
  b.take off ++ c ++ b.drop (off + c.length)

theorem slice_append (a b c : Bytes) {off n : Nat} (ha : a.length = off) (hb : b.length = n) :
    slice (a ++ b ++ c) off n = b := by
  subst ha hb
  simp [slice]

theorem length_slice {b : Bytes} {off n : Nat} (h : off + n ≤ b.length) :
    (slice b off n).length = n := by
  simp only [slice, List.length_take, List.length_drop]
  omega

theorem getD_append_offset (a b : Bytes) (i : Nat) (d : UInt8) :
    (a ++ b).getD (a.length + i) d = b.getD i d := by
  simp [List.getD_eq_getElem?_getD, List.getElem?_append_right]

/-- A block is read back from where it was laid out. -/
theorem block_append {n : Nat} (a c : Bytes) (v : Vector UInt8 n) {off : Nat}
    (ha : a.length = off) : block n (a ++ v.toList ++ c) off = v := by
  subst ha
  apply Vector.ext
  intro i hi
  have hlen : i < v.toList.length := by simpa using hi
  have hget : (v.toList ++ c).getD i 0 = v.toList[i] := by
    rw [List.getD_eq_getElem?_getD, List.getElem?_append_left hlen,
      List.getElem?_eq_getElem hlen]
    rfl
  simp only [block, Vector.getElem_ofFn]
  rw [List.append_assoc, getD_append_offset, hget]
  simp

@[simp] theorem length_overlay {b c : Bytes} {off : Nat} (h : off + c.length ≤ b.length) :
    (overlay b off c).length = b.length := by
  simp only [overlay, List.length_append, List.length_take, List.length_drop]
  omega

theorem slice_overlay {b c : Bytes} {off n : Nat} (h : off ≤ b.length) (hc : c.length = n) :
    slice (overlay b off c) off n = c :=
  slice_append _ _ _ (by simpa using h) hc

/-- Overlaying the bytes that are there already changes nothing. -/
theorem overlay_slice (b : Bytes) {off n : Nat} (h : off + n ≤ b.length) :
    overlay b off (slice b off n) = b := by
  unfold overlay
  rw [length_slice h]
  calc b.take off ++ slice b off n ++ b.drop (off + n)
      = b.take off ++ (slice b off n ++ (b.drop off).drop n) := by
        rw [List.drop_drop, List.append_assoc]
    _ = b.take off ++ b.drop off := by rw [slice, List.take_append_drop]
    _ = b := List.take_append_drop off b

theorem take_overlay {b c : Bytes} {off : Nat} (h : off ≤ b.length) :
    (overlay b off c).take off = b.take off := by
  have htake : (b.take off).length = off := by simpa using h
  unfold overlay
  rw [List.append_assoc, List.take_left' htake]

theorem overlay_overlay {b c d : Bytes} {off : Nat} (h : off ≤ b.length)
    (hcd : c.length = d.length) : overlay (overlay b off c) off d = overlay b off d := by
  have htake : (b.take off).length = off := by simpa using h
  have hlast : (overlay b off c).drop (off + d.length) = b.drop (off + c.length) := by
    unfold overlay
    exact List.drop_left' (by simp [htake, hcd])
  show (overlay b off c).take off ++ d ++ (overlay b off c).drop (off + d.length) = _
  rw [take_overlay h, hlast, hcd]
  rfl

theorem getD_overlay {b c : Bytes} {off i : Nat} (h : off ≤ b.length) (hi : i < off) (d : UInt8) :
    (overlay b off c).getD i d = b.getD i d := by
  have hlen : i < (b.take off).length := by
    rw [List.length_take]
    omega
  unfold overlay
  rw [List.append_assoc, List.getD_eq_getElem?_getD, List.getElem?_append_left hlen,
    List.getElem?_take_of_lt hi, ← List.getD_eq_getElem?_getD]

/-- Only the overlaid place changes. -/
theorem getElem?_overlay {b c : Bytes} {off p : Nat} (h : off + c.length ≤ b.length)
    (hp : p < off ∨ off + c.length ≤ p) : (overlay b off c)[p]? = b[p]? := by
  have htake : (b.take off).length = off := by
    rw [List.length_take]
    omega
  unfold overlay
  rcases hp with hp | hp
  · rw [List.append_assoc, List.getElem?_append_left (by omega), List.getElem?_take_of_lt hp]
  · have hlen : (b.take off ++ c).length ≤ p := by
      rw [List.length_append]
      omega
    rw [List.getElem?_append_right hlen, List.getElem?_drop, List.length_append, htake]
    congr 1
    omega

/-- What is read before the overlaid place is what was there. -/
theorem slice_overlay_before {b c : Bytes} {off a n : Nat} (h : off ≤ b.length)
    (ha : a + n ≤ off) : slice (overlay b off c) a n = slice b a n := by
  have hslice : ∀ x : Bytes, slice (x.take off) a n = slice x a n := by
    intro x
    unfold slice
    rw [List.drop_take, List.take_take, Nat.min_eq_left (by omega)]
  rw [← hslice, take_overlay h, hslice]

/-! ### Little-endian words -/

/-- The four bytes of a 32-bit word, low byte first. -/
def le32 (v : UInt32) : Bytes :=
  [v.toUInt8, (v >>> 8).toUInt8, (v >>> 16).toUInt8, (v >>> 24).toUInt8]

/-- The 32-bit word whose low byte stands at `off`. -/
def word32 (b : Bytes) (off : Nat) : UInt32 :=
  (b.getD off 0).toUInt32 ||| ((b.getD (off + 1) 0).toUInt32 <<< 8) |||
    ((b.getD (off + 2) 0).toUInt32 <<< 16) ||| ((b.getD (off + 3) 0).toUInt32 <<< 24)

/-- The low `n` bytes of a 64-bit word, low byte first. -/
def leBytes : Nat → UInt64 → Bytes
  | 0, _ => []
  | n + 1, v => v.toUInt8 :: leBytes n (v >>> 8)

/-- The 64-bit word that the first `n` bytes spell, low byte first. -/
def wordOf : Nat → Bytes → UInt64
  | 0, _ => 0
  | n + 1, b => (wordOf n b.tail <<< 8) ||| (b.headD 0).toUInt64

@[simp] theorem length_le32 (v : UInt32) : (le32 v).length = 4 := rfl

@[simp] theorem length_leBytes (n : Nat) (v : UInt64) : (leBytes n v).length = n := by
  induction n generalizing v with
  | zero => rfl
  | succ n ih => simp [leBytes, ih]

private theorem word32_bytes (v : UInt32) :
    v.toUInt8.toUInt32 ||| ((v >>> 8).toUInt8.toUInt32 <<< 8) |||
      ((v >>> 16).toUInt8.toUInt32 <<< 16) ||| ((v >>> 24).toUInt8.toUInt32 <<< 24) = v := by
  apply UInt32.eq_of_toBitVec_eq
  simp only [UInt32.toBitVec_or, UInt32.toBitVec_shiftLeft, UInt8.toBitVec_toUInt32,
    UInt32.toBitVec_toUInt8, UInt32.toBitVec_shiftRight]
  ext i hi
  simp
  interval_cases i <;> simp

theorem word32_append (a c : Bytes) (v : UInt32) {off : Nat} (ha : a.length = off) :
    word32 (a ++ le32 v ++ c) off = v := by
  subst ha
  have h0 := getD_append_offset a (le32 v ++ c) 0 0
  have h1 := getD_append_offset a (le32 v ++ c) 1 0
  have h2 := getD_append_offset a (le32 v ++ c) 2 0
  have h3 := getD_append_offset a (le32 v ++ c) 3 0
  rw [Nat.add_zero] at h0
  rw [List.append_assoc, word32, h0, h1, h2, h3]
  exact word32_bytes v

/-- Any four bytes are those of a word. -/
theorem exists_le32 {b : Bytes} (h : b.length = 4) : ∃ v, b = le32 v := by
  obtain ⟨b₀, b₁, b₂, b₃, rfl⟩ := List.length_eq_four.mp h
  refine ⟨b₀.toUInt32 ||| (b₁.toUInt32 <<< 8) ||| (b₂.toUInt32 <<< 16) ||| (b₃.toUInt32 <<< 24), ?_⟩
  simp only [le32, List.cons.injEq, and_true]
  refine ⟨?_, ?_, ?_, ?_⟩
  all_goals
    apply UInt8.eq_of_toBitVec_eq
    ext i hi
    interval_cases i <;> simp

theorem wordOf_leBytes (v : UInt64) (c : Bytes) : wordOf 8 (leBytes 8 v ++ c) = v := by
  simp only [wordOf, leBytes, List.cons_append, List.tail_cons, List.headD_cons]
  apply UInt64.eq_of_toBitVec_eq
  simp only [UInt64.toBitVec_or, UInt64.toBitVec_shiftLeft, UInt8.toBitVec_toUInt64,
    UInt64.toBitVec_toUInt8, UInt64.toBitVec_shiftRight]
  ext i hi
  simp
  interval_cases i <;> simp

/-! ### Words as numbers -/

theorem toNat_ofInt (v : Int) : (UInt32.ofInt v).toNat = (v % 4294967296).toNat :=
  UInt32.toNat_ofNat_of_lt' (show _ < 4294967296 by omega)

theorem toNat_add_of_lt {v w : UInt32} (h : v.toNat + w.toNat < 4294967296) :
    (v + w).toNat = v.toNat + w.toNat := by
  rw [UInt32.toNat_add]
  exact Nat.mod_eq_of_lt h

theorem toNat_shiftLeft (v : UInt32) {k : Nat} (hk : k < 32) :
    (v <<< UInt32.ofNat k).toNat = v.toNat * 2 ^ k % 4294967296 := by
  have hof : (UInt32.ofNat k).toNat = k :=
    UInt32.toNat_ofNat_of_lt' (show _ < 4294967296 by omega)
  rw [UInt32.toNat_shiftLeft, hof, Nat.mod_eq_of_lt hk, Nat.shiftLeft_eq]

/-- What is put where the shift made room is added. -/
theorem toNat_shiftLeft_or (v w : UInt32) {k : Nat} (hk : k < 32) (hw : w.toNat < 2 ^ k) :
    (v <<< UInt32.ofNat k ||| w).toNat = v.toNat * 2 ^ k % 4294967296 + w.toNat := by
  have hpow : 4294967296 = 2 ^ (32 - k) * 2 ^ k := by
    rw [← Nat.pow_add, Nat.sub_add_cancel (by omega)]
  rw [UInt32.toNat_or, toNat_shiftLeft v hk, hpow, Nat.mul_mod_mul_right, Nat.mul_comm,
    ← Nat.two_pow_add_eq_or_of_lt hw]

/-! ### Exclusive or with a key stream -/

/-- Byte-wise exclusive or; the shorter operand decides the length. -/
def xor (a b : Bytes) : Bytes := List.zipWith (· ^^^ ·) a b

/-- Applying the same key stream twice gives the text back. -/
theorem xor_xor_cancel : ∀ (a k : Bytes), a.length ≤ k.length → xor (xor a k) k = a
  | [], _, _ => by simp [xor]
  | x :: a, [], h => by simp at h
  | x :: a, y :: k, h => by
      have ih := xor_xor_cancel a k (by simpa using h)
      simp only [xor, List.zipWith_cons_cons] at ih ⊢
      rw [ih, UInt8.xor_assoc, UInt8.xor_self, UInt8.xor_zero]

theorem length_xor {a k : Bytes} (h : a.length ≤ k.length) : (xor a k).length = a.length := by
  simp [xor, Nat.min_eq_left h]

end Bytes
