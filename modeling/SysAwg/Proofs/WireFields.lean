/-
Fields of wire formats.

A packet is read at offsets, and a well-formed one is laid out as a concatenation.  A read
inside the packet gives what stands there, and what stands there is the field that was laid
out behind as many bytes, whatever those bytes are and whatever follows.
-/
import SysAwg.ClientHello

namespace SysAwg

open Checked

/-! ### Reading -/

theorem be16_lt (b : Bytes) (p : Nat) : be16 b p < 65536 := by
  have hhigh := (b.getD p 0).toNat_lt
  have hlow := (b.getD (p + 1) 0).toNat_lt
  unfold be16
  omega

theorem readByte_eq {b : Bytes} {p : Nat} (h : p < b.length) :
    readByte b p = .ok (b.getD p 0) := by
  unfold readByte
  rw [span_eq (by omega)]
  rfl

theorem read16_eq {b : Bytes} {p : Nat} (h : p + 2 ≤ b.length) : read16 b p = .ok (be16 b p) := by
  unfold read16
  rw [span_eq (by omega), span_eq (by omega)]
  rfl

/-! ### What was laid out -/

@[simp] theorem length_put16 (n : Nat) : (put16 n).length = 2 := rfl

@[simp] theorem length_put24 (n : Nat) : (put24 n).length = 3 := rfl

/-- A byte is read back from where it was laid out. -/
theorem getD_laidOut (a c : Bytes) (v : UInt8) {off : Nat} (ha : a.length = off) :
    (a ++ ([v] ++ c)).getD off 0 = v := by
  subst ha
  exact Bytes.getD_append_offset a ([v] ++ c) 0 0

/-- A number of two bytes is read back from where it was laid out. -/
theorem be16_laidOut (a c : Bytes) {n off : Nat} (hn : n < 65536) (ha : a.length = off) :
    be16 (a ++ (put16 n ++ c)) off = n := by
  subst ha
  have hhigh : (a ++ (put16 n ++ c)).getD a.length 0 = UInt8.ofNat (n / 256) :=
    Bytes.getD_append_offset a (put16 n ++ c) 0 0
  have hlow : (a ++ (put16 n ++ c)).getD (a.length + 1) 0 = UInt8.ofNat n :=
    Bytes.getD_append_offset a (put16 n ++ c) 1 0
  unfold be16
  rw [hhigh, hlow, UInt8.toNat_ofNat', UInt8.toNat_ofNat']
  omega

end SysAwg
