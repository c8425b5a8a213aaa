/-
Base64: decoding undoes encoding, and what the decoder accepts.

The accumulator is never cleared, so nothing can be said of it as a whole; but a byte is
taken from its low bits only, and whatever was shifted in earlier is above them.  So the
group of characters that the encoder makes of three bytes gives the three bytes back from
any accumulator, and the texts follow by induction on groups.  How much the decoder writes
is counted in bits: written and pending bits together are six for each character.
-/
import SysAwg.Base64
import SysAwg.Sni

namespace SysAwg

open Bytes

/-! ### Characters -/

theorem b64Alphabet_eq : b64Alphabet =
    [65, 66, 67, 68, 69, 70, 71, 72, 73, 74, 75, 76, 77, 78, 79, 80, 81, 82, 83, 84, 85,
      86, 87, 88, 89, 90, 97, 98, 99, 100, 101, 102, 103, 104, 105, 106, 107, 108, 109,
      110, 111, 112, 113, 114, 115, 116, 117, 118, 119, 120, 121, 122, 48, 49, 50, 51, 52,
      53, 54, 55, 56, 57, 43, 47] := by
  decide +kernel

/-- What the decoder skips: padding, line feed, carriage return, space. -/
def b64Skipped : Bytes := ascii "=\n\r "

theorem b64Ignored_iff (c : UInt8) : b64Ignored c = true ↔ c ∈ b64Skipped := by
  revert c
  apply forall_byte
  decide +kernel

def b64Char (v : Nat) : UInt8 := b64Alphabet.getD v 0

theorem b64Char_spec {v : Nat} (hv : v < 64) :
    b64Char v ≠ 0 ∧ b64Ignored (b64Char v) = false ∧ b64Val (b64Char v) = v := by
  have hall : ∀ v : Fin 64,
      b64Char v ≠ 0 ∧ b64Ignored (b64Char v) = false ∧ b64Val (b64Char v) = (v : Nat) := by
    unfold b64Char
    rw [b64Alphabet_eq]
    decide +kernel
  exact hall ⟨v, hv⟩

/-- `b64_val` knows exactly the alphabet, and the alphabet has none of the characters
skipped. -/
theorem b64Val_spec (c : UInt8) :
    (c ∈ b64Alphabet ↔ ¬ b64Val c < 0) ∧ (c ∈ b64Alphabet → b64Ignored c = false) := by
  have hknown : ∀ c ∈ b64Alphabet, ¬ b64Val c < 0 ∧ b64Ignored c = false := by
    rw [b64Alphabet_eq]
    decide +kernel
  have hplace : ¬ b64Val c < 0 → b64Alphabet[(b64Val c).toNat]? = some c := by
    rw [b64Alphabet_eq]
    revert c
    apply forall_byte
    decide +kernel
  refine ⟨⟨fun h => (hknown c h).1, ?_⟩, fun h => (hknown c h).2⟩
  intro h
  exact List.mem_of_getElem? (hplace h)

/-- One more character in the accumulator. -/
def b64Push (acc : UInt32) (v : Nat) : UInt32 := acc <<< 6 ||| UInt32.ofInt v

theorem toNat_b64Push (acc : UInt32) {v : Nat} (hv : v < 64) :
    (b64Push acc v).toNat = acc.toNat * 64 % 4294967296 + v := by
  have hof : (UInt32.ofInt v).toNat = v := by
    rw [toNat_ofInt]
    omega
  have hpush := toNat_shiftLeft_or acc (UInt32.ofInt v) (show 6 < 32 by omega) (by omega)
  rw [hof] at hpush
  exact hpush

theorem toNat_low (acc : UInt32) {bits : Nat} (hbits : bits < 32) :
    (acc >>> UInt32.ofNat bits).toUInt8.toNat = acc.toNat / 2 ^ bits % 256 := by
  have hof : (UInt32.ofNat bits).toNat % 32 = bits := by
    rw [UInt32.toNat_ofNat_of_lt' (show _ < 4294967296 by omega)]
    omega
  rw [UInt32.toNat_toUInt8, UInt32.toNat_shiftRight, hof, Nat.shiftRight_eq_div_pow]

/-! ### Groups

A character moves the accumulator by six bits and, whenever eight have come together, a byte
leaves at the bottom of what is pending.  Four characters bring the decoder back to where it
began, with three bytes more.
-/

/-- A character of the alphabet is taken in. -/
theorem b64DecodeLoop_char {outCap v : Nat} (hv : v < 64) (rest : Bytes) (acc : UInt32)
    (bits : Nat) (out : Bytes) :
    b64DecodeLoop outCap (b64Char v :: rest) acc bits out =
      if bits + 6 ≥ 8 then
        if out.length ≥ outCap then none
        else b64DecodeLoop outCap rest (b64Push acc v) (bits + 6 - 8)
          (out ++ [(b64Push acc v >>> UInt32.ofNat (bits + 6 - 8)).toUInt8])
      else b64DecodeLoop outCap rest (b64Push acc v) (bits + 6) out := by
  obtain ⟨hzero, hkept, hval⟩ := b64Char_spec hv
  have hnonneg : ¬ ((v : Int) < 0) := by omega
  rw [b64DecodeLoop, if_neg hzero, hkept, hval, if_neg (by simp)]
  simp only [if_neg hnonneg]
  rfl

/-- Two characters carry a byte. -/
theorem b64DecodeLoop_two {outCap v₀ v₁ : Nat} (h₀ : v₀ < 64) (h₁ : v₁ < 64) (rest : Bytes)
    (acc : UInt32) (out : Bytes) (hroom : out.length + 1 ≤ outCap) :
    b64DecodeLoop outCap (b64Char v₀ :: b64Char v₁ :: rest) acc 0 out =
      b64DecodeLoop outCap rest (b64Push (b64Push acc v₀) v₁) 4
        (out ++ [UInt8.ofNat (v₀ * 4 + v₁ / 16)]) := by
  have hbyte : (b64Push (b64Push acc v₀) v₁ >>> UInt32.ofNat 4).toUInt8 =
      UInt8.ofNat (v₀ * 4 + v₁ / 16) := by
    apply UInt8.toNat_inj.mp
    rw [toNat_low _ (by omega), toNat_b64Push _ h₁, toNat_b64Push _ h₀, UInt8.toNat_ofNat']
    omega
  rw [b64DecodeLoop_char h₀, if_neg (by omega), b64DecodeLoop_char h₁, if_pos (by omega),
    if_neg (by omega), hbyte]

/-- A third character carries one more. -/
theorem b64DecodeLoop_three {outCap v₁ v₂ : Nat} (h₁ : v₁ < 64) (h₂ : v₂ < 64) (rest : Bytes)
    (acc : UInt32) (out : Bytes) (hroom : out.length + 1 ≤ outCap) :
    b64DecodeLoop outCap (b64Char v₂ :: rest) (b64Push acc v₁) 4 out =
      b64DecodeLoop outCap rest (b64Push (b64Push acc v₁) v₂) 2
        (out ++ [UInt8.ofNat (v₁ * 16 + v₂ / 4)]) := by
  have hbyte : (b64Push (b64Push acc v₁) v₂ >>> UInt32.ofNat 2).toUInt8 =
      UInt8.ofNat (v₁ * 16 + v₂ / 4) := by
    apply UInt8.toNat_inj.mp
    rw [toNat_low _ (by omega), toNat_b64Push _ h₂, toNat_b64Push _ h₁, UInt8.toNat_ofNat']
    omega
  rw [b64DecodeLoop_char h₂, if_pos (by omega), if_neg (by omega), hbyte]

/-- The fourth carries the last byte of a group, and nothing is left pending. -/
theorem b64DecodeLoop_four {outCap v₂ v₃ : Nat} (h₂ : v₂ < 64) (h₃ : v₃ < 64) (rest : Bytes)
    (acc : UInt32) (out : Bytes) (hroom : out.length + 1 ≤ outCap) :
    b64DecodeLoop outCap (b64Char v₃ :: rest) (b64Push acc v₂) 2 out =
      b64DecodeLoop outCap rest (b64Push (b64Push acc v₂) v₃) 0
        (out ++ [UInt8.ofNat (v₂ * 64 + v₃)]) := by
  have hbyte : (b64Push (b64Push acc v₂) v₃ >>> UInt32.ofNat 0).toUInt8 =
      UInt8.ofNat (v₂ * 64 + v₃) := by
    apply UInt8.toNat_inj.mp
    rw [toNat_low _ (by omega), toNat_b64Push _ h₃, toNat_b64Push _ h₂, UInt8.toNat_ofNat']
    omega
  rw [b64DecodeLoop_char h₃, if_pos (by omega), if_neg (by omega), hbyte]

/-! ### The encoder -/

def b64Group (a b c : UInt8) : Nat := a.toNat * 65536 + b.toNat * 256 + c.toNat

theorem toNat_group (a b c : UInt8) :
    (a.toUInt32 <<< 16 ||| b.toUInt32 <<< 8 ||| c.toUInt32).toNat = b64Group a b c := by
  have ha := a.toNat_lt
  have hb := b.toNat_lt
  have hc := c.toNat_lt
  have hmid : (b.toUInt32 <<< 8 ||| c.toUInt32).toNat = b.toNat * 256 + c.toNat := by
    refine (toNat_shiftLeft_or b.toUInt32 c.toUInt32 (show 8 < 32 by omega) hc).trans ?_
    rw [UInt8.toNat_toUInt32, UInt8.toNat_toUInt32]
    omega
  have hall := toNat_shiftLeft_or a.toUInt32 (b.toUInt32 <<< 8 ||| c.toUInt32)
    (show 16 < 32 by omega) (by omega)
  rw [hmid, UInt8.toNat_toUInt32] at hall
  rw [UInt32.or_assoc, b64Group]
  refine hall.trans ?_
  omega

theorem b64Units_eq (v : UInt32) (units : Nat) :
    b64Units v units = (List.range units).map fun k => b64Char (v.toNat / 2 ^ (18 - 6 * k) % 64) := by
  unfold b64Units b64Char
  apply List.map_congr_left
  intro k _
  have hof : (UInt32.ofNat (18 - 6 * k)).toNat % 32 = 18 - 6 * k := by
    rw [UInt32.toNat_ofNat_of_lt' (show _ < 4294967296 by omega)]
    omega
  rw [UInt32.toNat_and, UInt32.toNat_shiftRight, hof, Nat.shiftRight_eq_div_pow]
  show b64Alphabet.getD (_ &&& 63) 0 = _
  rw [show (63 : Nat) = 2 ^ 6 - 1 from rfl, Nat.and_two_pow_sub_one_eq_mod]

/-- The first characters of a group. -/
def b64GroupText (a b c : UInt8) (units : Nat) : Bytes :=
  (List.range units).map fun k => b64Char (b64Group a b c / 2 ^ (18 - 6 * k) % 64)

def b64Text : Bytes → Bytes
  | [] => []
  | [a] => b64GroupText a 0 0 2
  | [a, b] => b64GroupText a b 0 3
  | a :: b :: c :: rest => b64GroupText a b c 4 ++ b64Text rest

theorem b64Units_one (a : UInt8) (units : Nat) :
    b64Units (a.toUInt32 <<< 16) units = b64GroupText a 0 0 units := by
  have hgroup := toNat_group a 0 0
  have hzero : (0 : UInt8).toUInt32 = 0 := rfl
  simp only [hzero, UInt32.zero_shiftLeft, UInt32.or_zero] at hgroup
  rw [b64Units_eq, hgroup]
  rfl

theorem b64Units_two (a b : UInt8) (units : Nat) :
    b64Units (a.toUInt32 <<< 16 ||| b.toUInt32 <<< 8) units = b64GroupText a b 0 units := by
  have hgroup := toNat_group a b 0
  have hzero : (0 : UInt8).toUInt32 = 0 := rfl
  simp only [hzero, UInt32.or_zero] at hgroup
  rw [b64Units_eq, hgroup]
  rfl

theorem b64Units_three (a b c : UInt8) (units : Nat) :
    b64Units (a.toUInt32 <<< 16 ||| b.toUInt32 <<< 8 ||| c.toUInt32) units =
      b64GroupText a b c units := by
  rw [b64Units_eq, toNat_group]
  rfl

@[simp] theorem length_b64GroupText (a b c : UInt8) (units : Nat) :
    (b64GroupText a b c units).length = units := by
  simp [b64GroupText]

theorem mem_b64GroupText {a b c d : UInt8} {units : Nat} (hd : d ∈ b64GroupText a b c units) :
    d ∈ b64Alphabet := by
  obtain ⟨k, -, rfl⟩ := List.mem_map.mp hd
  have hval := (b64Char_spec (Nat.mod_lt (b64Group a b c / 2 ^ (18 - 6 * k)) (by omega))).2.2
  rw [(b64Val_spec _).1, hval]
  omega

/-- The text is made of the alphabet. -/
theorem mem_b64Text {d : UInt8} : ∀ {x : Bytes}, d ∈ b64Text x → d ∈ b64Alphabet
  | [], hd => by cases hd
  | [_], hd => mem_b64GroupText hd
  | [_, _], hd => mem_b64GroupText hd
  | _ :: _ :: _ :: rest, hd => by
    rcases List.mem_append.mp hd with hd | hd
    · exact mem_b64GroupText hd
    · exact mem_b64Text hd

/-- Four characters for three bytes, and one more than is left for the rest. -/
theorem length_b64Text : ∀ x : Bytes, (b64Text x).length = (4 * x.length + 2) / 3
  | [] => rfl
  | [a] => by simp [b64Text]
  | [a, b] => by simp [b64Text]
  | a :: b :: c :: rest => by
    have ih := length_b64Text rest
    simp only [b64Text, List.length_append, length_b64GroupText, List.length_cons, ih]
    omega

/-- **With room for it, the encoder writes the text.** -/
theorem b64EncodeLoop_eq {outCap : Nat} : ∀ (out x : Bytes),
    out.length + (b64Text x).length ≤ outCap →
    b64EncodeLoop outCap out x = (((out ++ b64Text x).length : Int), out ++ b64Text x)
  | out, [], _ => by simp [b64EncodeLoop, b64Text]
  | out, [a], hroom => by
    simp only [b64Text, length_b64GroupText] at hroom ⊢
    rw [b64EncodeLoop, if_neg (by omega), b64Units_one, b64EncodeLoop]
  | out, [a, b], hroom => by
    simp only [b64Text, length_b64GroupText] at hroom ⊢
    rw [b64EncodeLoop, if_neg (by omega), b64Units_two, b64EncodeLoop]
  | out, a :: b :: c :: rest, hroom => by
    simp only [b64Text, List.length_append, length_b64GroupText] at hroom
    have hrest : (out ++ b64GroupText a b c 4).length + (b64Text rest).length ≤ outCap := by
      simp only [List.length_append, length_b64GroupText]
      omega
    rw [b64EncodeLoop, if_neg (by omega), b64Units_three, b64EncodeLoop_eq _ rest hrest, b64Text,
      List.append_assoc]

theorem awgB64EncodeRaw_eq {x : Bytes} {outCap : Nat} (hroom : (b64Text x).length ≤ outCap) :
    awgB64EncodeRaw x outCap = (((b64Text x).length : Int), b64Text x) := by
  rw [awgB64EncodeRaw, b64EncodeLoop_eq [] x (by simpa using hroom), List.nil_append]

/-! ### Round trip

Group by group the decoder undoes the encoder.  That its accumulator still holds what the
last group left does not matter, since nothing pending was left with it.
-/

/-- The bytes that a group's characters carry. -/
theorem b64Group_bytes (a b c : UInt8) :
    UInt8.ofNat (b64Group a b c / 262144 % 64 * 4 + b64Group a b c / 4096 % 64 / 16) = a ∧
      UInt8.ofNat (b64Group a b c / 4096 % 64 * 16 + b64Group a b c / 64 % 64 / 4) = b ∧
      UInt8.ofNat (b64Group a b c / 64 % 64 * 64 + b64Group a b c / 1 % 64) = c := by
  have ha := a.toNat_lt
  have hb := b.toNat_lt
  have hc := c.toNat_lt
  refine ⟨?_, ?_, ?_⟩
  all_goals
    apply UInt8.toNat_inj.mp
    rw [UInt8.toNat_ofNat', b64Group]
    omega

private theorem six_bits (n : Nat) : n % 64 < 64 := Nat.mod_lt n (by omega)

variable {outCap : Nat} (a b c : UInt8) (rest : Bytes) (acc : UInt32) (out : Bytes)

theorem b64DecodeLoop_group_two (hroom : out.length + 1 ≤ outCap) :
    b64DecodeLoop outCap (b64GroupText a b c 2 ++ rest) acc 0 out =
      b64DecodeLoop outCap rest (b64Push (b64Push acc (b64Group a b c / 262144 % 64))
        (b64Group a b c / 4096 % 64)) 4 (out ++ [a]) := by
  have hstep := b64DecodeLoop_two (six_bits (b64Group a b c / 262144))
    (six_bits (b64Group a b c / 4096)) rest acc out hroom
  rw [(b64Group_bytes a b c).1] at hstep
  exact hstep

theorem b64DecodeLoop_group_three (hroom : out.length + 2 ≤ outCap) :
    ∃ acc', b64DecodeLoop outCap (b64GroupText a b c 3 ++ rest) acc 0 out =
      b64DecodeLoop outCap rest (b64Push acc' (b64Group a b c / 64 % 64)) 2 (out ++ [a, b]) := by
  have hlen : (out ++ [a]).length + 1 ≤ outCap := by
    simp only [List.length_append, List.length_cons, List.length_nil]
    omega
  have hfirst := b64DecodeLoop_group_two a b c (b64Char (b64Group a b c / 64 % 64) :: rest) acc out
    (show out.length + 1 ≤ outCap by omega)
  have hstep := b64DecodeLoop_three (six_bits (b64Group a b c / 4096))
    (six_bits (b64Group a b c / 64)) rest (b64Push acc (b64Group a b c / 262144 % 64)) (out ++ [a]) hlen
  rw [(b64Group_bytes a b c).2.1, List.append_assoc] at hstep
  exact ⟨_, hfirst.trans hstep⟩

theorem b64DecodeLoop_group_four (hroom : out.length + 3 ≤ outCap) :
    ∃ acc', b64DecodeLoop outCap (b64GroupText a b c 4 ++ rest) acc 0 out =
      b64DecodeLoop outCap rest acc' 0 (out ++ [a, b, c]) := by
  have hlen : (out ++ [a, b]).length + 1 ≤ outCap := by
    simp only [List.length_append, List.length_cons, List.length_nil]
    omega
  obtain ⟨acc', hfirst⟩ := b64DecodeLoop_group_three a b c
    (b64Char (b64Group a b c / 1 % 64) :: rest) acc out (show out.length + 2 ≤ outCap by omega)
  have hstep := b64DecodeLoop_four (six_bits (b64Group a b c / 64))
    (six_bits (b64Group a b c / 1)) rest acc' (out ++ [a, b]) hlen
  rw [(b64Group_bytes a b c).2.2, List.append_assoc] at hstep
  exact ⟨_, hfirst.trans hstep⟩

/-- **The decoder gives the encoded bytes back**, whatever is in its accumulator. -/
theorem b64DecodeLoop_text : ∀ (x out : Bytes) (acc : UInt32),
    out.length + x.length ≤ outCap → b64DecodeLoop outCap (b64Text x) acc 0 out = some (out ++ x)
  | [], out, acc, _ => by simp [b64Text, b64DecodeLoop]
  | [a], out, acc, hroom => by
    have hgroup := b64DecodeLoop_group_two a 0 0 [] acc out hroom
    rw [List.append_nil] at hgroup
    exact hgroup
  | [a, b], out, acc, hroom => by
    obtain ⟨acc', hgroup⟩ := b64DecodeLoop_group_three a b 0 [] acc out hroom
    rw [List.append_nil] at hgroup
    exact hgroup
  | a :: b :: c :: rest, out, acc, hroom => by
    simp only [List.length_cons] at hroom
    have hrest : (out ++ [a, b, c]).length + rest.length ≤ outCap := by
      simp only [List.length_append, List.length_cons, List.length_nil]
      omega
    obtain ⟨acc', hgroup⟩ := b64DecodeLoop_group_four a b c (b64Text rest) acc out
      (show out.length + 3 ≤ outCap by omega)
    rw [b64Text, hgroup, b64DecodeLoop_text rest _ acc' hrest, List.append_assoc]
    rfl

/-- Skipped characters drop out. -/
theorem b64DecodeLoop_filter (text : Bytes) : ∀ (acc : UInt32) (bits : Nat) (out : Bytes),
    b64DecodeLoop outCap text acc bits out =
      b64DecodeLoop outCap (text.filter fun c => !b64Ignored c) acc bits out := by
  induction text with
  | nil => intro acc bits out; rfl
  | cons c text ih =>
    intro acc bits out
    by_cases hc : b64Ignored c
    · have hzero : c ≠ 0 := by
        rintro rfl
        revert hc
        decide
      rw [List.filter_cons_of_neg (by simp [hc]), b64DecodeLoop, if_neg hzero, if_pos hc, ih]
    · rw [List.filter_cons_of_pos (by simp [hc])]
      simp only [b64DecodeLoop, ih]

/-! ### What is accepted

Which texts are accepted is a question of counting.  The decoder fails at a character it
does not know and where it runs out of room, and how far it comes by then is known from the
number of characters before.
-/

/-- What follows the terminator is not read. -/
theorem b64DecodeLoop_cString (text : Bytes) : ∀ (acc : UInt32) (bits : Nat) (out : Bytes),
    b64DecodeLoop outCap (cString text) acc bits out = b64DecodeLoop outCap text acc bits out := by
  induction text with
  | nil => intro acc bits out; rfl
  | cons c text ih =>
    intro acc bits out
    unfold cString at ih ⊢
    by_cases hc : c = 0
    · rw [List.takeWhile_cons_of_neg (by simp [hc]), b64DecodeLoop, b64DecodeLoop, if_pos hc]
    · rw [List.takeWhile_cons_of_pos (by simp [hc])]
      simp only [b64DecodeLoop, ih]

/-- The characters of the alphabet in a text. -/
def b64Count (text : Bytes) : Nat := text.countP (· ∈ b64Alphabet)

/-- A text the decoder reads to its end: alphabet and skipped characters only. -/
def b64Readable (text : Bytes) : Bool := text.all fun c => c ∈ b64Alphabet || b64Ignored c

/-- **How far the decoder comes.**  Written and pending bits grow by six a character. -/
theorem b64DecodeLoop_length (text : Bytes) : ∀ (acc : UInt32) (bits : Nat) (out : Bytes),
    0 ∉ text → bits < 8 → out.length ≤ outCap →
    (b64DecodeLoop outCap text acc bits out).map List.length =
      if b64Readable text ∧ (8 * out.length + bits + 6 * b64Count text) / 8 ≤ outCap
      then some ((8 * out.length + bits + 6 * b64Count text) / 8) else none := by
  induction text with
  | nil =>
    intro acc bits out _ hbits hout
    have hlen : (8 * out.length + bits + 6 * b64Count []) / 8 = out.length := by
      show (8 * out.length + bits + 6 * 0) / 8 = _
      omega
    rw [hlen, if_pos ⟨rfl, hout⟩, b64DecodeLoop, Option.map_some]
  | cons c text ih =>
    intro acc bits out hzero hbits hout
    obtain ⟨hc, htext⟩ := not_or.mp (fun h => hzero (List.mem_cons.mpr h))
    obtain ⟨hval, hskip⟩ := b64Val_spec c
    rw [b64DecodeLoop, if_neg (Ne.symm hc)]
    by_cases halpha : c ∈ b64Alphabet
    · have hread : b64Readable (c :: text) = b64Readable text := by
        simp [b64Readable, halpha]
      have hcount : b64Count (c :: text) = b64Count text + 1 := by
        simp [b64Count, halpha]
      rw [hskip halpha, if_neg (by simp), hread, hcount]
      simp only [if_neg (hval.mp halpha)]
      split
      · split
        · have hfull : ¬ (8 * out.length + bits + 6 * (b64Count text + 1)) / 8 ≤ outCap := by
            omega
          rw [if_neg (fun h => hfull h.2)]
          rfl
        · have hlen : ∀ y : UInt8, (out ++ [y]).length = out.length + 1 := by simp
          have hsum : 8 * (out.length + 1) + (bits + 6 - 8) + 6 * b64Count text =
              8 * out.length + bits + 6 * (b64Count text + 1) := by
            omega
          rw [ih _ _ _ htext (by omega) (by rw [hlen]; omega), hlen, hsum]
      · have hsum : 8 * out.length + (bits + 6) + 6 * b64Count text =
            8 * out.length + bits + 6 * (b64Count text + 1) := by
          omega
        rw [ih _ _ _ htext (by omega) hout, hsum]
    · by_cases hskipped : b64Ignored c
      · have hread : b64Readable (c :: text) = b64Readable text := by
          simp [b64Readable, hskipped]
        have hcount : b64Count (c :: text) = b64Count text := by
          simp [b64Count, halpha]
        rw [if_pos hskipped, hread, hcount, ih acc bits out htext hbits hout]
      · have hread : ¬ b64Readable (c :: text) := by
          simp [b64Readable, halpha, hskipped]
        have hneg : b64Val c < 0 := by
          by_contra hge
          exact halpha (hval.mpr hge)
        simp only [if_neg hskipped, if_pos hneg, Option.map_none]
        exact (if_neg fun h => hread h.1).symm

/-- **Decoding undoes encoding, and takes exactly the texts it should.**  The encoder needs
`⌈4n/3⌉` characters for `n` bytes; its text, with skipped characters put in anywhere,
decodes to the bytes.  Of the text in any buffer, the decoder succeeds exactly if every
character is of the alphabet or skipped and the bytes fit, and then it writes `⌊6k/8⌋`. -/
theorem b64_roundTrip_and_accepts :
    (∀ (x : Bytes) (cap : Nat), (4 * x.length + 2) / 3 ≤ cap →
      ∃ text : Bytes, awgB64EncodeRaw x cap = ((text.length : Int), text) ∧
        text.length = (4 * x.length + 2) / 3 ∧
        ∀ (spaced : Bytes) (outCap : Nat), (spaced.filter fun c => c ∉ b64Skipped) = text →
          x.length ≤ outCap → awgB64Decode spaced outCap = some x) ∧
    ∀ (b : Bytes) (outCap : Nat),
      ((awgB64Decode b outCap).isSome = true ↔
        (∀ c ∈ cString b, c ∈ b64Alphabet ∨ c ∈ b64Skipped) ∧
          6 * b64Count (cString b) / 8 ≤ outCap) ∧
      ∀ y, awgB64Decode b outCap = some y → y.length = 6 * b64Count (cString b) / 8 := by
  constructor
  · intro x cap hcap
    rw [← length_b64Text] at hcap
    refine ⟨b64Text x, awgB64EncodeRaw_eq hcap, length_b64Text x, ?_⟩
    intro spaced outCap hspaced hroom
    have hskip : (fun c => !b64Ignored c) = fun c => decide (c ∉ b64Skipped) := by
      funext c
      rw [Bool.eq_iff_iff, Bool.not_eq_true', decide_eq_true_iff, ← b64Ignored_iff,
        Bool.not_eq_true]
    rw [awgB64Decode, b64DecodeLoop_filter, hskip, hspaced, b64DecodeLoop_text x [] 0 (by simpa using hroom),
      List.nil_append]
  · intro b outCap
    have hlen := b64DecodeLoop_length (cString b) 0 0 [] (zero_notMem_cString b) (by omega)
      (Nat.zero_le outCap)
    rw [b64DecodeLoop_cString] at hlen
    simp only [List.length_nil, Nat.mul_zero, Nat.zero_add] at hlen
    have hread : b64Readable (cString b) = true ↔
        ∀ c ∈ cString b, c ∈ b64Alphabet ∨ c ∈ b64Skipped := by
      simp [b64Readable, b64Ignored_iff]
    rw [← hread, awgB64Decode]
    split at hlen
    · rename_i haccept
      obtain ⟨y, hy, hcount⟩ := Option.map_eq_some_iff.mp hlen
      rw [hy]
      refine ⟨iff_of_true rfl haccept, ?_⟩
      rintro y' h
      cases h
      exact hcount
    · rename_i hreject
      have hnone := Option.map_eq_none_iff.mp hlen
      rw [hnone]
      refine ⟨iff_of_false (by simp) hreject, ?_⟩
      intro y hy
      cases hy

/-- Two bytes, with padding, a space and a line break put in; 33 bytes do not fit a key, and a
hyphen is refused. -/
theorem b64_roundTrip_and_accepts_two :
    awgB64Decode (ascii "q r\r\nw=") 32 = some [0xaa, 0xbc] ∧
      awgB64Decode (List.replicate 44 65) 32 = none ∧ awgB64Decode (ascii "qr-w") 32 = none := by
  obtain ⟨text, henc, -, hdec⟩ := b64_roundTrip_and_accepts.1 [0xaa, 0xbc] 3 (by decide)
  have hrefused : ∀ b : Bytes, ¬ ((∀ c ∈ cString b, c ∈ b64Alphabet ∨ c ∈ b64Skipped) ∧
      6 * b64Count (cString b) / 8 ≤ 32) → awgB64Decode b 32 = none := by
    intro b hb
    rw [← Option.not_isSome_iff_eq_none, (b64_roundTrip_and_accepts.2 b 32).1]
    exact hb
  refine ⟨hdec _ 32 ?_ (by decide), hrefused _ (by decide +kernel), hrefused _ (by decide +kernel)⟩
  have htext : (awgB64EncodeRaw [0xaa, 0xbc] 3).2 = text := congrArg Prod.snd henc
  rw [← htext]
  decide +kernel

end SysAwg
