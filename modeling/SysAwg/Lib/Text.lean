/-
Text as C programs hold it: bytes, one a character, and the numbers in it.

`strtol` skips white space, takes a sign and then the longest run of digits, and says
where it stopped; a run without digits is no number, and one too long for a `long` of 64
bits is the largest or smallest of them.  What a program prints with `%u` is read back as
the same number, whatever stands behind it.
-/
import SysAwg.Lib.Bytes

namespace Bytes

/-- The characters of an ASCII literal. -/
def ascii (s : String) : Bytes := s.toList.map fun c => UInt8.ofNat c.toNat

/-- What holds of the 256 bytes holds of every character. -/
theorem forall_byte {p : UInt8 → Prop} (h : ∀ n : Fin 256, p (UInt8.ofNat n)) (c : UInt8) : p c := by
  have hc := h ⟨c.toNat, c.toNat_lt⟩
  rwa [UInt8.ofNat_toNat] at hc

/-- What a skipped run ends with. -/
theorem not_of_dropWhile {p : UInt8 → Bool} {s rest : Bytes} {c : UInt8}
    (h : s.dropWhile p = c :: rest) : p c = false := by
  have hhead := List.head?_dropWhile_not p s
  rw [h] at hhead
  exact hhead

/-- A run that ends where the text goes on differently. -/
theorem span_exact {p : UInt8 → Bool} {s rest : Bytes} (hs : ∀ c ∈ s, p c = true)
    (hrest : ∀ c ∈ rest.head?, p c = false) :
    (s ++ rest).takeWhile p = s ∧ (s ++ rest).dropWhile p = rest := by
  rw [List.takeWhile_append_of_pos hs, List.dropWhile_append_of_pos hs]
  cases rest with
  | nil => simp
  | cons c rest =>
      have hc : ¬ p c = true := by simpa using hrest
      rw [List.takeWhile_cons_of_neg hc, List.dropWhile_cons_of_neg hc, List.append_nil]
      exact ⟨rfl, rfl⟩

theorem decide_ne_of_notMem {c : UInt8} {s : Bytes} (hs : c ∉ s) :
    ∀ d ∈ s, decide (d ≠ c) = true := by
  intro d hd
  rw [decide_eq_true_eq]
  rintro rfl
  exact hs hd

/-- `strchr`: a text up to the first `c` in it, and from there on. -/
theorem span_ne {c : UInt8} {s : Bytes} (hs : c ∉ s) (rest : Bytes) :
    (s ++ c :: rest).takeWhile (fun d => decide (d ≠ c)) = s ∧
      (s ++ c :: rest).dropWhile (fun d => decide (d ≠ c)) = c :: rest :=
  span_exact (decide_ne_of_notMem hs) (by simp)

theorem span_ne_of_notMem {c : UInt8} {s : Bytes} (hs : c ∉ s) :
    s.takeWhile (fun d => decide (d ≠ c)) = s ∧ s.dropWhile (fun d => decide (d ≠ c)) = [] := by
  have hspan := @span_exact _ s [] (decide_ne_of_notMem hs) (by simp)
  rwa [List.append_nil] at hspan

def isSpace (c : UInt8) : Bool := c == 32 || (9 ≤ c && c ≤ 13)

def isDigit (c : UInt8) : Bool := 48 ≤ c && c ≤ 57

/-- A run of digits read on from `n`. -/
def decimalFrom (n : Nat) (ds : Bytes) : Nat := ds.foldl (fun n c => n * 10 + (c.toNat - 48)) n

/-- The number that a run of digits spells. -/
def decimal (ds : Bytes) : Nat := decimalFrom 0 ds

def longMin : Int := -9223372036854775808

def longMax : Int := 9223372036854775807

def ulongMax : Nat := 18446744073709551615

/-- White space and a sign: whether it is a minus, and what follows. -/
def signed (s : Bytes) : Bool × Bytes :=
  let t := s.dropWhile isSpace
  match t with
  | [] => (false, t)
  | c :: rest => if c = 45 then (true, rest) else if c = 43 then (false, rest) else (false, t)

/-- `strtol(s, &end, 10)`: the number, and the text from `end` on. -/
def strtol (s : Bytes) : Int × Bytes :=
  let (minus, t) := signed s
  let ds := t.takeWhile isDigit
  if ds = [] then (0, s)
  else
    let v : Int := if minus then -decimal ds else decimal ds
    (max longMin (min v longMax), t.dropWhile isDigit)

/-- `strtoul(s, NULL, 10)`: a number with a minus is negated after the check for size. -/
def strtoul (s : Bytes) : UInt64 :=
  let (minus, t) := signed s
  let n := decimal (t.takeWhile isDigit)
  if n > ulongMax then UInt64.ofNat ulongMax
  else if minus then -UInt64.ofNat n
  else UInt64.ofNat n

/-- `%u`, and `%d` of a number that is not negative. -/
def decimalText (n : Nat) : Bytes := (Nat.toDigits 10 n).map fun c => UInt8.ofNat c.toNat

/-! ### Reading what was printed

The digits of a number are what `Nat.toDigits` gives, and a reader gets them back one by
one.  It must not stop early, so the first character is no white space and no sign, and not
run on, so what follows is no digit.
-/

theorem decimalFrom_ge (ds : Bytes) : ∀ n, n ≤ decimalFrom n ds := by
  induction ds with
  | nil => intro n; exact le_refl n
  | cons c ds ih =>
      intro n
      have hstep := ih (n * 10 + (c.toNat - 48))
      show n ≤ decimalFrom (n * 10 + (c.toNat - 48)) ds
      omega

private theorem digit_toNat {c : Char} (hc : c.isDigit = true) :
    (UInt8.ofNat c.toNat).toNat = c.toNat ∧ 48 ≤ c.toNat ∧ c.toNat ≤ 57 := by
  have hrange : 48 ≤ c.toNat ∧ c.toNat ≤ 57 := by
    simpa [Char.isDigit, UInt32.le_iff_toNat_le] using hc
  refine ⟨?_, hrange⟩
  rw [UInt8.toNat_ofNat']
  omega

theorem isDigit_of_mem_decimalText {n : Nat} {c : UInt8} (hc : c ∈ decimalText n) :
    isDigit c = true := by
  obtain ⟨d, hd, rfl⟩ := List.mem_map.mp hc
  obtain ⟨heq, hlow, hhigh⟩ :=
    digit_toNat (Nat.isDigit_of_mem_toDigits (by omega) (le_refl 10) hd)
  simp only [isDigit, UInt8.le_iff_toNat_le, heq, Bool.and_eq_true, decide_eq_true_eq]
  exact ⟨hlow, hhigh⟩

theorem decimalText_ne_nil (n : Nat) : decimalText n ≠ [] := by
  simp [decimalText]

private theorem decimalFrom_digits (cs : List Char) : ∀ (n : Nat), (∀ c ∈ cs, c.isDigit = true) →
    decimalFrom n (cs.map fun c => UInt8.ofNat c.toNat) = Nat.ofDigitChars 10 cs n := by
  induction cs with
  | nil => intro n _; rfl
  | cons c cs ih =>
      intro n hcs
      obtain ⟨heq, -, -⟩ := digit_toNat (hcs c (List.mem_cons_self ..))
      rw [Nat.ofDigitChars_cons, ← ih _ (fun d hd => hcs d (List.mem_cons_of_mem _ hd))]
      show decimalFrom (n * 10 + ((UInt8.ofNat c.toNat).toNat - 48)) _ = _
      rw [heq, Nat.mul_comm]
      rfl

/-- **A printed number is read back.** -/
theorem decimal_decimalText (n : Nat) : decimal (decimalText n) = n := by
  have hdigits : ∀ c ∈ Nat.toDigits 10 n, c.isDigit = true := by
    intro c hc
    exact Nat.isDigit_of_mem_toDigits (by omega) (le_refl 10) hc
  rw [decimal, decimalText, decimalFrom_digits _ 0 hdigits, Nat.ofDigitChars_ten_toDigits]

theorem length_decimalText_le {n k : Nat} (hk : 0 < k) : (decimalText n).length ≤ k ↔ n < 10 ^ k := by
  rw [decimalText, List.length_map, Nat.length_toDigits_le_iff (by omega) hk]

theorem not_space_of_digit {c : UInt8} (hc : isDigit c = true) :
    isSpace c = false ∧ c ≠ 45 ∧ c ≠ 43 ∧ c ≠ 0 := by
  revert c
  apply forall_byte
  decide +kernel

theorem signed_of_digit {c : UInt8} (hc : isDigit c = true) (rest : Bytes) :
    signed (c :: rest) = (false, c :: rest) := by
  obtain ⟨hspace, hminus, hplus, -⟩ := not_space_of_digit hc
  unfold signed
  rw [List.dropWhile_cons_of_neg (by simp [hspace])]
  simp [hminus, hplus]

/-- **`strtol` reads a printed number up to what is no digit.** -/
theorem strtol_decimalText {n : Nat} (hn : n ≤ longMax) {rest : Bytes}
    (hrest : ∀ c ∈ rest.head?, isDigit c = false) :
    strtol (decimalText n ++ rest) = ((n : Int), rest) := by
  have hds : ∀ c ∈ decimalText n, isDigit c = true := fun c hc => isDigit_of_mem_decimalText hc
  obtain ⟨htake, hdrop⟩ := span_exact hds hrest
  obtain ⟨c, ds, hcons⟩ := List.exists_cons_of_ne_nil (decimalText_ne_nil n)
  have hsigned : signed (decimalText n ++ rest) = (false, decimalText n ++ rest) := by
    rw [hcons, List.cons_append, signed_of_digit (hds c (by simp [hcons]))]
  have hlow : longMin ≤ (n : Int) := by
    have hneg : longMin ≤ 0 := by decide
    omega
  unfold strtol
  rw [hsigned]
  simp only [htake, hdrop, if_neg (decimalText_ne_nil n), decimal_decimalText, Bool.false_eq_true,
    if_false, min_eq_left hn, max_eq_right hlow]

end Bytes
