/-
Dotted quads: what `parse_ipv4` accepts, and that it reads what `ip_str` prints.

The scanner carries an octet and a count of digits along, and decides at a dot or at the
end.  A run of digits is taken as a whole: the checks after each digit fail exactly if the
check after the last one would.  Then every group is one case split on what follows its
digits, and four of them make an address.
-/
import SysAwg.ConfigText

namespace SysAwg

open Bytes

/-! ### Words and octets -/

/-- An octet is shifted into the word. -/
def pushOctet (v : UInt32) (octet : Nat) : UInt32 := v <<< 8 ||| UInt32.ofNat octet

theorem toNat_pushOctet (v : UInt32) {octet : Nat} (h : octet ≤ 255) :
    (pushOctet v octet).toNat = v.toNat * 256 % 4294967296 + octet := by
  have hof : (UInt32.ofNat octet).toNat = octet :=
    UInt32.toNat_ofNat_of_lt' (show _ < 4294967296 by omega)
  have hpush := toNat_shiftLeft_or v (UInt32.ofNat octet) (show 8 < 32 by omega) (by omega)
  rw [hof] at hpush
  exact hpush

theorem le32_swapBytes (v : UInt32) : le32 (swapBytes v) = (le32 v).reverse := by
  have h₀ : (swapBytes v).toUInt8 = (v >>> 24).toUInt8 := by
    apply UInt8.eq_of_toBitVec_eq
    unfold swapBytes
    ext i hi
    interval_cases i <;> simp
  have h₁ : (swapBytes v >>> 8).toUInt8 = (v >>> 16).toUInt8 := by
    apply UInt8.eq_of_toBitVec_eq
    unfold swapBytes
    ext i hi
    interval_cases i <;> simp
  have h₂ : (swapBytes v >>> 16).toUInt8 = (v >>> 8).toUInt8 := by
    apply UInt8.eq_of_toBitVec_eq
    unfold swapBytes
    ext i hi
    interval_cases i <;> simp
  have h₃ : (swapBytes v >>> 24).toUInt8 = v.toUInt8 := by
    apply UInt8.eq_of_toBitVec_eq
    unfold swapBytes
    ext i hi
    interval_cases i <;> simp
  simp only [le32, h₀, h₁, h₂, h₃, List.reverse_cons, List.reverse_nil, List.nil_append,
    List.cons_append]

/-- The word of four octets has them as its bytes, the first one first. -/
theorem le32_quad {o₀ o₁ o₂ o₃ : Nat} (h₀ : o₀ ≤ 255) (h₁ : o₁ ≤ 255) (h₂ : o₂ ≤ 255)
    (h₃ : o₃ ≤ 255) :
    le32 (swapBytes (pushOctet (pushOctet (pushOctet (pushOctet 0 o₀) o₁) o₂) o₃)) =
      [UInt8.ofNat o₀, UInt8.ofNat o₁, UInt8.ofNat o₂, UInt8.ofNat o₃] := by
  have hword : (pushOctet (pushOctet (pushOctet (pushOctet 0 o₀) o₁) o₂) o₃).toNat =
      o₀ * 16777216 + o₁ * 65536 + o₂ * 256 + o₃ := by
    rw [toNat_pushOctet _ h₃, toNat_pushOctet _ h₂, toNat_pushOctet _ h₁, toNat_pushOctet _ h₀]
    show ((((0 * 256 % 4294967296 + o₀) * 256 % 4294967296 + o₁) * 256 % 4294967296 + o₂) * 256 %
      4294967296 + o₃) = _
    omega
  rw [le32_swapBytes]
  generalize pushOctet (pushOctet (pushOctet (pushOctet 0 o₀) o₁) o₂) o₃ = v at hword ⊢
  have hb₀ : (v >>> 24).toUInt8 = UInt8.ofNat o₀ := by
    apply UInt8.toNat_inj.mp
    simp [Nat.shiftRight_eq_div_pow, hword]
    omega
  have hb₁ : (v >>> 16).toUInt8 = UInt8.ofNat o₁ := by
    apply UInt8.toNat_inj.mp
    simp [Nat.shiftRight_eq_div_pow, hword]
    omega
  have hb₂ : (v >>> 8).toUInt8 = UInt8.ofNat o₂ := by
    apply UInt8.toNat_inj.mp
    simp [Nat.shiftRight_eq_div_pow, hword]
    omega
  have hb₃ : v.toUInt8 = UInt8.ofNat o₃ := by
    apply UInt8.toNat_inj.mp
    simp [hword]
    omega
  simp only [le32, hb₀, hb₁, hb₂, hb₃, List.reverse_cons, List.reverse_nil, List.nil_append,
    List.cons_append]

/-- The bytes determine the word. -/
theorem le32_injective {a b : UInt32} (h : le32 a = le32 b) : a = b := by
  have ha := word32_append [] [] a rfl
  have hb := word32_append [] [] b rfl
  rw [h, hb] at ha
  exact ha.symm

/-! ### Groups

The scanner checks after every digit what could be checked at the end of the group: a fourth
digit, or a value above 255, never goes away again.  So the loop over digits is one step,
from the beginning of a group to the character behind it.
-/

/-- A group of a dotted quad. -/
structure IsOctet (g : Bytes) : Prop where
  digits : ∀ c ∈ g, isDigit c = true
  nonempty : g ≠ []
  short : g.length ≤ 3
  small : decimal g ≤ 255

/-- A run of digits is taken as a whole. -/
theorem ipv4Loop_digits {g : Bytes} (hg : ∀ c ∈ g, isDigit c = true) (rest : Bytes) (v : UInt32)
    (parts : Nat) : ∀ octet digits : Nat, octet ≤ 255 → digits ≤ 3 →
    ipv4Loop (g ++ rest) v octet digits parts =
      if digits + g.length ≤ 3 ∧ decimalFrom octet g ≤ 255
      then ipv4Loop rest v (decimalFrom octet g) (digits + g.length) parts else none := by
  induction g with
  | nil =>
    intro octet digits hoctet hdigits
    exact (if_pos ⟨hdigits, hoctet⟩).symm
  | cons c g ih =>
    intro octet digits hoctet hdigits
    have hlen : digits + (c :: g).length = digits + 1 + g.length := by
      rw [List.length_cons]
      omega
    have hfold : decimalFrom octet (c :: g) = decimalFrom (octet * 10 + (c.toNat - 48)) g := rfl
    rw [List.cons_append, ipv4Loop, if_pos (hg c (List.mem_cons_self ..)), hlen, hfold]
    dsimp only
    split
    · -- a check that fails after this digit fails after the last one
      rename_i hbad
      have hgrow := decimalFrom_ge g (octet * 10 + (c.toNat - 48))
      rw [if_neg]
      omega
    · rename_i hgood
      rw [not_or, not_lt, not_lt] at hgood
      exact ih (fun d hd => hg d (List.mem_cons_of_mem _ hd)) _ _ hgood.2 hgood.1

private theorem not_digit_dot : ¬ isDigit dot = true := by decide

theorem IsOctet.ipv4Loop_append {g : Bytes} (hg : IsOctet g) (rest : Bytes) (v : UInt32)
    (parts : Nat) :
    ipv4Loop (g ++ rest) v 0 0 parts = ipv4Loop rest v (decimal g) g.length parts := by
  have hshort : 0 + g.length ≤ 3 := by
    rw [Nat.zero_add]
    exact hg.short
  rw [ipv4Loop_digits hg.digits rest v parts 0 0 (Nat.zero_le _) (Nat.zero_le _),
    if_pos ⟨hshort, hg.small⟩, Nat.zero_add]
  rfl

theorem IsOctet.ipv4Part {g : Bytes} (hg : IsOctet g) (v : UInt32) (parts : Nat) :
    ipv4Part v (decimal g) g.length parts = some (pushOctet v (decimal g), parts + 1) :=
  if_neg fun h => hg.nonempty (List.length_eq_zero_iff.mp h)

theorem IsOctet.ipv4Loop_end {g : Bytes} (hg : IsOctet g) (v : UInt32) (parts : Nat) :
    ipv4Loop g v 0 0 parts = some (pushOctet v (decimal g), parts + 1) := by
  have happend := hg.ipv4Loop_append [] v parts
  rw [List.append_nil] at happend
  rw [happend, ipv4Loop, hg.ipv4Part]

theorem IsOctet.ipv4Loop_dot {g : Bytes} (hg : IsOctet g) (rest : Bytes) (v : UInt32)
    (parts : Nat) :
    ipv4Loop (g ++ dot :: rest) v 0 0 parts =
      if parts + 1 = 4 then none else ipv4Loop rest (pushOctet v (decimal g)) 0 0 (parts + 1) := by
  have hdot : ¬ dot = 0 := by decide
  rw [hg.ipv4Loop_append, ipv4Loop, if_neg not_digit_dot, if_pos (.inl rfl), hg.ipv4Part]
  simp only [if_neg hdot]

/-- A text that is not rejected begins with a group, and that is all of it or a dot follows. -/
theorem ipv4Loop_begins {s : Bytes} (hs : 0 ∉ s) {v : UInt32} {parts : Nat} {out : UInt32 × Nat}
    (h : ipv4Loop s v 0 0 parts = some out) :
    ∃ g, IsOctet g ∧ (s = g ∨ ∃ rest, s = g ++ dot :: rest) := by
  have hsplit : s.takeWhile isDigit ++ s.dropWhile isDigit = s := List.takeWhile_append_dropWhile
  have hdigits : ∀ c ∈ s.takeWhile isDigit, isDigit c = true :=
    fun c hc => List.mem_takeWhile_imp hc
  rw [← hsplit, ipv4Loop_digits hdigits _ v parts 0 0 (Nat.zero_le _) (Nat.zero_le _),
    Nat.zero_add] at h
  split at h
  · rename_i hbound
    have hoctet : s.takeWhile isDigit ≠ [] → IsOctet (s.takeWhile isDigit) :=
      fun hne => ⟨hdigits, hne, hbound.1, hbound.2⟩
    -- without a digit the group is rejected where it ends
    have hpart : ∀ w o, ipv4Part w o (s.takeWhile isDigit).length parts ≠ none →
        s.takeWhile isDigit ≠ [] := by
      intro w o hsome hnil
      rw [hnil] at hsome
      exact hsome rfl
    cases hrest : s.dropWhile isDigit with
    | nil =>
      rw [hrest, ipv4Loop] at h
      refine ⟨_, hoctet (hpart _ _ (by rw [h]; exact Option.some_ne_none _)), .inl ?_⟩
      rw [hrest, List.append_nil] at hsplit
      exact hsplit.symm
    | cons c rest =>
      have hc : ¬ isDigit c = true := by simp [not_of_dropWhile hrest]
      have hzero : c ≠ 0 := by
        rintro rfl
        rw [← hsplit, hrest] at hs
        exact hs (by simp)
      rw [hrest, ipv4Loop, if_neg hc] at h
      split at h
      · rename_i hdot
        obtain rfl := hdot.resolve_right hzero
        refine ⟨_, hoctet (hpart v (decimalFrom 0 (s.takeWhile isDigit)) ?_), .inr ⟨rest, ?_⟩⟩
        · intro hnone
          rw [hnone] at h
          cases h
        · rw [← hrest]
          exact hsplit.symm
      · cases h
  · cases h

/-- What follows the terminator is not read. -/
theorem ipv4Loop_cString (s : Bytes) : ∀ (v : UInt32) (octet digits parts : Nat),
    ipv4Loop (cString s) v octet digits parts = ipv4Loop s v octet digits parts := by
  induction s with
  | nil => intro v octet digits parts; rfl
  | cons c s ih =>
    intro v octet digits parts
    unfold cString at ih ⊢
    by_cases hc : c = 0
    · subst hc
      rw [List.takeWhile_cons_of_neg (by simp), ipv4Loop, ipv4Loop, if_neg (by decide),
        if_pos (.inr rfl)]
      cases ipv4Part v octet digits parts with
      | none => rfl
      | some r => rfl
    · rw [List.takeWhile_cons_of_pos (by simp [hc])]
      simp only [ipv4Loop, ih]

/-! ### Dotted quads

Four groups and three dots are told off one by one.  A text that is accepted has no other
shape, because at the end of each group only a dot or the end of the text is let through.
-/

/-- Four groups, with single dots between them and nothing else. -/
structure DottedQuad (s g₀ g₁ g₂ g₃ : Bytes) : Prop where
  text : s = g₀ ++ dot :: (g₁ ++ dot :: (g₂ ++ dot :: g₃))
  first : IsOctet g₀
  second : IsOctet g₁
  third : IsOctet g₂
  fourth : IsOctet g₃

theorem DottedQuad.ipv4Loop {s g₀ g₁ g₂ g₃ : Bytes} (h : DottedQuad s g₀ g₁ g₂ g₃) :
    ipv4Loop s 0 0 0 0 = some (pushOctet (pushOctet (pushOctet (pushOctet 0 (decimal g₀))
      (decimal g₁)) (decimal g₂)) (decimal g₃), 4) := by
  rw [h.text, h.first.ipv4Loop_dot, if_neg (by omega), h.second.ipv4Loop_dot, if_neg (by omega),
    h.third.ipv4Loop_dot, if_neg (by omega), h.fourth.ipv4Loop_end]

theorem DottedQuad.parseIpv4 {s g₀ g₁ g₂ g₃ : Bytes} (h : DottedQuad s g₀ g₁ g₂ g₃) :
    ∃ a, parseIpv4 s = some a ∧ le32 a = [UInt8.ofNat (decimal g₀), UInt8.ofNat (decimal g₁),
      UInt8.ofNat (decimal g₂), UInt8.ofNat (decimal g₃)] := by
  refine ⟨_, ?_, le32_quad h.first.small h.second.small h.third.small h.fourth.small⟩
  unfold SysAwg.parseIpv4
  rw [h.ipv4Loop]
  rfl

/-- A scan that starts before the last group and ends with four of them has passed a dot. -/
theorem ipv4Loop_next {s : Bytes} (hs : 0 ∉ s) {v v' : UInt32} {parts : Nat} (hparts : parts + 1 ≠ 4)
    (h : ipv4Loop s v 0 0 parts = some (v', 4)) :
    ∃ g rest, IsOctet g ∧ s = g ++ dot :: rest ∧ 0 ∉ rest ∧
      ipv4Loop rest (pushOctet v (decimal g)) 0 0 (parts + 1) = some (v', 4) := by
  obtain ⟨g, hg, rfl | ⟨rest, rfl⟩⟩ := ipv4Loop_begins hs h
  · rw [hg.ipv4Loop_end] at h
    cases h
    exact absurd rfl hparts
  · rw [hg.ipv4Loop_dot, if_neg hparts] at h
    exact ⟨g, rest, hg, rfl, fun hmem => hs (by simp [hmem]), h⟩

theorem dottedQuad_of_ipv4Loop {s : Bytes} (hs : 0 ∉ s) {v : UInt32}
    (h : ipv4Loop s 0 0 0 0 = some (v, 4)) : ∃ g₀ g₁ g₂ g₃, DottedQuad s g₀ g₁ g₂ g₃ := by
  obtain ⟨g₀, s₁, h₀, rfl, hs₁, hloop₁⟩ := ipv4Loop_next hs (by omega) h
  obtain ⟨g₁, s₂, h₁, rfl, hs₂, hloop₂⟩ := ipv4Loop_next hs₁ (by omega) hloop₁
  obtain ⟨g₂, s₃, h₂, rfl, hs₃, hloop₃⟩ := ipv4Loop_next hs₂ (by omega) hloop₂
  obtain ⟨g₃, h₃, rfl | ⟨rest, rfl⟩⟩ := ipv4Loop_begins hs₃ hloop₃
  · exact ⟨g₀, g₁, g₂, s₃, rfl, h₀, h₁, h₂, h₃⟩
  · rw [h₃.ipv4Loop_dot, if_pos rfl] at hloop₃
    cases hloop₃

/-! ### Printed addresses -/

theorem isOctet_decimalText (c : UInt8) : IsOctet (decimalText c.toNat) where
  digits := fun _ hd => isDigit_of_mem_decimalText hd
  nonempty := decimalText_ne_nil _
  short := (length_decimalText_le (by omega)).mpr (by have hc := c.toNat_lt; omega)
  small := by
    have hc := c.toNat_lt
    rw [decimal_decimalText]
    omega

/-- Four numbers of at most three digits, and the dots. -/
def quadText (a : UInt32) : Bytes :=
  decimalText a.toUInt8.toNat ++ dot :: (decimalText (a >>> 8).toUInt8.toNat ++
    dot :: (decimalText (a >>> 16).toUInt8.toNat ++ dot :: decimalText (a >>> 24).toUInt8.toNat))

theorem dottedQuad_quadText (a : UInt32) :
    DottedQuad (quadText a) (decimalText a.toUInt8.toNat) (decimalText (a >>> 8).toUInt8.toNat)
      (decimalText (a >>> 16).toUInt8.toNat) (decimalText (a >>> 24).toUInt8.toNat) where
  text := rfl
  first := isOctet_decimalText _
  second := isOctet_decimalText _
  third := isOctet_decimalText _
  fourth := isOctet_decimalText _

/-- Sixteen bytes hold every address and its terminator. -/
theorem ipStr_eq (a : UInt32) {n : Nat} (hn : 16 ≤ n) : ipStr a n = quadText a := by
  have hlen : (quadText a).length ≤ n - 1 := by
    have h₀ := (isOctet_decimalText a.toUInt8).short
    have h₁ := (isOctet_decimalText (a >>> 8).toUInt8).short
    have h₂ := (isOctet_decimalText (a >>> 16).toUInt8).short
    have h₃ := (isOctet_decimalText (a >>> 24).toUInt8).short
    simp only [quadText, List.length_append, List.length_cons]
    omega
  have htext : ipStr a n = (quadText a).take (n - 1) := by
    simp [ipStr, quadText, le32]
  rw [htext, List.take_of_length_le hlen]

theorem parseIpv4_ipStr (a : UInt32) {n : Nat} (hn : 16 ≤ n) : parseIpv4 (ipStr a n) = some a := by
  obtain ⟨a', ha', hbytes⟩ := (dottedQuad_quadText a).parseIpv4
  have ha : a' = a := by
    apply le32_injective
    rw [hbytes]
    simp only [decimal_decimalText, UInt8.ofNat_toNat, le32]
  rw [ipStr_eq a hn, ha', ha]

/-- **`parse_ipv4` succeeds exactly on dotted quads**, with the values as the address's bytes
in memory order. -/
theorem parseIpv4_iff (b : Bytes) (a : UInt32) :
    parseIpv4 b = some a ↔ ∃ g₀ g₁ g₂ g₃, DottedQuad (cString b) g₀ g₁ g₂ g₃ ∧
      le32 a = [UInt8.ofNat (decimal g₀), UInt8.ofNat (decimal g₁), UInt8.ofNat (decimal g₂),
        UInt8.ofNat (decimal g₃)] := by
  have hterm : parseIpv4 b = parseIpv4 (cString b) := by
    unfold parseIpv4
    rw [ipv4Loop_cString]
  rw [hterm]
  constructor
  · intro h
    have hquad : ∃ v, ipv4Loop (cString b) 0 0 0 0 = some (v, 4) := by
      unfold parseIpv4 at h
      split at h
      · cases h
      · rename_i v parts hloop
        split at h
        · cases h
        · rename_i hparts
          obtain rfl := not_not.mp hparts
          exact ⟨v, hloop⟩
    obtain ⟨v, hloop⟩ := hquad
    obtain ⟨g₀, g₁, g₂, g₃, hq⟩ := dottedQuad_of_ipv4Loop (zero_notMem_cString b) hloop
    obtain ⟨a', ha', hbytes⟩ := hq.parseIpv4
    rw [h] at ha'
    cases ha'
    exact ⟨g₀, g₁, g₂, g₃, hq, hbytes⟩
  · rintro ⟨g₀, g₁, g₂, g₃, hq, hbytes⟩
    obtain ⟨a', ha', hbytes'⟩ := hq.parseIpv4
    rw [ha', le32_injective (hbytes.trans hbytes'.symm)]

/-- **`parse_ipv4` accepts exactly dotted quads and reads what `ip_str` prints.** -/
theorem parseIpv4_exact :
    (∀ (b : Bytes) (a : UInt32), parseIpv4 b = some a ↔
      ∃ g₀ g₁ g₂ g₃, DottedQuad (cString b) g₀ g₁ g₂ g₃ ∧
        le32 a = [UInt8.ofNat (decimal g₀), UInt8.ofNat (decimal g₁), UInt8.ofNat (decimal g₂),
          UInt8.ofNat (decimal g₃)]) ∧
      ∀ (a : UInt32) (n : Nat), 16 ≤ n → parseIpv4 (ipStr a n) = some a :=
  ⟨parseIpv4_iff, fun a _ hn => parseIpv4_ipStr a hn⟩

/-- `ip_str` is called with 64 bytes. -/
theorem parseIpv4_exact_loopback : parseIpv4 (ipStr 0x0100007F 64) = some 0x0100007F :=
  parseIpv4_exact.2 0x0100007F 64 (by decide)

end SysAwg
