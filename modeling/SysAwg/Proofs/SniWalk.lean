/-
The walk through a ClientHello.

Every length in a ClientHello is the client's to choose, and the walk adds each to its
cursor before the next check.  It stays inside the buffer all the same: the checks bound
every read, and the lengths are too short for the sums to overflow.  On a well-formed
ClientHello the walk finds the host name as soon as its extension is complete.  On a
malformed one it may find more than the extension holds, because the name is checked
against the end of all extensions and not against the end of its own.

Safety and meaning are shown one after the other.  The checked walk is shown to equal the
plain one, which cannot fail; and the plain one is a search for the first server_name
extension in the list that the format declares.  With that the remaining results are about
lists of extensions.
-/
import SysAwg.Proofs.WireFields
import SysAwg.Proofs.Sniffing
import Mathlib.Data.List.Pairwise

namespace SysAwg

open Checked

/-! ### No read outside the buffer

Each check of the source bounds the read after it, and each loop round moves on.  The sums
stay small because a length has at most 16 bits, and only a few are added up before the
extensions, which end within 2^16 bytes of their beginning.
-/

theorem sum_eq {n : Nat} (h : n ≤ 2147483647) : sum n = .ok n := by
  unfold sum
  rw [int_eq (by simp only [intMin, intMax]; omega)]
  rfl

theorem serverNameChecked_eq {b : Bytes} {p endp : Nat} (hend : endp ≤ b.length)
    (hp : p ≤ 1000000) : serverNameChecked b p endp = .ok (serverName b p endp) := by
  have hnlen := be16_lt b (p + 2 + 1)
  unfold serverNameChecked serverName
  dsimp only
  rw [sum_eq (by omega), ok_bind]
  by_cases hlist : p + 2 > endp
  · rw [if_pos hlist, if_pos hlist]
  · rw [if_neg hlist, if_neg hlist, sum_eq (by omega), ok_bind]
    by_cases hentry : p + 2 + 3 > endp
    · rw [if_pos hentry, if_pos hentry]
    · rw [if_neg hentry, if_neg hentry, readByte_eq (by omega), ok_bind]
      by_cases htype : b.getD (p + 2) 0 ≠ 0
      · rw [if_pos htype, if_pos htype]
      · rw [if_neg htype, if_neg htype, read16_eq (by omega), ok_bind, sum_eq (by omega), ok_bind]
        by_cases hname : p + 2 + 3 + be16 b (p + 2 + 1) > endp ∨ be16 b (p + 2 + 1) = 0
        · rw [if_pos hname, if_pos hname]
        · rw [if_neg hname, if_neg hname]

/-- The loop ends, and gives what the walk with `fuel` rounds gives if these are enough. -/
theorem extensionLoopChecked_eq {b : Bytes} {endp : Nat} (hend : endp ≤ b.length)
    (hshort : endp ≤ 900000) :
    ∀ (fuel p : Nat), p ≤ endp → endp < p + 4 + 4 * fuel →
      extensionLoopChecked b endp p = .ok (extensionLoop b endp fuel p) := by
  intro fuel
  induction fuel with
  | zero =>
      intro p hp hfuel
      unfold extensionLoopChecked
      rw [sum_eq (by omega), ok_bind, if_neg (by omega)]
      rfl
  | succ fuel ih =>
      intro p hp hfuel
      have helen := be16_lt b (p + 2)
      unfold extensionLoopChecked
      rw [extensionLoop, sum_eq (by omega), ok_bind]
      by_cases hmore : p + 4 ≤ endp
      · rw [if_pos hmore, if_pos hmore, read16_eq (by omega), ok_bind, read16_eq (by omega),
          ok_bind, sum_eq (by omega), ok_bind]
        dsimp only
        by_cases hpast : p + 4 + be16 b (p + 2) > endp
        · rw [if_pos hpast, if_pos hpast]
        · rw [if_neg hpast, if_neg hpast]
          by_cases htype : be16 b p = 0
          · rw [if_pos htype, if_pos htype]
            exact serverNameChecked_eq hend (by omega)
          · rw [if_neg htype, if_neg htype]
            exact ih _ (by omega) (by omega)
      · rw [if_neg hmore, if_neg hmore]

theorem findSniChecked_eq (b : Bytes) : findSniChecked b = .ok (findSni b) := by
  have hsid := (b.getD 43 0).toNat_lt
  unfold findSniChecked findSni
  dsimp only
  by_cases hlen : b.length < 45
  · rw [if_pos hlen, if_pos hlen]
  · rw [if_neg hlen, if_neg hlen, readByte_eq (by omega), ok_bind]
    by_cases hrecord : b.getD 0 0 ≠ 0x16
    · rw [if_pos hrecord, if_pos hrecord]
    · rw [if_neg hrecord, if_neg hrecord, readByte_eq (by omega), ok_bind]
      by_cases hhello : b.getD 5 0 ≠ 0x01
      · rw [if_pos hhello, if_pos hhello]
      · rw [if_neg hhello, if_neg hhello, if_neg (by omega), if_neg (by omega),
          readByte_eq (by omega), ok_bind, sum_eq (by omega), ok_bind, sum_eq (by omega), ok_bind]
        generalize hp₁ : 43 + 1 + (b.getD 43 0).toNat = p₁
        have hciphers := be16_lt b p₁
        by_cases h₁ : p₁ + 2 > b.length
        · rw [if_pos h₁, if_pos h₁]
        · rw [if_neg h₁, if_neg h₁, read16_eq (by omega), ok_bind, sum_eq (by omega), ok_bind,
            sum_eq (by omega), ok_bind]
          generalize hp₂ : p₁ + 2 + be16 b p₁ = p₂
          have hcompression := (b.getD p₂ 0).toNat_lt
          by_cases h₂ : p₂ + 1 > b.length
          · rw [if_pos h₂, if_pos h₂]
          · rw [if_neg h₂, if_neg h₂, readByte_eq (by omega), ok_bind, sum_eq (by omega), ok_bind,
              sum_eq (by omega), ok_bind]
            generalize hp₃ : p₂ + 1 + (b.getD p₂ 0).toNat = p₃
            have htotal := be16_lt b p₃
            by_cases h₃ : p₃ + 2 > b.length
            · rw [if_pos h₃, if_pos h₃]
            · rw [if_neg h₃, if_neg h₃, read16_eq (by omega), ok_bind, sum_eq (by omega), ok_bind]
              exact extensionLoopChecked_eq (by omega) (by omega) _ _ (by omega) (by omega)

/-! ### The walk as a search -/

/-- What the walk takes from a server_name extension: the first entry of its list, if it is
a host name, is not empty, and ends before `endp`. -/
theorem serverName_eq_some {b : Bytes} {p endp off nlen : Nat} :
    serverName b p endp = some (off, nlen) ↔
      b.getD (p + 2) 0 = 0 ∧ be16 b (p + 3) ≠ 0 ∧ p + 5 + be16 b (p + 3) ≤ endp ∧
        off = p + 5 ∧ nlen = be16 b (p + 3) := by
  unfold serverName
  dsimp only
  rw [show p + 2 + 1 = p + 3 from rfl]
  by_cases hlist : p + 2 > endp
  · rw [if_pos hlist]
    exact iff_of_false (by simp) (by omega)
  · rw [if_neg hlist]
    by_cases hentry : p + 2 + 3 > endp
    · rw [if_pos hentry]
      exact iff_of_false (by simp) (by omega)
    · rw [if_neg hentry]
      by_cases htype : b.getD (p + 2) 0 ≠ 0
      · rw [if_pos htype]
        exact iff_of_false (by simp) (fun h => htype h.1)
      · rw [if_neg htype]
        by_cases hname : p + 2 + 3 + be16 b (p + 3) > endp ∨ be16 b (p + 3) = 0
        · rw [if_pos hname]
          exact iff_of_false (by simp) (by omega)
        · rw [if_neg hname, Option.some.injEq, Prod.mk.injEq]
          constructor
          · rintro ⟨rfl, rfl⟩
            exact ⟨by simpa using htype, by omega, by omega, rfl, rfl⟩
          · rintro ⟨-, -, -, rfl, rfl⟩
            exact ⟨rfl, rfl⟩

/-- The loop looks for the first server_name extension and reads it. -/
theorem extensionLoop_eq (b : Bytes) (endp : Nat) :
    ∀ (fuel p : Nat), extensionLoop b endp fuel p =
      ((extensionsFrom b endp fuel p).find? fun x => x.type = 0).bind
        fun x => serverName b x.body endp := by
  intro fuel
  induction fuel with
  | zero =>
      intro p
      rfl
  | succ fuel ih =>
      intro p
      rw [extensionLoop, extensionsFrom]
      dsimp only
      by_cases hmore : p + 4 ≤ endp
      · rw [if_pos hmore]
        by_cases hpast : p + 4 + be16 b (p + 2) > endp
        · rw [if_pos hpast, if_neg (by omega)]
          rfl
        · have hfits : p + 4 + be16 b (p + 2) ≤ endp := by omega
          rw [if_neg hpast, if_pos hfits, List.find?_cons]
          by_cases htype : be16 b p = 0
          · simp [htype]
          · simp [htype, ih]
      · rw [if_neg hmore, if_neg (by omega)]
        rfl

theorem findSni_eq (b : Bytes) : findSni b =
    (extensionBlock b).bind fun r => extensionLoop b r.2 b.length r.1 := by
  unfold findSni extensionBlock
  dsimp only
  by_cases hlen : b.length < 45
  · rw [if_pos hlen, if_pos (Or.inl hlen)]
    rfl
  · by_cases hrecord : b.getD 0 0 ≠ 0x16
    · rw [if_neg hlen, if_pos hrecord, if_pos (Or.inr (Or.inl hrecord))]
      rfl
    · by_cases hhello : b.getD 5 0 ≠ 0x01
      · rw [if_neg hlen, if_neg hrecord, if_pos hhello, if_pos (Or.inr (Or.inr (Or.inl hhello)))]
        rfl
      · rw [if_neg hlen, if_neg hrecord, if_neg hhello, if_neg (by omega)]
        generalize 43 + 1 + (b.getD 43 0).toNat = p₁
        by_cases h₁ : p₁ + 2 > b.length
        · rw [if_pos h₁, if_pos (by simp [h₁])]
          rfl
        · rw [if_neg h₁]
          generalize p₁ + 2 + be16 b p₁ = p₂
          by_cases h₂ : p₂ + 1 > b.length
          · rw [if_pos h₂, if_pos (by simp [h₂])]
            rfl
          · rw [if_neg h₂]
            generalize p₂ + 1 + (b.getD p₂ 0).toNat = p₃
            by_cases h₃ : p₃ + 2 > b.length
            · rw [if_pos h₃, if_pos (by simp [h₃])]
              rfl
            · rw [if_neg h₃, if_neg (by simp only [hlen, hrecord, hhello, h₁, h₂, h₃, or_self,
                not_false_eq_true])]
              rfl

/-- Where the extensions of a ClientHello end. -/
def blockEnd (b : Bytes) : Nat := ((extensionBlock b).map Prod.snd).getD 0

/-- **`find_sni` reads the first server_name extension**, up to the end of all extensions. -/
theorem findSni_firstServerName (b : Bytes) :
    findSni b = (firstServerName b).bind fun x => serverName b x.body (blockEnd b) := by
  rw [findSni_eq]
  unfold firstServerName extensions blockEnd
  cases extensionBlock b with
  | none => rfl
  | some r => exact extensionLoop_eq b r.2 b.length r.1

theorem findSni_eq_some {b : Bytes} {off nlen : Nat} (h : findSni b = some (off, nlen)) :
    ∃ x, firstServerName b = some x ∧ serverName b x.body (blockEnd b) = some (off, nlen) := by
  rw [findSni_firstServerName] at h
  exact Option.bind_eq_some_iff.mp h

/--
**The walk is safe on arbitrary bytes.**  For every buffer `find_sni` ends, reads only
inside the buffer and overflows no sum; a name it reports is not empty and lies inside.
For every capacity `sni_hostname` reads and writes inside its buffers, and what it writes
leaves room for the terminator.
-/
theorem sni_walk_safe (b : Bytes) (cap : Nat) :
    findSniChecked b = .ok (findSni b) ∧
      (∀ off nlen, findSni b = some (off, nlen) → 1 ≤ nlen ∧ off + nlen ≤ b.length) ∧
      sniHostnameChecked b cap = .ok (sniHostname b cap) ∧
      ∀ name, sniHostname b cap = some name → name.length + 1 ≤ cap := by
  have hin : ∀ off nlen, findSni b = some (off, nlen) → 1 ≤ nlen ∧ off + nlen ≤ b.length := by
    intro off nlen h
    obtain ⟨x, -, hname⟩ := findSni_eq_some h
    obtain ⟨-, hne, -, -, rfl⟩ := serverName_eq_some.mp hname
    exact ⟨by omega, (findSni_longer (c := []) h).2⟩
  refine ⟨findSniChecked_eq b, hin, ?_, ?_⟩
  · unfold sniHostnameChecked sniHostname
    rw [findSniChecked_eq, ok_bind]
    rcases hfind : findSni b with _ | ⟨off, nlen⟩
    · rfl
    · have hbound := (hin off nlen hfind).2
      dsimp only
      by_cases hcap : nlen ≥ cap
      · rw [if_pos hcap, if_pos hcap]
      · rw [if_neg hcap, if_neg hcap, span_eq (by omega), span_eq (by omega), span_eq (by omega)]
        rfl
  · intro name h
    unfold sniHostname at h
    rcases hfind : findSni b with _ | ⟨off, nlen⟩
    · rw [hfind] at h
      cases h
    · rw [hfind] at h
      dsimp only at h
      split at h
      · cases h
      · rw [← Option.some.inj h, Bytes.length_slice (hin off nlen hfind).2]
        omega

/-! ### Whose bytes are reported

Extensions are disjoint, so bytes inside the first server_name extension are in no other.
The walk compares the name with the end of all extensions, and so it reports more than the
extension has exactly if the declared length of the name goes past its end.
-/

/-- Extensions lie one behind the other. -/
theorem extensionsFrom_apart (b : Bytes) (endp : Nat) :
    ∀ (fuel p : Nat), (∀ x ∈ extensionsFrom b endp fuel p, p + 4 ≤ x.body) ∧
      (extensionsFrom b endp fuel p).Pairwise fun x y => x.body + x.len ≤ y.body := by
  intro fuel
  induction fuel with
  | zero =>
      intro p
      exact ⟨by simp [extensionsFrom], .nil⟩
  | succ fuel ih =>
      intro p
      rw [extensionsFrom]
      split
      · obtain ⟨hbody, hapart⟩ := ih (p + 4 + be16 b (p + 2))
        refine ⟨?_, List.pairwise_cons.mpr ⟨?_, hapart⟩⟩
        · intro x hx
          rcases List.mem_cons.mp hx with rfl | hx
          · exact le_rfl
          · have := hbody x hx
            omega
        · intro y hy
          have := hbody y hy
          dsimp only
          omega
      · exact ⟨by simp, .nil⟩

/-- One body ends before the other begins. -/
def Extension.Apart (x y : Extension) : Prop :=
  x.body + x.len ≤ y.body ∨ y.body + y.len ≤ x.body

instance : Std.Symm Extension.Apart := ⟨fun _ _ h => h.symm⟩

theorem extensions_apart {b : Bytes} {x y : Extension} (hx : x ∈ extensions b)
    (hy : y ∈ extensions b) (hne : x ≠ y) : x.Apart y := by
  have hpairs : (extensions b).Pairwise Extension.Apart := by
    unfold extensions
    split
    · exact .nil
    · exact ((extensionsFrom_apart b _ _ _).2).imp Or.inl
  exact hpairs.forall hx hy hne

/-- What `find_sni` reports lies inside the first server_name extension, and so outside all
others. -/
def NameInside (b : Bytes) : Prop :=
  ∀ off nlen, findSni b = some (off, nlen) →
    ∃ x, firstServerName b = some x ∧ x.body ≤ off ∧ off + nlen ≤ x.body + x.len ∧
      ∀ y ∈ extensions b, y ≠ x → y.body + y.len ≤ off ∨ off + nlen ≤ y.body

/-- An extension whose name is declared longer than the extension, though it ends before
the extensions do. -/
structure Overruns (b : Bytes) (x : Extension) : Prop where
  hostName : b.getD (x.body + 2) 0 = 0
  named : be16 b (x.body + 3) ≠ 0
  inBlock : x.body + 5 + be16 b (x.body + 3) ≤ blockEnd b
  past : x.len < 5 + be16 b (x.body + 3)

/--
**A reported name lies inside its extension exactly when the extension has room for it.**
For every buffer: `find_sni` reports only bytes of the first server_name extension if and
only if that extension does not declare fewer bytes than the name in it needs.
-/
theorem name_inside_iff (b : Bytes) :
    NameInside b ↔ ∀ x, firstServerName b = some x → ¬ Overruns b x := by
  constructor
  · intro hinside x hx hover
    have hname : serverName b x.body (blockEnd b)
        = some (x.body + 5, be16 b (x.body + 3)) :=
      serverName_eq_some.mpr ⟨hover.hostName, hover.named, hover.inBlock, rfl, rfl⟩
    have hfind : findSni b = some (x.body + 5, be16 b (x.body + 3)) := by
      rw [findSni_firstServerName, hx]
      exact hname
    obtain ⟨x', hx', -, hend, -⟩ := hinside _ _ hfind
    rw [hx] at hx'
    obtain rfl := Option.some.inj hx'
    have := hover.past
    omega
  · intro hfits off nlen hfind
    obtain ⟨x, hx, hname⟩ := findSni_eq_some hfind
    obtain ⟨htype, hne, hblock, rfl, rfl⟩ := serverName_eq_some.mp hname
    have hroom : 5 + be16 b (x.body + 3) ≤ x.len := by
      by_contra hpast
      exact hfits x hx ⟨htype, hne, hblock, by omega⟩
    refine ⟨x, hx, by omega, by omega, ?_⟩
    intro y hy hne
    have hmem : x ∈ extensions b := List.mem_of_find?_eq_some hx
    rcases extensions_apart hy hmem hne with h | h
    · exact Or.inl (by omega)
    · exact Or.inr (by omega)

/-- A ClientHello whose server_name extension declares five bytes, with a name of seven in
it; a padding extension with three bytes follows. -/
def overrunningHello : Bytes :=
  [0x16, 3, 1, 0, 0, 1, 0, 0, 0, 3, 3] ++ List.replicate 32 0 ++
    [0, 0, 2, 0x13, 1, 1, 0, 0, 16] ++
    [0, 0, 0, 5, 0, 10, 0, 0, 7] ++ [0, 21, 0, 3, 97, 46, 98]

/-- The padding extension is reported as the host name. -/
theorem overrunningHello_reported :
    firstServerName overrunningHello = some ⟨0, 56, 5⟩ ∧
      ⟨21, 65, 3⟩ ∈ extensions overrunningHello ∧
      findSni overrunningHello = some (61, 7) ∧ ¬ NameInside overrunningHello := by
  have hfirst : firstServerName overrunningHello = some ⟨0, 56, 5⟩ := by decide
  have hfind : findSni overrunningHello = some (61, 7) := by decide
  refine ⟨hfirst, by decide, hfind, ?_⟩
  intro h
  obtain ⟨x, hx, -, hend, -⟩ := h 61 7 hfind
  rw [hfirst] at hx
  obtain rfl := Option.some.inj hx
  exact absurd hend (by decide)

/-! ### Well-formed ClientHellos

The encoder writes what the walk reads, field by field.  A prefix is long enough exactly
when it reaches the end of the server_name extension, and behind that nothing is looked at.
-/

theorem encodeExtensions_cons (x : HelloExtension) (xs : List HelloExtension) :
    encodeExtensions (x :: xs) = x.encode ++ encodeExtensions xs := rfl

theorem length_extension (x : HelloExtension) : x.encode.length = 4 + x.body.length := by
  simp only [HelloExtension.encode, List.length_append, length_put16]

/-- No body is longer than all extensions, and every extension takes four bytes. -/
theorem length_encodeExtensions (xs : List HelloExtension) :
    4 * xs.length ≤ (encodeExtensions xs).length ∧
      ∀ x ∈ xs, x.body.length ≤ (encodeExtensions xs).length := by
  induction xs with
  | nil => exact ⟨le_rfl, by simp⟩
  | cons x xs ih =>
      obtain ⟨hmany, hbody⟩ := ih
      have hlen : (encodeExtensions (x :: xs)).length
          = 4 + x.body.length + (encodeExtensions xs).length := by
        rw [encodeExtensions_cons, List.length_append, length_extension]
      refine ⟨?_, ?_⟩
      · rw [hlen, List.length_cons]
        omega
      · intro y hy
        rcases List.mem_cons.mp hy with rfl | hy
        · omega
        · have := hbody y hy
          omega

theorem be16_extension {b a c : Bytes} {x : HelloExtension} (hb : b = a ++ (x.encode ++ c))
    (hx : x.body.length < 65536) :
    be16 b a.length = x.type.toNat ∧ be16 b (a.length + 2) = x.body.length := by
  refine ⟨?_, ?_⟩
  · have h := be16_laidOut a (put16 x.body.length ++ (x.body ++ c)) x.type.toNat_lt rfl
    rw [hb, HelloExtension.encode, List.append_assoc, List.append_assoc]
    exact h
  · have hlen : (a ++ put16 x.type.toNat).length = a.length + 2 := by simp
    have h := be16_laidOut (a ++ put16 x.type.toNat) (x.body ++ c) hx hlen
    rw [hb, HelloExtension.encode, List.append_assoc, List.append_assoc]
    rw [List.append_assoc] at h
    exact h

/-- The loop passes over extensions of other types. -/
theorem extensionLoop_passes {b c : Bytes} {endp : Nat} :
    ∀ (xs : List HelloExtension) (a : Bytes) (fuel : Nat), b = a ++ (encodeExtensions xs ++ c) →
      (∀ x ∈ xs, x.type ≠ 0 ∧ x.body.length < 65536) →
      a.length + (encodeExtensions xs).length ≤ endp →
      extensionLoop b endp (fuel + xs.length) a.length
        = extensionLoop b endp fuel (a.length + (encodeExtensions xs).length) := by
  intro xs
  induction xs with
  | nil =>
      intro a fuel _ _ _
      rfl
  | cons x xs ih =>
      intro a fuel hb hxs hend
      obtain ⟨htype, hlen⟩ := hxs x List.mem_cons_self
      have hb' : b = a ++ (x.encode ++ (encodeExtensions xs ++ c)) := by
        rw [hb, encodeExtensions_cons, List.append_assoc]
      obtain ⟨hreadType, hreadLen⟩ := be16_extension hb' hlen
      rw [encodeExtensions_cons, List.length_append, length_extension] at hend ⊢
      have hnext := ih (a ++ x.encode) fuel (by rw [hb', List.append_assoc])
        (fun y hy => hxs y (List.mem_cons_of_mem x hy))
        (by rw [List.length_append, length_extension]; omega)
      rw [List.length_append, length_extension] at hnext
      have htype' : x.type.toNat ≠ 0 := fun h => htype (UInt16.toNat_inj.mp h)
      rw [List.length_cons, ← Nat.add_assoc, extensionLoop]
      dsimp only
      rw [hreadType, hreadLen, if_pos (by omega), if_neg (by omega), if_neg htype', Nat.add_assoc,
        hnext, Nat.add_assoc]

namespace HelloFields

variable (f : HelloFields)

/-- The record and the handshake up to the session id, with its length. -/
def beforeSessionId : Bytes :=
  [0x16] ++ put16 f.recordVersion.toNat ++ put16 (f.message.length + 4) ++ [0x01] ++
    put24 f.message.length ++ put16 f.version.toNat ++ f.random.toList

/-- The ClientHello up to its cipher list. -/
def beforeCiphers : Bytes :=
  f.beforeSessionId ++ [UInt8.ofNat f.sessionId.length] ++ f.sessionId

def beforeCompression : Bytes := f.beforeCiphers ++ put16 f.ciphers.length ++ f.ciphers

def beforeTotal : Bytes :=
  f.beforeCompression ++ [UInt8.ofNat f.compression.length] ++ f.compression

def beforeBlock : Bytes := f.beforeTotal ++ put16 f.block.length

/-- The ClientHello up to the end of its server_name extension. -/
def upToName : Bytes :=
  f.beforeBlock ++ (encodeExtensions f.before ++ (serverNameExtension f.name).encode)

theorem encode_eq : f.encode = f.upToName ++ encodeExtensions f.after := by
  simp only [encode, message, block, upToName, beforeBlock, beforeTotal, beforeCompression,
    beforeCiphers, beforeSessionId, List.append_assoc]

@[simp] theorem length_beforeSessionId : f.beforeSessionId.length = 43 := by
  simp [beforeSessionId]

@[simp] theorem length_beforeCiphers : f.beforeCiphers.length = 43 + 1 + f.sessionId.length := by
  simp only [beforeCiphers, List.length_append, length_beforeSessionId, List.length_singleton]

@[simp] theorem length_beforeCompression :
    f.beforeCompression.length = 43 + 1 + f.sessionId.length + 2 + f.ciphers.length := by
  simp only [beforeCompression, List.length_append, length_beforeCiphers, length_put16]

@[simp] theorem length_beforeTotal : f.beforeTotal.length
    = 43 + 1 + f.sessionId.length + 2 + f.ciphers.length + 1 + f.compression.length := by
  simp only [beforeTotal, List.length_append, length_beforeCompression, List.length_singleton]

@[simp] theorem length_beforeBlock : f.beforeBlock.length = f.blockOffset := by
  simp only [beforeBlock, List.length_append, length_beforeTotal, length_put16, blockOffset]

theorem length_serverName :
    (serverNameExtension f.name).encode.length = 4 + 5 + f.name.length := by
  simp only [length_extension, serverNameExtension, List.length_append, length_put16,
    List.length_singleton]
  omega

@[simp] theorem length_upToName : f.upToName.length = f.nameEnd := by
  simp only [upToName, List.length_append, length_beforeBlock, length_serverName, nameEnd,
    nameOffset]
  omega

end HelloFields

namespace ClientHello

variable (f : ClientHello)

theorem lengths_fit : f.ciphers.length < 65536 ∧ f.block.length < 65536 ∧
    f.blockOffset + (encodeExtensions f.before).length + 4 + 5 + f.name.length
      ≤ f.blockOffset + f.block.length := by
  have hrecord := f.recordFits
  have hblock : f.block.length = (encodeExtensions f.before).length + (4 + 5 + f.name.length)
      + (encodeExtensions f.after).length := by
    simp only [HelloFields.block, List.length_append, HelloFields.length_serverName]
  simp only [HelloFields.message, List.length_append, length_put16, List.length_singleton]
    at hrecord
  omega

/-- The walk comes to the extensions. -/
theorem extensionBlock_upToName :
    extensionBlock f.upToName = some (f.blockOffset, f.nameEnd) := by
  obtain ⟨hciphers, hblock, hends⟩ := f.lengths_fit
  have hsid : (UInt8.ofNat f.sessionId.length).toNat = f.sessionId.length :=
    UInt8.toNat_ofNat_of_lt f.sessionIdFits
  have hcomp : (UInt8.ofNat f.compression.length).toNat = f.compression.length :=
    UInt8.toNat_ofNat_of_lt f.compressionFits
  have hrecord : f.upToName.getD 0 0 = 0x16 := by
    simp [HelloFields.upToName, HelloFields.beforeBlock, HelloFields.beforeTotal,
      HelloFields.beforeCompression, HelloFields.beforeCiphers, HelloFields.beforeSessionId]
  have hhello : f.upToName.getD 5 0 = 0x01 := by
    simp [HelloFields.upToName, HelloFields.beforeBlock, HelloFields.beforeTotal,
      HelloFields.beforeCompression, HelloFields.beforeCiphers, HelloFields.beforeSessionId, put16]
  have h₀ : f.upToName.getD 43 0 = UInt8.ofNat f.sessionId.length := by
    simpa only [HelloFields.upToName, HelloFields.beforeBlock, HelloFields.beforeTotal,
      HelloFields.beforeCompression, HelloFields.beforeCiphers, List.append_assoc] using
      getD_laidOut f.beforeSessionId _ (UInt8.ofNat f.sessionId.length) f.length_beforeSessionId
  have h₁ : be16 f.upToName (43 + 1 + f.sessionId.length) = f.ciphers.length := by
    simpa only [HelloFields.upToName, HelloFields.beforeBlock, HelloFields.beforeTotal,
      HelloFields.beforeCompression, List.append_assoc] using
      be16_laidOut f.beforeCiphers _ hciphers f.length_beforeCiphers
  have h₂ : f.upToName.getD (43 + 1 + f.sessionId.length + 2 + f.ciphers.length) 0
      = UInt8.ofNat f.compression.length := by
    simpa only [HelloFields.upToName, HelloFields.beforeBlock, HelloFields.beforeTotal,
      List.append_assoc] using
      getD_laidOut f.beforeCompression _ (UInt8.ofNat f.compression.length)
        f.length_beforeCompression
  have h₃ : be16 f.upToName (43 + 1 + f.sessionId.length + 2 + f.ciphers.length + 1
      + f.compression.length) = f.block.length := by
    simpa only [HelloFields.upToName, HelloFields.beforeBlock, List.append_assoc] using
      be16_laidOut f.beforeTotal _ hblock f.length_beforeTotal
  have hlen := f.length_upToName
  have hend : f.nameEnd = f.blockOffset + (encodeExtensions f.before).length + 4 + 5
    + f.name.length := rfl
  have hoffset : f.blockOffset = 43 + 1 + f.sessionId.length + 2 + f.ciphers.length + 1
    + f.compression.length + 2 := rfl
  unfold extensionBlock
  simp only [h₀, hsid, h₁, h₂, hcomp, h₃, hrecord, hhello, hlen, ne_eq, not_true_eq_false, false_or]
  rw [if_neg (by omega), ← hoffset, Nat.min_eq_right (by omega)]

/-- The walk comes through the extensions to the name. -/
theorem findSni_upToName : findSni f.upToName = some (f.nameOffset, f.name.length) := by
  obtain ⟨-, hblock, hends⟩ := f.lengths_fit
  have hmany := (length_encodeExtensions f.before).1
  have hbodies := (length_encodeExtensions f.before).2
  have hname : 0 < f.name.length := List.length_pos_iff.mpr f.named
  have hlen := f.length_upToName
  have hend : f.nameEnd = f.blockOffset + (encodeExtensions f.before).length + 4 + 5
    + f.name.length := rfl
  set a := f.beforeBlock ++ encodeExtensions f.before with ha
  have halen : a.length = f.blockOffset + (encodeExtensions f.before).length := by
    rw [ha, List.length_append, HelloFields.length_beforeBlock]
  have hb : f.upToName = a ++ ((serverNameExtension f.name).encode ++ []) := by
    rw [HelloFields.upToName, ha, List.append_nil, List.append_assoc]
  have hbody : (serverNameExtension f.name).body.length = 5 + f.name.length := by
    simp only [serverNameExtension, List.length_append, length_put16, List.length_singleton]
  obtain ⟨htype, helen⟩ := be16_extension hb (by omega)
  have hserver : (serverNameExtension f.name).type.toNat = 0 := rfl
  -- the rounds before the server_name extension
  obtain ⟨fuel, hfuel⟩ : ∃ fuel, f.upToName.length = (fuel + 1) + f.before.length :=
    ⟨f.nameEnd - f.before.length - 1, by omega⟩
  have hpass := extensionLoop_passes f.before f.beforeBlock (fuel + 1)
    (b := f.upToName) (c := (serverNameExtension f.name).encode) rfl
    (fun x hx => ⟨f.first x hx, by have := hbodies x hx; omega⟩)
    (show _ ≤ f.nameEnd by rw [HelloFields.length_beforeBlock]; omega)
  rw [HelloFields.length_beforeBlock, ← halen] at hpass
  rw [findSni_eq, f.extensionBlock_upToName, Option.bind_some, hfuel, hpass, extensionLoop]
  dsimp only
  rw [htype, helen, hbody, if_pos (by omega), if_neg (by omega), if_pos hserver]
  -- the entry in it
  set d := a ++ (put16 0 ++ (put16 (5 + f.name.length) ++ put16 (f.name.length + 3))) with hd
  have hdlen : d.length = a.length + 4 + 2 := by
    rw [hd]
    simp only [List.length_append, length_put16]
  have hbd : f.upToName = d ++ ([0] ++ (put16 f.name.length ++ f.name)) := by
    rw [hb, HelloExtension.encode, hbody, hserver]
    simp only [hd, serverNameExtension, List.append_assoc, List.append_nil]
  have hzero : f.upToName.getD (a.length + 4 + 2) 0 = 0 := by
    rw [hbd]
    exact getD_laidOut d _ 0 hdlen
  have hnlen : be16 f.upToName (a.length + 4 + 3) = f.name.length := by
    rw [hbd, ← List.append_assoc]
    exact be16_laidOut (d ++ [0]) f.name (by omega) (by simp [hdlen])
  refine serverName_eq_some.mpr ⟨hzero, by omega, by omega, ?_, hnlen.symm⟩
  rw [halen]
  rfl

end ClientHello

/--
**`find_sni` inverts the encoding on every prefix.**  For every ClientHello in a single
record whose first server_name extension names one host: the first `k` bytes give offset
and length of the host name if they reach the end of that extension, and nothing if they
do not.  Bytes behind the ClientHello change nothing, and the name is at its offset.
-/
theorem sni_inverts_encoding (f : ClientHello) :
    (∀ k, findSni (f.encode.take k)
      = if f.nameEnd ≤ k then some (f.nameOffset, f.name.length) else none) ∧
    (∀ more, findSni (f.encode ++ more) = findSni f.encode) ∧
    Bytes.slice f.encode f.nameOffset f.name.length = f.name ∧ 45 ≤ f.nameEnd := by
  have hencode := f.encode_eq
  have hlen := f.length_upToName
  have hlonger : ∀ c, findSni (f.upToName ++ c) = some (f.nameOffset, f.name.length) := by
    intro c
    exact (findSni_longer f.findSni_upToName).1
  refine ⟨?_, ?_, ?_, ?_⟩
  · intro k
    by_cases hk : f.nameEnd ≤ k
    · rw [if_pos hk, hencode, List.take_append, List.take_of_length_le (by omega)]
      exact hlonger _
    · rw [if_neg hk]
      -- what a shorter prefix gave, the whole would give too, and it ends inside the prefix
      by_contra hsome
      obtain ⟨r, hr⟩ := Option.ne_none_iff_exists'.mp hsome
      obtain ⟨hwhole, hin⟩ := findSni_longer (c := f.encode.drop k) hr
      rw [List.take_append_drop, hencode, hlonger] at hwhole
      obtain rfl := Option.some.inj hwhole
      have htake : (f.encode.take k).length ≤ k := List.length_take_le k _
      have hend : f.nameEnd = f.nameOffset + f.name.length := rfl
      dsimp only at hin
      omega
  · intro more
    rw [hencode, List.append_assoc, hlonger, hlonger]
  · set a := f.beforeBlock ++ (encodeExtensions f.before ++ (put16 0 ++
      (put16 (serverNameExtension f.name).body.length ++ (put16 (f.name.length + 3) ++
        ([0] ++ put16 f.name.length))))) with ha
    have halen : a.length = f.nameOffset := by
      simp only [ha, List.length_append, HelloFields.length_beforeBlock, length_put16,
        List.length_singleton, HelloFields.nameOffset]
      omega
    have hb : f.encode = a ++ f.name ++ encodeExtensions f.after := by
      rw [hencode, HelloFields.upToName, HelloExtension.encode, ha]
      simp only [serverNameExtension, List.append_assoc]
      rfl
    rw [hb]
    exact Bytes.slice_append _ _ _ halen rfl
  · unfold HelloFields.nameEnd HelloFields.nameOffset HelloFields.blockOffset
    omega

/-- A ClientHello for `a.b` with a session id, and an extension on either side of the name. -/
def sampleHello : ClientHello where
  recordVersion := 0x0301
  version := 0x0303
  random := Vector.replicate 32 0
  sessionId := [1, 2, 3]
  ciphers := [0x13, 1]
  compression := [0]
  before := [⟨21, [0, 0, 0, 0]⟩]
  name := [97, 46, 98]
  after := [⟨16, [1]⟩]
  first := by decide
  named := by decide
  sessionIdFits := by decide
  compressionFits := by decide
  recordFits := by decide

theorem sni_inverts_sample : sampleHello.nameOffset = 72 ∧ sampleHello.nameEnd = 75 ∧
    findSni (sampleHello.encode.take 74) = none ∧
    findSni (sampleHello.encode.take 75) = some (72, 3) := by
  obtain ⟨hcut, -⟩ := sni_inverts_encoding sampleHello
  have hoffset : sampleHello.nameOffset = 72 := by decide
  have hend : sampleHello.nameEnd = 75 := by decide
  refine ⟨hoffset, hend, ?_, ?_⟩
  · rw [hcut, if_neg (by rw [hend]; decide)]
  · rw [hcut, if_pos (by rw [hend]), hoffset]
    rfl

end SysAwg
