/-
Parsing a printed template gives the template back.

A tag can be written in many ways: any number of spaces before its argument, either case
for each hex digit, any text without brackets around it.  `TagStyle` is one choice of these
and `printTemplate` the text for such choices.  The scanner is followed over one tag, from
the text before it to its closing bracket, and the template by induction on its tags.

The printing is general enough to be the inverse the loader needs: whatever a person
writes for a list of tags is a printing of it, and the text of each tag is parsed on its
own, since neither keys nor arguments have brackets in them.
-/
import SysAwg.Proofs.TemplateRender

namespace SysAwg

open Bytes

/-! ### Printing

The printer has every freedom the format leaves, so that a text somebody wrote is the
printing of its tags in some style.
-/

/-- How a tag is written: the text before it, the spaces in it beyond the first, and which
of its hex digits are capitals. -/
structure TagStyle where
  before : Bytes
  spaces : Nat
  upper : Nat → Bool

def hexDigit (upper : Bool) (v : Nat) : UInt8 :=
  (if upper then ascii "0123456789ABCDEF" else ascii "0123456789abcdef").getD v 0

/-- Bytes as hex digits, the first of them number `i`. -/
def hexText (upper : Nat → Bool) : Nat → Bytes → Bytes
  | _, [] => []
  | i, c :: x =>
    hexDigit (upper i) (c.toNat / 16) :: hexDigit (upper (i + 1)) (c.toNat % 16) ::
      hexText upper (i + 2) x

def tagKey : ObfKind → Bytes
  | .bytes => ascii "b"
  | .rand => ascii "r"
  | .randChars => ascii "rc"
  | .randDigits => ascii "rd"
  | .timestamp => ascii "t"
  | .data => ascii "d"
  | .dataString => ascii "ds"
  | .dataSize => ascii "dz"

/-- A tag between its brackets. -/
def tagBody (st : TagStyle) (o : Obf) : Bytes :=
  match o.kind with
  | .bytes =>
    tagKey o.kind ++ List.replicate (st.spaces + 1) 32 ++ (ascii "0x" ++ hexText st.upper 0 o.data)
  | .rand | .randChars | .randDigits | .dataSize =>
    tagKey o.kind ++ List.replicate (st.spaces + 1) 32 ++ decimalText o.len.toNat
  | .timestamp | .data | .dataString => tagKey o.kind

def printTemplate : List (TagStyle × Obf) → Bytes → Bytes
  | [], after => after
  | (st, o) :: rest, after => st.before ++ (60 :: (tagBody st o ++ 62 :: printTemplate rest after))

/-- Text without brackets, and a character string. -/
def Unbracketed (s : Bytes) : Prop := ∀ c ∈ s, c ≠ 60 ∧ c ≠ 62 ∧ c ≠ 0

/-! ### Hex digits -/

theorem hexDigit_spec {v : Nat} (hv : v < 16) (upper : Bool) :
    hexVal (hexDigit upper v) = v ∧ hexDigit upper v ≠ 62 := by
  have hall : ∀ upper : Bool, ∀ v : Fin 16,
      hexVal (hexDigit upper v) = (v : Nat) ∧ hexDigit upper v ≠ 62 := by
    decide +kernel
  exact hall upper ⟨v, hv⟩

theorem length_hexText (upper : Nat → Bool) (x : Bytes) :
    ∀ i, (hexText upper i x).length = 2 * x.length := by
  induction x with
  | nil => intro i; rfl
  | cons c x ih =>
    intro i
    simp only [hexText, List.length_cons, ih]
    omega

theorem gt_notMem_hexText (upper : Nat → Bool) (x : Bytes) : ∀ i, 62 ∉ hexText upper i x := by
  induction x with
  | nil => intro i; simp [hexText]
  | cons c x ih =>
    intro i
    have hc := c.toNat_lt
    have hhi := (hexDigit_spec (show c.toNat / 16 < 16 by omega) (upper i)).2
    have hlo := (hexDigit_spec (show c.toNat % 16 < 16 by omega) (upper (i + 1))).2
    simp only [hexText, List.mem_cons, not_or]
    exact ⟨hhi.symm, hlo.symm, ih (i + 2)⟩

/-- Hex digits of either case are read back. -/
theorem hexBytes_hexText (upper : Nat → Bool) (x : Bytes) :
    ∀ i, hexBytes (hexText upper i x) = some x := by
  induction x with
  | nil => intro i; rfl
  | cons c x ih =>
    intro i
    have hc := c.toNat_lt
    have hhi := (hexDigit_spec (show c.toNat / 16 < 16 by omega) (upper i)).1
    have hlo := (hexDigit_spec (show c.toNat % 16 < 16 by omega) (upper (i + 1))).1
    have hbyte : UInt8.ofNat (((c.toNat / 16 : Nat) : Int) * 16 + ((c.toNat % 16 : Nat) : Int)).toNat =
        c := by
      have hval : (((c.toNat / 16 : Nat) : Int) * 16 + ((c.toNat % 16 : Nat) : Int)).toNat =
          c.toNat := by
        omega
      rw [hval, UInt8.ofNat_toNat]
    rw [hexText, hexBytes, hhi, hlo, if_neg (by omega), ih (i + 2), hbyte]
    rfl

/-! ### One tag -/

theorem splitTag_key {key : Bytes} (hkey : 32 ∉ key) : splitTag key = (key, []) := by
  have hlead : key.dropWhile (fun c => decide (c = 32)) = key := by
    cases key with
    | nil => rfl
    | cons c key =>
      have hc : c ≠ 32 := fun h => hkey (by simp [h])
      exact List.dropWhile_cons_of_neg (by simpa using hc)
  obtain ⟨htake, hdrop⟩ := span_ne_of_notMem hkey
  unfold splitTag
  simp only [hlead, htake, hdrop, List.dropWhile_nil]

theorem splitTag_argument {key arg : Bytes} (hkey : 32 ∉ key) (hne : key ≠ []) {n : Nat}
    (harg : ∀ c ∈ arg.head?, c ≠ 32) :
    splitTag (key ++ List.replicate (n + 1) 32 ++ arg) = (key, arg) := by
  have hlead : (key ++ List.replicate (n + 1) 32 ++ arg).dropWhile (fun c => decide (c = 32)) =
      key ++ List.replicate (n + 1) 32 ++ arg := by
    obtain ⟨c, key', rfl⟩ := List.exists_cons_of_ne_nil hne
    have hc : c ≠ 32 := fun h => hkey (by simp [h])
    exact List.dropWhile_cons_of_neg (by simpa using hc)
  have hspaces : (32 :: (List.replicate n 32 ++ arg)).dropWhile (fun c => decide (c = (32 : UInt8))) =
      arg := by
    rw [← List.cons_append, ← List.replicate_succ, List.dropWhile_append_of_pos (by simp)]
    cases arg with
    | nil => rfl
    | cons c arg =>
      have hc : c ≠ 32 := harg c rfl
      exact List.dropWhile_cons_of_neg (by simpa using hc)
  obtain ⟨htake, hdrop⟩ := span_ne hkey (List.replicate n 32 ++ arg)
  have hshape : key ++ List.replicate (n + 1) 32 ++ arg = key ++ 32 :: (List.replicate n 32 ++ arg) := by
    simp [List.replicate_succ]
  unfold splitTag
  rw [hlead, hshape]
  simp only [htake, hdrop, hspaces]

theorem tagKey_spec (k : ObfKind) : 32 ∉ tagKey k ∧ 62 ∉ tagKey k ∧ tagKey k ≠ [] := by
  cases k with
  | bytes => decide +kernel
  | rand => decide +kernel
  | randChars => decide +kernel
  | randDigits => decide +kernel
  | timestamp => decide +kernel
  | data => decide +kernel
  | dataString => decide +kernel
  | dataSize => decide +kernel

theorem buildTag_tagKey (k : ObfKind) (val : Bytes) :
    buildTag (tagKey k) val =
      match k with
      | .bytes => buildBytes val
      | .rand | .randChars | .randDigits | .dataSize => buildCount k (tagKey k) val
      | .timestamp | .data | .dataString => .ok ⟨k, 0, []⟩ := by
  cases k with
  | bytes => rfl
  | rand => rfl
  | randChars => rfl
  | randDigits => rfl
  | timestamp => rfl
  | data => rfl
  | dataString => rfl
  | dataSize => rfl

theorem buildBytes_hexText {data : Bytes} (hdata : data ≠ []) (upper : Nat → Bool) :
    buildBytes (ascii "0x" ++ hexText upper 0 data) = .ok ⟨.bytes, 0, data⟩ := by
  have hskip : skip0x (ascii "0x" ++ hexText upper 0 data) = hexText upper 0 data := rfl
  have hne : ascii "0x" ++ hexText upper 0 data ≠ [] := List.cons_ne_nil 48 _
  have hlen := length_hexText upper data 0
  have hpos := List.length_pos_iff.mpr hdata
  unfold buildBytes
  rw [if_neg hne, hskip]
  dsimp only
  rw [if_neg (by omega), hexBytes_hexText]

theorem buildCount_decimalText (kind : ObfKind) (key : Bytes) {n : Nat} (hn : n ≤ 1048576) :
    buildCount kind key (decimalText n) = .ok ⟨kind, n, []⟩ := by
  have hne := decimalText_ne_nil n
  have hread : strtol (decimalText n) = ((n : Int), []) := by
    have hlong : (n : Int) ≤ longMax := by
      simp only [longMax]
      omega
    have happend := @strtol_decimalText n hlong [] (by simp)
    rwa [List.append_nil] at happend
  unfold buildCount
  rw [if_neg hne, hread]
  dsimp only
  rw [if_neg]
  rintro (h | h | h | h)
  · exact hne h.symm
  · exact h rfl
  · omega
  · omega

/-- What stands between the key of a tag and its closing bracket. -/
structure Argument (arg : Bytes) : Prop where
  bracket : 62 ∉ arg
  start : ∀ c ∈ arg.head?, c ≠ 32

theorem argument_hexText (upper : Nat → Bool) (data : Bytes) :
    Argument (ascii "0x" ++ hexText upper 0 data) where
  bracket := by
    rw [List.mem_append, not_or]
    exact ⟨by decide, gt_notMem_hexText upper data 0⟩
  start := by
    intro c hc
    cases hc
    decide

theorem argument_decimalText (n : Nat) : Argument (decimalText n) where
  bracket := by
    intro h
    have hdigit := isDigit_of_mem_decimalText h
    revert hdigit
    decide
  start := by
    rintro c hc rfl
    have hdigit := isDigit_of_mem_decimalText (List.mem_of_mem_head? hc)
    revert hdigit
    decide

theorem Argument.tag {arg : Bytes} (harg : Argument arg) (k : ObfKind) (n : Nat) :
    62 ∉ tagKey k ++ List.replicate (n + 1) 32 ++ arg ∧
      splitTag (tagKey k ++ List.replicate (n + 1) 32 ++ arg) = (tagKey k, arg) := by
  obtain ⟨hspace, hgt, hne⟩ := tagKey_spec k
  refine ⟨?_, splitTag_argument hspace hne harg.start⟩
  have hspaces : (62 : UInt8) ∉ List.replicate (n + 1) 32 := by
    intro h
    cases (List.mem_replicate.mp h).2
  simp only [List.mem_append, not_or]
  exact ⟨⟨hgt, hspaces⟩, harg.bracket⟩

/-- **A printed tag is built again.** -/
theorem buildTag_tagBody {o : Obf} (ho : o.Built) (st : TagStyle) :
    62 ∉ tagBody st o ∧
      buildTag (splitTag (tagBody st o)).1 (splitTag (tagBody st o)).2 = .ok o := by
  obtain ⟨kind, len, data⟩ := o
  obtain ⟨hspace, hgt, -⟩ := tagKey_spec kind
  have hplain : len = 0 ∧ data = [] → (∀ val, buildTag (tagKey kind) val = .ok ⟨kind, 0, []⟩) →
      62 ∉ tagKey kind ∧
        buildTag (splitTag (tagKey kind)).1 (splitTag (tagKey kind)).2 = .ok ⟨kind, len, data⟩ := by
    rintro ⟨rfl, rfl⟩ hbuild
    rw [splitTag_key hspace]
    exact ⟨hgt, hbuild []⟩
  have hbytes := (argument_hexText st.upper data).tag kind st.spaces
  have hcount := (argument_decimalText len.toNat).tag kind st.spaces
  have hbuild : 0 ≤ len ∧ len ≤ 1048576 ∧ data = [] →
      buildCount kind (tagKey kind) (decimalText len.toNat) = .ok ⟨kind, len, data⟩ := by
    rintro ⟨hnonneg, hle, rfl⟩
    rw [buildCount_decimalText kind _ (by omega), Int.toNat_of_nonneg hnonneg]
  unfold tagBody
  cases kind with
  | bytes =>
    obtain ⟨hlen, hdata⟩ := ho
    cases hlen
    refine ⟨hbytes.1, ?_⟩
    rw [hbytes.2, buildTag_tagKey]
    exact buildBytes_hexText hdata st.upper
  | rand =>
    refine ⟨hcount.1, ?_⟩
    rw [hcount.2, buildTag_tagKey]
    exact hbuild ho
  | randChars =>
    refine ⟨hcount.1, ?_⟩
    rw [hcount.2, buildTag_tagKey]
    exact hbuild ho
  | randDigits =>
    refine ⟨hcount.1, ?_⟩
    rw [hcount.2, buildTag_tagKey]
    exact hbuild ho
  | dataSize =>
    refine ⟨hcount.1, ?_⟩
    rw [hcount.2, buildTag_tagKey]
    exact hbuild ho
  | timestamp => exact hplain ho (buildTag_tagKey .timestamp)
  | data => exact hplain ho (buildTag_tagKey .data)
  | dataString => exact hplain ho (buildTag_tagKey .dataString)

/-! ### Templates

One round of the loop passes over the text before a tag, and the tag.  What is left
afterwards is the rest of the template, of which the induction speaks.
-/

/-- Text without an opening bracket ends the loop. -/
theorem obfLoop_text {after : Bytes} (hafter : 60 ∉ after) (fuel : Nat) :
    obfLoop fuel after = .ok [] := by
  cases fuel with
  | zero => rfl
  | succ fuel => rw [obfLoop, (span_ne_of_notMem hafter).2]

/-- One round of the loop. -/
theorem obfLoop_tag {before : Bytes} (hbefore : 60 ∉ before) {o : Obf} (ho : o.Built)
    (st : TagStyle) (rest : Bytes) (fuel : Nat) :
    obfLoop (fuel + 1) (before ++ (60 :: (tagBody st o ++ 62 :: rest))) =
      (obfLoop fuel rest >>= fun tags => .ok (o :: tags)) := by
  obtain ⟨hgt, hbuild⟩ := buildTag_tagBody ho st
  obtain ⟨htake, hdrop⟩ := span_ne hgt rest
  have hclosed : (62 : UInt8) ∈ tagBody st o ++ 62 :: rest := by simp
  rw [obfLoop, (span_ne hbefore _).2]
  dsimp only
  rw [if_pos hclosed, htake, hdrop, hbuild]
  rfl

theorem obfLoop_printTemplate {after : Bytes} (hafter : 60 ∉ after)
    (tagged : List (TagStyle × Obf)) :
    (∀ t ∈ tagged, 60 ∉ t.1.before ∧ t.2.Built) → ∀ fuel, tagged.length ≤ fuel →
      obfLoop fuel (printTemplate tagged after) = .ok (tagged.map Prod.snd) := by
  induction tagged with
  | nil =>
    intro _ fuel _
    exact obfLoop_text hafter fuel
  | cons t tagged ih =>
    intro hall fuel hfuel
    obtain ⟨st, o⟩ := t
    obtain ⟨hbefore, ho⟩ := hall (st, o) (List.mem_cons_self ..)
    cases fuel with
    | zero =>
      rw [List.length_cons] at hfuel
      omega
    | succ fuel =>
      have hrest := ih (fun t ht => hall t (List.mem_cons_of_mem _ ht)) fuel
        (Nat.le_of_succ_le_succ hfuel)
      rw [printTemplate, obfLoop_tag hbefore ho, hrest]
      rfl

theorem length_le_printTemplate (tagged : List (TagStyle × Obf)) (after : Bytes) :
    tagged.length ≤ (printTemplate tagged after).length := by
  induction tagged with
  | nil => exact Nat.zero_le _
  | cons t tagged ih =>
    obtain ⟨st, o⟩ := t
    simp only [printTemplate, List.length_append, List.length_cons]
    omega

/-- **Parsing a printed template gives the template back**: for every list of tags that is
not empty and every way to write it. -/
theorem awgObfParse_printTemplate {tagged : List (TagStyle × Obf)} {after : Bytes}
    (hne : tagged ≠ []) (htags : ∀ t ∈ tagged, t.2.Built)
    (htext : ∀ t ∈ tagged, Unbracketed t.1.before) (hafter : Unbracketed after) :
    awgObfParse (printTemplate tagged after) = .ok (tagged.map Prod.snd) := by
  have hloop := obfLoop_printTemplate (fun h => (hafter 60 h).1 rfl) tagged
    (fun t ht => ⟨fun h => (htext t ht 60 h).1 rfl, htags t ht⟩)
    ((printTemplate tagged after).length + 1)
    (Nat.le_succ_of_le (length_le_printTemplate tagged after))
  have hmap : tagged.map Prod.snd ≠ [] := by simpa using hne
  unfold awgObfParse
  rw [hloop]
  exact if_neg hmap

/-- A literal with capitals and two spaces, and a tag without an argument, in some text. -/
theorem awgObfParse_printTemplate_two :
    awgObfParse (ascii "a<b  0xDEad>, <t>;") = .ok [⟨.bytes, 0, [0xDE, 0xAD]⟩, ⟨.timestamp, 0, []⟩] := by
  have hparse := @awgObfParse_printTemplate
    [(⟨ascii "a", 1, fun i => i < 2⟩, ⟨.bytes, 0, [0xDE, 0xAD]⟩),
      (⟨ascii ", ", 0, fun _ => false⟩, ⟨.timestamp, 0, []⟩)] (ascii ";") (by simp)
    (by simp [Obf.Built]) (by unfold Unbracketed; decide +kernel) (by unfold Unbracketed; decide +kernel)
  exact hparse

end SysAwg
