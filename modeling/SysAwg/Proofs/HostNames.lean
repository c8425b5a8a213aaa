/-
Host names as lists of labels.

`host_normalise` scans characters and `host_denied` compares bytes from the end, with one
byte of look-back.  Read as label lists, the first asks that every label is a non-empty
run of host characters, and the second that the last labels are those of a listed name.
The scan is followed piece by piece, and the look-back is what makes a suffix of bytes a
suffix of labels.

Everything is therefore stated about label lists, with the alphabet and the listed names
spelled out, and the two functions of the source come in through one equivalence each:
`labelsOk_iff` for the scan and `hostDenied_iff` for the comparison.
-/
import SysAwg.Lib.Split
import SysAwg.Lib.Text
import SysAwg.Proofs.Sniffing

namespace SysAwg

open Bytes

/-! ### Characters

What a label may contain and which letters differ in case only are written out, so that
nothing said about names below rests on the ranges in the source.
-/

def hostAlphabet : Bytes :=
  ascii "abcdefghijklmnopqrstuvwxyzABCDEFGHIJKLMNOPQRSTUVWXYZ0123456789-_"

theorem hostByte_iff (c : UInt8) : hostByte c = true ↔ c ∈ hostAlphabet := by
  revert c
  apply forall_byte
  decide +kernel

def capitals : Bytes := ascii "ABCDEFGHIJKLMNOPQRSTUVWXYZ"

def smallLetters : Bytes := ascii "abcdefghijklmnopqrstuvwxyz"

/-- A capital becomes the small letter at its place. -/
def foldCase (c : UInt8) : UInt8 :=
  if c ∈ capitals then smallLetters.getD (capitals.idxOf c) c else c

theorem lower_eq_foldCase : lower = foldCase := by
  funext c
  revert c
  apply forall_byte
  decide +kernel

/-! ### Labels

A sequence of labels and the string with dots between them are the same thing, in both
directions, as long as no label has a dot in it.
-/

/-- A non-empty run of host characters. -/
def IsLabel (l : Bytes) : Prop := l ≠ [] ∧ ∀ c ∈ l, c ∈ hostAlphabet

/-- A name is a sequence of labels, with single dots between them. -/
structure NameOf (labels : List Bytes) (name : Bytes) : Prop where
  nonempty : labels ≠ []
  isLabel : ∀ l ∈ labels, IsLabel l
  joined : name = [dot].intercalate labels

theorem hostAlphabet_ne_dot {c : UInt8} (h : c ∈ hostAlphabet) : c ≠ dot := by
  rintro rfl
  exact absurd h (by decide)

/-- The labels of a name are its pieces between the dots. -/
theorem NameOf.splitOn {labels : List Bytes} {name : Bytes} (h : NameOf labels name) :
    name.splitOn dot = labels := by
  rw [h.joined]
  refine List.splitOn_intercalate dot ?_ h.nonempty
  intro l hl hdot
  exact hostAlphabet_ne_dot ((h.isLabel l hl).2 dot hdot) rfl

theorem nameOf_splitOn {name : Bytes} (h : ∀ l ∈ name.splitOn dot, IsLabel l) :
    NameOf (name.splitOn dot) name where
  nonempty := List.splitOn_ne_nil dot name
  isLabel := h
  joined := (List.intercalate_splitOn dot).symm

/-- What the scan asks of the pieces still to come, given whether the label it is in has
no character yet. -/
structure LabelsFrom (labelEmpty : Bool) (first : Bytes) (rest : List Bytes) : Prop where
  chars : ∀ c ∈ first, c ∈ hostAlphabet
  begun : first ≠ [] ∨ labelEmpty = false
  others : ∀ l ∈ rest, IsLabel l

theorem labelsFrom_true_iff {first : Bytes} {rest : List Bytes} :
    LabelsFrom true first rest ↔ ∀ l ∈ first :: rest, IsLabel l := by
  rw [List.forall_mem_cons]
  constructor
  · intro h
    exact ⟨⟨h.begun.resolve_right (by simp), h.chars⟩, h.others⟩
  · rintro ⟨hfirst, hrest⟩
    exact ⟨hfirst.2, .inl hfirst.1, hrest⟩

/-- **The scan accepts exactly the sequences of labels.** -/
theorem labelsOk_iff (h : Bytes) :
    ∀ labelEmpty first rest, h.splitOn dot = first :: rest →
      (labelsOk h labelEmpty = true ↔ LabelsFrom labelEmpty first rest) := by
  induction h with
  | nil =>
      intro labelEmpty first rest hsplit
      obtain ⟨rfl, rfl⟩ := List.cons.inj (hsplit.symm.trans (List.splitOn_nil dot))
      rw [labelsOk, Bool.not_eq_true']
      refine ⟨fun he => ⟨?_, .inr he, ?_⟩, fun hl => hl.begun.resolve_left (by simp)⟩
      · simp
      · simp
  | cons c h ih =>
      intro labelEmpty first rest hsplit
      obtain ⟨p, ps, hpieces⟩ := List.exists_cons_of_ne_nil (List.splitOn_ne_nil dot h)
      rw [labelsOk]
      by_cases hc : c = dot
      · -- a dot ends the label, which must have begun
        rw [if_pos hc]
        rw [hc, Split.splitOn_cons_self] at hsplit
        obtain ⟨rfl, rfl⟩ := List.cons.inj hsplit
        have hrest := (ih true p ps hpieces).trans labelsFrom_true_iff
        rw [← hpieces] at hrest
        cases labelEmpty with
        | true =>
            rw [if_pos rfl]
            refine ⟨fun hfalse => absurd hfalse (by simp), fun hl => ?_⟩
            exact absurd (hl.begun.resolve_left (by simp)) (by simp)
        | false =>
            rw [if_neg (by simp), hrest]
            exact ⟨fun hall => ⟨by simp, .inr rfl, hall⟩, fun hl => hl.others⟩
      · rw [if_neg hc]
        rw [Split.splitOn_cons_ne hc, hpieces] at hsplit
        obtain ⟨rfl, rfl⟩ := List.cons.inj hsplit
        by_cases hbyte : hostByte c = true
        · rw [if_pos hbyte, ih false p ps hpieces]
          constructor
          · intro hl
            exact ⟨List.forall_mem_cons.mpr ⟨(hostByte_iff c).mp hbyte, hl.chars⟩, .inl (by simp),
              hl.others⟩
          · intro hl
            exact ⟨(List.forall_mem_cons.mp hl.chars).2, .inr rfl, hl.others⟩
        · rw [if_neg hbyte]
          refine ⟨fun hfalse => absurd hfalse (by simp), fun hl => ?_⟩
          exact absurd ((hostByte_iff c).mpr (hl.chars c (by simp))) hbyte

theorem labelsOk_true_iff (h : Bytes) :
    labelsOk h true = true ↔ ∃ labels, NameOf labels h := by
  obtain ⟨p, ps, hpieces⟩ := List.exists_cons_of_ne_nil (List.splitOn_ne_nil dot h)
  rw [labelsOk_iff h true p ps hpieces, labelsFrom_true_iff, ← hpieces]
  constructor
  · intro hall
    exact ⟨_, nameOf_splitOn hall⟩
  · rintro ⟨labels, hname⟩
    rw [hname.splitOn]
    exact hname.isLabel

/-! ### Trailing dots

`strip_dots` works on the string from behind, and what it leaves is the only string
without a dot at its end from which dots lead back to the whole.
-/

/-- `name` is `h` with all its trailing dots removed. -/
structure DotsRemoved (h name : Bytes) : Prop where
  dots : ∃ k, h = name ++ List.replicate k dot
  last : name.getLast? ≠ some dot

theorem stripDots_removed (h : Bytes) : DotsRemoved h (stripDots h) where
  dots := by
    refine ⟨(h.rtakeWhile (· = dot)).length, ?_⟩
    have hdots : h.rtakeWhile (· = dot)
        = List.replicate (h.rtakeWhile (· = dot)).length dot := by
      refine List.eq_replicate_of_mem ?_
      intro c hc
      simpa using List.mem_rtakeWhile_imp hc
    rw [← hdots]
    exact (List.rdropWhile_append_rtakeWhile).symm
  last := by
    intro hlast
    obtain ⟨hne, hdot⟩ := List.mem_getLast?_eq_getLast hlast
    have hnot := List.rdropWhile_last_not (fun c => decide (c = dot)) h hne
    exact hnot (decide_eq_true hdot.symm)

theorem stripDots_append (name : Bytes) (k : Nat) :
    stripDots (name ++ List.replicate k dot) = stripDots name := by
  induction k with
  | zero => simp
  | succ k ih =>
      rw [List.replicate_succ', ← List.append_assoc]
      show List.rdropWhile _ _ = _
      rw [List.rdropWhile_concat_pos _ _ _ (by simp)]
      exact ih

/-- `host_normalise` on a string that is short enough. -/
theorem hostNormalise_eq {h : Bytes} (hlen : h.length ≤ 253) :
    hostNormalise h = (stripDots h, labelsOk (stripDots h) true) := by
  have hshort : (stripDots h).length ≤ h.length := (List.rdropWhile_prefix _ h).length_le
  unfold hostNormalise
  dsimp only
  by_cases hnil : (stripDots h).length = 0
  · rw [if_pos (.inl hnil), List.length_eq_zero_iff.mp hnil]
    rfl
  · rw [if_neg (by omega)]

/-! ### Letter case -/

theorem lower_eq_dot (c : UInt8) : lower c = dot ↔ c = dot := by
  unfold lower dot
  split <;> grind

theorem lower_lower (c : UInt8) : lower (lower c) = lower c := by
  unfold lower
  split <;> grind

theorem hostByte_lower (c : UInt8) : hostByte (lower c) = hostByte c := by
  unfold lower hostByte
  split <;> grind

theorem stripDots_lower (h : Bytes) : stripDots (h.map lower) = (stripDots h).map lower := by
  have hsame : (fun c => decide (c = dot)) ∘ lower = fun c => decide (c = dot) := by
    funext c
    simp only [Function.comp_apply, lower_eq_dot]
  unfold stripDots List.rdropWhile
  rw [← List.map_reverse, List.dropWhile_map, hsame, List.map_reverse]

theorem labelsOk_lower (h : Bytes) :
    ∀ labelEmpty, labelsOk (h.map lower) labelEmpty = labelsOk h labelEmpty := by
  induction h with
  | nil =>
      intro labelEmpty
      rfl
  | cons c h ih =>
      intro labelEmpty
      simp only [List.map_cons, labelsOk, lower_eq_dot, hostByte_lower, ih]

/-! ### The deny list

The source compares from the end, byte by byte, and then looks at the byte before.  With
that byte a dot, or nothing before it, the suffix starts where a label does.
-/

def nintendo : Bytes := [110, 105, 110, 116, 101, 110, 100, 111]

/-- The names nobody is connected to, label by label: `nintendo.net`, `nintendo.com` and
`nintendo.co.jp`. -/
def deniedNames : List (List Bytes) :=
  [[nintendo, [110, 101, 116]], [nintendo, [99, 111, 109]], [nintendo, [99, 111], [106, 112]]]

/-- The label list ends with that of a listed name, comparing letters without case. -/
def DeniedLabels (labels : List Bytes) : Prop :=
  ∃ d ∈ deniedNames, d <:+ labels.map (List.map foldCase)

theorem deniedNames_splitOn : deniedNames = gDenySuffix.map (List.splitOn dot) := by
  decide

/-- The listed names are written in lower case. -/
theorem gDenySuffix_lower : ∀ d ∈ gDenySuffix, d.map lower = d := by
  decide

/-- The comparison with one listed name: `strcasecmp` on the last bytes, and the byte
before them. -/
theorem endsWith_iff {host suffix : Bytes} :
    (decide (suffix.length ≤ host.length) &&
        (host.drop (host.length - suffix.length)).map lower == suffix.map lower &&
        (host.length == suffix.length ||
          host.getD (host.length - suffix.length - 1) 0 == dot)) = true ↔
      host.map lower = suffix.map lower ∨
        ∃ before, host.map lower = before ++ dot :: suffix.map lower := by
  simp only [Bool.and_eq_true, Bool.or_eq_true, decide_eq_true_eq, beq_iff_eq]
  constructor
  · rintro ⟨⟨hle, hend⟩, hsame | hdot⟩
    · rw [hsame, Nat.sub_self, List.drop_zero] at hend
      exact .inl hend
    · by_cases hsame : host.length = suffix.length
      · rw [hsame, Nat.sub_self, List.drop_zero] at hend
        exact .inl hend
      · obtain ⟨n, hn⟩ : ∃ n, host.length - suffix.length = n + 1 :=
          ⟨host.length - suffix.length - 1, by omega⟩
        rw [hn] at hend
        rw [hn, Nat.add_sub_cancel, List.getD_eq_getElem _ _ (by omega)] at hdot
        refine .inr ⟨(host.take n).map lower, ?_⟩
        calc host.map lower
            = (host.take n ++ host.drop n).map lower := by rw [List.take_append_drop]
          _ = (host.take n).map lower ++ lower dot :: (host.drop (n + 1)).map lower := by
              rw [List.drop_eq_getElem_cons (by omega), hdot, List.map_append, List.map_cons]
          _ = (host.take n).map lower ++ dot :: suffix.map lower := by
              rw [hend, (lower_eq_dot dot).mpr rfl]
  · rintro (hsame | ⟨before, hbefore⟩)
    · have hlen : host.length = suffix.length := by simpa using congrArg List.length hsame
      rw [hlen, Nat.sub_self, List.drop_zero]
      exact ⟨⟨le_rfl, hsame⟩, .inl rfl⟩
    · have hlen : host.length = before.length + (suffix.length + 1) := by
        simpa using congrArg List.length hbefore
      have hn : host.length - suffix.length = before.length + 1 := by omega
      rw [hn, Nat.add_sub_cancel, List.getD_eq_getElem _ _ (by omega)]
      refine ⟨⟨by omega, ?_⟩, .inr ?_⟩
      · rw [List.map_drop, hbefore, List.drop_append, List.drop_of_length_le (by omega)]
        simp
      · rw [← lower_eq_dot, ← List.getElem_map lower]
        · simp [hbefore]
        · rw [List.length_map]
          omega

/-- **A suffix of bytes at a label boundary is a suffix of labels.** -/
theorem hostDenied_iff (host : Bytes) :
    hostDenied host = true ↔ DeniedLabels (host.splitOn dot) := by
  unfold hostDenied DeniedLabels
  rw [List.any_eq_true, deniedNames_splitOn, ← lower_eq_foldCase, ← Split.splitOn_map lower_eq_dot]
  constructor
  · rintro ⟨d, hd, hends⟩
    have hlabels := endsWith_iff.mp hends
    rw [gDenySuffix_lower d hd] at hlabels
    exact ⟨_, List.mem_map_of_mem hd, Split.splitOn_suffix_iff.mpr hlabels⟩
  · rintro ⟨labels, hmem, hsuffix⟩
    obtain ⟨d, hd, rfl⟩ := List.mem_map.mp hmem
    have hbytes := Split.splitOn_suffix_iff.mp hsuffix
    rw [← gDenySuffix_lower d hd] at hbytes
    exact ⟨d, hd, endsWith_iff.mpr hbytes⟩

/-! ### The verdict -/

/-- What becomes of a name: nothing if it is refused as malformed, else whether it is
denied. -/
def hostVerdict (h : Bytes) : Option Bool :=
  if (hostNormalise h).2 then some (hostDenied (hostNormalise h).1) else none

theorem hostVerdict_eq {h : Bytes} (hlen : h.length ≤ 253) :
    hostVerdict h
      = if labelsOk (stripDots h) true then some (hostDenied (stripDots h)) else none := by
  unfold hostVerdict
  rw [hostNormalise_eq hlen]

/-- The names that stay blocked, by their labels. -/
theorem hostVerdict_denied_iff {h : Bytes} (hlen : h.length ≤ 253) :
    hostVerdict h = some true ↔
      ∃ labels, NameOf labels (stripDots h) ∧ DeniedLabels labels := by
  rw [hostVerdict_eq hlen]
  constructor
  · intro hverdict
    split at hverdict
    · rename_i hok
      obtain ⟨labels, hname⟩ := (labelsOk_true_iff _).mp hok
      have hdenied := (hostDenied_iff _).mp (Option.some.inj hverdict)
      rw [hname.splitOn] at hdenied
      exact ⟨labels, hname, hdenied⟩
    · cases hverdict
  · rintro ⟨labels, hname, hdenied⟩
    rw [if_pos ((labelsOk_true_iff _).mpr ⟨labels, hname⟩), (hostDenied_iff _).mpr]
    rw [hname.splitOn]
    exact hdenied

theorem hostVerdict_dots (h : Bytes) (k : Nat) :
    hostVerdict (h ++ List.replicate k dot) = hostVerdict h := by
  unfold hostVerdict hostNormalise
  rw [stripDots_append]

/-- Case changes nothing about what is accepted, and is kept. -/
theorem hostNormalise_lower (h : Bytes) :
    hostNormalise (h.map lower) = ((hostNormalise h).1.map lower, (hostNormalise h).2) := by
  unfold hostNormalise
  dsimp only
  rw [stripDots_lower, labelsOk_lower, List.length_map]
  split
  · rfl
  · rfl

theorem hostDenied_lower (name : Bytes) : hostDenied (name.map lower) = hostDenied name := by
  have htwice : List.map lower ∘ List.map lower = List.map lower := by
    funext l
    simp only [Function.comp_apply, List.map_map]
    exact congrFun (congrArg List.map (funext lower_lower)) l
  rw [Bool.eq_iff_iff, hostDenied_iff, hostDenied_iff, Split.splitOn_map lower_eq_dot]
  unfold DeniedLabels
  rw [← lower_eq_foldCase, List.map_map, htwice]

theorem hostVerdict_lower (h : Bytes) : hostVerdict (h.map lower) = hostVerdict h := by
  unfold hostVerdict
  rw [hostNormalise_lower, hostDenied_lower]

/-- A name below another one: their labels, one after the other. -/
theorem NameOf.below {labels sub : List Bytes} {name front : Bytes}
    (hname : NameOf labels name) (hsub : NameOf sub front) :
    NameOf (sub ++ labels) (front ++ dot :: name) := by
  have hsplit : (front ++ dot :: name).splitOn dot = sub ++ labels := by
    rw [List.splitOn_append_cons_self, hsub.splitOn, hname.splitOn]
  rw [← hsplit]
  refine nameOf_splitOn ?_
  intro l hl
  rw [hsplit] at hl
  exact (List.mem_append.mp hl).elim (hsub.isLabel l) (hname.isLabel l)

theorem NameOf.stripDots_eq {labels : List Bytes} {name : Bytes} (h : NameOf labels name) :
    stripDots name = name := by
  obtain ⟨k, hdots⟩ := (stripDots_removed name).dots
  cases k with
  | zero =>
      rw [List.replicate_zero, List.append_nil] at hdots
      exact hdots.symm
  | succ k =>
      -- a dot at the end would leave an empty label behind it
      rw [List.replicate_succ', ← List.append_assoc] at hdots
      have hsplit := h.splitOn
      rw [hdots, List.splitOn_append_cons_self, List.splitOn_nil] at hsplit
      have hlabel := h.isLabel [] (by rw [← hsplit]; simp)
      exact absurd rfl hlabel.1

theorem hostVerdict_below {h sub : Bytes} {labels : List Bytes} (hsub : NameOf labels sub)
    (hlen : (sub ++ dot :: h).length ≤ 253) (hdenied : hostVerdict h = some true) :
    hostVerdict (sub ++ dot :: h) = some true := by
  have hshort : h.length ≤ 253 := by
    rw [List.length_append, List.length_cons] at hlen
    omega
  obtain ⟨own, hname, d, hd, hends⟩ := (hostVerdict_denied_iff hshort).mp hdenied
  obtain ⟨k, hdots⟩ := (stripDots_removed h).dots
  have hbelow := hname.below hsub
  have hstrip : stripDots (sub ++ dot :: h) = sub ++ dot :: stripDots h := by
    have hall : sub ++ dot :: h = (sub ++ dot :: stripDots h) ++ List.replicate k dot := by
      rw [List.append_assoc, List.cons_append, ← hdots]
    rw [hall, stripDots_append, hbelow.stripDots_eq]
  refine (hostVerdict_denied_iff hlen).mpr ⟨_, hstrip ▸ hbelow, d, hd, ?_⟩
  rw [List.map_append]
  exact hends.trans (List.suffix_append _ _)

/-- No listed name is the end of another. -/
theorem gDenySuffix_suffix :
    ∀ d ∈ gDenySuffix, ∀ d' ∈ gDenySuffix, d <:+ d' → d = d' := by
  decide

/-- A name that only ends with the characters of a listed one is not denied. -/
theorem hostDenied_straddling {name before : Bytes} {c : UInt8} {d : List Bytes}
    (hd : d ∈ deniedNames) (hc : c ≠ dot)
    (hends : name.map lower = before ++ c :: [dot].intercalate d) : hostDenied name = false := by
  rw [deniedNames_splitOn] at hd
  obtain ⟨text, htext, rfl⟩ := List.mem_map.mp hd
  rw [List.intercalate_splitOn] at hends
  have hsuffix : text <:+ name.map lower := ⟨before ++ [c], by rw [hends]; simp⟩
  refine Bool.eq_false_iff.mpr fun hdenied => ?_
  rw [hostDenied_iff, DeniedLabels, ← lower_eq_foldCase, ← Split.splitOn_map lower_eq_dot,
    deniedNames_splitOn] at hdenied
  obtain ⟨labels, hmem, hlabels⟩ := hdenied
  obtain ⟨text', htext', rfl⟩ := List.mem_map.mp hmem
  have hboundary := Split.splitOn_suffix_iff.mp hlabels
  have hsuffix' : text' <:+ name.map lower := by
    rcases hboundary with hall | ⟨before', hbefore⟩
    · exact hall ▸ List.suffix_refl _
    · exact ⟨before' ++ [dot], by rw [hbefore]; simp⟩
  -- two ends of one string: they are the same listed name
  have hsame : text = text' := by
    rcases List.suffix_or_suffix_of_suffix hsuffix hsuffix' with h | h
    · exact gDenySuffix_suffix _ htext _ htext' h
    · exact (gDenySuffix_suffix _ htext' _ htext h).symm
  rw [← hsame, hends] at hboundary
  rcases hboundary with hall | ⟨before', hbefore⟩
  · have hlen := congrArg List.length hall
    simp only [List.length_append, List.length_cons] at hlen
    omega
  · have hlast := List.append_inj_right' hbefore (by simp)
    exact hc (List.cons.inj hlast).1

/--
**The deny list means what it says, label by label.**  For every string of at most 127
bytes: `host_normalise` leaves the string without its trailing dots, and accepts it
exactly when that is a sequence of labels; an accepted name is denied exactly when its
labels end, without regard to case, with those of a listed name.  So the verdict does not
depend on trailing dots or letter case, extends to subdomains, and a name that only ends
in the same characters is not denied.
-/
theorem deny_list_labelwise (h : Bytes) (hlen : h.length ≤ 127) :
    ∃ name, DotsRemoved h name ∧ (hostNormalise h).1 = name ∧
      ((hostNormalise h).2 = true ↔ ∃ labels, NameOf labels name) ∧
      (∀ labels, NameOf labels name → (hostDenied name = true ↔ DeniedLabels labels)) ∧
      (∀ k, hostVerdict (h ++ List.replicate k dot) = hostVerdict h) ∧
      (∀ h', h'.map foldCase = h.map foldCase → hostVerdict h' = hostVerdict h) ∧
      (∀ sub labels, NameOf labels sub → (sub ++ dot :: h).length ≤ 127 →
        hostVerdict h = some true → hostVerdict (sub ++ dot :: h) = some true) ∧
      (∀ d ∈ deniedNames, ∀ before c, c ≠ dot →
        name.map foldCase = before ++ c :: [dot].intercalate d → hostVerdict h ≠ some true) := by
  rw [← lower_eq_foldCase]
  have hnormal := hostNormalise_eq (h := h) (by omega)
  refine ⟨stripDots h, stripDots_removed h, ?_, ?_, ?_, hostVerdict_dots h, ?_, ?_, ?_⟩
  · rw [hnormal]
  · rw [hnormal]
    exact labelsOk_true_iff _
  · intro labels hname
    rw [hostDenied_iff, hname.splitOn]
  · intro h' hcase
    rw [← hostVerdict_lower h', hcase, hostVerdict_lower]
  · intro sub labels hsub hshort
    exact hostVerdict_below hsub (by omega)
  · intro d hd before c hc hends hdenied
    rw [hostVerdict_eq (by omega), hostDenied_straddling hd hc hends] at hdenied
    split at hdenied
    · cases hdenied
    · cases hdenied

/-- `a_1.NINTENDO.net.` is denied, though its bytes are not those of the list, and a name
with a space in it is refused. -/
theorem deny_list_labelwise_dotted :
    hostNormalise (ascii "a_1.NINTENDO.net.") = (ascii "a_1.NINTENDO.net", true) ∧
      hostDenied (ascii "a_1.NINTENDO.net") = true ∧ (hostNormalise (ascii "a b")).2 = false := by
  have hname : NameOf [ascii "a_1", ascii "NINTENDO", ascii "net"] (ascii "a_1.NINTENDO.net") := by
    refine ⟨by simp, ?_, by decide⟩
    unfold IsLabel
    decide +kernel
  obtain ⟨name, -, hleft, haccepted, hdenied, -⟩ :=
    deny_list_labelwise (ascii "a_1.NINTENDO.net.") (by decide)
  obtain ⟨name', -, hleft', haccepted', -⟩ := deny_list_labelwise (ascii "a b") (by decide)
  have hlong : (hostNormalise (ascii "a_1.NINTENDO.net.")).1 = ascii "a_1.NINTENDO.net" := by
    decide +kernel
  have hspace : (hostNormalise (ascii "a b")).1 = ascii "a b" := by decide +kernel
  obtain rfl : name = ascii "a_1.NINTENDO.net" := hleft.symm.trans hlong
  obtain rfl : name' = ascii "a b" := hleft'.symm.trans hspace
  refine ⟨Prod.ext hlong (haccepted.mpr ⟨_, hname⟩), (hdenied _ hname).mpr ?_, ?_⟩
  · unfold DeniedLabels
    decide +kernel
  · rw [Bool.eq_false_iff, Ne, haccepted']
    rintro ⟨labels, hlabels⟩
    have hsplit : labels = [ascii "a b"] := hlabels.splitOn.symm.trans (by decide)
    have hlabel := hlabels.isLabel (ascii "a b") (by rw [hsplit]; exact List.mem_cons_self ..)
    exact absurd (hlabel.2 32 (by decide)) (by decide)

end SysAwg
