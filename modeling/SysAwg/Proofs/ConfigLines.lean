/-
Lines and the pieces that `fgets` makes of them.

A line of up to 8190 bytes arrives with its line feed, which `trim` takes off; a line of
8191 bytes arrives without it, and the line feed follows as a piece that does nothing.  A
longer line is cut, and what is cut off is taken for a line of its own: the end of a
comment becomes a setting, and a template is read in parts.

The loader stops at the first line it refuses, so only the lines up to there count.  If
they all fit, the pieces have the effect of the lines, by an induction that follows the
file line by line.  If one of them does not fit, it is cut after 8191 bytes and its two
parts are handled one after the other; the outcome may happen to be the same all the same,
so no more is said of such a file.
-/
import SysAwg.ConfigLoad

namespace SysAwg

open Bytes

/-! ### Pieces

`fgets` is called again and again on what is left of the file.  A line at the front of it is
read by one call, by two, or is cut, and what the next call finds is known in each case.
-/

def piecesOf (f : Bytes) : List Bytes := filePieces f.length f

theorem length_fgets_snd (n : Nat) : ∀ f : Bytes, f ≠ [] → 0 < n → (fgets n f).2.length < f.length := by
  induction n with
  | zero =>
    intro f _ hn
    omega
  | succ n ih =>
    intro f hf _
    cases f with
    | nil => exact absurd rfl hf
    | cons c f =>
      rw [fgets, List.length_cons]
      split
      · exact Nat.lt_succ_self _
      · by_cases hnil : f = [] ∨ n = 0
        · rcases hnil with rfl | rfl
          · cases n with
            | zero => exact Nat.lt_succ_self _
            | succ n => exact Nat.lt_succ_self _
          · exact Nat.lt_succ_self _
        · rw [not_or] at hnil
          exact Nat.lt_succ_of_lt (ih f hnil.1 (Nat.pos_of_ne_zero hnil.2))

theorem filePieces_fuel (fuel : Nat) : ∀ (fuel' : Nat) (f : Bytes), f.length ≤ fuel →
    f.length ≤ fuel' → filePieces fuel f = filePieces fuel' f := by
  induction fuel with
  | zero =>
    intro fuel' f hf _
    rw [List.length_eq_zero_iff.mp (Nat.le_zero.mp hf)]
    cases fuel' with
    | zero => rfl
    | succ fuel' => rfl
  | succ fuel ih =>
    intro fuel' f hf hf'
    cases f with
    | nil =>
      cases fuel' with
      | zero => rfl
      | succ fuel' => rfl
    | cons c f =>
      have hless := length_fgets_snd 8191 (c :: f) (List.cons_ne_nil c f) (by omega)
      rw [List.length_cons] at hless hf hf'
      cases fuel' with
      | zero => omega
      | succ fuel' => exact congrArg (_ :: ·) (ih fuel' _ (by omega) (by omega))

theorem piecesOf_eq {f : Bytes} (hf : f ≠ []) :
    piecesOf f = cString (fgets 8191 f).1 :: piecesOf (fgets 8191 f).2 := by
  have hless := length_fgets_snd 8191 f hf (by omega)
  cases f with
  | nil => exact absurd rfl hf
  | cons c f =>
    rw [List.length_cons] at hless
    exact congrArg (_ :: ·) (filePieces_fuel f.length _ _ (by omega) (le_refl _))

theorem fgets_line {line : Bytes} (hline : 10 ∉ line) (rest : Bytes) :
    ∀ n, line.length < n → fgets n (line ++ 10 :: rest) = (line ++ [10], rest) := by
  induction line with
  | nil =>
    intro n hn
    cases n with
    | zero => cases hn
    | succ n => rfl
  | cons c line ih =>
    intro n hn
    have hc : c ≠ 10 := fun h => hline (by simp [h])
    cases n with
    | zero => cases hn
    | succ n =>
      have hrest := ih (fun h => hline (List.mem_cons_of_mem _ h)) n (Nat.lt_of_succ_lt_succ hn)
      rw [List.cons_append, fgets, if_neg hc, hrest]
      rfl

theorem fgets_full {line : Bytes} (hline : 10 ∉ line) (rest : Bytes) :
    fgets line.length (line ++ rest) = (line, rest) := by
  induction line with
  | nil =>
    cases rest with
    | nil => rfl
    | cons c rest => rfl
  | cons c line ih =>
    have hc : c ≠ 10 := fun h => hline (by simp [h])
    rw [List.cons_append, List.length_cons, fgets, if_neg hc,
      ih fun h => hline (List.mem_cons_of_mem _ h)]

theorem fgets_last {line : Bytes} (hline : 10 ∉ line) :
    ∀ n, line.length ≤ n → fgets n line = (line, []) := by
  induction line with
  | nil =>
    intro n _
    cases n with
    | zero => rfl
    | succ n => rfl
  | cons c line ih =>
    intro n hn
    have hc : c ≠ 10 := fun h => hline (by simp [h])
    cases n with
    | zero => cases hn
    | succ n =>
      rw [fgets, if_neg hc, ih (fun h => hline (List.mem_cons_of_mem _ h)) n (Nat.le_of_succ_le_succ hn)]

theorem cString_eq_self {s : Bytes} (hs : 0 ∉ s) : cString s = s :=
  (span_ne_of_notMem hs).1

/-- **A line of up to 8190 bytes is one piece.** -/
theorem piecesOf_line {line : Bytes} (hline : 10 ∉ line) (hzero : 0 ∉ line)
    (hlen : line.length < 8191) (rest : Bytes) :
    piecesOf (line ++ 10 :: rest) = (line ++ [10]) :: piecesOf rest := by
  have hzero' : 0 ∉ line ++ [10] := by
    rw [List.mem_append, not_or]
    exact ⟨hzero, by decide⟩
  rw [piecesOf_eq (by simp), fgets_line hline rest 8191 hlen, cString_eq_self hzero']

/-- 8191 bytes without a line feed are one piece, whatever follows. -/
theorem piecesOf_full {line : Bytes} (hline : 10 ∉ line) (hzero : 0 ∉ line)
    (hlen : line.length = 8191) (rest : Bytes) :
    piecesOf (line ++ rest) = line :: piecesOf rest := by
  have hne : line ++ rest ≠ [] := by
    intro h
    have hnil := congrArg List.length h
    rw [List.length_append, List.length_nil] at hnil
    omega
  have hget := fgets_full hline rest
  rw [hlen] at hget
  rw [piecesOf_eq hne, hget, cString_eq_self hzero]

theorem piecesOf_last {line : Bytes} (hline : 10 ∉ line) (hzero : 0 ∉ line)
    (hlen : line.length ≤ 8191) (hne : line ≠ []) : piecesOf line = [line] := by
  rw [piecesOf_eq hne, fgets_last hline 8191 hlen, cString_eq_self hzero]
  rfl

/-! ### Lines

Two lists of lines are compared by what they do to the state.  Whether the lines are
numbered otherwise does not matter then, since the number only shows in the text of an
error.
-/

/-- The state after some lines, or nothing where one is refused. -/
def runLines (lines : List Bytes) (st : LoadState) : Option LoadState :=
  lines.foldlM (fun st line => (configLine st line).toOption) st

theorem runLines_cons (line : Bytes) (lines : List Bytes) (st : LoadState) :
    runLines (line :: lines) st = (configLine st line).toOption.bind (runLines lines) := rfl

theorem loadLoop_toOption (lines : List Bytes) : ∀ (lineno : Nat) (st : LoadState),
    (loadLoop lines lineno st).toOption = runLines lines st := by
  induction lines with
  | nil => intro lineno st; rfl
  | cons line lines ih =>
    intro lineno st
    rw [loadLoop, runLines_cons]
    cases configLine st line with
    | error e => rfl
    | ok st' => exact ih (lineno + 1) st'

/-- Return code and configuration depend on the lines only through their effects. -/
theorem loadLines_toOption (lines : List Bytes) :
    (loadLines lines).toOption = (runLines lines ⟨Config.default, false⟩).bind fun st =>
      (loadChecks st.cfg).toOption := by
  rw [← loadLoop_toOption lines 0, loadLines]
  cases loadLoop lines 0 ⟨Config.default, false⟩ with
  | error e => rfl
  | ok st => rfl

/-- A line feed at the end is trimmed away. -/
theorem configLine_lineFeed (st : LoadState) (line : Bytes) :
    configLine st (line ++ [10]) = configLine st line := by
  have htrim : trim ((line ++ [10]).takeWhile fun c => decide (c ≠ 35)) =
      trim (line.takeWhile fun c => decide (c ≠ 35)) := by
    by_cases hash : 35 ∈ line
    · -- it is part of a comment
      obtain ⟨before, after, rfl, hbefore⟩ := List.eq_append_cons_of_mem hash
      rw [List.append_assoc, List.cons_append, (span_ne hbefore _).1, (span_ne hbefore _).1]
    · have hash' : 35 ∉ line ++ [10] := by
        rw [List.mem_append, not_or]
        exact ⟨hash, by decide⟩
      rw [(span_ne_of_notMem hash).1, (span_ne_of_notMem hash').1]
      unfold trim
      rw [List.rdropWhile_concat_pos _ _ _ (by decide)]
  unfold configLine
  rw [htrim]

/-- A comment is nothing. -/
theorem configLine_comment (st : LoadState) (text : Bytes) : configLine st (35 :: text) = .ok st := by
  have hcut : (35 :: text).takeWhile (fun c => decide (c ≠ 35)) = [] :=
    List.takeWhile_cons_of_neg (by decide)
  unfold configLine
  rw [hcut]
  rfl

theorem runLines_lineFeed (line : Bytes) (lines : List Bytes) (st : LoadState) :
    runLines ((line ++ [10]) :: lines) st = runLines (line :: lines) st := by
  rw [runLines_cons, runLines_cons, configLine_lineFeed]

theorem splitOn_line {line : Bytes} (hline : 10 ∉ line) (rest : Bytes) :
    (line ++ 10 :: rest).splitOn 10 = line :: rest.splitOn 10 := by
  rw [List.splitOn_append_cons_self, List.splitOn_eq_singleton hline]
  rfl

/-- A line of up to 8191 bytes has its effect, whether its line feed arrives with it or as a
piece of its own. -/
theorem runLines_piecesOf_line {line : Bytes} (hline : 10 ∉ line) (hzero : 0 ∉ line)
    (hlen : line.length ≤ 8191) (rest : Bytes) (st : LoadState) :
    runLines (piecesOf (line ++ 10 :: rest)) st =
      (configLine st line).toOption.bind (runLines (piecesOf rest)) := by
  rcases Nat.lt_or_eq_of_le hlen with hshort | hfull
  · rw [piecesOf_line hline hzero hshort, runLines_lineFeed, runLines_cons]
  · have halone : piecesOf (10 :: rest) = [10] :: piecesOf rest :=
      @piecesOf_line [] (by simp) (by simp) (by decide) rest
    have hfeed : runLines ([10] :: piecesOf rest) = runLines (piecesOf rest) := by
      funext st'
      exact runLines_lineFeed [] (piecesOf rest) st'
    rw [piecesOf_full hline hzero hfull, halone, runLines_cons, hfeed]

/-! ### The lines that are read

The loader stops at the first line it refuses, so the lines after it do not matter.  As
long as those before it, and it, fit the buffer, pieces and lines have the same effect.
Where one of them does not, what it really stands for can still be said: its first 8191
bytes are a line, and the rest of it is the beginning of the next.
-/

/-- Every line that is read, that is, before which no line is refused, has at most `n`
bytes. -/
def ReadFit (n : Nat) (lines : List Bytes) (st : LoadState) : Prop :=
  ∀ before line after, lines = before ++ line :: after → (runLines before st).isSome = true →
    line.length ≤ n

/-- A line that is read is cut, and its two parts are taken for lines. -/
def ReadCut (content : Bytes) (st : LoadState) : Prop :=
  ∃ before line after st', content.splitOn 10 = before ++ line :: after ∧
    runLines before st = some st' ∧ 8191 < line.length ∧
    runLines (piecesOf content) st =
      runLines (line.take 8191 :: piecesOf ([10].intercalate (line.drop 8191 :: after))) st'

theorem ReadFit.cons {n : Nat} {line : Bytes} {lines : List Bytes} {st : LoadState}
    (hlen : line.length ≤ n) (hrest : ∀ st', configLine st line = .ok st' → ReadFit n lines st') :
    ReadFit n (line :: lines) st := by
  intro before long after hsplit hread
  cases before with
  | nil =>
    obtain ⟨rfl, -⟩ := List.cons.inj hsplit
    exact hlen
  | cons first before =>
    obtain ⟨rfl, hlines⟩ := List.cons.inj hsplit
    rw [runLines_cons] at hread
    cases hline : configLine st line with
    | error e =>
      rw [hline] at hread
      cases hread
    | ok st' =>
      rw [hline] at hread
      exact hrest st' hline before long after hlines hread

theorem ReadFit.single {n : Nat} {line : Bytes} {st : LoadState} (hlen : line.length ≤ n) :
    ReadFit n [line] st := by
  refine ReadFit.cons hlen ?_
  rintro st' - (_ | _) long after hsplit
  all_goals cases hsplit

theorem ReadCut.not_fit {content : Bytes} {st : LoadState} (h : ReadCut content st) :
    ¬ ReadFit 8191 (content.splitOn 10) st := by
  obtain ⟨before, line, after, st', hsplit, hread, hlong, -⟩ := h
  intro hfit
  have hlen := hfit before line after hsplit (by rw [hread]; rfl)
  omega

/-- A line before the one that is cut. -/
theorem ReadCut.cons {line rest : Bytes} {st st' : LoadState} (hfeed : 10 ∉ line)
    (hzero : 0 ∉ line) (hlen : line.length ≤ 8191) (hline : configLine st line = .ok st')
    (h : ReadCut rest st') : ReadCut (line ++ 10 :: rest) st := by
  obtain ⟨before, long, after, st'', hsplit, hread, hlong, hcut⟩ := h
  refine ⟨line :: before, long, after, st'', ?_, ?_, hlong, ?_⟩
  · rw [splitOn_line hfeed, hsplit]
    rfl
  · rw [runLines_cons, hline]
    exact hread
  · rw [runLines_piecesOf_line hfeed hzero hlen, hline]
    exact hcut

/-- The line that is cut; `tail` is the file after it. -/
theorem ReadCut.here {line tail : Bytes} {after : List Bytes} {st : LoadState} (hfeed : 10 ∉ line)
    (hzero : 0 ∉ line) (hlong : 8191 < line.length)
    (hsplit : (line ++ tail).splitOn 10 = line :: after)
    (hrest : [10].intercalate (line.drop 8191 :: after) = line.drop 8191 ++ tail) :
    ReadCut (line ++ tail) st := by
  have hfirst : (line.take 8191).length = 8191 := List.length_take_of_le hlong.le
  have hpieces : piecesOf (line ++ tail) = line.take 8191 :: piecesOf (line.drop 8191 ++ tail) := by
    rw [← piecesOf_full (fun h => hfeed (List.mem_of_mem_take h))
      (fun h => hzero (List.mem_of_mem_take h)) hfirst, ← List.append_assoc, List.take_append_drop]
  exact ⟨[], line, after, st, hsplit, rfl, hlong, by rw [hpieces, hrest]⟩

/-- **Either all lines that are read fit, and the pieces have their effect, or one of them
is cut.** -/
theorem readFit_or_cut (n : Nat) : ∀ content : Bytes, content.length ≤ n → 0 ∉ content → ∀ st,
    (ReadFit 8191 (content.splitOn 10) st ∧
      runLines (piecesOf content) st = runLines (content.splitOn 10) st) ∨ ReadCut content st := by
  induction n with
  | zero =>
    intro content hn _ st
    rw [List.length_eq_zero_iff.mp (Nat.le_zero.mp hn)]
    exact Or.inl ⟨ReadFit.single (by simp), rfl⟩
  | succ n ih =>
    intro content hn hzero st
    by_cases hfeed : 10 ∈ content
    · obtain ⟨line, rest, rfl, hline⟩ := List.eq_append_cons_of_mem hfeed
      rw [List.mem_append, List.mem_cons, not_or, not_or] at hzero
      obtain ⟨hzline, -, hzrest⟩ := hzero
      rw [List.length_append, List.length_cons] at hn
      by_cases hlen : line.length ≤ 8191
      · rw [splitOn_line hline, runLines_piecesOf_line hline hzline hlen, runLines_cons]
        cases heffect : configLine st line with
        | error e =>
          -- nothing is read after a line that is refused
          refine Or.inl ⟨ReadFit.cons hlen ?_, rfl⟩
          intro st' hok
          rw [heffect] at hok
          cases hok
        | ok st' =>
          rcases ih rest (by omega) hzrest st' with ⟨hfit, hsame⟩ | hcut
          · refine Or.inl ⟨ReadFit.cons hlen ?_, hsame⟩
            intro st'' hok
            rw [heffect] at hok
            rwa [← Except.ok.inj hok]
          · exact Or.inr (hcut.cons hline hzline hlen heffect)
      · refine Or.inr (ReadCut.here hline hzline (by omega) (splitOn_line hline rest) ?_)
        rw [List.intercalate_cons_of_ne_nil (List.splitOn_ne_nil 10 rest), List.intercalate_splitOn,
          List.append_assoc]
        rfl
    · rw [List.splitOn_eq_singleton hfeed]
      by_cases hlen : content.length ≤ 8191
      · refine Or.inl ⟨ReadFit.single hlen, ?_⟩
        by_cases hnil : content = []
        · rw [hnil]
          rfl
        · rw [piecesOf_last hfeed hzero hlen hnil]
      · have hwhole : ReadCut (content ++ []) st := by
          have hsplit : (content ++ []).splitOn 10 = [content] := by
            rw [List.append_nil]
            exact List.splitOn_eq_singleton hfeed
          exact ReadCut.here hfeed hzero (by omega) hsplit (by simp)
        rw [List.append_nil] at hwhole
        exact Or.inr hwhole

/-! ### A file -/

/-- The loader reads a file as its lines: the same return code, and where that is 0 the same
configuration. -/
def LoadsAsLines (content : Bytes) : Prop :=
  ∀ (path : Bytes) (errsz : Nat), (awgConfigLoad path (some content) errsz).toOption =
    (loadLines (content.splitOn 10)).toOption

theorem awgConfigLoad_toOption (path content : Bytes) (errsz : Nat) :
    (awgConfigLoad path (some content) errsz).toOption = (loadLines (piecesOf content)).toOption := by
  show Except.toOption (Except.mapError _ (loadLines (piecesOf content))) = _
  cases loadLines (piecesOf content) with
  | error e => rfl
  | ok cfg => rfl

/-- What the loader starts with. -/
def LoadState.start : LoadState := ⟨Config.default, false⟩

theorem loadsAsLines_of_fit {content : Bytes} (hzero : 0 ∉ content)
    (hfit : ReadFit 8191 (content.splitOn 10) LoadState.start) : LoadsAsLines content := by
  intro path errsz
  rcases readFit_or_cut content.length content (le_refl _) hzero LoadState.start with
    ⟨-, hsame⟩ | hcut
  · rw [awgConfigLoad_toOption, loadLines_toOption, loadLines_toOption]
    exact congrArg (Option.bind · _) hsame
  · exact absurd hfit hcut.not_fit

/-! ### A line that is cut

A comment of 8192 bytes whose last byte is a bracket: the piece that is cut off begins
like a section, and ends the one of the peer.
-/

/-- The text of a key of 32 zero bytes. -/
def zeroKeyText : Bytes := ascii "AAAAAAAAAAAAAAAAAAAAAAAAAAAAAAAAAAAAAAAAAAA="

def privateLine : Bytes := ascii "PrivateKey=" ++ zeroKeyText

def publicLine : Bytes := ascii "PublicKey=" ++ zeroKeyText

/-- The first 8191 bytes of a comment. -/
def commentPiece : Bytes := 35 :: List.replicate 8190 120

/-- A file with a comment of 8192 bytes in the section of the peer; its last byte is a
bracket. -/
def longConf : Bytes :=
  privateLine ++ 10 :: (ascii "[Peer]" ++ 10 :: ((commentPiece ++ [91]) ++ 10 ::
    (publicLine ++ 10 :: ascii "Endpoint=h:1")))

theorem notMem_commentPiece {c : UInt8} (hash : c ≠ 35) (hx : c ≠ 120) : c ∉ commentPiece := by
  intro h
  rcases List.mem_cons.mp h with h | h
  · exact hash h
  · exact hx (List.mem_replicate.mp h).2

theorem zero_notMem_longConf : 0 ∉ longConf := by
  have hcomment := notMem_commentPiece (c := 0) (by decide) (by decide)
  have hprivate : 0 ∉ privateLine := by decide +kernel
  have hpublic : 0 ∉ publicLine := by decide +kernel
  have hpeer : 0 ∉ ascii "[Peer]" := by decide
  have hendpoint : 0 ∉ ascii "Endpoint=h:1" := by decide
  unfold longConf
  simp only [List.mem_append, List.mem_cons, List.not_mem_nil, not_or, or_false]
  exact ⟨hprivate, by decide, hpeer, by decide, ⟨hcomment, by decide⟩, by decide, hpublic,
    by decide, hendpoint⟩

theorem splitOn_longConf : longConf.splitOn 10 =
    [privateLine, ascii "[Peer]", commentPiece ++ [91], publicLine, ascii "Endpoint=h:1"] := by
  have hcomment : 10 ∉ commentPiece ++ [91] := by
    rw [List.mem_append, not_or]
    exact ⟨notMem_commentPiece (by decide) (by decide), by decide⟩
  unfold longConf
  rw [splitOn_line (by decide +kernel), splitOn_line (by decide), splitOn_line hcomment,
    splitOn_line (by decide +kernel), List.splitOn_eq_singleton (by decide)]

theorem piecesOf_longConf : piecesOf longConf =
    [privateLine ++ [10], ascii "[Peer]" ++ [10], commentPiece, [91] ++ [10], publicLine ++ [10],
      ascii "Endpoint=h:1"] := by
  have hpiece : commentPiece.length = 8191 := by
    rw [commentPiece, List.length_cons, List.length_replicate]
  unfold longConf
  rw [piecesOf_line (by decide +kernel) (by decide +kernel) (by decide +kernel),
    piecesOf_line (by decide) (by decide) (by decide), List.append_assoc,
    piecesOf_full (notMem_commentPiece (by decide) (by decide))
      (notMem_commentPiece (by decide) (by decide)) hpiece,
    piecesOf_line (by decide) (by decide) (by decide),
    piecesOf_line (by decide +kernel) (by decide +kernel) (by decide +kernel),
    piecesOf_last (by decide) (by decide) (by decide) (by decide)]

theorem runLines_append (lines lines' : List Bytes) (st : LoadState) :
    runLines (lines ++ lines') st = (runLines lines st).bind (runLines lines') :=
  List.foldlM_append

/-- Comments have no effect. -/
theorem loadLines_comment (lines lines' : List Bytes) (text : Bytes) :
    (loadLines (lines ++ (35 :: text) :: lines')).toOption = (loadLines (lines ++ lines')).toOption := by
  have heffect : runLines ((35 :: text) :: lines') = runLines lines' := by
    funext st
    rw [runLines_cons, configLine_comment]
    rfl
  rw [loadLines_toOption, loadLines_toOption, runLines_append, runLines_append, heffect]

/-- By its lines the file is a configuration; as it is read, the bracket ends the section of
the peer and the peer has no key. -/
theorem not_loadsAsLines_longConf : ¬ LoadsAsLines longConf := by
  have hlines : (loadLines (longConf.splitOn 10)).toOption.isSome = true := by
    have hskip := loadLines_comment [privateLine, ascii "[Peer]"]
      [publicLine, ascii "Endpoint=h:1"] (List.replicate 8190 120 ++ [91])
    rw [splitOn_longConf]
    refine (congrArg Option.isSome hskip).trans ?_
    decide +kernel
  have hpieces : (loadLines (piecesOf longConf)).toOption.isSome = false := by
    have hskip := loadLines_comment [privateLine ++ [10], ascii "[Peer]" ++ [10]]
      [[91] ++ [10], publicLine ++ [10], ascii "Endpoint=h:1"] (List.replicate 8190 120)
    rw [piecesOf_longConf]
    refine (congrArg Option.isSome hskip).trans ?_
    decide +kernel
  intro h
  have hsame := h [] 0
  rw [awgConfigLoad_toOption] at hsame
  rw [hsame, hlines] at hpieces
  cases hpieces

theorem longConf_lines : ∀ line ∈ longConf.splitOn 10, line.length ≤ 8192 := by
  have hcomment : (commentPiece ++ [91]).length ≤ 8192 := by
    rw [List.length_append, commentPiece, List.length_cons, List.length_replicate]
    exact le_refl _
  have hlast : ∀ line ∈ [publicLine, ascii "Endpoint=h:1"], line.length ≤ 8192 := by
    decide +kernel
  rw [splitOn_longConf]
  refine List.forall_mem_cons.mpr ⟨by decide +kernel, ?_⟩
  refine List.forall_mem_cons.mpr ⟨by decide, ?_⟩
  exact List.forall_mem_cons.mpr ⟨hcomment, hlast⟩

/--
**The loader reads lines as lines as far as they fit its buffer.**

A file of which every line that is read has at most 8191 bytes has the meaning of its lines,
whatever is in them.  In every other file a line is cut in two, so the condition leaves
nothing out but that.
-/
theorem loadsAsLines_of_readFit (content : Bytes) (hzero : 0 ∉ content) :
    (ReadFit 8191 (content.splitOn 10) LoadState.start → LoadsAsLines content) ∧
    (¬ ReadFit 8191 (content.splitOn 10) LoadState.start → ReadCut content LoadState.start) := by
  refine ⟨loadsAsLines_of_fit hzero, ?_⟩
  intro hlong
  rcases readFit_or_cut content.length content (le_refl _) hzero LoadState.start with
    ⟨hfit, -⟩ | hcut
  · exact absurd hfit hlong
  · exact hcut

/-- No larger bound would do. -/
theorem loadsAsLines_bound (n : Nat) :
    (∀ content : Bytes, 0 ∉ content → ReadFit n (content.splitOn 10) LoadState.start →
      LoadsAsLines content) ↔ n ≤ 8191 := by
  constructor
  · intro h
    by_contra hn
    refine not_loadsAsLines_longConf (h longConf zero_notMem_longConf ?_)
    intro before line after hsplit _
    have hmem : line ∈ longConf.splitOn 10 := by
      rw [hsplit]
      exact List.mem_append_right _ (List.mem_cons_self ..)
    have hbound := longConf_lines line hmem
    omega
  · intro hn content hzero hfit
    refine loadsAsLines_of_fit hzero ?_
    intro before line after hsplit hread
    exact (hfit before line after hsplit hread).trans hn

/-- A key that is refused, and then a line that would be cut. -/
def refusedConf : Bytes := ascii "PrivateKey=x" ++ 10 :: (commentPiece ++ [91])

/-- The loader never comes to the long line. -/
theorem loadsAsLines_refused : LoadsAsLines refusedConf := by
  have hcomment := notMem_commentPiece (c := 0) (by decide) (by decide)
  have hzero : 0 ∉ refusedConf := by
    unfold refusedConf
    simp only [List.mem_append, List.mem_cons, List.not_mem_nil, not_or, or_false]
    exact ⟨by decide, by decide, hcomment, by decide⟩
  refine (loadsAsLines_of_readFit refusedConf hzero).1 ?_
  unfold refusedConf
  rw [splitOn_line (by decide)]
  refine ReadFit.cons (by decide) ?_
  have hrefused : (configLine LoadState.start (ascii "PrivateKey=x")).toOption.isSome = false := by
    decide +kernel
  intro st' hok
  rw [hok] at hrefused
  cases hrefused

/-- The end of a comment is taken for a section. -/
theorem config_line_cut : ¬ ∀ content : Bytes, 0 ∉ content → LoadsAsLines content := by
  intro h
  exact not_loadsAsLines_longConf (h longConf zero_notMem_longConf)

end SysAwg
