/-
Rendering fills exactly the declared length.

`tag_out_len` says how wide a tag is and `awg_obf_render` writes it; `Obf.run` is what one
tag writes, and its length is the width.  So the runs stand one after another from the
start of the buffer, and what lies behind them is not touched.  The sums are `int`s as long
as the last of them is, since a width is never negative; and without a payload a template
of one line cannot be wide enough to break that, because a tag of up to 2^20 bytes takes
five characters.
-/
import SysAwg.Template
import SysAwg.Proofs.Base64
import SysAwg.Lib.BigEndian
import Mathlib.Data.List.TakeWhile

namespace SysAwg

open Bytes Checked

/-! ### Tags that the parser builds

The parser is the only place where tags are made, and it makes no tag with a negative
count or with bytes that are not its own.
-/

/-- What `build_tag` leaves in the fields of a tag. -/
def Obf.Built (o : Obf) : Prop :=
  match o.kind with
  | .bytes => o.len = 0 ∧ o.data ≠ []
  | .rand | .randChars | .randDigits | .dataSize => 0 ≤ o.len ∧ o.len ≤ 1048576 ∧ o.data = []
  | .timestamp | .data | .dataString => o.len = 0 ∧ o.data = []

def Obf.width (o : Obf) (srcLen : Nat) : Nat :=
  match o.kind with
  | .bytes => o.data.length
  | .rand | .randChars | .randDigits | .dataSize => o.len.toNat
  | .timestamp => 4
  | .data => srcLen
  | .dataString => (4 * srcLen + 2) / 3

def Obf.run (o : Obf) (src : Bytes) (d : TagDraw) : Bytes :=
  match o.kind with
  | .bytes => o.data
  | .rand => awgRandomBytes d.random o.len.toNat
  | .randChars => fillRandomFrom d.random o.len.toNat chars52 52
  | .randDigits => fillRandomFrom d.random o.len.toNat digits10 10
  | .timestamp => (le32 d.time.toUInt32).reverse
  | .data => src
  | .dataString => b64Text src
  | .dataSize => sizeBytes o.len.toNat (UInt32.ofNat src.length)

@[simp] theorem length_sizeBytes (n : Nat) (v : UInt32) : (sizeBytes n v).length = n := by
  induction n generalizing v with
  | zero => rfl
  | succ n ih => rw [sizeBytes, List.length_append, ih, List.length_singleton]

theorem Obf.length_run (o : Obf) (src : Bytes) (d : TagDraw) :
    (o.run src d).length = o.width src.length := by
  unfold Obf.run Obf.width
  cases o.kind with
  | bytes => rfl
  | rand => exact length_awgRandomBytes ..
  | randChars => simp [fillRandomFrom]
  | randDigits => simp [fillRandomFrom]
  | timestamp => rfl
  | data => rfl
  | dataString => exact length_b64Text src
  | dataSize => exact length_sizeBytes ..

/-- **`tag_out_len` is the width**, as long as the width is an `int`. -/
theorem tagOutLen_eq {o : Obf} (ho : o.Built) {n : Nat} (hn : (o.width n : Int) ≤ intMax) :
    tagOutLen o n = .ok (o.width n : Int) := by
  have hmin : intMin ≤ 0 := by decide
  unfold tagOutLen Obf.width Obf.Built at *
  cases hkind : o.kind with
  | bytes => rfl
  | timestamp => rfl
  | data => rfl
  | rand =>
    simp only [hkind] at ho ⊢
    rw [Int.toNat_of_nonneg ho.1]
  | randChars =>
    simp only [hkind] at ho ⊢
    rw [Int.toNat_of_nonneg ho.1]
  | randDigits =>
    simp only [hkind] at ho ⊢
    rw [Int.toNat_of_nonneg ho.1]
  | dataSize =>
    simp only [hkind] at ho ⊢
    rw [Int.toNat_of_nonneg ho.1]
  | dataString =>
    simp only [hkind] at hn ⊢
    rw [int_eq (by omega), ok_bind]
    have hsum : (n : Int) / 3 * 4 + (if (n : Int) % 3 ≠ 0 then (n : Int) % 3 + 1 else 0) =
        (((4 * n + 2) / 3 : Nat) : Int) := by
      split
      · omega
      · omega
    rw [hsum, int_eq (by omega)]

/-! ### Where runs are written

A run is written where the last one ended, and the bytes behind are still those of the
buffer.  By induction on the chain the buffer is the runs so far and then what it held
before.
-/

theorem overlay_append (done rest c : Bytes) :
    overlay (done ++ rest) done.length c = done ++ c ++ rest.drop c.length := by
  unfold overlay
  rw [List.take_left' rfl, ← List.drop_drop, List.drop_left' rfl]

theorem put_append {done rest c : Bytes} (hc : c.length ≤ rest.length) :
    put (done ++ rest) done.length c = .ok (done ++ c ++ rest.drop c.length) := by
  unfold put
  rw [span_eq]
  · show Except.ok (overlay _ ((done.length : Int)).toNat c) = _
    rw [Int.toNat_natCast, overlay_append]
  · simp only [List.length_append]
    omega

/-- **A tag writes its run where it stands**, and nothing else. -/
theorem renderTag_append (o : Obf) (src : Bytes) (d : TagDraw) {done rest : Bytes}
    (hroom : o.width src.length ≤ rest.length) :
    renderTag o src (o.width src.length) done.length d (done ++ rest) =
      .ok (done ++ o.run src d ++ rest.drop (o.width src.length)) := by
  have hlen := o.length_run src d
  have hput : put (done ++ rest) done.length (o.run src d) =
      .ok (done ++ o.run src d ++ rest.drop (o.width src.length)) := by
    rw [← hlen]
    exact put_append (by omega)
  -- without a payload the two tags that carry it write nothing
  have hempty : src.length = 0 → o.run src d = [] →
      .ok (done ++ rest) = put (done ++ rest) done.length (o.run src d) := by
    intro _ hrun
    rw [hput, hrun, ← hlen, hrun]
    simp
  unfold renderTag
  cases hkind : o.kind with
  | bytes => simpa only [Obf.run, hkind] using hput
  | rand => simpa only [Obf.run, hkind] using hput
  | randChars => simpa only [Obf.run, hkind] using hput
  | randDigits => simpa only [Obf.run, hkind] using hput
  | timestamp => simpa only [Obf.run, hkind] using hput
  | dataSize => simpa only [Obf.run, hkind] using hput
  | data =>
    have hrun : o.run src d = src := by simp only [Obf.run, hkind]
    dsimp only
    split
    · rw [← hput, hrun]
    · rename_i hnone
      have hnil := List.length_eq_zero_iff.mp (Nat.eq_zero_of_not_pos hnone)
      rw [hempty (Nat.eq_zero_of_not_pos hnone) (hrun.trans hnil), hput]
  | dataString =>
    have hrun : o.run src d = b64Text src := by simp only [Obf.run, hkind]
    have hwidth : o.width src.length = (b64Text src).length := by rw [← hlen, hrun]
    dsimp only
    split
    · rw [Int.toNat_natCast, hwidth, awgB64EncodeRaw_eq (le_refl _), ← hwidth, ← hput, hrun]
    · rename_i hnone
      have hnil := List.length_eq_zero_iff.mp (Nat.eq_zero_of_not_pos hnone)
      have hrun' : o.run src d = [] := by
        rw [hrun, hnil]
        rfl
      rw [hempty (Nat.eq_zero_of_not_pos hnone) hrun', hput]

def chainWidth (c : List Obf) (srcLen : Nat) : Nat := (c.map fun o => o.width srcLen).sum

@[simp] theorem chainWidth_cons (o : Obf) (c : List Obf) (srcLen : Nat) :
    chainWidth (o :: c) srcLen = o.width srcLen + chainWidth c srcLen := rfl

theorem outLenLoop_eq {c : List Obf} (hc : ∀ o ∈ c, o.Built) (n : Nat) :
    ∀ total : Nat, ((total + chainWidth c n : Nat) : Int) ≤ intMax →
      outLenLoop n total c = .ok ((total + chainWidth c n : Nat) : Int) := by
  induction c with
  | nil => intro total _; rfl
  | cons o c ih =>
    intro total hsum
    have hmin : intMin ≤ 0 := by decide
    rw [chainWidth_cons] at hsum ⊢
    rw [outLenLoop, tagOutLen_eq (hc o (List.mem_cons_self ..)) (by omega), ok_bind,
      int_eq (by omega), ok_bind]
    have hrest := ih (fun o' ho' => hc o' (List.mem_cons_of_mem _ ho')) (total + o.width n)
      (by omega)
    rw [Nat.add_assoc] at hrest
    exact hrest

def chainRuns (src : Bytes) (draws : Nat → TagDraw) (i : Nat) (c : List Obf) : List Bytes :=
  c.mapIdx fun j o => o.run src (draws (i + j))

theorem chainRuns_cons (src : Bytes) (draws : Nat → TagDraw) (i : Nat) (o : Obf) (c : List Obf) :
    chainRuns src draws i (o :: c) = o.run src (draws i) :: chainRuns src draws (i + 1) c := by
  have hshift : (fun j (o : Obf) => o.run src (draws (i + (j + 1)))) =
      fun j o => o.run src (draws (i + 1 + j)) := by
    funext j o
    rw [show i + (j + 1) = i + 1 + j by omega]
  unfold chainRuns
  rw [List.mapIdx_cons, hshift]
  rfl

/-- **The runs are written one after another.** -/
theorem renderLoop_eq {c : List Obf} (hc : ∀ o ∈ c, o.Built) (src : Bytes)
    (draws : Nat → TagDraw) :
    ∀ (i : Nat) (done rest : Bytes),
      ((done.length + chainWidth c src.length : Nat) : Int) ≤ intMax →
      chainWidth c src.length ≤ rest.length →
      renderLoop src draws i done.length c (done ++ rest) =
        .ok (done ++ (chainRuns src draws i c).flatten ++ rest.drop (chainWidth c src.length)) := by
  induction c with
  | nil =>
    intro i done rest _ _
    rw [renderLoop]
    simp [chainRuns, chainWidth]
  | cons o c ih =>
    intro i done rest hsum hroom
    have hmin : intMin ≤ 0 := by decide
    have hrun := o.length_run src (draws i)
    rw [chainWidth_cons] at hsum hroom ⊢
    have hlen : (done ++ o.run src (draws i)).length = done.length + o.width src.length := by
      rw [List.length_append, hrun]
    have hnext : ((done.length : Int) + (o.width src.length : Int)) =
        ((done ++ o.run src (draws i)).length : Int) := by
      rw [hlen]
      rfl
    rw [renderLoop, tagOutLen_eq (hc o (List.mem_cons_self ..)) (by omega), ok_bind,
      renderTag_append o src (draws i) (by omega), ok_bind, int_eq (by omega), ok_bind, hnext,
      ih (fun o' ho' => hc o' (List.mem_cons_of_mem _ ho')) (i + 1) _ _
        (by rw [hlen]; omega) (by rw [List.length_drop]; omega),
      chainRuns_cons, List.flatten_cons, List.drop_drop, List.append_assoc done]

/-! ### What a run is -/

theorem bigEndian_sizeBytes (n : Nat) (v : UInt32) :
    bigEndian (sizeBytes n v) = v.toNat % 256 ^ n := by
  induction n generalizing v with
  | zero => simp [sizeBytes, bigEndian, Nat.mod_one]
  | succ n ih =>
    have hshift : (v >>> 8).toNat = v.toNat / 256 := by
      simp [UInt32.toNat_shiftRight, Nat.shiftRight_eq_div_pow]
    have hlow : bigEndian [v.toUInt8] = v.toNat % 256 := by
      simp [bigEndian]
    rw [sizeBytes, bigEndian_append, ih, hshift, hlow, List.length_singleton, Nat.pow_one,
      Nat.pow_succ', Nat.mod_mul, Nat.mul_comm, Nat.add_comm]

def isLetter (c : UInt8) : Bool := (97 ≤ c && c ≤ 122) || (65 ≤ c && c ≤ 90)

theorem isLetter_chars52 {k : Nat} (hk : k < 52) : isLetter (chars52.getD k 0) = true := by
  have hall : ∀ k : Fin 52, isLetter (chars52.getD k 0) = true := by
    decide +kernel
  exact hall ⟨k, hk⟩

theorem isDigit_digits10 {k : Nat} (hk : k < 10) : isDigit (digits10.getD k 0) = true := by
  have hall : ∀ k : Fin 10, isDigit (digits10.getD k 0) = true := by
    decide +kernel
  exact hall ⟨k, hk⟩

theorem fillRandomFrom_all {p : UInt8 → Bool} {alphabet : Bytes} {m : Nat} (hm : 0 < m)
    (hp : ∀ {k}, k < m → p (alphabet.getD k 0) = true) (e : Entropy) (n : Nat) :
    ∀ c ∈ fillRandomFrom e n alphabet m, p c = true := by
  intro c hc
  obtain ⟨b, -, rfl⟩ := List.mem_map.mp hc
  exact hp (Nat.mod_lt _ hm)

/-- What a tag has to contribute for a payload. -/
def Obf.Fills (o : Obf) (src : Bytes) (d : TagDraw) (run : Bytes) : Prop :=
  match o.kind with
  | .bytes => run = o.data
  | .rand => run = awgRandomBytes d.random run.length
  | .randChars => ∀ c ∈ run, isLetter c = true
  | .randDigits => ∀ c ∈ run, isDigit c = true
  | .timestamp => run.length = 4 ∧ bigEndian run = d.time.toNat % 4294967296
  | .data => run = src
  | .dataString => awgB64EncodeRaw src run.length = ((run.length : Int), run) ∧
      (∀ c ∈ run, c ∈ b64Alphabet) ∧ awgB64Decode run src.length = some src
  | .dataSize => bigEndian run = src.length % 256 ^ run.length

theorem Obf.fills_run {o : Obf} {src : Bytes} (hsrc : (src.length : Int) ≤ intMax) (d : TagDraw) :
    o.Fills src d (o.run src d) := by
  have hint : intMax < 4294967296 := by decide
  unfold Obf.Fills Obf.run
  cases o.kind with
  | bytes => rfl
  | data => rfl
  | rand => rw [length_awgRandomBytes]
  | randChars => exact fillRandomFrom_all (by omega) isLetter_chars52 d.random o.len.toNat
  | randDigits => exact fillRandomFrom_all (by omega) isDigit_digits10 d.random o.len.toNat
  | timestamp =>
    refine ⟨rfl, ?_⟩
    rw [bigEndian_le32]
    simp
  | dataString =>
    refine ⟨awgB64EncodeRaw_eq (le_refl _), fun c hc => mem_b64Text hc, ?_⟩
    exact b64DecodeLoop_text src [] 0 (by simp)
  | dataSize =>
    dsimp only
    rw [bigEndian_sizeBytes, length_sizeBytes,
      UInt32.toNat_ofNat_of_lt' (show _ < 4294967296 by omega)]

/-! ### What the parser returns

A line of a configuration is at most 8191 bytes long, so a bound on the width of a tag by
the number of its characters is a bound on the width of a chain.  A count is at most 2^20,
and a tag with a count takes five characters at least; the other tags are narrower for
theirs.
-/

theorem hexBytes_length : ∀ {s data : Bytes}, hexBytes s = some data → data.length = s.length / 2
  | [], data, h => by
    cases h
    rfl
  | [c], data, h => by
    cases h
    show 0 = 1 / 2
    omega
  | hi :: lo :: rest, data, h => by
    rw [hexBytes] at h
    split at h
    · cases h
    · obtain ⟨tail, htail, rfl⟩ := Option.map_eq_some_iff.mp h
      have ih := hexBytes_length htail
      simp only [List.length_cons, ih]
      omega

theorem length_skip0x_le (s : Bytes) : (skip0x s).length ≤ s.length := by
  unfold skip0x
  split
  · split
    · simp only [List.length_cons]
      omega
    · exact le_refl _
  · exact le_refl _

theorem buildBytes_spec {val : Bytes} {o : Obf} (h : buildBytes val = .ok o) :
    o.Built ∧ o.width 0 ≤ val.length := by
  unfold buildBytes at h
  dsimp only at h
  split at h
  · cases h
  · split at h
    · cases h
    · rename_i hlen
      split at h
      · cases h
      · rename_i data hdata
        have hdlen := hexBytes_length hdata
        have hskip := length_skip0x_le val
        cases h
        refine ⟨⟨rfl, ?_⟩, ?_⟩
        · intro hnil
          have hzero : data.length = 0 := by
            rw [show data = [] from hnil]
            rfl
          omega
        · show data.length ≤ val.length
          omega

/-- The tags that take a byte count. -/
def ObfKind.counts (k : ObfKind) : Bool :=
  k = .rand || k = .randChars || k = .randDigits || k = .dataSize

theorem Obf.counted {o : Obf} (hkind : o.kind.counts = true) :
    (o.Built ↔ 0 ≤ o.len ∧ o.len ≤ 1048576 ∧ o.data = []) ∧ ∀ n, o.width n = o.len.toNat := by
  unfold Obf.Built Obf.width
  cases hk : o.kind with
  | rand => exact ⟨Iff.rfl, fun _ => rfl⟩
  | randChars => exact ⟨Iff.rfl, fun _ => rfl⟩
  | randDigits => exact ⟨Iff.rfl, fun _ => rfl⟩
  | dataSize => exact ⟨Iff.rfl, fun _ => rfl⟩
  | bytes => rw [hk] at hkind; cases hkind
  | timestamp => rw [hk] at hkind; cases hkind
  | data => rw [hk] at hkind; cases hkind
  | dataString => rw [hk] at hkind; cases hkind

theorem buildCount_spec {kind : ObfKind} {key val : Bytes} {o : Obf}
    (h : buildCount kind key val = .ok o) :
    val ≠ [] ∧ o.kind = kind ∧ 0 ≤ o.len ∧ o.len ≤ 1048576 ∧ o.data = [] := by
  unfold buildCount at h
  dsimp only at h
  split at h
  · cases h
  · rename_i hval
    split at h
    · cases h
    · rename_i hok
      simp only [not_or, not_lt] at hok
      cases h
      exact ⟨hval, rfl, hok.2.2.1, hok.2.2.2, rfl⟩

/-- The characters of a tag between its brackets, at least. -/
def tagChars (key val : Bytes) : Nat := key.length + if val = [] then 0 else val.length + 1

/-- **A tag is well formed and not wide for its text**: up to 2^20 bytes for five
characters, with its brackets. -/
theorem buildTag_spec {key val : Bytes} {o : Obf} (h : buildTag key val = .ok o) :
    o.Built ∧ 5 * o.width 0 ≤ 1048576 * (tagChars key val + 2) := by
  have hcount : ∀ kind : ObfKind, kind.counts = true → 0 < key.length →
      buildCount kind key val = .ok o →
      o.Built ∧ 5 * o.width 0 ≤ 1048576 * (tagChars key val + 2) := by
    intro kind hkind hkey hb
    obtain ⟨hval, hk, hlen⟩ := buildCount_spec hb
    obtain ⟨hbuilt, hwidth⟩ := Obf.counted (o := o) (by rw [hk]; exact hkind)
    have hvlen := List.length_pos_iff.mpr hval
    refine ⟨hbuilt.mpr hlen, ?_⟩
    rw [hwidth, tagChars, if_neg hval]
    omega
  have hplain : ∀ kind : ObfKind, (⟨kind, 0, []⟩ : Obf).Built →
      (⟨kind, 0, []⟩ : Obf).width 0 ≤ 4 → (.ok ⟨kind, 0, []⟩ : Except Bytes Obf) = .ok o →
      o.Built ∧ 5 * o.width 0 ≤ 1048576 * (tagChars key val + 2) := by
    intro kind hbuilt hwidth heq
    cases heq
    exact ⟨hbuilt, by omega⟩
  unfold buildTag at h
  split at h
  · obtain ⟨hbuilt, hwidth⟩ := buildBytes_spec h
    refine ⟨hbuilt, ?_⟩
    rw [tagChars]
    split
    · rename_i hnil
      rw [hnil, List.length_nil] at hwidth
      omega
    · omega
  · split at h
    · exact hplain .timestamp ⟨rfl, rfl⟩ (by decide) h
    · split at h
      · exact hplain .data ⟨rfl, rfl⟩ (by decide) h
      · split at h
        · exact hplain .dataString ⟨rfl, rfl⟩ (by decide) h
        · split at h
          · rename_i hkey
            exact hcount .rand rfl (by rw [hkey]; decide) h
          · split at h
            · rename_i hkey
              exact hcount .randChars rfl (by rw [hkey]; decide) h
            · split at h
              · rename_i hkey
                exact hcount .randDigits rfl (by rw [hkey]; decide) h
              · split at h
                · rename_i hkey
                  exact hcount .dataSize rfl (by rw [hkey]; decide) h
                · cases h

/-- A tag's text has the characters of its key and its argument. -/
theorem tagChars_splitTag (tag : Bytes) :
    tagChars (splitTag tag).1 (splitTag tag).2 ≤ tag.length := by
  have hlead := List.length_dropWhile_le (fun c => decide (c = 32)) tag
  generalize hkey : tag.dropWhile (fun c => decide (c = 32)) = key at hlead
  have hsplit := congrArg List.length (List.takeWhile_append_dropWhile (p := fun c => decide (c ≠ 32))
    (l := key))
  rw [List.length_append] at hsplit
  unfold tagChars splitTag
  simp only [hkey]
  split
  · omega
  · rename_i hval
    -- what begins the argument is the space that ended the key
    cases hrest : key.dropWhile (fun c => decide (c ≠ 32)) with
    | nil =>
      rw [hrest] at hval
      exact absurd rfl hval
    | cons c rest =>
      have hc : c = 32 := by simpa using not_of_dropWhile hrest
      have hskip := List.length_dropWhile_le (fun c => decide (c = 32)) rest
      rw [hrest] at hsplit
      rw [hc, List.dropWhile_cons_of_pos (by simp)]
      rw [List.length_cons] at hsplit
      omega

theorem bind_eq_ok {ε α β : Type} {x : Except ε α} {k : α → Except ε β} {b : β}
    (h : (x >>= k) = .ok b) : ∃ a, x = .ok a ∧ k a = .ok b := by
  cases x with
  | error e => cases h
  | ok a => exact ⟨a, rfl, h⟩

/-- **Every tag of a parsed template is well formed, and all of them together are not wide
for its text.** -/
theorem obfLoop_spec (fuel : Nat) : ∀ {p : Bytes} {c : List Obf}, obfLoop fuel p = .ok c →
    (∀ o ∈ c, o.Built) ∧ 5 * chainWidth c 0 ≤ 1048576 * p.length := by
  induction fuel with
  | zero =>
    intro p c h
    cases h
    exact ⟨by simp, Nat.zero_le _⟩
  | succ fuel ih =>
    intro p c h
    have hskip := List.length_dropWhile_le (fun c => decide (c ≠ 60)) p
    rw [obfLoop] at h
    split at h
    · cases h
      exact ⟨by simp, Nat.zero_le _⟩
    · rename_i lt rest hlt
      rw [hlt, List.length_cons] at hskip
      split at h
      · rename_i hclosed
        obtain ⟨o, htag, h⟩ := bind_eq_ok h
        obtain ⟨tags, htags, h⟩ := bind_eq_ok h
        cases h
        obtain ⟨hbuilt, hwidth⟩ := buildTag_spec htag
        obtain ⟨hall, hsum⟩ := ih htags
        have hchars := tagChars_splitTag (rest.takeWhile fun c => decide (c ≠ 62))
        have hsplit := congrArg List.length
          (List.takeWhile_append_dropWhile (p := fun c => decide (c ≠ 62)) (l := rest))
        have hgt : 0 < (rest.dropWhile fun c => decide (c ≠ 62)).length := by
          rw [List.length_pos_iff]
          intro hnil
          have hno := List.dropWhile_eq_nil_iff.mp hnil 62 hclosed
          simp at hno
        rw [List.length_append] at hsplit
        rw [List.length_tail] at hsum
        refine ⟨?_, ?_⟩
        · intro o' ho'
          rcases List.mem_cons.mp ho' with rfl | ho'
          · exact hbuilt
          · exact hall o' ho'
        · rw [chainWidth_cons]
          omega
      · cases h

theorem awgObfParse_spec {spec : Bytes} {c : List Obf} (h : awgObfParse spec = .ok c) :
    (∀ o ∈ c, o.Built) ∧ 5 * chainWidth c 0 ≤ 1048576 * spec.length := by
  obtain ⟨tags, htags, h⟩ := bind_eq_ok h
  split at h
  · cases h
  · cases h
    exact obfLoop_spec _ htags

/-- **Rendering fills exactly its declared length.**  For every chain that the parser
returns and every payload for which the widths add up to an `int`, the declared length is
their sum, each tag writes its own run from the sum of the widths before it on, and the
rest of the buffer is untouched; and without a payload the widths of every template of one
line do add up to an `int`. -/
theorem awgObfRender_fills {spec : Bytes} {chain : List Obf} (hparse : awgObfParse spec = .ok chain) :
    (∀ (src dst : Bytes) (draws : Nat → TagDraw), (src.length : Int) ≤ intMax →
      (chainWidth chain src.length : Int) ≤ intMax → chainWidth chain src.length ≤ dst.length →
      awgObfOutLen chain src.length = .ok (chainWidth chain src.length : Int) ∧
      ∃ runs : List Bytes, runs.length = chain.length ∧
        awgObfRender chain dst src draws = .ok (runs.flatten ++ dst.drop (chainWidth chain src.length)) ∧
        ∀ (i : Nat) (o : Obf) (run : Bytes), chain[i]? = some o → runs[i]? = some run →
          run.length = o.width src.length ∧ o.Fills src (draws i) run) ∧
    (spec.length ≤ 8191 → (chainWidth chain 0 : Int) ≤ intMax) := by
  obtain ⟨hbuilt, hwidth⟩ := awgObfParse_spec hparse
  constructor
  · intro src dst draws hsrc hsum hroom
    have hout := outLenLoop_eq hbuilt src.length 0 (by omega)
    have hrender := renderLoop_eq hbuilt src draws 0 [] dst (by simpa using hsum) hroom
    rw [Nat.zero_add] at hout
    refine ⟨hout, chainRuns src draws 0 chain, ?_, hrender, ?_⟩
    · exact List.length_mapIdx
    · intro i o run ho hrun
      have hrun' : run = o.run src (draws i) := by
        simpa [chainRuns, ho] using hrun.symm
      subst hrun'
      exact ⟨o.length_run src (draws i), Obf.fills_run hsrc (draws i)⟩
  · intro hline
    simp only [intMax]
    omega

/-- A literal, the size of the payload and the payload itself, for four bytes. -/
theorem awgObfRender_fills_tags :
    awgObfParse (ascii "<b 0x0102><dz 2><ds>") =
        .ok [⟨.bytes, 0, [1, 2]⟩, ⟨.dataSize, 2, []⟩, ⟨.dataString, 0, []⟩] ∧
      awgObfOutLen [⟨.bytes, 0, [1, 2]⟩, ⟨.dataSize, 2, []⟩, ⟨.dataString, 0, []⟩] 4 = .ok 10 ∧
      (chainWidth [⟨.bytes, 0, [1, 2]⟩, ⟨.dataSize, 2, []⟩, ⟨.dataString, 0, []⟩] 0 : Int) ≤
        intMax := by
  have hparse : awgObfParse (ascii "<b 0x0102><dz 2><ds>") =
      .ok [⟨.bytes, 0, [1, 2]⟩, ⟨.dataSize, 2, []⟩, ⟨.dataString, 0, []⟩] := by rfl
  obtain ⟨hfills, hline⟩ := awgObfRender_fills hparse
  obtain ⟨hout, -⟩ := hfills [1, 2, 3, 4] (List.replicate 20 0) (fun _ => ⟨fun _ => 0, 0⟩)
    (by decide) (by decide) (by decide)
  exact ⟨hparse, hout, hline (by decide)⟩

end SysAwg
