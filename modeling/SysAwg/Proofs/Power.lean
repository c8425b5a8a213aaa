/-
Power events: what a poll examines, and what it can miss.

After a poll that succeeds, `g_last_end` stands at the end of the log, whatever the service
gave.  So no entry is looked at twice; and an entry that was asked for and not given is
never asked for again.  One lemma says what a poll does; what holds over a run follows from
where `g_last_end` stands.

Polls are therefore told apart by whether an entry that was due was among those given.
Entries are due to one poll each, so what a run reports is the sum of what its polls do,
and it is right exactly if every poll is.
-/
import SysAwg.Power

namespace SysAwg

open PlayEventType

/-- Entry `k` is one a poll should look at: new since the last one, still available and
among the sixteen newest. -/
structure Asked (p : Power) (e : PowerEnv) (k : Nat) : Prop where
  new : p.lastEnd < k
  available : e.first ≤ k
  recent : e.log.length ≤ k + 16
  logged : k < e.log.length

/-- The service gives entry `k` to a poll: its calls succeed, and `k` is among the first
`limit` of the entries asked for. -/
structure Given (p : Power) (e : PowerEnv) (k : Nat) : Prop where
  asked : Asked p e k
  rangeOk : e.rangeOk = true
  queryOk : e.queryOk = true
  within : (k : Int) < askFrom p.lastEnd e.first (e.log.length - 1) + e.limit

/-- Entry `k` records a power transition. -/
def PowerEnv.IsPower (e : PowerEnv) (k : Nat) : Prop := e.log[k]? = some powerStateChange

theorem PowerEnv.IsPower.lt {e : PowerEnv} {k : Nat} (h : e.IsPower k) : k < e.log.length :=
  (List.getElem?_eq_some_iff.mp h).1

/-! ### One poll

A poll has several exits, and all of them either leave `g_last_end` where it was or put it
at the end of the log.  Which entries it looked at in between is the other half of what
there is to say.
-/

/-- What is asked for begins with the oldest entry a poll should look at. -/
theorem askFrom_le {lastEnd first last start : Int} (h : askFrom lastEnd first last = start)
    (k : Nat) : start ≤ k ↔ lastEnd < k ∧ last - 15 ≤ k ∧ first ≤ k := by
  subst h
  unfold askFrom eventBatch
  dsimp only
  split
  all_goals split
  all_goals split
  all_goals omega

theorem askFrom_nonneg (lastEnd first last : Int) : 0 ≤ askFrom lastEnd first last := by
  unfold askFrom
  dsimp only
  split
  all_goals omega

/-- What a poll of a log that has been seen up to `g_last_end` does. -/
structure PowerSpec (p : Power) (e : PowerEnv) (out : PowerOut) : Prop where
  ok : out.power.ok = true
  kept : out.failed = true → out.power = p
  atEnd : out.failed = false → out.power.lastEnd = e.log.length - 1
  read : ∀ k, k ∈ out.read ↔ Given p e k
  result : out.result = true ↔ ∃ k ∈ out.read, e.IsPower k
  quiet : out.failed = true → out.read = []
  calls : ∀ k, Asked p e k → (out.failed = false ↔ e.rangeOk = true ∧ e.queryOk = true)

/-- An exit that gives no entry. -/
theorem PowerSpec.none {p : Power} {e : PowerEnv} {q : Power} {failed : Bool} (hok : q.ok = true)
    (hkept : failed = true → q = p) (hlast : failed = false → q.lastEnd = e.log.length - 1)
    (hasked : ∀ k, Asked p e k → failed = true ∧ ¬ (e.rangeOk = true ∧ e.queryOk = true)) :
    PowerSpec p e ⟨q, false, failed, []⟩ := by
  refine ⟨hok, hkept, hlast, ?_, by simp, fun _ => rfl, ?_⟩
  · intro k
    refine iff_of_false (by simp) ?_
    intro hk
    exact (hasked k hk.asked).2 ⟨hk.rangeOk, hk.queryOk⟩
  · intro k hk
    obtain ⟨rfl, hcalls⟩ := hasked k hk
    exact iff_of_false (by simp) hcalls

theorem awgPowerTransition_spec {p : Power} (hok : p.ok = true) (hend : 0 ≤ p.lastEnd)
    {e : PowerEnv} (hlog : p.lastEnd < e.log.length) : PowerSpec p e (awgPowerTransition p e) := by
  unfold awgPowerTransition
  rw [hok]
  simp only [Bool.not_true, Bool.false_eq_true, if_false]
  split
  · rename_i hrange
    exact .none hok (fun _ => rfl) (by simp) fun k _ => ⟨rfl, fun h => by simp [h.1] at hrange⟩
  · rename_i hrange
    split
    · rename_i hold
      refine .none hok (by simp) (fun _ => by omega) ?_
      intro k hk
      have hnew := hk.new
      have hlogged := hk.logged
      omega
    · rw [if_neg (by omega)]
      have hnonneg := askFrom_nonneg p.lastEnd e.first (e.log.length - 1)
      generalize hstart : askFrom p.lastEnd e.first (e.log.length - 1) = start at hnonneg ⊢
      have holdest := askFrom_le hstart
      have hrecent := ((holdest start.toNat).mp (by omega)).2.1
      have hwant : askWant start (e.log.length - 1) = e.log.length - start := by
        unfold askWant eventBatch
        dsimp only
        split
        · omega
        · omega
      have hasked : ∀ k, Asked p e k ↔ start ≤ k ∧ k < e.log.length := by
        intro k
        rw [holdest k]
        constructor
        · intro hk
          have hrecent := hk.recent
          exact ⟨⟨hk.new, by omega, hk.available⟩, hk.logged⟩
        · rintro ⟨⟨hnew, hrecent, havail⟩, hlogged⟩
          exact ⟨hnew, havail, by omega, hlogged⟩
      rw [hwant]
      split
      · refine .none rfl (by simp) (fun _ => rfl) ?_
        intro k hk
        have hk := (hasked k).mp hk
        omega
      · split
        · rename_i hquery
          exact .none hok (fun _ => rfl) (by simp) fun k _ => ⟨rfl, fun h => by simp [h.2] at hquery⟩
        · rename_i hquery
          have hcalls : e.rangeOk = true ∧ e.queryOk = true := by
            simp only [Bool.not_eq_true', Bool.not_eq_false] at hrange hquery
            exact ⟨hrange, hquery⟩
          refine ⟨rfl, by simp, fun _ => rfl, ?_, ?_, by simp, fun _ _ => iff_of_true rfl hcalls⟩
          · intro k
            simp only [List.mem_map, List.mem_range]
            constructor
            · rintro ⟨i, hi, rfl⟩
              exact ⟨(hasked _).mpr (by omega), hcalls.1, hcalls.2, by rw [hstart]; omega⟩
            · intro hk
              have hplace := (hasked k).mp hk.asked
              have hwithin := hk.within
              rw [hstart] at hwithin
              exact ⟨k - start.toNat, by omega, by omega⟩
          · simp only [List.any_eq_true, beq_iff_eq]
            rfl

/-! ### Runs

Polls of a log that only grows divide it up: every entry lies between the ends that two
polls found, and the later of the two is the one to look at it.  Whether it does depends on
that poll alone.
-/

/-- A poll of a run, with the polls before it. -/
theorem polls_split {p : Power} {es : List PowerEnv} {older newer : List PowerRecord}
    {r : PowerRecord} (h : polls p es = older ++ r :: newer) :
    ∃ es₁ e es₂, es = es₁ ++ e :: es₂ ∧ older = polls p es₁ ∧
      r = ⟨e, powerAfter p es₁, awgPowerTransition (powerAfter p es₁) e⟩ := by
  induction es generalizing p older with
  | nil =>
    have hlen := congrArg List.length h
    simp [polls] at hlen
  | cons e es ih =>
    cases older with
    | nil =>
      injection h with hr hrest
      exact ⟨[], e, es, rfl, rfl, hr.symm⟩
    | cons q older =>
      injection h with hq hrest
      obtain ⟨es₁, e', es₂, rfl, rfl, hr⟩ := ih hrest
      refine ⟨e :: es₁, e', es₂, rfl, ?_, hr⟩
      rw [← hq]
      rfl

/-- The state after some polls, seen from the state `p` they began in: `g_last_end` stands
where the newest poll without a failed call found the end of the log. -/
structure Stands (p : Power) (rs : List PowerRecord) (p' : Power) : Prop where
  ok : p'.ok = true
  forward : p.lastEnd ≤ p'.lastEnd
  covers : ∀ r ∈ rs, r.out.failed = false → (r.env.log.length : Int) ≤ p'.lastEnd + 1
  newest : p'.lastEnd = p.lastEnd ∨
    ∃ r ∈ rs, r.out.failed = false ∧ (r.env.log.length : Int) = p'.lastEnd + 1

/-- The log only grows from poll to poll. -/
def AppendOnly (es : List PowerEnv) : Prop := (es.map PowerEnv.log).Pairwise (· <+: ·)

theorem AppendOnly.length_le {e : PowerEnv} {es : List PowerEnv} (h : AppendOnly (e :: es)) :
    ∀ e' ∈ es, e.log.length ≤ e'.log.length := by
  intro e' he'
  exact ((List.pairwise_cons.mp h).1 _ (List.mem_map_of_mem he')).length_le

/-- What polls may begin with: the log has been seen up to `g_last_end`, and only grows. -/
structure Watching (p : Power) (es : List PowerEnv) : Prop where
  ok : p.ok = true
  nonneg : 0 ≤ p.lastEnd
  seen : ∀ e ∈ es, p.lastEnd < e.log.length
  growing : AppendOnly es

theorem Watching.spec {p : Power} {e : PowerEnv} {es : List PowerEnv} (h : Watching p (e :: es)) :
    PowerSpec p e (awgPowerTransition p e) :=
  awgPowerTransition_spec h.ok h.nonneg (h.seen e (List.mem_cons_self ..))

/-- A poll moves `g_last_end` to the end of its log, or not at all. -/
theorem PowerSpec.moved {p : Power} {e : PowerEnv} {out : PowerOut} (h : PowerSpec p e out) :
    out.failed = true ∧ out.power = p ∨
      out.failed = false ∧ out.power.lastEnd = e.log.length - 1 := by
  cases hfailed : out.failed with
  | true => exact .inl ⟨rfl, h.kept hfailed⟩
  | false => exact .inr ⟨rfl, h.atEnd hfailed⟩

theorem Watching.forward {p : Power} {e : PowerEnv} {es : List PowerEnv}
    (h : Watching p (e :: es)) : p.lastEnd ≤ (awgPowerTransition p e).power.lastEnd := by
  have hhere := h.seen e (List.mem_cons_self ..)
  rcases h.spec.moved with ⟨-, hsame⟩ | ⟨-, hlast⟩
  · exact Int.le_of_eq (congrArg Power.lastEnd hsame.symm)
  · omega

theorem Watching.next {p : Power} {e : PowerEnv} {es : List PowerEnv} (h : Watching p (e :: es)) :
    Watching (awgPowerTransition p e).power es where
  ok := h.spec.ok
  nonneg := Int.le_trans h.nonneg h.forward
  seen := by
    intro e' he'
    have hgrow := h.growing.length_le e' he'
    rcases h.spec.moved with ⟨-, hsame⟩ | ⟨-, hlast⟩
    · rw [hsame]
      exact h.seen e' (List.mem_cons_of_mem _ he')
    · omega
  growing := (List.pairwise_cons.mp h.growing).2

theorem Watching.specs {es : List PowerEnv} :
    ∀ {p : Power}, Watching p es → ∀ r ∈ polls p es, PowerSpec r.before r.env r.out := by
  induction es with
  | nil =>
    intro p _ r hr
    cases hr
  | cons e es ih =>
    intro p h r hr
    rcases List.mem_cons.mp hr with rfl | hr
    · exact h.spec
    · exact ih h.next r hr

/-- **Where `g_last_end` stands after any polls.** -/
theorem Watching.stands {es : List PowerEnv} :
    ∀ {p : Power}, Watching p es → Stands p (polls p es) (powerAfter p es) := by
  induction es with
  | nil =>
    intro p h
    exact ⟨h.ok, Int.le_refl _, by simp [polls], .inl rfl⟩
  | cons e es ih =>
    intro p h
    have hrest : Stands (awgPowerTransition p e).power (polls (awgPowerTransition p e).power es)
        (powerAfter p (e :: es)) := ih h.next
    have hspec := h.spec
    have hstep := hrest.forward
    refine ⟨hrest.ok, Int.le_trans h.forward hstep, ?_, ?_⟩
    · intro r hr hgood
      rcases List.mem_cons.mp hr with rfl | hr
      · have hlast := hspec.atEnd hgood
        show (e.log.length : Int) ≤ _
        omega
      · exact hrest.covers r hr hgood
    · rcases hrest.newest with hsame | ⟨r, hr, hgood⟩
      · rcases hspec.moved with ⟨-, hkept⟩ | ⟨hgood, hlast⟩
        · exact .inl (by rw [hsame, hkept])
        · refine .inr ⟨⟨e, p, awgPowerTransition p e⟩, List.mem_cons_self .., hgood, ?_⟩
          show (e.log.length : Int) = _
          omega
      · exact .inr ⟨r, List.mem_cons_of_mem _ hr, hgood⟩

/-- What a poll reads lies above `g_last_end` and below what later polls read. -/
theorem Watching.read_once {es : List PowerEnv} :
    ∀ {p : Power}, Watching p es →
      (polls p es).Pairwise (fun q r => ∀ k ∈ q.out.read, k ∉ r.out.read) ∧
        ∀ r ∈ polls p es, ∀ k ∈ r.out.read, p.lastEnd < k := by
  induction es with
  | nil =>
    intro p _
    exact ⟨List.Pairwise.nil, by simp [polls]⟩
  | cons e es ih =>
    intro p h
    have hspec := h.spec
    have hforward := h.forward
    obtain ⟨honce, habove⟩ := ih h.next
    refine ⟨List.Pairwise.cons ?_ honce, ?_⟩
    · intro r hr k hk hk'
      have hlater := habove r hr k hk'
      have hlogged := ((hspec.read k).mp hk).asked.logged
      rcases hspec.moved with ⟨hfailed, -⟩ | ⟨-, hlast⟩
      · rw [hspec.quiet hfailed] at hk
        cases hk
      · omega
    · intro r hr k hk
      rcases List.mem_cons.mp hr with rfl | hr
      · exact ((hspec.read k).mp hk).asked.new
      · have hlater := habove r hr k hk
        omega

/-! ### What is noticed

An entry is due at a poll if it came after the baseline and after the end of every log that
an earlier poll without a failed call saw, and is still available and among the sixteen
newest.  That is said without `g_last_end`; in a run it is the same as being asked for,
because `g_last_end` stands at the newest of those ends.
-/

/-- Poll `r`, after the polls `older`, should report entry `k`. -/
structure Due (n : Nat) (older : List PowerRecord) (r : PowerRecord) (k : Nat) : Prop where
  baseline : n ≤ k
  new : ∀ q ∈ older, q.out.failed = false → q.env.log.length ≤ k
  power : r.env.IsPower k
  available : r.env.first ≤ k
  recent : r.env.log.length ≤ k + 16

/-- Power events are neither missed nor reported twice, after a baseline of `n` entries. -/
structure PowerFaithful (n : Nat) (rs : List PowerRecord) : Prop where
  /-- An entry that is due makes a poll without a failed call return true. -/
  noticed : ∀ (older newer : List PowerRecord) (r : PowerRecord), rs = older ++ r :: newer →
    r.out.failed = false → ∀ k, Due n older r k → r.out.result = true
  /-- No entry is given to two polls. -/
  once : rs.Pairwise fun q r => ∀ k ∈ q.out.read, k ∉ r.out.read
  /-- A failed call leaves `g_last_end`. -/
  kept : ∀ r ∈ rs, r.out.failed = true → r.out.power.lastEnd = r.before.lastEnd
  /-- A poll returns true only for an entry that was due and that it was given. -/
  only : ∀ (older newer : List PowerRecord) (r : PowerRecord), rs = older ++ r :: newer →
    r.out.result = true → ∃ k ∈ r.out.read, Due n older r k

/-- If a poll whose calls succeed asks for power transitions, the service gives it one. -/
def Complete (p : Power) (e : PowerEnv) : Prop :=
  e.rangeOk = true → e.queryOk = true → ∀ k, Asked p e k → e.IsPower k →
    ∃ j, Given p e j ∧ e.IsPower j

theorem Watching.init {p : Power} {es es' : List PowerEnv} (h : Watching p (es ++ es')) :
    Watching p es where
  ok := h.ok
  nonneg := h.nonneg
  seen := fun e he => h.seen e (List.mem_append_left _ he)
  growing := by
    have hgrowing := h.growing
    unfold AppendOnly at hgrowing ⊢
    rw [List.map_append] at hgrowing
    exact (List.pairwise_append.mp hgrowing).1

section Run

variable {p : Power} {es : List PowerEnv} {n : Nat}

theorem Watching.due_iff (h : Watching p es) (hn : (n : Int) = p.lastEnd + 1)
    {older newer : List PowerRecord} {r : PowerRecord} (hsplit : polls p es = older ++ r :: newer)
    (k : Nat) : Due n older r k ↔ Asked r.before r.env k ∧ r.env.IsPower k := by
  obtain ⟨es₁, e, es₂, rfl, rfl, rfl⟩ := polls_split hsplit
  have hstands := h.init.stands
  constructor
  · intro hdue
    -- entry `k` was not in the log when `g_last_end` was set
    have hnew : (powerAfter p es₁).lastEnd < k := by
      rcases hstands.newest with hsame | ⟨q, hq, hqgood, hqlen⟩
      · have hbaseline := hdue.baseline
        omega
      · have hqk := hdue.new q hq hqgood
        omega
    exact ⟨⟨hnew, hdue.available, hdue.recent, hdue.power.lt⟩, hdue.power⟩
  · rintro ⟨hk, hpower⟩
    have hnew := hk.new
    have hforward := hstands.forward
    dsimp only at hnew
    refine ⟨by omega, ?_, hpower, hk.available, hk.recent⟩
    intro q hq hqgood
    have hcovers := hstands.covers q hq hqgood
    omega

/-- **A run notices every transition it should exactly if the service leaves none out.** -/
theorem Watching.faithful_iff (h : Watching p es) (hn : (n : Int) = p.lastEnd + 1) :
    PowerFaithful n (polls p es) ↔ ∀ r ∈ polls p es, Complete r.before r.env := by
  have hspecs := h.specs
  constructor
  · intro hfaithful r hr hrange hquery k hk hpower
    have hspec := hspecs r hr
    have hgood := (hspec.calls k hk).mpr ⟨hrange, hquery⟩
    obtain ⟨older, newer, hsplit⟩ := List.append_of_mem hr
    have hdue := (h.due_iff hn hsplit k).mpr ⟨hk, hpower⟩
    obtain ⟨j, hj, hpower⟩ := hspec.result.mp (hfaithful.noticed _ _ _ hsplit hgood k hdue)
    exact ⟨j, (hspec.read j).mp hj, hpower⟩
  · intro hcomplete
    have hmem : ∀ {older newer : List PowerRecord} {r : PowerRecord},
        polls p es = older ++ r :: newer → r ∈ polls p es := by
      intro older newer r hsplit
      rw [hsplit]
      exact List.mem_append_right _ (List.mem_cons_self ..)
    refine ⟨?_, h.read_once.1, ?_, ?_⟩
    · intro older newer r hsplit hgood k hdue
      have hspec := hspecs r (hmem hsplit)
      obtain ⟨hk, hpower⟩ := (h.due_iff hn hsplit k).mp hdue
      obtain ⟨hrange, hquery⟩ := (hspec.calls k hk).mp hgood
      obtain ⟨j, hj, hpower⟩ := hcomplete r (hmem hsplit) hrange hquery k hk hpower
      exact hspec.result.mpr ⟨j, (hspec.read j).mpr hj, hpower⟩
    · intro r hr hfailed
      rw [(hspecs r hr).kept hfailed]
    · intro older newer r hsplit hresult
      have hspec := hspecs r (hmem hsplit)
      obtain ⟨k, hk, hpower⟩ := hspec.result.mp hresult
      exact ⟨k, hk, (h.due_iff hn hsplit k).mpr ⟨((hspec.read k).mp hk).asked, hpower⟩⟩

end Run

/-- The first poll that finds a log marks its end and reports nothing. -/
theorem awgPowerTransition_baseline {base : PowerEnv} (hrange : base.rangeOk = true)
    (hlog : base.log ≠ []) :
    awgPowerTransition awgPowerStart base = ⟨⟨true, base.log.length - 1⟩, false, false, []⟩ := by
  have hlen := List.length_pos_iff.mpr hlog
  unfold awgPowerTransition awgPowerStart
  rw [hrange]
  simp only [Bool.not_true, Bool.false_eq_true, if_false]
  rw [if_neg (by omega), if_pos (by omega)]

/-- **Power events are neither missed nor reported twice, exactly if every poll that asks
for power transitions, and whose calls succeed, is given one.**  The run begins with any
poll that sets the baseline; calls fail at any time, and the log grows in any way. -/
theorem powerFaithful_iff {base : PowerEnv} {es : List PowerEnv} (hrange : base.rangeOk = true)
    (hlog : base.log ≠ []) (happend : AppendOnly (base :: es)) :
    PowerFaithful base.log.length (polls (awgPowerTransition awgPowerStart base).power es) ↔
      ∀ r ∈ polls (awgPowerTransition awgPowerStart base).power es, Complete r.before r.env := by
  have hlen := List.length_pos_iff.mpr hlog
  rw [awgPowerTransition_baseline hrange hlog]
  refine Watching.faithful_iff ⟨rfl, ?_, ?_, (List.pairwise_cons.mp happend).2⟩ ?_
  · show 0 ≤ (base.log.length : Int) - 1
    omega
  · intro e he
    have hgrow := happend.length_le e he
    show (base.log.length : Int) - 1 < _
    omega
  · show (base.log.length : Int) = base.log.length - 1 + 1
    omega

/-- A log with one entry in it when the baseline is set. -/
def oneEntry : PowerEnv := ⟨[other], true, 0, true, 16⟩

/-- A transition follows, and the service gives what it is asked for. -/
theorem powerFaithful_given :
    PowerFaithful 1 (polls (awgPowerTransition awgPowerStart oneEntry).power
      [⟨[other, powerStateChange], true, 0, true, 16⟩]) := by
  have hrange : oneEntry.rangeOk = true := rfl
  refine (powerFaithful_iff hrange (by decide) ?_).mpr ?_
  · unfold AppendOnly
    decide
  · intro r hr _ _ k hk hpower
    obtain rfl := List.mem_singleton.mp hr
    have hlogged := hk.logged
    exact ⟨k, ⟨hk, rfl, rfl, by change k < 2 at hlogged; show (k : Int) < 1 + 16; omega⟩, hpower⟩

/-- Two entries follow, the second a transition; the service gives one of them, and then
whatever it is asked for: the transition is never reported. -/
theorem power_event_missed :
    ¬ ∀ (base : PowerEnv) (es : List PowerEnv), base.rangeOk = true → base.log ≠ [] →
      AppendOnly (base :: es) →
      PowerFaithful base.log.length (polls (awgPowerTransition awgPowerStart base).power es) := by
  intro h
  have happend : AppendOnly [oneEntry, ⟨[other, other, powerStateChange], true, 0, true, 1⟩,
      ⟨[other, other, powerStateChange], true, 0, true, 16⟩] := by
    unfold AppendOnly
    decide
  have hfaithful := h _ _ rfl (by decide) happend
  have hresult := hfaithful.noticed [] _ _ rfl rfl 2
    ⟨by decide, by simp, rfl, by decide, by decide⟩
  revert hresult
  decide

end SysAwg
