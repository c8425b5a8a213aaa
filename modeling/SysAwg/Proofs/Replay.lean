/-
`replay_ok` over a whole sequence of counters.

The window starts out empty, and every counter that arrives is put to it.  What the
word and the highest counter stand for is the history of counters taken: one is taken
exactly when it is new and less than 64 behind the highest, the highest is the largest
taken, and the bits are the memory of the last 64.
-/
import SysAwg.Proofs.SessionSteps

namespace SysAwg

/-- A window with the counters it has taken, newest first. -/
structure ReplayHistory where
  drop : ReplayDrop
  max : UInt64
  bits : UInt64
  taken : List UInt64

def ReplayHistory.start (g : ReplayDrop) : ReplayHistory := ⟨g, 0, 0, []⟩

def ReplayHistory.offer (r : ReplayHistory) (ctr : UInt64) : ReplayHistory :=
  let v := replayOk r.drop r.max r.bits ctr
  ⟨v.drop, v.max, v.bits, if v.fresh then ctr :: r.taken else r.taken⟩

def ReplayHistory.feed (r : ReplayHistory) (ctrs : List UInt64) : ReplayHistory :=
  ctrs.foldl ReplayHistory.offer r

/-- The largest counter taken, 0 if none. -/
def highestTaken (taken : List UInt64) : Nat := taken.foldr (fun c m => max m c.toNat) 0

def takenSet (taken : List UInt64) : Set Nat := { n | ∃ c ∈ taken, c.toNat = n }

theorem takenSet_cons (c : UInt64) (taken : List UInt64) :
    takenSet (c :: taken) = insert c.toNat (takenSet taken) := by
  ext n
  simp [takenSet, eq_comm]

theorem toNat_mem_takenSet {c : UInt64} {taken : List UInt64} :
    c.toNat ∈ takenSet taken ↔ c ∈ taken := by
  constructor
  · intro h
    obtain ⟨d, hd, heq⟩ := h
    rwa [← UInt64.toNat_inj.mp heq]
  · intro h
    exact ⟨c, h, rfl⟩

/-- The window knows the counters taken, and its highest is the largest of them. -/
structure ReplayHistory.Exact (r : ReplayHistory) : Prop where
  tracks : (windowOf r.max r.bits).Tracks (takenSet r.taken)
  max_eq : r.max.toNat = highestTaken r.taken

theorem ReplayHistory.start_exact (g : ReplayDrop) : (ReplayHistory.start g).Exact where
  tracks := by
    have hnone : takenSet [] = ∅ := by simp [takenSet]
    show (windowOf 0 0).Tracks (takenSet [])
    rw [hnone]
    exact Window.empty_tracks
  max_eq := rfl

/-- One counter: taken or refused, the window still knows its history. -/
theorem ReplayHistory.Exact.offer {r : ReplayHistory} (h : r.Exact) (ctr : UInt64) :
    (r.offer ctr).Exact := by
  have hoffer := replayOk_offer r.drop r.max r.bits ctr
  by_cases hfresh : (replayOk r.drop r.max r.bits ctr).fresh = true
  · rw [if_pos hfresh] at hoffer
    have htaken : (r.offer ctr).taken = ctr :: r.taken := by
      show (if _ then _ else _) = _
      rw [if_pos hfresh]
    refine ⟨?_, ?_⟩
    · rw [htaken, takenSet_cons]
      exact h.tracks.offer hoffer
    · have hmax := Window.max_of_offer hoffer
      rw [htaken]
      show _ = Max.max (highestTaken r.taken) ctr.toNat
      rw [← h.max_eq]
      exact hmax
  · have hstale := replayOk_stale r.drop r.max r.bits ctr (by simpa using hfresh)
    have htaken : (r.offer ctr).taken = r.taken := by
      show (if _ then _ else _) = _
      rw [if_neg hfresh]
    have hmax : (r.offer ctr).max = r.max := hstale.1
    have hbits : (r.offer ctr).bits = r.bits := hstale.2
    refine ⟨?_, ?_⟩
    · rw [hmax, hbits, htaken]
      exact h.tracks
    · rw [hmax, htaken]
      exact h.max_eq

theorem ReplayHistory.Exact.feed {r : ReplayHistory} (h : r.Exact) (ctrs : List UInt64) :
    (r.feed ctrs).Exact := by
  induction ctrs generalizing r with
  | nil => exact h
  | cons c rest ih => exact ih (h.offer c)

/-- A window that knows its history takes what is new and within reach. -/
theorem ReplayHistory.Exact.fresh_iff {r : ReplayHistory} (h : r.Exact) (ctr : UInt64) :
    (replayOk r.drop r.max r.bits ctr).fresh = true ↔
      ctr ∉ r.taken ∧ highestTaken r.taken < ctr.toNat + 64 := by
  have hsome := h.tracks.offer_isSome_iff (by omega) ctr.toNat
  rw [toNat_mem_takenSet] at hsome
  have hmax : (windowOf r.max r.bits).max = highestTaken r.taken := h.max_eq
  rw [hmax] at hsome
  rw [← hsome, replayOk_offer r.drop]
  split
  · simp [*]
  · simp [*]

/--
**The replay window is exact.**  After any sequence of counters from the empty window,
the next one is taken if and only if it was not taken before and lies less than 64
behind the largest taken; `max` is that largest, and bit `i` of `bits` says whether the
counter `i` below it was taken.
-/
theorem replay_window_exact (g : ReplayDrop) (ctrs : List UInt64) :
    let r := (ReplayHistory.start g).feed ctrs
    (∀ ctr, (replayOk r.drop r.max r.bits ctr).fresh = true ↔
      ctr ∉ r.taken ∧ ctr.toNat + 64 > highestTaken r.taken) ∧
    r.max.toNat = highestTaken r.taken ∧
    ∀ i, i < 64 → i ≤ highestTaken r.taken →
      (r.bits.toNat.testBit i = true ↔
        UInt64.ofNat (highestTaken r.taken - i) ∈ r.taken) := by
  intro r
  have hexact : r.Exact := (ReplayHistory.start_exact g).feed ctrs
  refine ⟨?_, hexact.max_eq, ?_⟩
  · intro ctr
    exact hexact.fresh_iff ctr
  · intro i hi hle
    rw [← hexact.max_eq] at hle ⊢
    have hbit := hexact.tracks.bit_iff i hi hle
    have hsmall : r.max.toNat - i < 2 ^ 64 := by
      have := r.max.toNat_lt
      omega
    have hcounter : (UInt64.ofNat (r.max.toNat - i)).toNat = r.max.toNat - i :=
      UInt64.toNat_ofNat_of_lt' hsmall
    rw [← toNat_mem_takenSet, hcounter]
    exact hbit

/-- Reordered, repeated and stale counters, and the first counter 0. -/
example : ((ReplayHistory.start ⟨0, false⟩).feed [0, 0, 70, 7, 6, 70, 8]).taken
    = [8, 7, 70, 0] := by decide

end SysAwg
