/-
Every connection is counted once, or twice.

`conn_close` says what the counters are for: accepted must equal completed, failed, closed
and live together.  It counts a close whenever it is given a reason, and five of its
callers have counted the connection as failed before.  So the sum is too large by the
number of connections that ended there, and exactly by that.

The balance is an invariant of moves: accepted connections and double failures on one
side, all counters and the live connections on the other.  Between a failure and the close
that follows it, it still holds, because a failure puts one on each side; and where the
number of double failures is zero it is the equation of the source.
-/
import SysAwg.Proofs.ProxyWalk
import SysAwg.Lib.History
import Mathlib.Data.Fintype.Fin

namespace SysAwg

open History

/-! ### What the history says

There are six ways to be counted as failed.  After five of them the connection is closed
with a reason, which counts it again.  Only after the err callback the slot is simply free.
-/

/-- How connections were counted as failed since the proxy was last started. -/
def failures : List Event → List Failure :=
  since (fun
    | .start => true
    | _ => false) fun
    | .failed _ how => [how]
    | _ => []

/-- The failures that go on to a close with a reason. -/
def doubles (t : List Event) : Nat := (failures t).countP fun how => decide (how ≠ .lwipErr)

/-- An entry that the accounting depends on. -/
def Event.counts : Event → Bool
  | .start | .stop | .failed .. => true
  | _ => false

theorem running_quiet {l : List Event} (h : ∀ e ∈ l, e.counts = false) (t : List Event) :
    running (l ++ t) = running t := by
  induction l with
  | nil => rfl
  | cons e rest ih =>
      have he := h e (by simp)
      rw [List.cons_append, ← ih fun x hx => h x (by simp [hx])]
      cases e <;> first | rfl | cases he

theorem doubles_quiet {l : List Event} (h : ∀ e ∈ l, e.counts = false) (t : List Event) :
    doubles (l ++ t) = doubles t := by
  unfold doubles failures
  rw [since_quiet]
  intro e he
  have hq := h e he
  cases e <;> first | exact ⟨rfl, rfl⟩ | cases hq

theorem doubles_failed (i : Slot) (how : Failure) (t : List Event) :
    doubles (.failed i how :: t) = doubles t + if how = .lwipErr then 0 else 1 := by
  unfold doubles failures
  rw [since_cons rfl, List.countP_append]
  by_cases hhow : how = .lwipErr <;> simp [hhow]

/-! ### Live connections -/

section Live

variable {w w' : World} {i : Slot} {c : Conn}

/-- The slots that are taken. -/
def busySlots (w : World) : Finset Slot := Finset.univ.filter fun i => (w.conn i).st ≠ .free

theorem awgProxyLive_eq (w : World) : awgProxyLive w = (busySlots w).card := by
  unfold awgProxyLive busySlots
  rw [List.countP_eq_length_filter]
  rfl

theorem live_same (h : ∀ j, (w'.conn j).st = .free ↔ (w.conn j).st = .free) :
    awgProxyLive w' = awgProxyLive w := by
  rw [awgProxyLive_eq, awgProxyLive_eq]
  congr 1
  ext j
  simp [busySlots, h j]

/-- A slot that stays taken, or free. -/
theorem live_update (hconn : w'.conn = Function.update w.conn i c)
    (hst : c.st = .free ↔ (w.conn i).st = .free) : awgProxyLive w' = awgProxyLive w := by
  refine live_same ?_
  intro j
  rw [hconn]
  by_cases hj : j = i
  · subst hj
    rw [Function.update_self]
    exact hst
  · rw [Function.update_of_ne hj]

theorem live_taken (hconn : w'.conn = Function.update w.conn i c) (hfree : (w.conn i).st = .free)
    (hc : c.st ≠ .free) : awgProxyLive w' = awgProxyLive w + 1 := by
  have hbusy : busySlots w' = insert i (busySlots w) := by
    ext j
    simp only [busySlots, hconn, Finset.mem_filter, Finset.mem_univ, true_and, Finset.mem_insert]
    by_cases hj : j = i
    · subst hj
      simp [hc]
    · simp [hj]
  rw [awgProxyLive_eq, awgProxyLive_eq, hbusy, Finset.card_insert_of_notMem]
  simp [busySlots, hfree]

theorem live_closed (hconn : w'.conn = Function.update w.conn i c) (hbusy : (w.conn i).st ≠ .free)
    (hc : c.st = .free) : awgProxyLive w' + 1 = awgProxyLive w := by
  -- the other way round the slot is taken
  refine (live_taken (w := w') (i := i) (c := w.conn i) ?_ ?_ hbusy).symm
  · rw [hconn, Function.update_idem, Function.update_eq_self]
  · rw [hconn, Function.update_self]
    exact hc

end Live

/-! ### The balance

The balance is kept by every change: one that takes a slot adds to both sides, one that
frees a slot moves a connection from the live ones to a counter, and a double failure adds
one to both again.
-/

/-- While the proxy runs, the counters add up to the accepted connections and the double
failures. -/
def Accounted (w : World) : Prop :=
  running w.trace = true →
    w.stats.accepted + doubles w.trace
      = w.stats.completed + w.stats.failed + w.stats.closed + awgProxyLive w

section Steps

variable {w w' : World} {i : Slot} {c : Conn} {l : List Event}

theorem Accounted.keep (h : Accounted w) (hlive : awgProxyLive w' = awgProxyLive w)
    (htrace : w'.trace = l ++ w.trace) (hnew : ∀ e ∈ l, e.counts = false)
    (hstats : w'.stats.accepted = w.stats.accepted ∧ w'.stats.completed = w.stats.completed ∧
      w'.stats.failed = w.stats.failed ∧ w'.stats.closed = w.stats.closed) : Accounted w' := by
  intro hrun
  rw [htrace, running_quiet hnew] at hrun
  obtain ⟨ha, hc, hf, hd⟩ := hstats
  rw [htrace, doubles_quiet hnew, hlive, ha, hc, hf, hd]
  exact h hrun

theorem Accounted.rewrite (h : Accounted w) (hconn : w'.conn = Function.update w.conn i c)
    (hst : c.st = .free ↔ (w.conn i).st = .free) (htrace : w'.trace = l ++ w.trace)
    (hnew : ∀ e ∈ l, e.counts = false)
    (hstats : w'.stats.accepted = w.stats.accepted ∧ w'.stats.completed = w.stats.completed ∧
      w'.stats.failed = w.stats.failed ∧ w'.stats.closed = w.stats.closed) : Accounted w' :=
  h.keep (live_update hconn hst) htrace hnew hstats

/-- A connection ends and is counted once. -/
theorem Accounted.ended (h : Accounted w) (hbusy : (w.conn i).st ≠ .free)
    (hconn : w'.conn = Function.update w.conn i Conn.blank)
    (hrun : running w'.trace = running w.trace) (hdoubles : doubles w'.trace = doubles w.trace)
    (haccepted : w'.stats.accepted = w.stats.accepted)
    (hsum : w'.stats.completed + w'.stats.failed + w'.stats.closed
      = w.stats.completed + w.stats.failed + w.stats.closed + 1) : Accounted w' := by
  intro hr
  have hlive := live_closed hconn hbusy rfl
  have hb := h (hrun.symm.trans hr)
  omega

theorem connClose_quiet (w : World) (i : Slot) (why : Option Why) :
    running (connClose w i why).trace = running w.trace ∧
      doubles (connClose w i why).trace = doubles w.trace := by
  obtain ⟨new, htrace, htouch⟩ := connClose_adds w i why
  have hquiet : ∀ e ∈ new, e.counts = false := by
    intro e he
    obtain ⟨x, live, arg, rfl⟩ := htouch e he
    rfl
  rw [htrace]
  exact ⟨running_quiet hquiet w.trace, doubles_quiet hquiet w.trace⟩

/-- A close for a reason counts as closed. -/
theorem Accounted.close (h : Accounted w) (i : Slot) (why : Why) :
    Accounted (connClose w i (some why)) := by
  by_cases hst : (w.conn i).st = .free
  · rwa [connClose_free hst]
  · obtain ⟨hrun, hdoubles⟩ := connClose_quiet w i (some why)
    have hstats := connClose_stats hst (some why)
    refine h.ended hst (connClose_conn hst _) hrun hdoubles ?_ ?_
    · rw [hstats]
    · rw [hstats]
      dsimp only
      omega

theorem accounted_start (w : World) (fd : Int) : Accounted (awgProxyStart w fd) := by
  intro _
  have hlive : awgProxyLive (awgProxyStart w fd) = 0 := by
    rw [awgProxyLive_eq, Finset.card_eq_zero]
    simp [busySlots, awgProxyStart]
  rw [hlive]
  rfl

end Steps

theorem Accounted.move {w w' : World} (ht : TableOk w) (h : Accounted w) (m : Move w w') :
    Accounted w' := by
  cases m with
  | note f hf => exact h.keep (l := []) rfl rfl (by simp) (hf w.stats)
  | unasked | blocks | dropped | taken | listening =>
      exact h.keep (l := []) rfl rfl (by simp) ⟨rfl, rfl, rfl, rfl⟩
  | reclaimed | touched =>
      exact h.keep (l := [_]) rfl rfl (by simp [Event.counts]) ⟨rfl, rfl, rfl, rfl⟩
  | rename | finished | spent =>
      exact h.rewrite (l := []) rfl Iff.rfl rfl (by simp) ⟨rfl, rfl, rfl, rfl⟩
  | received | delivered | wrote =>
      exact h.rewrite (l := [_]) rfl Iff.rfl rfl (by simp [Event.counts]) ⟨rfl, rfl, rfl, rfl⟩
  | accept i cfd now hst hcfd =>
      intro hrun
      have hconn : (acceptOn w i cfd now).conn = Function.update w.conn i
          { Conn.blank with cfd := cfd, st := .sniff, lastMs := now } := rfl
      have hlive := live_taken hconn hst (by simp)
      have hb := h hrun
      have hd : doubles (acceptOn w i cfd now).trace = doubles w.trace :=
        doubles_quiet (l := [.accept i]) (by simp [Event.counts]) w.trace
      rw [hd, hlive]
      simp only [acceptOn, World.log_stats, World.count_stats, World.setConn_stats]
      omega
  | failed i how hhow =>
      intro hrun
      have hb := h hrun
      have hlive : awgProxyLive (countFailed w i how) = awgProxyLive w := rfl
      have hd : doubles (countFailed w i how).trace = doubles w.trace + 1 := by
        refine (doubles_failed i how w.trace).trans ?_
        rw [if_neg hhow]
      rw [hd, hlive]
      simp only [countFailed, World.log_stats, World.count_stats]
      omega
  | close i why => exact h.close i why
  | take i x hst hfree =>
      exact h.rewrite (l := []) rfl (by simp [hst]) rfl (by simp) ⟨rfl, rfl, rfl, rfl⟩
  | connected i hst =>
      refine h.rewrite (l := []) rfl ?_ rfl (by simp) ⟨rfl, rfl, rfl, rfl⟩
      rcases hst with hs | hs <;> simp [hs]
  | err x i hlive harg =>
      have hst : (w.conn i).st ≠ .free := by
        rcases (ht.blocks x i hlive harg).2.1 with hs | hs <;> simp [hs]
      rw [ht.onErr_eq hlive harg]
      refine h.ended hst rfl rfl ?_ rfl ?_
      · exact doubles_failed i .lwipErr w.trace
      · dsimp only
        omega
  | sent i p rest n now x hrx hpcb =>
      rw [sendSome_eq hpcb]
      exact h.rewrite (l := [_, _, _]) rfl Iff.rfl rfl (by simp [Event.counts])
        ⟨rfl, rfl, rfl, rfl⟩
  | completed i hst hpeer hrx =>
      -- counted as completed, and then closed without a reason
      generalize hv : (w.log (.completed i (w.conn i).peerClosed (w.conn i).unsent)).count
        (fun s => { s with completed := s.completed + 1 }) = v
      have hvst : (v.conn i).st ≠ .free := by
        rw [← hv]
        exact hst
      have hcomplete : complete w i = connClose v i none := by
        rw [← hv]
        rfl
      rw [hcomplete]
      obtain ⟨hrun, hdoubles⟩ := connClose_quiet v i none
      have hstats := connClose_stats hvst none
      have hdv : doubles v.trace = doubles w.trace := by
        rw [← hv]
        exact doubles_quiet (l := [_]) (by simp [Event.counts]) w.trace
      refine h.ended hst ?_ (hrun.trans (by rw [← hv]; rfl)) (hdoubles.trans hdv) ?_ ?_
      · rw [connClose_conn hvst, ← hv]
        rfl
      · rw [hstats, ← hv]
        rfl
      · rw [hstats, ← hv]
        simp only [World.count_stats, World.log_stats]
        omega
  | started fd hst => exact accounted_start w fd
  | stopping =>
      intro hrun
      cases hrun
  | stopClose i hnot =>
      intro hrun
      rw [running_connClose, hnot] at hrun
      cases hrun

theorem accounted_kept : Kept Accounted where
  move ht h m := h.move ht m
  ask := by
    intro w w' _ h m
    cases m with
    | query i name hst hok =>
        exact h.rewrite (l := [_]) rfl (by simp [hst]) rfl (by simp [Event.counts])
          ⟨rfl, rfl, rfl, rfl⟩
    | queued | answered =>
        exact h.keep (l := [_]) rfl rfl (by simp [Event.counts]) ⟨rfl, rfl, rfl, rfl⟩

/-- **The counters add up exactly if no connection failed on the way to a close with a
reason**, in every state of every run between a start and the next stop. -/
theorem counters_add_up_iff (fd : Int) (labels : List Label)
    (hrun : running (proxyRun fd labels).trace = true) :
    (proxyRun fd labels).stats.accepted
        = (proxyRun fd labels).stats.completed + (proxyRun fd labels).stats.failed
          + (proxyRun fd labels).stats.closed + awgProxyLive (proxyRun fd labels) ↔
      ∀ how ∈ failures (proxyRun fd labels).trace, how = .lwipErr := by
  have hb := (accounted_kept.moment (accounted_start World.boot fd) (moment_proxyRun fd labels)).2 hrun
  have hdoubles : doubles (proxyRun fd labels).trace = 0 ↔
      ∀ how ∈ failures (proxyRun fd labels).trace, how = .lwipErr := by
    simp [doubles, List.countP_eq_zero]
  rw [← hdoubles]
  omega

/-- One connection, reset by its server. -/
def resetSample : List Label :=
  [pollAccepts 5, pollReads firstSlot (clientHello 97) (.ok 1 ResolveEnv.fine), .giveUp firstPcb]

theorem counters_add_up_after_reset :
    failures (proxyRun 3 resetSample).trace = [.lwipErr] ∧
    (proxyRun 3 resetSample).stats.accepted
      = (proxyRun 3 resetSample).stats.completed + (proxyRun 3 resetSample).stats.failed
        + (proxyRun 3 resetSample).stats.closed + awgProxyLive (proxyRun 3 resetSample) := by
  have hfail : failures (proxyRun 3 resetSample).trace = [.lwipErr] := by decide +kernel
  refine ⟨hfail, (counters_add_up_iff 3 resetSample (by decide +kernel)).mpr ?_⟩
  intro how hhow
  rw [hfail] at hhow
  exact List.mem_singleton.mp hhow

/-- One connection, whose host does not resolve. -/
def unresolvedSample : List Label :=
  [pollAccepts 5, pollReads firstSlot (clientHello 97) .inProgress,
    .dnsFound 0 none ResolveEnv.fine]

/-- The connection whose host does not resolve is accepted once, and counted as failed and
as closed. -/
theorem counters_off_after_dns_failure :
    running (proxyRun 3 unresolvedSample).trace = true ∧
    (proxyRun 3 unresolvedSample).stats.accepted
      ≠ (proxyRun 3 unresolvedSample).stats.completed + (proxyRun 3 unresolvedSample).stats.failed
        + (proxyRun 3 unresolvedSample).stats.closed
        + awgProxyLive (proxyRun 3 unresolvedSample) := by
  decide +kernel

end SysAwg
