/-
The connection table in every run.

`TableOk` was needed to take the functions apart, so it is proved already for every
change.  Here it is stated for the entry points one by one, and for runs, together with
what it is for: no name that the proxy must not visit is ever asked for.
-/
import SysAwg.Proofs.ProxyWalk

namespace SysAwg

/-- Every name that was asked for may be visited. -/
def AsksOk (w : World) : Prop :=
  ∀ i q name, Event.query i q name ∈ w.trace → HostOk name

theorem asksOk_kept : Kept AsksOk where
  move := by
    intro w w' _ hp m i q name hmem
    obtain ⟨new, htrace, hdns⟩ := m.adds_dns
    rw [htrace] at hmem
    rcases List.mem_append.mp hmem with hnew | hold
    · have := hdns _ hnew
      cases this
    · exact hp i q name hold
  ask := by
    intro w w' _ hp m i q name hmem
    cases m with
    | query j host hst hok =>
        simp only [queryOn, askDns, World.log_trace, World.setConn_trace, World.setConn_conn,
          Function.update_self, List.mem_cons, Event.query.injEq] at hmem
        rcases hmem with ⟨-, -, rfl⟩ | hold
        · exact hok
        · exact hp i q name hold
    | queued j k =>
        simp only [queueDns, World.log_trace, List.mem_cons, reduceCtorEq, false_or] at hmem
        exact hp i q name hmem
    | answered j k ip =>
        simp only [answeredOn, World.log_trace, List.mem_cons, reduceCtorEq, false_or] at hmem
        exact hp i q name hmem

/-- Whatever enters the proxy leaves the property intact.  A callback of a block is called
with the argument the block holds; `on_err` comes after the block was freed. -/
structure Preserved (P : World → Prop) (w : World) : Prop where
  poll : ∀ e, P (awgProxyPoll w e)
  sweep : ∀ now, P (sweepIdle w now)
  stop : P (awgProxyStop w)
  recv : ∀ x p err, (w.pcbs x).live = true → P (onRecv w (w.pcbs x).arg p err)
  err : ∀ x, (w.pcbs x).live = true → P (onErr (w.setPcb x Pcb.freed) (w.pcbs x).arg)
  connected : ∀ x err, (w.pcbs x).live = true → P (onConnected w (w.pcbs x).arg x err)
  resolved : ∀ i q ip e, P (onResolved w i q ip e)

theorem TableOk.preserved {w : World} (h : TableOk w) : Preserved TableOk w where
  poll e := h.strides (awgProxyPoll_strides h e)
  sweep now := h.strides (sweepIdle_strides h now)
  stop := h.moves awgProxyStop_moves
  recv x p err hlive := h.moves (onRecv_moves h hlive p err)
  err x hlive := by
    rcases harg : (w.pcbs x).arg with _ | i
    · exact h.move (.dropped x harg)
    · exact h.move (.err x i hlive harg)
  connected x err hlive := h.moves (onConnected_moves h hlive err)
  resolved i q ip e := by
    by_cases hst : (w.conn i).st = .resolving
    · rw [onResolved_eq hst]
      have ha := h.ask (.answered i q ip)
      exact ha.moves (useResult_spec ha hst ip e).1
    · unfold onResolved
      rw [if_pos hst]
      exact h

/-- **The table is in order in every run, whatever enters the proxy keeps it in order, and
no name is asked for that is malformed or denied.** -/
theorem table_in_order :
    (∀ (fd : Int) (labels : List Label),
      (∀ i, SlotOk ((proxyRun fd labels).conn i)) ∧ AsksOk (proxyRun fd labels)) ∧
    (∀ (fd : Int) (labels : List Label), TableOk (proxyRun fd labels)) ∧
    ∀ w, TableOk w → Preserved TableOk w := by
  have htable : ∀ (fd : Int) (labels : List Label), TableOk (proxyRun fd labels) := by
    intro fd labels
    exact (tableOk_start fd).strides (proxyRun_strides fd labels)
  refine ⟨fun fd labels => ⟨(htable fd labels).slots, ?_⟩, htable, fun w h => h.preserved⟩
  refine (asksOk_kept.moment ?_ (moment_proxyRun fd labels)).2
  intro i q name hmem
  simp [awgProxyStart, World.boot] at hmem

/-- Three connections: one relays, one waits for its address, one has sent nothing. -/
def busySample : List Label :=
  [pollAccepts 5, pollReads firstSlot (clientHello 97) (.ok 1 ResolveEnv.fine),
    .connected firstPcb false, pollAccepts 6, pollReads secondSlot (clientHello 98)
      .inProgress, pollAccepts 7]

/-- In that table the block of the first is freed under it, or the second gets its address. -/
theorem table_in_order_busy :
    ((proxyRun 3 busySample).conn 0).st = .relay ∧
      ((proxyRun 3 busySample).conn 1).st = .resolving ∧
      ((proxyRun 3 busySample).conn 2).st = .sniff ∧
      TableOk (onErr ((proxyRun 3 busySample).setPcb 0 Pcb.freed)
        ((proxyRun 3 busySample).pcbs 0).arg) ∧
      TableOk (onResolved (proxyRun 3 busySample) 1 1 (some 2) ResolveEnv.fine) := by
  have hstates : ((proxyRun 3 busySample).conn 0).st = .relay ∧
      ((proxyRun 3 busySample).conn 1).st = .resolving ∧
      ((proxyRun 3 busySample).conn 2).st = .sniff := by decide +kernel
  have hlive : ((proxyRun 3 busySample).pcbs 0).live = true := by decide +kernel
  have hkeeps := table_in_order.2.2 _ (table_in_order.2.1 3 busySample)
  exact ⟨hstates.1, hstates.2.1, hstates.2.2, hkeeps.err 0 hlive, hkeeps.resolved 1 1 _ _⟩

end SysAwg
