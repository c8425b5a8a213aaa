/-
The end of a connection whose remote has finished.

Once the remote's FIN is in, what is left in the chain goes to the client as the client
takes it, and the slot is counted as completed when the chain is empty.  Until then the
slot can be freed by its client, by the idle sweep, by `awg_proxy_stop`, and by the err
callback.  The last is the way a finish goes wrong, and it does so in two ways.  After the
client's half-close the stack owes nothing but the acknowledgement of its own FIN, and it
frees the block and calls back as soon as that arrives, whatever is still in the chain: the
end is cut off.  And where the chain is empty already, but the callback comes before the
next poll, nothing is lost, yet the slot is counted as failed.

So there are two results, each with the condition that belongs to it: nothing is cut off as
long as the callback finds nothing left to send, and every finish is counted as completed
as long as the callback does not come at all.
-/
import SysAwg.Proofs.ProxyTurns

namespace SysAwg

/-! ### Every entry of a run -/

section Entry

variable {w w' : World} {i j : Slot}

/-- Data or a FIN is handed to the slot a block names. -/
theorem onRecv_acts (w : World) (arg : Option Slot) (p : Option (List Pbuf)) (err : Bool) :
    (∃ j, Act j w (onRecv w arg p err)) ∧
      ∀ i, ((onRecv w arg p err).conn i).st = (w.conn i).st := by
  have hwrite : ∀ (j : Slot) (c : Conn) (u : World), u.conn = Function.update w.conn j c →
      c.st = (w.conn j).st → ∀ i, (u.conn i).st = (w.conn i).st := by
    intro j c u hconn hc i
    rw [hconn]
    by_cases hi : i = j
    · rw [hi, Function.update_self, hc]
    · rw [Function.update_of_ne hi]
  unfold onRecv
  cases arg with
  | none => exact ⟨⟨0, .refl 0 w⟩, fun _ => rfl⟩
  | some j =>
      dsimp only
      cases p with
      | none => exact ⟨⟨j, .slot rfl rfl List.suffix_rfl id⟩, hwrite j _ _ rfl rfl⟩
      | some chain =>
          dsimp only
          split
          · exact ⟨⟨j, .refl j w⟩, fun _ => rfl⟩
          · exact ⟨⟨j, .slot rfl rfl (List.suffix_cons _ _) id⟩, hwrite j _ _ rfl rfl⟩

theorem afterFin_ne {acked : Bool} {s t : TcpState} (h : afterFin acked s = some t) :
    t ≠ .synSent := by
  unfold afterFin at h
  split at h
  · simp [← Option.some.inj h]
  · rw [← Option.some.inj h]
    split <;> simp
  · simp [← Option.some.inj h]
  · cases h

theorem afterAck_ne {s t : TcpState} (h : afterAck s = some t) : t ≠ .synSent := by
  unfold afterAck at h
  split at h
  · simp [← Option.some.inj h]
  · simp [← Option.some.inj h]
  · cases h

/-- A block moves on to a state other than waiting for its handshake. -/
theorem Act.moved {x : PcbId} {state : TcpState} (h : state ≠ .synSent) :
    Act j w (w.setPcb x { w.pcbs x with state := state }) :=
  .block fun _ hsyn => absurd hsyn h

theorem fin_acts (w : World) (x : PcbId) (acked : Bool) :
    (∀ y k, SynFor (step w (.fin x acked)) y k → SynFor w y k) ∧
      ∀ i, ((step w (.fin x acked)).conn i).st = (w.conn i).st := by
  rw [step]
  dsimp only
  split
  · exact ⟨fun _ _ hx => hx, fun _ => rfl⟩
  · rename_i t ht
    split
    · have hmove : Act 0 w (w.setPcb x { w.pcbs x with state := t }) := .moved (afterFin_ne ht)
      split
      · obtain ⟨⟨j, hact⟩, hst⟩ :=
          onRecv_acts (w.setPcb x { w.pcbs x with state := t }) (w.pcbs x).arg none false
        exact ⟨fun y k hy => hmove.tame y k (hact.tame y k hy), hst⟩
      · exact ⟨hmove.tame, fun _ => rfl⟩
    · exact ⟨fun _ _ hx => hx, fun _ => rfl⟩

/-- The entries in which the stack works for itself. -/
def Label.ofStack : Label → Bool
  | .ack _ | .giveUp _ | .timeWaitOver _ | .pendingFin _ | .otherNew _ | .otherMove _ _
  | .otherFree _ => true
  | _ => false

/-- In them nothing happens to a slot but its err callback. -/
theorem stack_acts {l : Label} (hl : l.ofStack = true) (i : Slot) :
    ∃ j, i ≠ j ∧ Act j w (step w l) := by
  obtain ⟨j, hj⟩ := exists_ne i
  refine ⟨j, hj.symm, ?_⟩
  cases l with
  | ack x =>
      rw [step]
      split
      · exact .refl j w
      · rename_i t ht
        exact reach_ite (fun _ => .moved (afterAck_ne ht)) fun _ => .refl j w
  | giveUp x =>
      rw [step]
      exact reach_ite (fun _ => .abandon x) fun _ => .refl j w
  | timeWaitOver x =>
      rw [step]
      refine reach_ite ?_ fun _ => .refl j w
      intro _
      have hlog : ∀ e, Act j w (w.log e) := fun e => .note rfl rfl (List.suffix_cons _ _)
      exact (hlog _).trans (.freed x)
  | pendingFin x => exact .tcpHandleClosepend _
  | otherNew e =>
      rw [step]
      have halloc := Act.tcpAlloc (j := j) (w := w) e
      rcases hal : tcpAlloc w e with ⟨u, _ | x⟩
      · rw [hal] at halloc
        exact halloc
      · rw [hal] at halloc
        exact halloc.trans (.block fun _ hsyn => by cases hsyn)
  | otherMove x state =>
      rw [step]
      refine reach_ite ?_ fun _ => .refl j w
      intro hp
      exact .block fun _ _ => Or.inl hp.2
  | otherFree x =>
      rw [step]
      exact reach_ite (fun _ => .freed x) fun _ => .refl j w
  | poll | start | stop | dnsFound | connected | recv | fin => cases hl

theorem onConnected_conn {x : PcbId} {err : Bool} {arg : Option Slot} (h : arg ≠ some i) :
    (onConnected w arg x err).conn i = w.conn i := by
  unfold onConnected
  cases arg with
  | none => rfl
  | some j =>
      have hne : i ≠ j := fun hij => h (by rw [hij])
      dsimp only
      split
      · by_cases hst : ((countFailed w j .connectFailed).conn j).st = .free
        · rw [connClose_free hst]
          rfl
        · rw [connClose_conn hst, Function.update_of_ne hne]
          rfl
      · simp [Function.update_of_ne hne]

/-- The connected callback, once the block waits no more and is the only one of its slot. -/
theorem onConnected_tame {x : PcbId} {arg : Option Slot} (err : Bool)
    (hx : (w.pcbs x).state ≠ .synSent)
    (hone : ∀ k, arg = some k → ∀ y, (w.pcbs y).live = true → (w.pcbs y).arg = some k → y = x)
    (hno : ∀ y k, ¬ SynFor w y k) : ∀ y k, ¬ SynFor (onConnected w arg x err) y k := by
  unfold onConnected
  cases arg with
  | none => exact hno
  | some k =>
      dsimp only
      split
      · intro y k' hy
        exact hno y k' ((Act.failClose _ _).tame y k' hy)
      · rintro y k' ⟨hlive, hyarg, hsyn, hrelay⟩
        by_cases hyx : y = x
        · subst hyx
          rw [World.count_pcbs, World.setConn_pcbs, World.setPcb_pcbs, Function.update_self] at hsyn
          exact hx hsyn
        · simp only [World.count_pcbs, World.setConn_pcbs, World.setPcb_pcbs, World.count_conn,
            World.setConn_conn, World.setPcb_conn, Function.update_of_ne hyx]
            at hlive hyarg hsyn hrelay
          by_cases hk : k' = k
          · subst hk
            exact hyx (hone k' rfl y hlive hyarg)
          · rw [Function.update_of_ne hk] at hrelay
            exact hno y k' ⟨hlive, hyarg, hsyn, hrelay⟩

/-- Only a block that waits for its handshake can be connected, and it waits no more. -/
theorem connected_tame (ht : TableOk w) (x : PcbId) (err : Bool)
    (hno : ∀ y k, ¬ SynFor w y k) : ∀ y k, ¬ SynFor (step w (.connected x err)) y k := by
  rw [step]
  split
  · rename_i hp
    have hmove : Act 0 w (w.setPcb x { w.pcbs x with state := .established }) := .moved (by simp)
    refine onConnected_tame err ?_ ?_ ?_
    · rw [World.setPcb_pcbs, Function.update_self]
      simp
    · -- the slot has one block, and that is the one connected
      intro k hk y hlive hyarg
      by_contra hyx
      rw [World.setPcb_pcbs, Function.update_of_ne hyx] at hlive hyarg
      have hown := (ht.blocks y k hlive hyarg).1
      rw [(ht.blocks x k hp.1 hk).1] at hown
      exact hyx (Option.some.inj hown).symm
    · intro y k hy
      exact hno y k (hmove.tame y k hy)
  · exact hno

/-- The poll loop gives no slot that relays a block that waits for its handshake. -/
theorem awgProxyPoll_tame (e : PollEnv) :
    ∀ x i, SynFor (awgProxyPoll w e) x i → SynFor w x i := by
  have haccept : ∀ x i, SynFor (pollAccept w e) x i → SynFor w x i := by
    unfold pollAccept
    split
    · exact fun _ _ h => h
    · split
      · exact fun _ _ h => h
      · split
        · exact fun _ _ h => h
        · rename_i j _
          have hact : ∀ cfd, Act j w (acceptOn w j cfd e.acceptNow) := by
            intro cfd
            exact .slot rfl rfl (List.suffix_cons _ _) fun h => by cases h
          exact (hact _).tame
  have hevents : ∀ x i, SynFor (afterEvents w e) x i → SynFor w x i := by
    intro x i h
    unfold afterEvents at h
    split at h
    · exact haccept x i (tame_foldl (Act.pollSlot _ e) _ _ x i h)
    · exact h
  intro x i h
  by_cases hlisten : w.listen < 0
  · rwa [show awgProxyPoll w e = w from if_pos hlisten] at h
  · rw [show awgProxyPoll w e = (List.finRange 16).foldl (finalSlot e)
      (sweepIdle (afterEvents w e) e.sweepNow) from if_neg hlisten] at h
    have hfinal := tame_foldl (Act.finalSlot e) _ _ x i h
    exact hevents x i (tame_foldl (Act.sweepSlot e.sweepNow) _ _ x i hfinal)

/-- No entry lets a block of a slot that relays begin to wait for its handshake. -/
theorem step_tame (ht : TableOk w) (hno : ∀ x i, ¬ SynFor w x i) (l : Label) :
    ∀ x i, ¬ SynFor (step w l) x i := by
  intro y k hy
  have hstack : l.ofStack = true → False := by
    intro hl
    obtain ⟨j, -, hact⟩ := stack_acts (w := w) hl 0
    exact hno y k (hact.tame y k hy)
  cases l with
  | ack | giveUp | timeWaitOver | pendingFin | otherNew | otherMove | otherFree =>
      exact hstack rfl
  | poll e => exact hno y k (awgProxyPoll_tame e y k hy)
  | start fd =>
      rw [step] at hy
      split at hy
      · cases hy.2.2.2
      · exact hno y k hy
  | stop =>
      have hfold := tame_foldl (fun u j => Act.connClose (w := u) j none) (List.finRange 16)
        (w.log .stop) y k
      rw [step, awgProxyStop] at hy
      generalize (List.finRange 16).foldl (fun w i => connClose w i none) (w.log .stop) = u
        at hy hfold
      exact hno y k (hfold hy)
  | dnsFound n ip e =>
      rw [step] at hy
      split at hy
      · exact hno y k hy
      · rename_i r _
        have hasked : Act r.slot w { w with reqs := w.reqs.eraseIdx n } :=
          .note rfl rfl List.suffix_rfl
        exact hno y k ((hasked.trans (.onResolved r.q ip e)).tame y k hy)
  | connected x err => exact connected_tame ht x err hno y k hy
  | recv x chain err =>
      rw [step] at hy
      split at hy
      · obtain ⟨⟨j, hact⟩, -⟩ := onRecv_acts w (w.pcbs x).arg (some chain) err
        exact hno y k (hact.tame y k hy)
      · exact hno y k hy
  | fin x acked => exact hno y k ((fin_acts w x acked).1 y k hy)

/-- In no run does a slot that relays have a block that waits for its handshake. -/
theorem proxyRun_tame (fd : Int) (labels : List Label) :
    ∀ x i, ¬ SynFor (proxyRun fd labels) x i := by
  have hfold : ∀ (labels : List Label) (w : World), TableOk w → (∀ x i, ¬ SynFor w x i) →
      ∀ x i, ¬ SynFor (labels.foldl step w) x i := by
    intro labels
    induction labels with
    | nil =>
        intro w _ hno
        exact hno
    | cons l rest ih =>
        intro w ht hno
        exact ih (step w l) (ht.strides (step_strides ht l)) (step_tame ht hno l)
  refine hfold labels _ (tableOk_start fd) ?_
  rintro x i ⟨hlive, -⟩
  cases hlive

end Entry

/-! ### Every run

The history tells what became of a slot.  An entry that ends a finish leaves its mark in it,
so both conditions are stated about the marks an entry adds, and each result is a case
analysis on them.
-/

/-- The ends of a finish that are nobody's fault here: the client socket failed or hung
up, the idle sweep fired, or the proxy was stopped. -/
def Excused (w : World) (i : Slot) : Label → Prop
  | .poll e => ClientFailed w e i ∨ Swept w e i
  | .stop => True
  | _ => False

/-- **What can end a finish**: an excuse, the err callback, or its completion. -/
theorem step_ends {w : World} {i : Slot} (hno : ∀ x k, ¬ SynFor w x k) (h : Finishing w i)
    (l : Label) (hfree : ((step w l).conn i).st = .free) :
    Excused w i l ∨ ErrCall i w (step w l) ∨ CompletedIn i w (step w l) := by
  have hbusy : ∀ u : World, (u.conn i).st = (w.conn i).st → (u.conn i).st ≠ .free := by
    intro u hu
    rw [hu, h.st]
    simp
  have haside : Aside i w (step w l) → ErrCall i w (step w l) := by
    intro ha
    rcases ha.slot with hsame | herr
    · exact absurd hfree (hbusy _ (by rw [hsame]))
    · exact herr
  have hstack : l.ofStack = true → ErrCall i w (step w l) := by
    intro hl
    obtain ⟨j, hij, hact⟩ := stack_acts (w := w) hl i
    exact haside (hact.aside hij)
  cases l with
  | ack | giveUp | timeWaitOver | pendingFin | otherNew | otherMove | otherFree =>
      exact Or.inr (Or.inl (hstack rfl))
  | poll e =>
      rcases awgProxyPoll_ends h hfree with hclient | hswept | herr | hdone
      · exact Or.inl (Or.inl hclient)
      · exact Or.inl (Or.inr hswept)
      · exact Or.inr (Or.inl herr)
      · exact Or.inr (Or.inr hdone)
  | start fd =>
      have hsame : step w (.start fd) = w := by
        rw [step]
        refine if_neg ?_
        intro hall
        have hi := List.all_eq_true.mp hall i (List.mem_finRange i)
        simp [h.st] at hi
      exact absurd hfree (hbusy _ (by rw [hsame]))
  | stop => exact Or.inl trivial
  | dnsFound n ip e =>
      refine Or.inr (Or.inl ?_)
      rw [step] at hfree haside ⊢
      rcases hreq : w.reqs[n]? with _ | r
      · rw [hreq] at hfree
        exact absurd hfree (hbusy w rfl)
      · rw [hreq] at hfree haside
        dsimp only at hfree haside ⊢
        have hasked : Act r.slot w { w with reqs := w.reqs.eraseIdx n } :=
          .note rfl rfl List.suffix_rfl
        by_cases hi : i = r.slot
        · -- a slot that does not wait for its address ignores the answer
          have hsame : onResolved { w with reqs := w.reqs.eraseIdx n } r.slot r.q ip e
              = { w with reqs := w.reqs.eraseIdx n } := by
            unfold onResolved
            rw [← hi]
            exact if_pos (by simp [h.st])
          rw [hsame] at hfree
          exact absurd hfree (hbusy _ rfl)
        · exact haside ((hasked.trans (.onResolved r.q ip e)).aside hi)
  | connected x err =>
      refine absurd hfree (hbusy _ ?_)
      rw [step]
      split
      · rename_i hp
        have harg : (w.pcbs x).arg ≠ some i := fun harg => hno x i ⟨hp.1, harg, hp.2.1, h.st⟩
        rw [onConnected_conn harg]
        rfl
      · rfl
  | recv x chain err =>
      refine absurd hfree (hbusy _ ?_)
      rw [step]
      split
      · exact (onRecv_acts w (w.pcbs x).arg (some chain) err).2 i
      · rfl
  | fin x acked => exact absurd hfree (hbusy _ ((fin_acts w x acked).2 i))

/-- At every entry of a run, and for every slot. -/
def AtEntries (P : World → Label → Slot → Prop) (fd : Int) (labels : List Label) : Prop :=
  ∀ before l after, labels = before ++ l :: after → ∀ i, P (proxyRun fd before) l i

/-- A finish is not cut short by this entry: if the slot is freed without an excuse, then
by its completion or its err callback, before which the client had been sent everything. -/
def NotTruncated (w : World) (l : Label) (i : Slot) : Prop :=
  Finishing w i → ((step w l).conn i).st = .free → Excused w i l ∨
    ∃ older, w.trace <:+ older ∧ sent i older = delivered i older ∧
      (.completed i true [] :: older <:+ (step w l).trace ∨
        .failed i .lwipErr :: older <:+ (step w l).trace)

/-- A finish ends as it should: if the slot is freed without an excuse, then by its
completion, before which the client had been sent everything. -/
def FinishKept (w : World) (l : Label) (i : Slot) : Prop :=
  Finishing w i → ((step w l).conn i).st = .free → Excused w i l ∨
    ∃ older, w.trace <:+ older ∧ sent i older = delivered i older ∧
      .completed i true [] :: older <:+ (step w l).trace

/-- The err callback, if it runs for a slot that finishes, finds nothing left to send. -/
def ErrSpares (w : World) (l : Label) (i : Slot) : Prop :=
  Finishing w i → ∀ older, w.trace <:+ older → .failed i .lwipErr :: older <:+ (step w l).trace →
    sent i older = delivered i older

/-- The err callback does not run for a slot that finishes. -/
def ErrAbsent (w : World) (l : Label) (i : Slot) : Prop :=
  Finishing w i → ¬ ErrCall i w (step w l)

theorem FinishKept.notTruncated {w : World} {l : Label} {i : Slot} (h : FinishKept w l i) :
    NotTruncated w l i := by
  intro hfinishing hfree
  rcases h hfinishing hfree with hexcuse | ⟨older, hold, hsame, hnew⟩
  · exact Or.inl hexcuse
  · exact Or.inr ⟨older, hold, hsame, Or.inl hnew⟩

section Ends

variable (fd : Int) (labels : List Label) (l : Label) (i : Slot)

theorem step_proxyRun : step (proxyRun fd labels) l = proxyRun fd (labels ++ [l]) := by
  unfold proxyRun
  rw [List.foldl_append]
  rfl

/-- A slot of a run that is counted as completed has been sent everything. -/
theorem completed_drained {older : List Event}
    (h : .completed i true [] :: older <:+ (step (proxyRun fd labels) l).trace) :
    sent i older = delivered i older := by
  have hrelay := (relayOk_kept.moment (relayOk_start fd)
    (moment_proxyRun fd (labels ++ [l]))).2
  rw [← step_proxyRun] at hrelay
  exact (hrelay.completed i true [] older h).2.2

theorem notTruncated_of_spares (hspares : ErrSpares (proxyRun fd labels) l i) :
    NotTruncated (proxyRun fd labels) l i := by
  intro hfinishing hfree
  rcases step_ends (proxyRun_tame fd labels) hfinishing l hfree with hexcuse | herr | hdone
  · exact Or.inl hexcuse
  · obtain ⟨older, hnew, hold⟩ := herr
    exact Or.inr ⟨older, hold, hspares hfinishing older hold hnew, Or.inr hnew⟩
  · obtain ⟨older, hnew, hold⟩ := hdone
    exact Or.inr ⟨older, hold, completed_drained fd labels l i hnew, Or.inl hnew⟩

theorem finishKept_of_absent (habsent : ErrAbsent (proxyRun fd labels) l i) :
    FinishKept (proxyRun fd labels) l i := by
  intro hfinishing hfree
  rcases step_ends (proxyRun_tame fd labels) hfinishing l hfree with hexcuse | herr | hdone
  · exact Or.inl hexcuse
  · exact absurd herr (habsent hfinishing)
  · obtain ⟨older, hnew, hold⟩ := hdone
    exact Or.inr ⟨older, hold, completed_drained fd labels l i hnew, hnew⟩

end Ends

/--
**A finish goes wrong by nothing but the err callback.**

In every run in which that callback never finds bytes left in a slot that finishes, such a
slot is freed before it has drained only by its client, the idle sweep or `awg_proxy_stop`.
In every run in which the callback never comes to a slot that finishes, the slot is also
counted as completed whenever it is freed by none of these.
-/
theorem clean_finish_kept (fd : Int) (labels : List Label) :
    (AtEntries ErrSpares fd labels → AtEntries NotTruncated fd labels) ∧
    (AtEntries ErrAbsent fd labels → AtEntries FinishKept fd labels) := by
  constructor
  · intro hspares before l after hlabels i
    exact notTruncated_of_spares fd before l i (hspares before l after hlabels i)
  · intro habsent before l after hlabels i
    exact finishKept_of_absent fd before l i (habsent before l after hlabels i)

/-- What has been recorded stays recorded. -/
theorem trace_suffix {w w' : World} (m : Strides w w') : w.trace <:+ w'.trace := by
  induction m with
  | refl => exact List.suffix_rfl
  | tail _ hlast ih => exact ih.trans hlast.suffix

/-- A run in which no err callback ever runs. -/
theorem errAbsent_of_quiet {fd : Int} {labels : List Label}
    (h : ∀ i, Event.failed i .lwipErr ∉ (proxyRun fd labels).trace) :
    AtEntries ErrAbsent fd labels := by
  rintro before l after hlabels i - ⟨older, hnew, -⟩
  have hrun : proxyRun fd labels = after.foldl step (step (proxyRun fd before) l) := by
    rw [hlabels]
    unfold proxyRun
    rw [List.foldl_append]
    rfl
  have ht : TableOk (proxyRun fd before) :=
    (tableOk_start fd).strides (proxyRun_strides fd before)
  have hlater : Strides (step (proxyRun fd before) l) (proxyRun fd labels) := by
    rw [hrun]
    exact foldl_step_strides after _ (ht.strides (step_strides ht l))
  exact absurd ((hnew.trans (trace_suffix hlater)).subset (List.mem_cons_self ..)) (h i)

/-! ### Finishes that go well and badly -/

/-- A poll in which the tunnel takes what the first slot's client sent. -/
def pollWrites : Label :=
  .poll { PollEnv.quiet with final := fun _ => ⟨65535, true, 0, []⟩ }

/-- A poll in which that client takes three bytes. -/
def pollDrains : Label :=
  .poll { PollEnv.quiet with final := fun _ => ⟨0, false, 0, [(.took 2, 0)]⟩ }

/-- A poll in which it is done sending. -/
def pollHalfCloses : Label := pollOne firstSlot SlotEnv.eof

/-- A connection whose remote sent three bytes and finished. -/
def finishedSample : List Label :=
  [pollAccepts 5, pollReads firstSlot (clientHello 97) (.ok 1 ResolveEnv.fine),
    .connected firstPcb false, pollWrites, .recv firstPcb [.holding [1, 2, 3]] false,
    .fin firstPcb false]

theorem clean_finish_kept_drained :
    Finishing (proxyRun 3 finishedSample) 0 ∧
      ((step (proxyRun 3 finishedSample) pollDrains).conn 0).st = .free ∧
      FinishKept (proxyRun 3 finishedSample) pollDrains 0 := by
  have hstate : ((proxyRun 3 finishedSample).conn 0).st = .relay ∧
      ((proxyRun 3 finishedSample).conn 0).peerClosed = true := by decide +kernel
  have hfreed : ((step (proxyRun 3 finishedSample) pollDrains).conn 0).st = .free := by
    decide +kernel
  have hquiet : ∀ i, Event.failed i .lwipErr ∉
      (proxyRun 3 (finishedSample ++ [pollDrains])).trace := by decide +kernel
  exact ⟨⟨hstate.1, hstate.2⟩, hfreed,
    (clean_finish_kept 3 (finishedSample ++ [pollDrains])).2 (errAbsent_of_quiet hquiet)
      finishedSample pollDrains [] rfl 0⟩

/-- An entry that does nothing but call back leaves one place where the slot can have
ended. -/
theorem older_eq {w : World} {l : Label} {e e' : Event} {older : List Event}
    (htrace : (step w l).trace = e :: w.trace) (hold : w.trace <:+ older)
    (hnew : e' :: older <:+ (step w l).trace) : e' = e ∧ older = w.trace := by
  rw [htrace] at hnew
  have hlen : (e' :: older).length = (e :: w.trace).length := by
    have hle := hold.length_le
    have hle' := hnew.length_le
    simp only [List.length_cons] at hle' ⊢
    omega
  exact List.cons.inj (hnew.eq_of_length hlen)

/-- The client has half-closed since, and the stack waits for its FIN to be acknowledged. -/
def halfClosedSample : List Label := finishedSample ++ [pollHalfCloses]

/-- When it is, the three bytes are lost. -/
theorem halfClosed_cut_short :
    Finishing (proxyRun 3 halfClosedSample) 0 ∧
      ((proxyRun 3 halfClosedSample).pcbs 0).state = .lastAck ∧
      ((proxyRun 3 halfClosedSample).conn 0).unsent = [1, 2, 3] ∧
      ¬ NotTruncated (proxyRun 3 halfClosedSample) (.giveUp firstPcb) 0 ∧
      ¬ FinishKept (proxyRun 3 halfClosedSample) (.giveUp firstPcb) 0 := by
  have hstate : (((proxyRun 3 halfClosedSample).conn 0).st = .relay ∧
      ((proxyRun 3 halfClosedSample).conn 0).peerClosed = true) ∧
      ((proxyRun 3 halfClosedSample).pcbs 0).state = .lastAck ∧
      ((proxyRun 3 halfClosedSample).conn 0).unsent = [1, 2, 3] := by decide +kernel
  have hfreed : ((step (proxyRun 3 halfClosedSample) (.giveUp firstPcb)).conn 0).st = .free := by
    decide +kernel
  have htrace : (step (proxyRun 3 halfClosedSample) (.giveUp firstPcb)).trace
      = .failed 0 .lwipErr :: (proxyRun 3 halfClosedSample).trace := by decide +kernel
  have hlost : sent 0 (proxyRun 3 halfClosedSample).trace
      ≠ delivered 0 (proxyRun 3 halfClosedSample).trace := by decide +kernel
  have hcut : ¬ NotTruncated (proxyRun 3 halfClosedSample) (.giveUp firstPcb) 0 := by
    intro hkept
    rcases hkept ⟨hstate.1.1, hstate.1.2⟩ hfreed with hexcuse | ⟨older, hold, hsame, hnew⟩
    · exact hexcuse
    · rcases hnew with hnew | hnew
      · exact hlost ((older_eq htrace hold hnew).2 ▸ hsame)
      · exact hlost ((older_eq htrace hold hnew).2 ▸ hsame)
  exact ⟨⟨hstate.1.1, hstate.1.2⟩, hstate.2.1, hstate.2.2, hcut, fun h => hcut h.notTruncated⟩

/-- The client has taken everything when the FIN arrives, and a reset follows it before the
next poll. -/
def drainedSample : List Label :=
  [pollAccepts 5, pollReads firstSlot (clientHello 97) (.ok 1 ResolveEnv.fine),
    .connected firstPcb false, pollWrites, .recv firstPcb [.holding [1, 2, 3]] false, pollDrains,
    .fin firstPcb false]

/-- Nothing is lost, and the slot is counted as failed. -/
theorem drained_counted_failed :
    Finishing (proxyRun 3 drainedSample) 0 ∧ ((proxyRun 3 drainedSample).conn 0).unsent = [] ∧
      ¬ FinishKept (proxyRun 3 drainedSample) (.giveUp firstPcb) 0 := by
  have hstate : (((proxyRun 3 drainedSample).conn 0).st = .relay ∧
      ((proxyRun 3 drainedSample).conn 0).peerClosed = true) ∧
      ((proxyRun 3 drainedSample).conn 0).unsent = [] := by decide +kernel
  have hfreed : ((step (proxyRun 3 drainedSample) (.giveUp firstPcb)).conn 0).st = .free := by
    decide +kernel
  have htrace : (step (proxyRun 3 drainedSample) (.giveUp firstPcb)).trace
      = .failed 0 .lwipErr :: (proxyRun 3 drainedSample).trace := by decide +kernel
  refine ⟨⟨hstate.1.1, hstate.1.2⟩, hstate.2, ?_⟩
  intro hkept
  rcases hkept ⟨hstate.1.1, hstate.1.2⟩ hfreed with hexcuse | ⟨older, hold, -, hnew⟩
  · exact hexcuse
  · exact Event.noConfusion (older_eq htrace hold hnew).1

end SysAwg
