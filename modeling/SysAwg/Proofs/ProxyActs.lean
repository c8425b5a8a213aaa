/-
What a function that works for one slot can do to the others.

Almost everything in the proxy is done for one slot: a callback is handed its slot, and
`awg_proxy_poll` goes through them one by one.  `Act j w w'` says what such work for slot
`j` leaves alone.  Another slot is as it was, with one exception: allocating a block can
make lwIP give up the block of a third connection, and then that slot's err callback runs
in the middle of what is done for `j`.  The exception is part of `Act` as a disjunct, and
the mark which the callback leaves in the history says when it happened, so nothing has to
be split on it until the very end.

`Act` also carries a fact about blocks.  A block that still waits for its handshake belongs
to a slot that connects; if a slot that relays had one, a late handshake could fail it.
No work makes such a pair, so there is none in any run.

Acts compose, and each function of the source is a composition of a few writes; so there is
one lemma for each way of writing and then one line or two for each function.
-/
import SysAwg.Proofs.ProxyRelay
import SysAwg.Proofs.ProxyAnswers

namespace SysAwg

/-! ### Working for one slot -/

/-- The err callback ran for the slot between two moments. -/
def ErrCall (i : Slot) (w w' : World) : Prop :=
  ∃ older, .failed i .lwipErr :: older <:+ w'.trace ∧ w.trace <:+ older

/-- A block that still waits for its handshake, of a slot that relays already. -/
def SynFor (w : World) (x : PcbId) (i : Slot) : Prop :=
  (w.pcbs x).live = true ∧ (w.pcbs x).arg = some i ∧ (w.pcbs x).state = .synSent ∧
    (w.conn i).st = .relay

/-- What was done for slot `j`: another slot is as it was, unless its err callback ran. -/
structure Act (j : Slot) (w w' : World) : Prop where
  trace : w.trace <:+ w'.trace
  others : ∀ i, i ≠ j → w'.conn i = w.conn i ∨ ErrCall i w w'
  tame : ∀ x i, SynFor w' x i → SynFor w x i

section Acts

variable {w w' w'' : World} {i j : Slot}

theorem ErrCall.later (h : ErrCall i w w') (hsuf : w'.trace <:+ w''.trace) : ErrCall i w w'' := by
  obtain ⟨older, hnew, hold⟩ := h
  exact ⟨older, hnew.trans hsuf, hold⟩

theorem ErrCall.earlier (h : ErrCall i w' w'') (hsuf : w.trace <:+ w'.trace) : ErrCall i w w'' := by
  obtain ⟨older, hnew, hold⟩ := h
  exact ⟨older, hnew, hsuf.trans hold⟩

theorem Act.refl (j : Slot) (w : World) : Act j w w where
  trace := List.suffix_rfl
  others := fun _ _ => Or.inl rfl
  tame := fun _ _ h => h

theorem Act.trans (h : Act j w w') (h' : Act j w' w'') : Act j w w'' where
  trace := h.trace.trans h'.trace
  others := by
    intro i hi
    rcases h'.others i hi with hsame | herr
    · rcases h.others i hi with hsame' | herr'
      · exact Or.inl (hsame.trans hsame')
      · exact Or.inr (herr'.later h'.trace)
    · exact Or.inr (herr.earlier h.trace)
  tame := fun x i hx => h.tame x i (h'.tame x i hx)

/-- The slot's own record is written; it does not begin to relay. -/
theorem Act.slot {c : Conn} (hconn : w'.conn = Function.update w.conn j c)
    (hpcbs : w'.pcbs = w.pcbs) (htrace : w.trace <:+ w'.trace)
    (hst : c.st = .relay → (w.conn j).st = .relay) : Act j w w' where
  trace := htrace
  others := by
    intro i hi
    rw [hconn, Function.update_of_ne hi]
    exact Or.inl rfl
  tame := by
    rintro x i ⟨hlive, harg, hsyn, hrelay⟩
    rw [hpcbs] at hlive harg hsyn
    refine ⟨hlive, harg, hsyn, ?_⟩
    rw [hconn] at hrelay
    by_cases hi : i = j
    · subst hi
      rw [Function.update_self] at hrelay
      exact hst hrelay
    · rwa [Function.update_of_ne hi] at hrelay

/-- Blocks are written; none of a slot begins to wait for its handshake. -/
theorem Act.blocks (hconn : w'.conn = w.conn) (htrace : w.trace <:+ w'.trace)
    (hpcbs : ∀ x, (w'.pcbs x).live = true → (w'.pcbs x).state = .synSent →
      (w'.pcbs x).arg = none ∨ ((w.pcbs x).live = true ∧ (w.pcbs x).arg = (w'.pcbs x).arg ∧
        (w.pcbs x).state = .synSent)) : Act j w w' where
  trace := htrace
  others := by
    intro i hi
    rw [hconn]
    exact Or.inl rfl
  tame := by
    rintro x i ⟨hlive, harg, hsyn, hrelay⟩
    rw [hconn] at hrelay
    rcases hpcbs x hlive hsyn with hnone | ⟨hl, ha, hs⟩
    · rw [hnone] at harg
      cases harg
    · exact ⟨hl, ha.trans harg, hs, hrelay⟩

theorem Act.block {x : PcbId} {p : Pcb} (hp : p.live = true → p.state = .synSent →
      p.arg = none ∨ ((w.pcbs x).live = true ∧ (w.pcbs x).arg = p.arg ∧
        (w.pcbs x).state = .synSent)) : Act j w (w.setPcb x p) := by
  refine .blocks rfl List.suffix_rfl ?_
  intro y hlive hsyn
  by_cases hy : y = x
  · subst hy
    rw [World.setPcb_pcbs, Function.update_self] at hlive hsyn ⊢
    exact hp hlive hsyn
  · rw [World.setPcb_pcbs, Function.update_of_ne hy] at hlive hsyn ⊢
    exact Or.inr ⟨hlive, rfl, hsyn⟩

/-- Neither slots nor blocks are written. -/
theorem Act.note (hconn : w'.conn = w.conn) (hpcbs : w'.pcbs = w.pcbs)
    (htrace : w.trace <:+ w'.trace) : Act j w w' := by
  refine .blocks hconn htrace ?_
  intro x hlive hsyn
  rw [hpcbs] at hlive hsyn ⊢
  exact Or.inr ⟨hlive, rfl, hsyn⟩

theorem Act.freed (x : PcbId) : Act j w (w.setPcb x Pcb.freed) :=
  .block fun hlive => Bool.noConfusion hlive

theorem Act.connClose (j : Slot) (why : Option Why) : Act j w (connClose w j why) := by
  by_cases hst : (w.conn j).st = .free
  · rw [connClose_free hst]
    exact .refl j w
  · obtain ⟨new, htrace, -⟩ := connClose_adds w j why
    have hsuf : w.trace <:+ (SysAwg.connClose w j why).trace := by
      rw [htrace]
      exact List.suffix_append new _
    refine ⟨hsuf, ?_, ?_⟩
    · intro i hi
      rw [connClose_conn hst, Function.update_of_ne hi]
      exact Or.inl rfl
    · rintro x i ⟨hlive, harg, hsyn, hrelay⟩
      have hi : i ≠ j := by
        rintro rfl
        rw [connClose_conn hst, Function.update_self] at hrelay
        cases hrelay
      rw [connClose_conn hst, Function.update_of_ne hi] at hrelay
      have hsame : (SysAwg.connClose w j why).pcbs x = w.pcbs x := by
        rw [connClose_pcbs hst] at hlive ⊢
        rcases hpcb : (w.conn j).pcb with _ | y
        · rfl
        · rw [hpcb] at hlive
          exact (live_update_freed hlive).2
      rw [hsame] at hlive harg hsyn
      exact ⟨hlive, harg, hsyn, hrelay⟩

theorem Act.failClose (how : Failure) (why : Why) :
    Act j w (SysAwg.connClose (countFailed w j how) j (some why)) := by
  have hcount : Act j w (countFailed w j how) := .note rfl rfl (List.suffix_cons _ _)
  exact hcount.trans (.connClose j _)

/-- Another slot loses its block, and is told. -/
theorem Act.abandon (x : PcbId) : Act j w (abandon w x) := by
  unfold SysAwg.abandon
  dsimp only
  split
  · rcases harg : (w.pcbs x).arg with _ | k
    · exact .freed x
    · -- `on_err` forgets the block, counts, and closes
      have hfree : Act j w (w.setPcb x Pcb.freed) := .freed x
      generalize w.setPcb x Pcb.freed = u at hfree
      refine hfree.trans ?_
      have hforget : Act k u (u.setConn k { u.conn k with pcb := none }) :=
        .slot rfl rfl List.suffix_rfl id
      have hcount : Act k u (countFailed (u.setConn k { u.conn k with pcb := none }) k .lwipErr) :=
        hforget.trans (.note rfl rfl (List.suffix_cons _ _))
      have hall : Act k u (onErr u (some k)) := hcount.trans (.connClose k none)
      refine ⟨hall.trace, ?_, hall.tame⟩
      intro i hi
      by_cases hik : i = k
      · subst hik
        refine Or.inr ⟨u.trace, ?_, List.suffix_rfl⟩
        have hlater := (Act.connClose (w := countFailed (u.setConn i { u.conn i with pcb := none })
          i .lwipErr) i none).trace
        exact hlater
      · exact hall.others i hik
  · exact .freed x

/-! ### Every function works for its slot -/

/-- A FIN is not sent before the handshake is done. -/
theorem Pcb.sendFin_synSent {p : Pcb} (h : p.sendFin.state = .synSent) : p.state = .synSent := by
  unfold Pcb.sendFin at h
  split at h
  · cases h
  · cases h
  · exact h

theorem Act.tcpHandleClosepend (fins : PcbId → Bool) : Act j w (tcpHandleClosepend w fins) := by
  refine .blocks rfl List.suffix_rfl ?_
  intro x hlive hsyn
  refine Or.inr ?_
  simp only [SysAwg.tcpHandleClosepend] at hlive hsyn ⊢
  split at hsyn
  · rename_i hclose
    rw [if_pos hclose] at hlive ⊢
    obtain ⟨hl, ha, -⟩ := (w.pcbs x).sendFin_same
    exact ⟨hl ▸ hlive, ha.symm, Pcb.sendFin_synSent hsyn⟩
  · rename_i hkeep
    rw [if_neg hkeep] at hlive ⊢
    exact ⟨hlive, rfl, hsyn⟩

theorem Act.tcpKillTimewait (oldest : PcbId) : Act j w (tcpKillTimewait w oldest) := by
  unfold SysAwg.tcpKillTimewait
  split
  · exact .refl j w
  · have hlog : ∀ e, Act j w (w.log e) := fun e => .note rfl rfl (List.suffix_cons _ _)
    exact (hlog _).trans (.freed _)

theorem Act.tcpKillState (state : TcpState) (oldest : PcbId) :
    Act j w (tcpKillState w state oldest) := by
  unfold SysAwg.tcpKillState
  split
  · exact .refl j w
  · exact .abandon _

theorem Act.tcpAlloc (e : NewEnv) : Act j w (tcpAlloc w e).1 := by
  have hwait := (Act.tcpHandleClosepend (j := j) (w := w) e.fins).trans (.tcpKillTimewait e.oldest)
  have hack := hwait.trans (.tcpKillState .lastAck e.oldest)
  have hclosing := hack.trans (.tcpKillState .closing e.oldest)
  unfold SysAwg.tcpAlloc
  split
  · exact .refl j w
  · dsimp only
    split
    · exact hwait
    · split
      · exact hack
      · exact hclosing

/-- A slot that takes a block is connecting, not relaying. -/
theorem Act.takePcb (x : PcbId) (state : TcpState) :
    Act j w ((takePcb w j x).setPcb x
      { (SysAwg.takePcb w j x).pcbs x with state := state, connectedFn := true }) where
  trace := List.suffix_rfl
  others := by
    intro i hi
    exact Or.inl (Function.update_of_ne hi _ _)
  tame := by
    rintro y i ⟨hlive, harg, hsyn, hrelay⟩
    have hi : i ≠ j := by
      rintro rfl
      simp [SysAwg.takePcb] at hrelay
    have hy : y ≠ x := by
      rintro rfl
      have hj : i = j := by simpa [SysAwg.takePcb, eq_comm] using harg
      exact hi hj
    simp only [SysAwg.takePcb, World.setPcb_pcbs, World.setConn_pcbs, World.setPcb_conn,
      World.setConn_conn, Function.update_of_ne hy, Function.update_of_ne hi] at hlive harg hsyn hrelay
    exact ⟨hlive, harg, hsyn, hrelay⟩

theorem Act.takePcb_only (x : PcbId) : Act j w (SysAwg.takePcb w j x) := by
  have hpcb : Act j w (w.setPcb x { Pcb.fresh with arg := some j, errFn := true }) :=
    .block fun _ hsyn => by cases hsyn
  refine hpcb.trans (.slot rfl rfl List.suffix_rfl ?_)
  intro h
  cases h

theorem Act.useResult (ip : Option Ip) (e : ResolveEnv) : Act j w (useResult w j ip e) := by
  unfold SysAwg.useResult
  cases ip with
  | none => exact .failClose _ _
  | some a =>
      dsimp only
      have hcount : Act j w (w.count fun s => { s with resolved := s.resolved + 1 }) :=
        .note rfl rfl List.suffix_rfl
      have halloc := hcount.trans (.tcpAlloc e.new)
      rcases hal : SysAwg.tcpAlloc (w.count fun s => { s with resolved := s.resolved + 1 }) e.new
        with ⟨u, _ | x⟩
      · rw [hal] at halloc
        exact halloc.trans (.failClose _ _)
      · rw [hal] at halloc
        dsimp only
        split
        · exact halloc.trans (.takePcb x .synSent)
        · exact (halloc.trans (.takePcb_only x)).trans (.failClose _ _)

theorem Act.onResolved (q : Nat) (ip : Option Ip) (e : ResolveEnv) :
    Act j w (onResolved w j q ip e) := by
  unfold SysAwg.onResolved
  split
  · exact .refl j w
  · have hlog : ∀ ev, Act j w (w.log ev) := fun ev => .note rfl rfl (List.suffix_cons _ _)
    exact (hlog _).trans (.useResult ip e)

theorem Act.resolve (a : DnsAnswer) : Act j w (resolve w j a) := by
  have hask : Act j w (askDns w j) := .note rfl rfl (List.suffix_cons _ _)
  unfold SysAwg.resolve
  cases a with
  | ok ip e => exact hask.trans (.onResolved _ _ _)
  | inProgress => exact hask.trans (.note rfl rfl (List.suffix_cons _ _))
  | inside ip e => exact hask.trans (.onResolved _ _ _)
  | rejected => exact hask.trans (.failClose _ _)

theorem Act.sniff (dns : DnsAnswer) : Act j w (sniff w j dns) := by
  unfold SysAwg.sniff
  dsimp only
  have hcount : ∀ u : World, Act j u (u.count fun s => { s with denied := s.denied + 1 }) :=
    fun u => .note rfl rfl List.suffix_rfl
  have hname : ∀ (u : World) (h : Bytes), Act j u (u.setConn j { u.conn j with host := h }) :=
    fun u h => .slot rfl rfl List.suffix_rfl id
  split
  · split
    · exact ((hcount w).trans (hname _ [])).trans (.connClose j _)
    · split
      · exact ((hname w _).trans (hcount _)).trans (.connClose j _)
      · have hwait : ∀ (u : World) (c : Conn), c.st = .resolving → Act j u (u.setConn j c) := by
          intro u c hc
          refine .slot rfl rfl List.suffix_rfl ?_
          intro hrelay
          rw [hc] at hrelay
          cases hrelay
        exact ((hname w _).trans (hwait _ _ rfl)).trans (.resolve dns)
  · split
    · exact .connClose j _
    · exact .refl j w

theorem Act.tcpShutdown (x : PcbId) (sent : Bool) : Act j w (tcpShutdown w x sent) := by
  have hwrite : Act j w (w.setPcb x
      (if sent then (w.pcbs x).sendFin else { w.pcbs x with closePend := true })) := by
    refine .block ?_
    intro hlive hsyn
    refine Or.inr ?_
    cases sent with
    | true =>
        obtain ⟨hl, ha, -⟩ := (w.pcbs x).sendFin_same
        exact ⟨hl ▸ hlive, ha.symm, Pcb.sendFin_synSent hsyn⟩
    | false => exact ⟨hlive, rfl, hsyn⟩
  unfold SysAwg.tcpShutdown
  dsimp only
  split
  · exact hwrite
  · exact hwrite
  · exact .refl j w

theorem Act.handleClientReadable (e : ReadEnv) : Act j w (handleClientReadable w j e) := by
  unfold SysAwg.handleClientReadable
  dsimp only
  split
  · exact .refl j w
  · split
    · exact .refl j w
    · exact .connClose j _
    · split
      · split
        · exact .refl j w
        · split
          · have htouch : ∀ x, Act j w (w.touch j x) :=
              fun x => .note rfl rfl (List.suffix_cons _ _)
            exact (htouch _).trans (.tcpShutdown _ _)
          · exact .refl j w
      · have hread : ∀ (c : Conn) (b : Bytes), c.st = (w.conn j).st →
            Act j w ((w.setConn j c).log (.recv j b)) := by
          intro c b hc
          refine .slot rfl rfl (List.suffix_cons _ _) ?_
          rw [hc]
          exact id
        split
        · refine Act.trans ?_ (.sniff _)
          exact hread _ _ rfl
        · exact hread _ _ rfl

theorem Act.pumpUp (room : UInt16) (took : Bool) (now : UInt32) :
    Act j w (pumpUp w j room took now) := by
  have htouch : ∀ x, Act j w (w.touch j x) := fun x => .note rfl rfl (List.suffix_cons _ _)
  unfold SysAwg.pumpUp
  dsimp only
  split
  · exact .refl j w
  · split
    · exact .refl j w
    · split
      · exact htouch _
      · split
        · exact htouch _
        · refine (htouch _).trans (.slot rfl rfl (List.suffix_cons _ _) id)

theorem Act.dropSpent : Act j w (dropSpent w j) := .slot rfl rfl List.suffix_rfl id

theorem Act.sendSome (b : Bytes) (now : UInt32) : Act j w (sendSome w j b now) := by
  have hsend : Act j w (((w.setConn j { w.conn j with
      rxOff := (w.conn j).rxOff + b.length, lastMs := now }).log (.send j b)).count
        fun s => { s with bytesDown := s.bytesDown + UInt64.ofNat b.length }) :=
    .slot rfl rfl (List.suffix_cons _ _) id
  have hacked : ∀ u : World, Act j u (tcpRecved u j b.length) := by
    intro u
    unfold tcpRecved
    split
    · exact .refl j u
    · refine .note rfl rfl ?_
      exact (List.suffix_cons _ _).trans (List.suffix_cons _ _)
  exact hsend.trans (hacked _)

theorem Act.pumpDown : ∀ (answers : List (SendResult × UInt32)) (w : World),
    Act j w (pumpDown w j answers) := by
  intro answers
  induction answers with
  | nil =>
      intro w
      exact .dropSpent
  | cons a rest ih =>
      intro w
      obtain ⟨answer, now⟩ := a
      rw [SysAwg.pumpDown]
      refine Act.dropSpent.trans ?_
      split
      · exact .refl j _
      · cases answer with
        | again => exact .refl j _
        | fail => exact .connClose j _
        | took more => exact (Act.sendSome _ _).trans (ih _)

theorem Act.complete : Act j w (complete w j) := by
  have hlog : Act j w ((w.log (.completed j (w.conn j).peerClosed (w.conn j).unsent)).count
      fun s => { s with completed := s.completed + 1 }) := .note rfl rfl (List.suffix_cons _ _)
  exact hlog.trans (.connClose j none)

theorem Act.pollSlot (asked : Slot → Bool × Bool) (e : PollEnv) (w : World) (j : Slot) :
    Act j w (pollSlot asked e w j) := by
  have hread : ∀ (u : World) (c : Prop) [Decidable c],
      Act j u (if c then SysAwg.handleClientReadable u j (e.slots j).read else u) := by
    intro u c _
    split
    · exact .handleClientReadable _
    · exact .refl j u
  unfold SysAwg.pollSlot
  dsimp only
  split
  · exact .refl j w
  · split
    · exact .connClose j _
    · refine Act.trans ?_ (hread _ _)
      split
      · exact .pumpDown _ w
      · exact .refl j w

theorem Act.sweepSlot (now : UInt32) (w : World) (j : Slot) : Act j w (sweepSlot now w j) := by
  have hcount : Act j w (w.count fun s => { s with timedOut := s.timedOut + 1 }) :=
    .note rfl rfl List.suffix_rfl
  unfold SysAwg.sweepSlot
  dsimp only
  split
  · exact .refl j w
  · refine reach_ite ?_ ?_
    · intro _
      exact .refl j w
    · intro _
      exact hcount.trans (.connClose j _)

theorem Act.finalSlot (e : PollEnv) (w : World) (j : Slot) : Act j w (finalSlot e w j) := by
  have hdone : ∀ (u : World) (c : Prop) [Decidable c],
      Act j u (if c then SysAwg.complete u j else u) := by
    intro u c _
    split
    · exact .complete
    · exact .refl j u
  have hdown : ∀ (u : World) (c : Prop) [Decidable c],
      Act j u (if c then u else SysAwg.pumpDown u j (e.final j).down) := by
    intro u c _
    split
    · exact .refl j u
    · exact .pumpDown _ u
  unfold SysAwg.finalSlot
  dsimp only
  split
  · exact .refl j w
  · refine Act.trans ?_ (hdone _ _)
    refine Act.trans ?_ (hdown _ _)
    split
    · exact .pumpUp _ _ _
    · exact .refl j w

end Acts

end SysAwg
