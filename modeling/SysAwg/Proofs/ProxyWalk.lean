/-
Every entry of a run is made of moves.

The functions are taken in the order of the source.  Where a function goes on after a
call that may close slots, the order of the table is carried across the call, because
the next move may rest on it: an err callback that fires inside `tcp_new`, for one,
closes the slot its block names, and only the table says which slot that can be.

What comes out is that a run is a sequence of moves, and whatever moves keep holds in
every state of it and at every moment between two changes.  The invariants of the other
modules never see the functions.
-/
import SysAwg.Proofs.ProxyMoves

namespace SysAwg

variable {w w' w'' : World} {i : Slot} {x : PcbId}

/-! ### Composition -/

/-- Go on after some moves, with the table still in order. -/
theorem TableOk.andThen (h : TableOk w) (m : Moves w w') (k : TableOk w' → Moves w' w'') :
    Moves w w'' :=
  m.trans (k (h.moves m))

/-- Go on after strides, among which the resolver may have a part. -/
theorem TableOk.andStride (h : TableOk w) (m : Strides w w') (k : TableOk w' → Strides w' w'') :
    Strides w w'' :=
  m.trans (k (h.strides m))

theorem Move.moves (m : Move w w') : Moves w w' := Relation.ReflTransGen.single m

theorem Moves.strides (m : Moves w w') : Strides w w' :=
  m.lift id fun _ _ hm => Stride.move hm

/-- A branch of the source, taken or not. -/
theorem reach_ite {R : World → World → Prop} {c : Prop} [Decidable c] {a b : World} (ha : c → R w a)
    (hb : ¬c → R w b) : R w (if c then a else b) := by
  split
  · rename_i hc
    exact ha hc
  · rename_i hc
    exact hb hc

/-- A pass over the slots. -/
theorem strides_foldl {f : World → Slot → World} (hf : ∀ w i, TableOk w → Strides w (f w i)) :
    ∀ (l : List Slot) (w : World), TableOk w → Strides w (l.foldl f w) := by
  intro l
  induction l with
  | nil => intro w _; exact .refl
  | cons i rest ih =>
      intro w h
      exact h.andStride (hf w i h) (ih (f w i))

/-- One block is rewritten, and still answers to the same slot. -/
theorem setPcb_moves {p : Pcb} (hlive : p.live = (w.pcbs x).live) (harg : p.arg = (w.pcbs x).arg)
    (herr : p.errFn = (w.pcbs x).errFn) : Moves w (w.setPcb x p) := by
  refine (Move.blocks _ fun y => ?_).moves
  by_cases hy : y = x
  · subst hy
    rw [Function.update_self]
    exact ⟨hlive, harg, herr⟩
  · rw [Function.update_of_ne hy]
    exact ⟨rfl, rfl, rfl⟩

theorem note_moves {f : Stats → Stats} (hf : Harmless f) : Moves w (w.count f) :=
  (Move.note f hf).moves

/-- A counted failure, and then the close that gives a reason. -/
theorem failClose_moves {how : Failure} (hhow : how ≠ .lwipErr) (why : Why) :
    Moves w (connClose (countFailed w i how) i (some why)) :=
  (Move.failed i how hhow).moves.trans (Move.close i why).moves

/-! ### Allocating a block

The search for a block may free other slots' blocks and end those slots, but never one that
waits for its address, because such a slot has no block yet.  That is why the slot being
served is still there when the allocation returns.
-/

theorem World.pick_spec {p : Pcb → Bool} {want : PcbId} (h : w.pick p want = some x) :
    p (w.pcbs x) = true := by
  unfold World.pick at h
  split at h
  · rename_i hp
    obtain rfl := Option.some.inj h
    exact hp
  · exact List.find?_some (p := fun x => p (w.pcbs x)) h

theorem Pcb.sendFin_same (p : Pcb) :
    p.sendFin.live = p.live ∧ p.sendFin.arg = p.arg ∧ p.sendFin.errFn = p.errFn := by
  unfold Pcb.sendFin
  split <;> exact ⟨rfl, rfl, rfl⟩

theorem tcpHandleClosepend_moves (fins : PcbId → Bool) : Moves w (tcpHandleClosepend w fins) := by
  refine (Move.blocks _ fun y => ?_).moves
  dsimp only
  split
  · exact (w.pcbs y).sendFin_same
  · exact ⟨rfl, rfl, rfl⟩

/-- A block that is given up is freed, and its slot with it. -/
theorem abandon_move (h : TableOk w) (hlive : (w.pcbs x).live = true) : Move w (abandon w x) := by
  unfold abandon
  dsimp only
  rcases harg : (w.pcbs x).arg with _ | j
  · have hsame : (if (w.pcbs x).errFn = true then onErr (w.setPcb x Pcb.freed) none
        else w.setPcb x Pcb.freed) = w.setPcb x Pcb.freed := by
      split <;> rfl
    rw [hsame]
    exact .dropped x harg
  · rw [if_pos (h.blocks x j hlive harg).2.2]
    exact .err x j hlive harg

/-- Moves that leave a slot alone as long as it waits for its address. -/
def Spares (i : Slot) (w w' : World) : Prop :=
  Moves w w' ∧ ((w.conn i).st = .resolving → w'.conn i = w.conn i)

theorem Spares.trans (h : Spares i w w') (h' : Spares i w' w'') : Spares i w w'' := by
  refine ⟨h.1.trans h'.1, fun hst => ?_⟩
  have hsame := h.2 hst
  rw [← hsame]
  exact h'.2 (by rw [hsame]; exact hst)

theorem tcpKillTimewait_spares (i : Slot) (oldest : PcbId) :
    Spares i w (tcpKillTimewait w oldest) := by
  unfold tcpKillTimewait
  split
  · exact ⟨.refl, fun _ => rfl⟩
  · rename_i x hx
    have hp := World.pick_spec hx
    simp only [Bool.and_eq_true] at hp
    exact ⟨(Move.reclaimed x hp.1).moves, fun _ => rfl⟩

theorem abandon_spares (h : TableOk w) (i : Slot) (hlive : (w.pcbs x).live = true) :
    Spares i w (abandon w x) := by
  refine ⟨(abandon_move h hlive).moves, fun hst => ?_⟩
  unfold abandon
  dsimp only
  split
  · rcases harg : (w.pcbs x).arg with _ | j
    · rfl
    · -- the slot the block names is past waiting
      have hne : i ≠ j := by
        rintro rfl
        have hj := (h.blocks x i hlive harg).2.1
        simp [hst] at hj
      rw [h.onErr_eq hlive harg]
      exact Function.update_of_ne hne _ _
  · rfl

theorem tcpKillState_spares (h : TableOk w) (i : Slot) (state : TcpState) (oldest : PcbId) :
    Spares i w (tcpKillState w state oldest) := by
  unfold tcpKillState
  split
  · exact ⟨.refl, fun _ => rfl⟩
  · rename_i x hx
    have hp := World.pick_spec hx
    simp only [Bool.and_eq_true] at hp
    exact abandon_spares h i hp.1

theorem mempMalloc_free {want : PcbId} (h : mempMalloc w want = some x) :
    (w.pcbs x).live = false := by
  have hp := World.pick_spec h
  simpa using hp

/-- Allocating spares a slot that waits, and the cell it finds is nobody's. -/
theorem tcpAlloc_spec (h : TableOk w) (i : Slot) (e : NewEnv) :
    Spares i w (tcpAlloc w e).1 ∧
      ∀ x, (tcpAlloc w e).2 = some x → ((tcpAlloc w e).1.pcbs x).live = false := by
  unfold tcpAlloc
  split
  · rename_i x hx
    refine ⟨⟨.refl, fun _ => rfl⟩, ?_⟩
    rintro _ ⟨⟩
    exact mempMalloc_free hx
  · have hpend : Spares i w (tcpHandleClosepend w e.fins) :=
      ⟨tcpHandleClosepend_moves e.fins, fun _ => rfl⟩
    have hwait := hpend.trans (tcpKillTimewait_spares i e.oldest)
    have hack := hwait.trans (tcpKillState_spares (h.moves hwait.1) i .lastAck e.oldest)
    have hclosing := hack.trans (tcpKillState_spares (h.moves hack.1) i .closing e.oldest)
    dsimp only
    split
    · rename_i x hx
      refine ⟨hwait, ?_⟩
      rintro _ ⟨⟩
      exact mempMalloc_free hx
    · split
      · rename_i x hx
        refine ⟨hack, ?_⟩
        rintro _ ⟨⟩
        exact mempMalloc_free hx
      · exact ⟨hclosing, fun x hx => mempMalloc_free hx⟩

/-! ### Resolving

Whether the answer comes at once or later, it is used by the same function, and always by a
slot that waits.  What has to be carried along is that the slot goes on waiting until then.
-/

theorem connClose_st (w : World) (i : Slot) (why : Option Why) :
    ((connClose w i why).conn i).st ≠ .resolving := by
  by_cases hst : (w.conn i).st = .free
  · rw [connClose_free hst, hst]
    decide
  · rw [connClose_conn hst, Function.update_self]
    decide

/-- A slot that uses an answer is done with waiting. -/
theorem useResult_spec (h : TableOk w) (hst : (w.conn i).st = .resolving) (ip : Option Ip)
    (e : ResolveEnv) :
    Moves w (useResult w i ip e) ∧ ((useResult w i ip e).conn i).st ≠ .resolving := by
  unfold useResult
  cases ip with
  | none => exact ⟨failClose_moves (by decide) _, connClose_st _ _ _⟩
  | some a =>
      dsimp only
      generalize hw : w.count (fun s => { s with resolved := s.resolved + 1 }) = v
      have hnote : Moves w v := by
        rw [← hw]
        exact note_moves fun _ => ⟨rfl, rfl, rfl, rfl⟩
      have hst' : (v.conn i).st = .resolving := by
        rw [← hw]
        exact hst
      obtain ⟨⟨hm, hkeep⟩, hfree⟩ := tcpAlloc_spec (h.moves hnote) i e.new
      have hkeep := hkeep hst'
      have hm := hnote.trans hm
      rcases hal : tcpAlloc v e.new with ⟨u, _ | x⟩
      · rw [hal] at hm
        exact ⟨hm.trans (failClose_moves (by decide) _), connClose_st _ _ _⟩
      · rw [hal] at hm hkeep hfree
        dsimp only at hm hkeep hfree ⊢
        have htake : Move u (takePcb u i x) :=
          .take i x (by rw [hkeep]; exact hst') (hfree x rfl)
        have hm := hm.trans htake.moves
        by_cases hc : e.connects = true
        · rw [if_pos hc]
          exact ⟨hm.trans (setPcb_moves rfl rfl rfl), by simp [takePcb]⟩
        · rw [if_neg hc]
          exact ⟨hm.trans (failClose_moves (by decide) _), connClose_st _ _ _⟩

theorem onResolved_eq {q : Nat} (hst : (w.conn i).st = .resolving) (ip : Option Ip)
    (e : ResolveEnv) : onResolved w i q ip e = useResult (answeredOn w i q ip) i ip e := by
  unfold onResolved
  rw [if_neg (not_not_intro hst)]
  rfl

theorem resolve_stride (h : TableOk w) (hst : (w.conn i).st = .sniff) {name : Bytes}
    (hok : HostOk name) (a : DnsAnswer) :
    Stride w (resolve (w.setConn i { w.conn i with host := name, st := .resolving }) i a) := by
  have hq := h.ask (Ask.query i name hst hok)
  have hwait : ((queryOn w i name).conn i).st = .resolving := by simp [queryOn, askDns]
  have hnow : ∀ ip e, Stride w (onResolved (queryOn w i name) i w.nextQ ip e) := by
    intro ip e
    rw [onResolved_eq hwait]
    have hu := useResult_spec (hq.ask (.answered i w.nextQ ip)) hwait ip e
    exact .now i name ip hst hok hu.1 hu.2
  cases a with
  | ok ip e => exact hnow (some ip) e
  | inProgress => exact .asked i name hst hok
  | inside ip e => exact hnow ip e
  | rejected =>
      exact .refused i name hst hok (failClose_moves (by decide) .dnsRejected) (connClose_st _ _ _)

/-! ### Reading from the client -/

theorem sniff_strides (h : TableOk w) (hst : (w.conn i).st = .sniff) (dns : DnsAnswer) :
    Strides w (sniff w i dns) := by
  unfold sniff
  dsimp only
  split
  · rename_i name _
    rcases hh : hostNormalise (cString name) with ⟨host, ok⟩
    dsimp only
    cases ok with
    | false =>
        rw [if_pos (show (!false) = true from rfl)]
        refine Moves.strides ?_
        refine (Move.rename i [] hst).moves.trans ?_
        refine (note_moves (f := fun s => { s with denied := s.denied + 1 }) ?_).trans ?_
        · exact fun _ => ⟨rfl, rfl, rfl, rfl⟩
        · exact (Move.close i _).moves
    | true =>
        rw [if_neg (by simp)]
        by_cases hd : hostDenied host = true
        · rw [if_pos hd]
          refine Moves.strides ?_
          refine (Move.rename i host hst).moves.trans ?_
          refine (note_moves (f := fun s => { s with denied := s.denied + 1 }) ?_).trans ?_
          · exact fun _ => ⟨rfl, rfl, rfl, rfl⟩
          · exact (Move.close i _).moves
        · rw [if_neg hd]
          obtain ⟨hne, hnorm⟩ := hostNormalise_idem hh
          have hok : HostOk host := ⟨hne, hnorm, by simpa using hd⟩
          have hm := resolve_stride h hst hok dns
          refine .single ?_
          simpa [World.setConn] using hm
  · exact reach_ite (fun _ => (Move.close i _).moves.strides) fun _ => .refl

theorem tcpShutdown_moves (sent : Bool) : Moves w (tcpShutdown w x sent) := by
  have hfin := (w.pcbs x).sendFin_same
  unfold tcpShutdown
  dsimp only
  split
  all_goals first
    | exact .refl
    | cases sent with
      | true => exact setPcb_moves hfin.1 hfin.2.1 hfin.2.2
      | false => exact setPcb_moves rfl rfl rfl

theorem handleClientReadable_strides (h : TableOk w) (hst : (w.conn i).st ≠ .free) (e : ReadEnv) :
    Strides w (handleClientReadable w i e) := by
  unfold handleClientReadable
  dsimp only
  refine reach_ite (fun _ => .refl) ?_
  intro _
  split
  · exact .refl
  · exact (Move.close i _).moves.strides
  · rename_i b _
    refine reach_ite (fun _ => ?_) fun _ => ?_
    · rcases hpcb : (w.conn i).pcb with _ | x
      · exact .refl
      · refine reach_ite (fun _ => ?_) fun _ => .refl
        exact Moves.strides ((Move.touched i x hpcb).moves.trans (tcpShutdown_moves e.finSent))
    · have hroom : (w.conn i).up.length
          + (b.take (bufSize - (w.conn i).up.length)).length ≤ bufSize := by
        have := (h.slots i).up_le
        rw [List.length_take]
        omega
      refine h.andStride (Move.received i _ e.now hst hroom).moves.strides ?_
      intro h
      refine reach_ite (fun hs => ?_) fun _ => .refl
      exact sniff_strides h (by simpa using hs) e.dns

/-! ### Moving bytes -/

theorem pumpUp_moves (room : UInt16) (took : Bool) (now : UInt32) :
    Moves w (pumpUp w i room took now) := by
  unfold pumpUp
  dsimp only
  rcases hpcb : (w.conn i).pcb with _ | x
  · exact .refl
  · dsimp only
    split
    · exact .refl
    · refine (Move.touched i x hpcb).moves.trans ?_
      split
      · exact .refl
      · split
        · exact .refl
        · have hm := Move.wrote (w := w.touch i x) i (min (w.conn i).up.length room.toNat) now
          simp only [World.touch_conn, hpcb] at hm
          exact hm.moves.trans (note_moves fun _ => ⟨rfl, rfl, rfl, rfl⟩)

/-- A slot with data has a block. -/
theorem SlotOk.pcb_of_rx {c : Conn} (h : SlotOk c) (hrx : c.rx ≠ []) : ∃ x, c.pcb = some x := by
  refine Option.ne_none_iff_exists'.mp ?_
  rcases hst : c.st with _ | _ | _ | _ | _
  · exact absurd (h.free hst).2.1 hrx
  · exact absurd (h.early (Or.inl hst)).2 hrx
  · exact absurd (h.early (Or.inr hst)).2 hrx
  · exact h.late (Or.inl hst)
  · exact h.late (Or.inr hst)

theorem pumpDown_moves (i : Slot) : ∀ (answers : List (SendResult × UInt32)) (w : World),
    TableOk w → Moves w (pumpDown w i answers) := by
  intro answers
  induction answers with
  | nil => intro w _; exact (Move.spent i).moves
  | cons a rest ih =>
      intro w h
      obtain ⟨answer, now⟩ := a
      rw [pumpDown]
      refine h.andThen (Move.spent i).moves ?_
      intro h
      split
      · exact .refl
      · rename_i p links hrx
        cases answer with
        | again => exact .refl
        | fail => exact (Move.close i _).moves
        | took more =>
            obtain ⟨x, hpcb⟩ := (h.slots i).pcb_of_rx (by simp [hrx])
            exact h.andThen (Move.sent i p links (more + 1) now x hrx hpcb).moves (ih _)

/-! ### The poll loop -/

theorem pollAccept_moves (e : PollEnv) : Moves w (pollAccept w e) := by
  unfold pollAccept
  split
  · exact .refl
  · split
    · exact .refl
    · rename_i cfd _ hcfd
      split
      · exact note_moves fun _ => ⟨rfl, rfl, rfl, rfl⟩
      · rename_i i hi
        have hfree : (w.conn i).st = .free := by simpa using List.find?_some hi
        exact (Move.accept i cfd e.acceptNow hfree (by omega)).moves

theorem pollSlot_strides (asked : Slot → Bool × Bool) (e : PollEnv) (w : World) (i : Slot)
    (h : TableOk w) : Strides w (pollSlot asked e w i) := by
  unfold pollSlot
  dsimp only
  refine reach_ite (fun _ => .refl) ?_
  intro _
  refine reach_ite (fun _ => (Move.close i _).moves.strides) ?_
  intro _
  have hdown : Moves w (if ((e.slots i).pollOut && (asked i).2) = true
      then pumpDown w i (e.slots i).down else w) :=
    reach_ite (fun _ => pumpDown_moves i _ w h) fun _ => .refl
  refine h.andStride hdown.strides ?_
  intro h
  exact reach_ite (fun hb => handleClientReadable_strides h hb.1 _) fun _ => .refl

theorem sweepSlot_moves (now : UInt32) (w : World) (i : Slot) : Moves w (sweepSlot now w i) := by
  unfold sweepSlot
  dsimp only
  refine reach_ite (fun _ => .refl) ?_
  intro _
  refine reach_ite (fun _ => .refl) ?_
  intro _
  have hnote : Moves w (w.count fun s => { s with timedOut := s.timedOut + 1 }) :=
    note_moves fun _ => ⟨rfl, rfl, rfl, rfl⟩
  exact hnote.trans (Move.close i _).moves

theorem finalSlot_moves (e : PollEnv) (w : World) (i : Slot) (h : TableOk w) :
    Moves w (finalSlot e w i) := by
  unfold finalSlot
  dsimp only
  refine reach_ite (fun _ => .refl) ?_
  intro _
  generalize hv : (if (w.conn i).st = .relay
    then pumpUp w i (e.final i).room (e.final i).took (e.final i).now else w) = v
  have hup : Moves w v := by
    rw [← hv]
    exact reach_ite (fun _ => pumpUp_moves _ _ _) fun _ => .refl
  refine h.andThen hup ?_
  intro h
  generalize hu : (if (v.conn i).rx.isEmpty = true then v else pumpDown v i (e.final i).down) = u
  have hdown : Moves v u := by
    rw [← hu]
    exact reach_ite (fun _ => .refl) fun _ => pumpDown_moves i _ v h
  refine h.andThen hdown ?_
  intro h
  refine reach_ite (fun hdone => ?_) fun _ => .refl
  obtain ⟨hpeer, hrx⟩ := hdone
  refine (Move.completed i ?_ hpeer (by simpa using hrx)).moves
  -- a free slot has no peer that is done
  intro hfree
  have hnot := ((h.slots i).free hfree).2.2.2.2
  rw [hpeer] at hnot
  cases hnot

theorem sweepIdle_strides (h : TableOk w) (now : UInt32) : Strides w (sweepIdle w now) :=
  strides_foldl (fun w i _ => (sweepSlot_moves now w i).strides) _ _ h

theorem awgProxyPoll_strides (h : TableOk w) (e : PollEnv) : Strides w (awgProxyPoll w e) := by
  unfold awgProxyPoll
  dsimp only
  refine reach_ite (fun _ => .refl) ?_
  intro _
  have hready : Strides w (if e.ready = true
      then (polled w).foldl (pollSlot (fun i => wanted (w.conn i)) e) (pollAccept w e)
      else w) := by
    refine reach_ite (fun _ => ?_) fun _ => .refl
    exact h.andStride (pollAccept_moves e).strides (strides_foldl (pollSlot_strides _ e) _ _)
  refine h.andStride hready ?_
  intro h
  refine h.andStride (sweepIdle_strides h e.sweepNow) ?_
  intro h
  exact strides_foldl (fun w i h => (finalSlot_moves e w i h).strides) _ _ h

/-! ### Stopping -/

theorem running_connClose (why : Option Why) :
    running (connClose w i why).trace = running w.trace := by
  by_cases hst : (w.conn i).st = .free
  · rw [connClose_free hst]
  · rw [connClose_trace hst]
    cases (w.conn i).pcb <;> rfl

theorem stopFold_moves : ∀ (l : List Slot) (w : World), running w.trace = false →
    Moves w (l.foldl (fun w i => connClose w i none) w) := by
  intro l
  induction l with
  | nil => intro w _; exact .refl
  | cons i rest ih =>
      intro w hrun
      refine (Move.stopClose i hrun).moves.trans (ih _ ?_)
      rw [running_connClose]
      exact hrun

theorem awgProxyStop_moves : Moves w (awgProxyStop w) := by
  refine (Move.stopping).moves.trans ?_
  exact (stopFold_moves _ _ rfl).trans (Move.listening (-1)).moves

/-! ### Runs

An entry that lwIP makes on its own is a move by definition, or a call of a callback, or of
the resolver.  From the entries the runs follow, and with them the moments inside an entry.
-/

theorem onConnected_moves (h : TableOk w) (hlive : (w.pcbs x).live = true) (err : Bool) :
    Moves w (onConnected w (w.pcbs x).arg x err) := by
  unfold onConnected
  rcases harg : (w.pcbs x).arg with _ | i
  · exact .refl
  · dsimp only
    split
    · exact failClose_moves (by decide) _
    · have hst := (h.blocks x i hlive harg).2.1
      have hrecv : Moves w (w.setPcb x { w.pcbs x with recvFn := true }) :=
        setPcb_moves rfl rfl rfl
      refine hrecv.trans ?_
      refine (Move.connected (w := w.setPcb x _) i hst).moves.trans ?_
      exact note_moves fun _ => ⟨rfl, rfl, rfl, rfl⟩

theorem onRecv_moves (h : TableOk w) (hlive : (w.pcbs x).live = true) (p : Option (List Pbuf))
    (err : Bool) : Moves w (onRecv w (w.pcbs x).arg p err) := by
  unfold onRecv
  rcases harg : (w.pcbs x).arg with _ | i
  · exact .refl
  · have hst := (h.blocks x i hlive harg).2.1
    cases p with
    | none => exact (Move.finished i hst).moves
    | some chain =>
        dsimp only
        split
        · exact .refl
        · exact (Move.delivered i chain hst).moves

/-- **Every entry of a run is made of moves.** -/
theorem step_strides (h : TableOk w) (l : Label) : Strides w (step w l) := by
  cases l with
  | poll e => exact awgProxyPoll_strides h e
  | start fd =>
      rw [step]
      split
      · rename_i hall
        have hfree : ∀ i, (w.conn i).st = .free := by
          intro i
          simpa using List.all_eq_true.mp hall i (List.mem_finRange i)
        exact (Move.started fd hfree).moves.strides
      · exact .refl
  | stop => exact awgProxyStop_moves.strides
  | dnsFound k ip e =>
      rw [step]
      split
      · exact .refl
      · rename_i r hr
        by_cases hst : (w.conn r.slot).st = .resolving
        · rw [onResolved_eq (w := { w with reqs := w.reqs.eraseIdx k }) hst]
          have hu := useResult_spec ((h.move (.unasked k)).ask (.answered r.slot r.q ip)) hst ip e
          exact .single (.later k r ip hr hst hu.1 hu.2)
        · unfold onResolved
          rw [if_pos hst]
          exact (Move.unasked k).moves.strides
  | connected x err =>
      rw [step]
      split
      · rename_i hp
        have hup : Moves w (w.setPcb x { w.pcbs x with state := .established }) :=
          setPcb_moves rfl rfl rfl
        refine (h.andThen hup fun h => ?_).strides
        have hm := onConnected_moves h (x := x) (by simpa using hp.1) err
        simpa using hm
      · exact .refl
  | recv x chain err =>
      rw [step]
      split
      · rename_i hp
        exact (onRecv_moves h hp.1 (some chain) err).strides
      · exact .refl
  | fin x acked =>
      rw [step]
      dsimp only
      split
      · exact .refl
      · rename_i st _
        split
        · rename_i hlive
          have hup : Moves w (w.setPcb x { w.pcbs x with state := st }) :=
            setPcb_moves rfl rfl rfl
          refine (h.andThen hup fun h => ?_).strides
          split
          · have hm := onRecv_moves h (x := x) (by simpa using hlive) none false
            simpa using hm
          · exact .refl
        · exact .refl
  | ack x =>
      rw [step]
      split
      · exact .refl
      · split
        · refine Moves.strides ?_
          exact setPcb_moves rfl rfl rfl
        · exact .refl
  | giveUp x =>
      rw [step]
      split
      · rename_i hp
        exact (abandon_move h hp.1).moves.strides
      · exact .refl
  | timeWaitOver x =>
      rw [step]
      split
      · rename_i hp
        exact (Move.reclaimed x hp.1).moves.strides
      · exact .refl
  | pendingFin x => exact (tcpHandleClosepend_moves _).strides
  | otherNew e =>
      rw [step]
      -- whichever slot is spared, the moves are the same
      obtain ⟨⟨hm, -⟩, hfree⟩ := tcpAlloc_spec h 0 e
      rcases hal : tcpAlloc w e with ⟨u, _ | x⟩
      · rw [hal] at hm
        exact hm.strides
      · rw [hal] at hm hfree
        exact Moves.strides (hm.trans (Move.taken x (hfree x rfl)).moves)
  | otherMove x state =>
      rw [step]
      split
      · refine Moves.strides ?_
        exact setPcb_moves rfl rfl rfl
      · exact .refl
  | otherFree x =>
      rw [step]
      split
      · rename_i hp
        exact (Move.dropped x hp.2).moves.strides
      · exact .refl

theorem foldl_step_strides : ∀ (labels : List Label) (w : World), TableOk w →
    Strides w (labels.foldl step w) := by
  intro labels
  induction labels with
  | nil => intro w _; exact .refl
  | cons l rest ih =>
      intro w h
      exact h.andStride (step_strides h l) (ih (step w l))

/-- Every run is made of moves. -/
theorem proxyRun_strides (fd : Int) (labels : List Label) :
    Strides (awgProxyStart World.boot fd) (proxyRun fd labels) :=
  foldl_step_strides labels _ (tableOk_start fd)

/-- The moments of a run: its states, and those between two changes inside an entry. -/
inductive Moment (fd : Int) : World → Prop
  | start : Moment fd (awgProxyStart World.boot fd)
  | move {w w' : World} (h : Moment fd w) (m : Move w w') : Moment fd w'
  | ask {w w' : World} (h : Moment fd w) (m : Ask w w') : Moment fd w'

/-- What every change keeps, and holds at the start, holds at every moment. -/
theorem Kept.moment {P : World → Prop} (k : Kept P) {fd : Int}
    (hstart : P (awgProxyStart World.boot fd)) {w : World} (h : Moment fd w) :
    TableOk w ∧ P w := by
  induction h with
  | start => exact ⟨tableOk_start fd, hstart⟩
  | move _ m ih => exact ⟨ih.1.move m, k.move ih.1 ih.2 m⟩
  | ask _ m ih => exact ⟨ih.1.ask m, k.ask ih.1 ih.2 m⟩

/-- The states of a run are moments of it. -/
theorem moment_proxyRun (fd : Int) (labels : List Label) : Moment fd (proxyRun fd labels) :=
  (Kept.strides ⟨fun _ h m => .move h m, fun _ h m => .ask h m⟩ (tableOk_start fd) .start
    (proxyRun_strides fd labels)).2

end SysAwg
