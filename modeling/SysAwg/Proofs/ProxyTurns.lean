/-
A slot that finishes, through one call of `awg_proxy_poll`.

The call goes over the slots three times: the results of `poll`, the idle sweep, and the
last pass.  Each pass comes to a slot at most once, so what happens to slot `i` in a pass
is what happens before its turn, its turn, and what happens after it.  Before and after,
it is left alone unless its err callback runs (`Aside`).  So a pass reduces to one turn, and
a turn is the lemma of one function.

In its turns a slot whose remote has finished goes on finishing, unless its client socket
fails, the sweep reaches it, or it is counted as completed.  The failures are described by
what the environment answers, and not by what the functions return, which is why
`pumpFails` runs through the answers of `send` as far as `pump_down` gets.
-/
import SysAwg.Proofs.ProxyActs

namespace SysAwg

/-! ### One slot in a pass over all

The passes go over the list of all slots, in which slot `i` stands once.  The steps before
it and after it are `Aside`, so is their composition, and what they add to the history is
added before and after what the turn adds.
-/

section Pass

variable {w w' w'' : World} {i j : Slot}

/-- What was done left the slot as it was, unless its err callback ran. -/
structure Aside (i : Slot) (w w' : World) : Prop where
  trace : w.trace <:+ w'.trace
  slot : w'.conn i = w.conn i ∨ ErrCall i w w'

theorem Act.aside (h : Act j w w') (hij : i ≠ j) : Aside i w w' := ⟨h.trace, h.others i hij⟩

theorem Aside.refl (i : Slot) (w : World) : Aside i w w := ⟨List.suffix_rfl, Or.inl rfl⟩

theorem Aside.trans (h : Aside i w w') (h' : Aside i w' w'') : Aside i w w'' := by
  refine ⟨h.trace.trans h'.trace, ?_⟩
  rcases h'.slot with hsame | herr
  · rcases h.slot with hsame' | herr'
    · exact Or.inl (hsame.trans hsame')
    · exact Or.inr (herr'.later h'.trace)
  · exact Or.inr (herr.earlier h.trace)

/-- A pass adds to the history. -/
theorem suffix_foldl {f : World → Slot → World} (hf : ∀ u j, Act j u (f u j)) :
    ∀ (l : List Slot) (w : World), w.trace <:+ (l.foldl f w).trace := by
  intro l
  induction l with
  | nil =>
      intro w
      exact List.suffix_rfl
  | cons j rest ih =>
      intro w
      exact (hf w j).trace.trans (ih (f w j))

theorem aside_foldl {f : World → Slot → World} (hf : ∀ u j, Act j u (f u j)) :
    ∀ (l : List Slot) (w : World), i ∉ l → Aside i w (l.foldl f w) := by
  intro l
  induction l with
  | nil =>
      intro w _
      exact .refl i w
  | cons j rest ih =>
      intro w hi
      rw [List.mem_cons, not_or] at hi
      exact ((hf w j).aside hi.1).trans (ih (f w j) hi.2)

/-- A pass that comes to the slot once: what happens before its turn, the turn, and what
happens after it. -/
theorem turn_foldl {f : World → Slot → World} (hf : ∀ u j, Act j u (f u j)) {l : List Slot}
    (hl : l.Nodup) (hi : i ∈ l) (w : World) :
    ∃ u, Aside i w u ∧ Aside i (f u i) (l.foldl f w) := by
  obtain ⟨before, after, rfl⟩ := List.append_of_mem hi
  rw [List.nodup_append] at hl
  obtain ⟨-, hafter, hdisjoint⟩ := hl
  have hbefore : i ∉ before := by
    intro hmem
    exact hdisjoint i hmem i (List.mem_cons_self ..) rfl
  refine ⟨before.foldl f w, aside_foldl hf before w hbefore, ?_⟩
  rw [List.foldl_append, List.foldl_cons]
  exact aside_foldl hf after _ (List.nodup_cons.mp hafter).1

/-- No pass lets a block of a slot that relays begin to wait for its handshake. -/
theorem tame_foldl {f : World → Slot → World} (hf : ∀ u j, Act j u (f u j)) :
    ∀ (l : List Slot) (w : World) (x : PcbId) (i : Slot), SynFor (l.foldl f w) x i → SynFor w x i := by
  intro l
  induction l with
  | nil =>
      intro w x i h
      exact h
  | cons j rest ih =>
      intro w x i h
      exact (hf w j).tame x i (ih (f w j) x i h)

end Pass

/-! ### The turn of a slot that finishes

The lemmas of this part have one form.  Given a slot that finishes, the function leaves one
that finishes, and where it does not, the disjunct that says why is one the environment
decides.
-/

/-- The remote's FIN is in, and what it sent before is on its way to the client. -/
structure Finishing (w : World) (i : Slot) : Prop where
  st : (w.conn i).st = .relay
  peerClosed : (w.conn i).peerClosed = true

/-- The answers of `send` that `pump_down` gets to, from a chain, contain a failure. -/
def pumpFails : List Pbuf → Nat → List (SendResult × UInt32) → Bool
  | _, _, [] => false
  | rx, off, (answer, _) :: rest =>
    match skipSpent rx off with
    | ([], _) => false
    | (p :: links, off) =>
      match answer with
      | .again => false
      | .fail => true
      | .took more =>
        pumpFails (p :: links) (off + ((p.payload.drop off).take (more + 1)).length) rest

/-- The world when the loop over the poll results is done. -/
def afterEvents (w : World) (e : PollEnv) : World :=
  if e.ready then (polled w).foldl (pollSlot (fun i => wanted (w.conn i)) e) (pollAccept w e) else w

/-- In one call of `awg_proxy_poll` the client socket of a slot failed or hung up. -/
inductive ClientFailed (w : World) (e : PollEnv) (i : Slot) : Prop
  /-- `POLLERR`, `POLLHUP` or `POLLNVAL`. -/
  | hungUp (hready : e.ready = true) (hpolled : i ∈ polled w) (h : (e.slots i).pollErr = true)
  | readFailed (hready : e.ready = true) (hpolled : i ∈ polled w)
      (hin : (e.slots i).pollIn = true) (h : (e.slots i).read.recv = .fail)
  | writeFailed (hready : e.ready = true) (hpolled : i ∈ polled w)
      (hout : (e.slots i).pollOut = true)
      (h : pumpFails (w.conn i).rx (w.conn i).rxOff (e.slots i).down = true)
  /-- The same in the last pass. -/
  | lastWriteFailed (h : pumpFails ((afterEvents w e).conn i).rx ((afterEvents w e).conn i).rxOff
      (e.final i).down = true)

/-- The idle sweep of the call reaches the slot. -/
def Swept (w : World) (e : PollEnv) (i : Slot) : Prop :=
  ((afterEvents w e).conn i).st = .relay ∧
    idleTimeoutMs ≤ e.sweepNow - ((afterEvents w e).conn i).lastMs

section Turn

variable {w : World} {i : Slot}

theorem Finishing.congr {w' : World} (h : Finishing w i) (hst : (w'.conn i).st = (w.conn i).st)
    (hpeer : (w'.conn i).peerClosed = (w.conn i).peerClosed) : Finishing w' i :=
  ⟨hst.trans h.st, hpeer.trans h.peerClosed⟩

theorem sendSome_conn (w : World) (i : Slot) (b : Bytes) (now : UInt32) :
    (sendSome w i b now).conn = Function.update w.conn i
      { w.conn i with rxOff := (w.conn i).rxOff + b.length, lastMs := now } := by
  unfold sendSome tcpRecved
  dsimp only
  split <;> rfl

/-- Unless a `send` fails, the slot goes on finishing, with as much from the client. -/
theorem pumpDown_finishing : ∀ (answers : List (SendResult × UInt32)) (w : World),
    Finishing w i → pumpFails (w.conn i).rx (w.conn i).rxOff answers = false →
      Finishing (pumpDown w i answers) i := by
  intro answers
  induction answers with
  | nil =>
      intro w h _
      exact h.congr (by simp [pumpDown, dropSpent]) (by simp [pumpDown, dropSpent])
  | cons a rest ih =>
      intro w h hok
      obtain ⟨answer, now⟩ := a
      have hspent : (dropSpent w i).conn i = { w.conn i with
          rx := (skipSpent (w.conn i).rx (w.conn i).rxOff).1
          rxOff := (skipSpent (w.conn i).rx (w.conn i).rxOff).2 } := by simp [dropSpent]
      have hdrop : Finishing (dropSpent w i) i := h.congr (by rw [hspent]) (by rw [hspent])
      rw [pumpDown]
      rw [pumpFails] at hok
      rcases hskip : skipSpent (w.conn i).rx (w.conn i).rxOff with ⟨_ | ⟨p, links⟩, off⟩
      · rw [hskip] at hspent
        rw [hspent]
        exact hdrop
      · rw [hskip] at hspent hok
        rw [hspent]
        cases answer with
        | again => exact hdrop
        | fail => cases hok
        | took more =>
            dsimp only at hok ⊢
            have hsent := sendSome_conn (dropSpent w i) i ((p.payload.drop off).take (more + 1)) now
            refine ih _ (hdrop.congr ?_ ?_) ?_
            · rw [hsent, Function.update_self]
            · rw [hsent, Function.update_self]
            · rw [hsent, Function.update_self, hspent]
              exact hok

/-- Unless `recv` fails, the slot goes on finishing. -/
theorem handleClientReadable_finishing (h : Finishing w i) {e : ReadEnv} (hok : e.recv ≠ .fail) :
    Finishing (handleClientReadable w i e) i := by
  unfold handleClientReadable
  dsimp only
  split
  · exact h
  · split
    · exact h
    · rename_i hfail
      exact absurd hfail hok
    · split
      · split
        · exact h
        · split
          · rename_i x _ _
            have hconn : (tcpShutdown (w.touch i x) x e.finSent).conn = w.conn := by
              unfold tcpShutdown
              dsimp only
              split <;> rfl
            exact h.congr (by rw [hconn]) (by rw [hconn])
          · exact h
      · rw [if_neg (by rw [h.st]; simp)]
        exact h.congr (by simp) (by simp)

theorem pollSlot_finishing (h : Finishing w i) {asked : Slot → Bool × Bool} {e : PollEnv}
    (hhup : (e.slots i).pollErr = false)
    (hread : (e.slots i).pollIn = true → (e.slots i).read.recv ≠ .fail)
    (hwrite : (e.slots i).pollOut = true →
      pumpFails (w.conn i).rx (w.conn i).rxOff (e.slots i).down = false) :
    Finishing (pollSlot asked e w i) i := by
  unfold pollSlot
  dsimp only
  rw [if_neg (by rw [h.st]; simp), if_neg (by simp [hhup])]
  have hdown : Finishing (if (e.slots i).pollOut && (asked i).2 then pumpDown w i (e.slots i).down
      else w) i := by
    split
    · rename_i hout
      exact pumpDown_finishing _ w h (hwrite (Bool.and_eq_true_iff.mp hout).1)
    · exact h
  generalize (if (e.slots i).pollOut && (asked i).2 then pumpDown w i (e.slots i).down else w) = u
    at hdown
  split
  · rename_i hin
    exact handleClientReadable_finishing hdown (hread (Bool.and_eq_true_iff.mp hin.2).1)
  · exact hdown

theorem pollAccept_conn (h : (w.conn i).st ≠ .free) (e : PollEnv) :
    (pollAccept w e).conn i = w.conn i := by
  unfold pollAccept
  split
  · rfl
  · split
    · rfl
    · split
      · rfl
      · rename_i j hj
        have hfree : (w.conn j).st = .free := by
          have := List.find?_some hj
          simpa using this
        have hne : i ≠ j := by
          rintro rfl
          exact h hfree
        simp [acceptOn, Function.update_of_ne hne]

theorem pollAccept_suffix (w : World) (e : PollEnv) : w.trace <:+ (pollAccept w e).trace := by
  unfold pollAccept
  split
  · exact List.suffix_rfl
  · split
    · exact List.suffix_rfl
    · split
      · exact List.suffix_rfl
      · exact List.suffix_cons _ _

theorem polled_nodup (w : World) : (polled w).Nodup := (List.nodup_finRange 16).filter _

/-- **After the loop over the poll results** the slot goes on finishing, or its client
failed, or its err callback ran. -/
theorem afterEvents_finishing (h : Finishing w i) (e : PollEnv) :
    w.trace <:+ (afterEvents w e).trace ∧
      (ClientFailed w e i ∨ ErrCall i w (afterEvents w e) ∨ Finishing (afterEvents w e) i) := by
  have hbusy : (w.conn i).st ≠ .free := by simp [h.st]
  by_cases hready : e.ready = true
  · have haccept : Aside i w (pollAccept w e) :=
      ⟨pollAccept_suffix w e, Or.inl (pollAccept_conn hbusy e)⟩
    have hafter : afterEvents w e
        = (polled w).foldl (pollSlot (fun i => wanted (w.conn i)) e) (pollAccept w e) :=
      if_pos hready
    have hact := Act.pollSlot (fun i => wanted (w.conn i)) e
    rw [hafter]
    by_cases hpolled : i ∈ polled w
    · obtain ⟨u, hbefore, hrest⟩ := turn_foldl hact (polled_nodup w) hpolled (pollAccept w e)
      have hbefore := haccept.trans hbefore
      have hsuf := hbefore.trace.trans ((hact u i).trace.trans hrest.trace)
      refine ⟨hsuf, ?_⟩
      rcases hbefore.slot with hsame | herr
      · -- the slot comes to its turn as it was
        have hturn : Finishing u i := h.congr (by rw [hsame]) (by rw [hsame])
        by_cases hhup : (e.slots i).pollErr = true
        · exact Or.inl (.hungUp hready hpolled hhup)
        · by_cases hread : (e.slots i).pollIn = true ∧ (e.slots i).read.recv = .fail
          · exact Or.inl (.readFailed hready hpolled hread.1 hread.2)
          · by_cases hwrite : (e.slots i).pollOut = true ∧
                pumpFails (w.conn i).rx (w.conn i).rxOff (e.slots i).down = true
            · exact Or.inl (.writeFailed hready hpolled hwrite.1 hwrite.2)
            · have hdone : Finishing (pollSlot (fun i => wanted (w.conn i)) e u i) i := by
                refine pollSlot_finishing hturn (by simpa using hhup) ?_ ?_
                · intro hin hfail
                  exact hread ⟨hin, hfail⟩
                · intro hout
                  rw [hsame]
                  by_contra hfails
                  exact hwrite ⟨hout, by simpa using hfails⟩
              refine Or.inr ?_
              rcases hrest.slot with hkept | herr
              · exact Or.inr (hdone.congr (by rw [hkept]) (by rw [hkept]))
              · exact Or.inl (herr.earlier (hbefore.trace.trans (hact u i).trace))
      · exact Or.inr (Or.inl (herr.later ((hact u i).trace.trans hrest.trace)))
    · have hall := haccept.trans (aside_foldl hact (polled w) (pollAccept w e) hpolled)
      refine ⟨hall.trace, Or.inr ?_⟩
      rcases hall.slot with hsame | herr
      · exact Or.inr (h.congr (by rw [hsame]) (by rw [hsame]))
      · exact Or.inl herr
  · have hafter : afterEvents w e = w := if_neg hready
    rw [hafter]
    exact ⟨List.suffix_rfl, Or.inr (Or.inr h)⟩

/-- The sweep at this slot: it is left as it was, or its time is over. -/
theorem sweepSlot_finishing (h : Finishing w i) (now : UInt32) :
    idleTimeoutMs ≤ now - (w.conn i).lastMs ∨ sweepSlot now w i = w := by
  by_cases hidle : now - (w.conn i).lastMs < idleTimeoutMs
  · refine Or.inr ?_
    have hlimit : (if (w.conn i).st = .sniff then sniffTimeoutMs else idleTimeoutMs)
        = idleTimeoutMs := if_neg (by simp [h.st])
    unfold sweepSlot
    dsimp only
    rw [if_neg (by simp [h.st]), hlimit, if_pos hidle]
  · exact Or.inl (UInt32.not_lt.mp hidle)

/-- After the whole sweep the slot is as it was, or the sweep reached it. -/
theorem sweepIdle_finishing (h : Finishing w i) (now : UInt32) :
    w.trace <:+ (sweepIdle w now).trace ∧ (idleTimeoutMs ≤ now - (w.conn i).lastMs ∨
      ErrCall i w (sweepIdle w now) ∨ (sweepIdle w now).conn i = w.conn i) := by
  have hact := Act.sweepSlot now
  unfold sweepIdle
  obtain ⟨u, hbefore, hrest⟩ := turn_foldl hact (List.nodup_finRange 16) (List.mem_finRange i) w
  refine ⟨hbefore.trace.trans ((hact u i).trace.trans hrest.trace), ?_⟩
  rcases hbefore.slot with hsame | herr
  · have hturn : Finishing u i := h.congr (by rw [hsame]) (by rw [hsame])
    rcases sweepSlot_finishing hturn now with hidle | hkept
    · rw [hsame] at hidle
      exact Or.inl hidle
    · rw [hkept] at hrest
      rcases hrest.slot with hsame' | herr
      · exact Or.inr (Or.inr (hsame'.trans hsame))
      · exact Or.inr (Or.inl (herr.earlier hbefore.trace))
  · exact Or.inr (Or.inl (herr.later ((hact u i).trace.trans hrest.trace)))

/-- The connection was counted as completed, with nothing left, between two moments. -/
def CompletedIn (i : Slot) (w w' : World) : Prop :=
  ∃ older, .completed i true [] :: older <:+ w'.trace ∧ w.trace <:+ older

theorem pumpUp_finishing (h : Finishing w i) (room : UInt16) (took : Bool) (now : UInt32) :
    Finishing (pumpUp w i room took now) i ∧
      ((pumpUp w i room took now).conn i).rx = (w.conn i).rx ∧
      ((pumpUp w i room took now).conn i).rxOff = (w.conn i).rxOff := by
  have hconn : ∃ up lastMs, (pumpUp w i room took now).conn i
      = { w.conn i with up := up, lastMs := lastMs } := by
    unfold pumpUp
    dsimp only
    split
    · exact ⟨_, _, rfl⟩
    · split
      · exact ⟨_, _, rfl⟩
      · split
        · exact ⟨_, _, rfl⟩
        · split
          · exact ⟨_, _, rfl⟩
          · exact ⟨(w.conn i).up.drop (min (w.conn i).up.length room.toNat), now, by simp⟩
  obtain ⟨up, lastMs, hconn⟩ := hconn
  refine ⟨h.congr ?_ ?_, ?_, ?_⟩
  all_goals rw [hconn]

/-- The turn of the slot in the last pass: it goes on, or is counted as completed. -/
theorem finalSlot_finishing (h : Finishing w i) {e : PollEnv}
    (hwrite : pumpFails (w.conn i).rx (w.conn i).rxOff (e.final i).down = false) :
    Finishing (finalSlot e w i) i ∨ CompletedIn i w (finalSlot e w i) := by
  obtain ⟨hup, hrx, hoff⟩ := pumpUp_finishing h (e.final i).room (e.final i).took (e.final i).now
  have hupTrace := (Act.pumpUp (j := i) (w := w) (e.final i).room (e.final i).took
    (e.final i).now).trace
  unfold finalSlot
  dsimp only
  rw [if_neg (by simp [h.st]), if_pos h.st]
  rw [← hrx, ← hoff] at hwrite
  generalize pumpUp w i (e.final i).room (e.final i).took (e.final i).now = u
    at hup hwrite hupTrace ⊢
  have hdown : Finishing (if (u.conn i).rx.isEmpty then u else pumpDown u i (e.final i).down) i ∧
      u.trace <:+ (if (u.conn i).rx.isEmpty then u else pumpDown u i (e.final i).down).trace := by
    split
    · exact ⟨hup, List.suffix_rfl⟩
    · exact ⟨pumpDown_finishing _ u hup hwrite, (Act.pumpDown _ u).trace⟩
  generalize (if (u.conn i).rx.isEmpty then u else pumpDown u i (e.final i).down) = v at hdown ⊢
  split
  · rename_i hdone
    refine Or.inr ⟨v.trace, ?_, hupTrace.trans hdown.2⟩
    -- `complete` logs what is left, which is nothing
    have hnil : (v.conn i).rx = [] := List.isEmpty_iff.mp hdone.2
    have hleft : (v.conn i).unsent = [] := by simp [Conn.unsent, hnil]
    have hlog := (Act.connClose (w := (v.log (.completed i (v.conn i).peerClosed
      (v.conn i).unsent)).count fun s => { s with completed := s.completed + 1 }) i none).trace
    rw [World.count_trace, World.log_trace, hdone.1, hleft] at hlog
    unfold complete
    rw [hdone.1, hleft]
    exact hlog
  · exact Or.inl hdown.1

/--
**What can end a finish in one call of `awg_proxy_poll`**: the client, the sweep, the
err callback, or its completion.
-/
theorem awgProxyPoll_ends (h : Finishing w i) {e : PollEnv}
    (hfree : ((awgProxyPoll w e).conn i).st = .free) :
    ClientFailed w e i ∨ Swept w e i ∨ ErrCall i w (awgProxyPoll w e) ∨
      CompletedIn i w (awgProxyPoll w e) := by
  by_cases hlisten : w.listen < 0
  · have hsame : awgProxyPoll w e = w := if_pos hlisten
    rw [hsame, h.st] at hfree
    cases hfree
  · have hpoll : awgProxyPoll w e = (List.finRange 16).foldl (finalSlot e)
        (sweepIdle (afterEvents w e) e.sweepNow) := if_neg hlisten
    rw [hpoll] at hfree ⊢
    obtain ⟨hsuf, hevents⟩ := afterEvents_finishing h e
    have hfinal := Act.finalSlot e
    obtain ⟨u, hbefore, hrest⟩ := turn_foldl hfinal (List.nodup_finRange 16) (List.mem_finRange i)
      (sweepIdle (afterEvents w e) e.sweepNow)
    have hturns := (hfinal u i).trace.trans hrest.trace
    rcases hevents with hclient | herr | hfinishing
    · exact Or.inl hclient
    · have hsweep : (afterEvents w e).trace <:+ (sweepIdle (afterEvents w e) e.sweepNow).trace :=
        suffix_foldl (Act.sweepSlot e.sweepNow) (List.finRange 16) (afterEvents w e)
      exact Or.inr (Or.inr (Or.inl (herr.later (hsweep.trans (hbefore.trace.trans hturns)))))
    · obtain ⟨hsweep, hswept⟩ := sweepIdle_finishing hfinishing e.sweepNow
      have hlater := hsweep.trans (hbefore.trace.trans hturns)
      rcases hswept with hidle | herr | hkept
      · exact Or.inr (Or.inl ⟨hfinishing.st, hidle⟩)
      · exact Or.inr (Or.inr (Or.inl ((herr.later (hbefore.trace.trans hturns)).earlier hsuf)))
      · rcases hbefore.slot with hsame | herr
        · -- the slot comes to its last turn as the events left it
          have hsame := hsame.trans hkept
          have hturn : Finishing u i := hfinishing.congr (by rw [hsame]) (by rw [hsame])
          by_cases hwrite : pumpFails ((afterEvents w e).conn i).rx ((afterEvents w e).conn i).rxOff
              (e.final i).down = true
          · exact Or.inl (.lastWriteFailed hwrite)
          · have hwrite' : pumpFails (u.conn i).rx (u.conn i).rxOff (e.final i).down = false := by
              rw [hsame]
              simpa using hwrite
            rcases finalSlot_finishing hturn hwrite' with hgoes | ⟨older, hnew, hold⟩
            · rcases hrest.slot with hsame' | herr
              · rw [hsame', hgoes.st] at hfree
                cases hfree
              · refine Or.inr (Or.inr (Or.inl (herr.earlier ?_)))
                exact hsuf.trans (hsweep.trans (hbefore.trace.trans (hfinal u i).trace))
            · refine Or.inr (Or.inr (Or.inr ⟨older, hnew.trans hrest.trace, ?_⟩))
              exact hsuf.trans (hsweep.trans (hbefore.trace.trans hold))
        · refine Or.inr (Or.inr (Or.inl ((herr.later hturns).earlier ?_)))
          exact hsuf.trans hsweep

end Turn

end SysAwg
