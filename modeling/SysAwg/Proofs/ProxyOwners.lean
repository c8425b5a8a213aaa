/-
Whose block a slot holds.

A slot learns that its block is gone from the err callback.  For a block in TIME_WAIT
lwIP makes no such call: it frees the block when its time is over, or when another
connection needs one, and the slot keeps the number.  That is the only way ownership is
lost.  As long as no block is freed so while its argument names a slot, every block a slot
holds is alive and its own.

`Owned` is kept by every move but that one.  The condition is put on the history, which
only grows, so whoever assumes it at some moment has it for all moments before; and a
reclaimed block that names a slot breaks ownership in the very state it leads to, so
nothing weaker would do.
-/
import SysAwg.Proofs.ProxyWalk

namespace SysAwg

/-- The proxy acted on a block that was alive and its own. -/
def Event.sound : Event → Bool
  | .touch i _ live arg => live && decide (arg = some i)
  | _ => true

/-- Every slot owns the block it holds, and no other block was ever acted on. -/
structure Owned (w : World) : Prop where
  own : ∀ i x, (w.conn i).pcb = some x → (w.pcbs x).live = true ∧ (w.pcbs x).arg = some i
  touched : ∀ e ∈ w.trace, e.sound = true

/-- A block has one owner. -/
theorem Owned.unique {w : World} (h : Owned w) {i j : Slot} {x : PcbId}
    (hi : (w.conn i).pcb = some x) (hj : (w.conn j).pcb = some x) : i = j := by
  have hargi := (h.own i x hi).2
  have hargj := (h.own j x hj).2
  rw [hargi] at hargj
  exact Option.some.inj hargj

section Steps

variable {w w' : World} {i : Slot} {c : Conn} {l : List Event}

/-- Slots give blocks up at most, and the blocks that are held stay. -/
theorem Owned.keep (h : Owned w)
    (hown : ∀ j x, (w'.conn j).pcb = some x → (w.conn j).pcb = some x ∧
      (w'.pcbs x).live = (w.pcbs x).live ∧ (w'.pcbs x).arg = (w.pcbs x).arg)
    (htrace : w'.trace = l ++ w.trace) (hnew : ∀ e ∈ l, e.sound = true) : Owned w' where
  own := by
    intro j x hj
    obtain ⟨hold, hlive, harg⟩ := hown j x hj
    rw [hlive, harg]
    exact h.own j x hold
  touched := by
    intro e he
    rw [htrace] at he
    rcases List.mem_append.mp he with hn | ho
    · exact hnew e hn
    · exact h.touched e ho

theorem Owned.same (h : Owned w) (hconn : w'.conn = w.conn) (hpcbs : w'.pcbs = w.pcbs)
    (htrace : w'.trace = l ++ w.trace) (hnew : ∀ e ∈ l, e.sound = true) : Owned w' := by
  refine h.keep (fun j x hj => ?_) htrace hnew
  rw [hconn] at hj
  rw [hpcbs]
  exact ⟨hj, rfl, rfl⟩

/-- A slot is rewritten and keeps its block. -/
theorem Owned.rewrite (h : Owned w) (hconn : w'.conn = Function.update w.conn i c)
    (hpcb : c.pcb = (w.conn i).pcb) (hpcbs : w'.pcbs = w.pcbs) (htrace : w'.trace = l ++ w.trace)
    (hnew : ∀ e ∈ l, e.sound = true) : Owned w' := by
  refine h.keep (fun j x hj => ?_) htrace hnew
  rw [hpcbs]
  refine ⟨?_, rfl, rfl⟩
  rw [hconn] at hj
  by_cases hji : j = i
  · subst hji
    rwa [Function.update_self, hpcb] at hj
  · rwa [Function.update_of_ne hji] at hj

theorem Owned.unheld (h : Owned w) {x : PcbId} {p : Pcb} (hx : ∀ j, (w.conn j).pcb ≠ some x)
    (hconn : w'.conn = w.conn) (hpcbs : w'.pcbs = Function.update w.pcbs x p)
    (htrace : w'.trace = l ++ w.trace) (hnew : ∀ e ∈ l, e.sound = true) : Owned w' := by
  refine h.keep (fun j y hj => ?_) htrace hnew
  rw [hconn] at hj
  have hyx : y ≠ x := by
    rintro rfl
    exact hx j hj
  rw [hpcbs, Function.update_of_ne hyx]
  exact ⟨hj, rfl, rfl⟩

/-- A slot gives up its block, which is freed. -/
theorem Owned.release (h : Owned w) {x : PcbId} (harg : (w.pcbs x).arg = some i)
    (hconn : w'.conn = Function.update w.conn i Conn.blank)
    (hpcbs : w'.pcbs = Function.update w.pcbs x Pcb.freed) (htrace : w'.trace = l ++ w.trace)
    (hnew : ∀ e ∈ l, e.sound = true) : Owned w' := by
  refine h.keep (fun j y hj => ?_) htrace hnew
  rw [hconn] at hj
  have hji : j ≠ i := by
    rintro rfl
    rw [Function.update_self] at hj
    cases hj
  rw [Function.update_of_ne hji] at hj
  -- a block names its holder, so another slot holds another block
  have hyx : y ≠ x := by
    rintro rfl
    have hown := (h.own j y hj).2
    rw [harg] at hown
    exact hji (Option.some.inj hown).symm
  rw [hpcbs, Function.update_of_ne hyx]
  exact ⟨hj, rfl, rfl⟩

theorem Owned.sound_touch (h : Owned w) {x : PcbId} (hpcb : (w.conn i).pcb = some x) :
    (Event.touch i x (w.pcbs x).live (w.pcbs x).arg).sound = true := by
  obtain ⟨hlive, harg⟩ := h.own i x hpcb
  simp [Event.sound, hlive, harg]

theorem Owned.connClose (h : Owned w) (i : Slot) (why : Option Why) :
    Owned (connClose w i why) := by
  by_cases hst : (w.conn i).st = .free
  · rwa [connClose_free hst]
  · have hconn := connClose_conn hst why
    have hpcbs := connClose_pcbs hst why
    have htrace := connClose_trace hst why
    rcases hpcb : (w.conn i).pcb with _ | x
    · simp only [hpcb] at hpcbs htrace
      exact h.rewrite (l := []) hconn hpcb.symm hpcbs htrace (by simp)
    · simp only [hpcb] at hpcbs htrace
      refine h.release (l := [_]) (h.own i x hpcb).2 hconn hpcbs htrace ?_
      simpa using h.sound_touch hpcb

/-- A slot that waits takes a block nobody has. -/
theorem Owned.takePcb (h : Owned w) {x : PcbId} (hfree : (w.pcbs x).live = false) :
    Owned (takePcb w i x) where
  own := by
    intro j y hj
    simp only [SysAwg.takePcb, World.setConn_conn, World.setConn_pcbs, World.setPcb_pcbs] at hj ⊢
    by_cases hji : j = i
    · subst hji
      rw [Function.update_self] at hj
      obtain rfl : x = y := Option.some.inj hj
      rw [Function.update_self]
      exact ⟨rfl, rfl⟩
    · rw [Function.update_of_ne hji] at hj
      have hyx : y ≠ x := by
        rintro rfl
        rw [(h.own j y hj).1] at hfree
        cases hfree
      rw [Function.update_of_ne hyx]
      exact h.own j y hj
  touched := h.touched

end Steps

/-- The stack has not freed a block in TIME_WAIT whose argument named a slot. -/
def NoneReclaimed (t : List Event) : Prop := ∀ x i, Event.reclaim x (some i) ∉ t

theorem Owned.move {w w' : World} (ht : TableOk w) (h : Owned w) (hnone : NoneReclaimed w'.trace)
    (m : Move w w') : Owned w' := by
  cases m with
  | note | unasked | listening => exact h.same (l := []) rfl rfl rfl (by simp)
  | failed | stopping => exact h.same (l := [_]) rfl rfl rfl (by simp [Event.sound])
  | accept i cfd now hst hcfd =>
      have hpcb := ((ht.slots i).free hst).1
      exact h.rewrite (l := [_]) rfl hpcb.symm rfl rfl (by simp [Event.sound])
  | received | delivered | wrote =>
      exact h.rewrite (l := [_]) rfl rfl rfl rfl (by simp [Event.sound])
  | rename | connected | finished | spent => exact h.rewrite (l := []) rfl rfl rfl rfl (by simp)
  | close i why => exact h.connClose i (some why)
  | take i x hst hfree => exact h.takePcb hfree
  | blocks f hf =>
      exact h.keep (l := []) (fun j x hj => ⟨hj, (hf x).1, (hf x).2.1⟩) rfl (by simp)
  | reclaimed x hlive =>
      refine h.unheld (l := [_]) (x := x) (fun j hj => ?_) rfl rfl rfl (by simp [Event.sound])
      refine hnone x j ?_
      rw [← (h.own j x hj).2]
      exact List.mem_cons_self ..
  | dropped x harg =>
      refine h.unheld (l := []) (x := x) (fun j hj => ?_) rfl rfl rfl (by simp)
      have hown := (h.own j x hj).2
      rw [harg] at hown
      cases hown
  | taken x hfree =>
      refine h.unheld (l := []) (x := x) (fun j hj => ?_) rfl rfl rfl (by simp)
      have hown := (h.own j x hj).1
      rw [hfree] at hown
      cases hown
  | err x i hlive harg =>
      rw [ht.onErr_eq hlive harg]
      exact h.release (l := [_]) harg rfl rfl rfl (by simp [Event.sound])
  | sent i p rest n now x hrx hpcb =>
      rw [sendSome_eq hpcb]
      refine h.rewrite (l := [_, _, _]) rfl rfl rfl rfl ?_
      have := h.sound_touch hpcb
      simpa [Event.sound] using this
  | touched i x hpcb =>
      refine h.same (l := [_]) rfl rfl rfl ?_
      simpa using h.sound_touch hpcb
  | completed i hst hpeer hrx =>
      unfold complete
      refine Owned.connClose ?_ i none
      exact h.same (l := [_]) rfl rfl rfl (by simp [Event.sound])
  | started fd hst =>
      exact h.keep (l := [_]) (fun j x hj => ⟨hj, rfl, rfl⟩) rfl (by simp [Event.sound])
  | stopClose i hrun => exact h.connClose i none

theorem NoneReclaimed.older {t l : List Event} (h : NoneReclaimed (l ++ t)) : NoneReclaimed t :=
  fun x i hmem => h x i (List.mem_append_right _ hmem)

theorem owned_kept : Kept fun w => NoneReclaimed w.trace → Owned w where
  move := by
    intro w w' ht h m hnone
    obtain ⟨l, htrace, -⟩ := m.adds_dns
    refine (h ?_).move ht hnone m
    rw [htrace] at hnone
    exact hnone.older
  ask := by
    intro w w' _ h m hnone
    cases m with
    | query i name hst hok =>
        have hw := h (hnone.older (l := [_]))
        exact hw.rewrite (l := [_]) rfl rfl rfl rfl (by simp [Event.sound])
    | queued | answered =>
        have hw := h (hnone.older (l := [_]))
        exact hw.same (l := [_]) rfl rfl rfl (by simp [Event.sound])

/-- The reclaiming of a block that names a slot does break ownership, at once. -/
theorem not_owned_reclaim {w : World} (ht : TableOk w) {x : PcbId} {i : Slot}
    (hlive : (w.pcbs x).live = true) (harg : (w.pcbs x).arg = some i) : ¬ Owned (reclaim w x) := by
  intro h
  have hpcb := (ht.blocks x i hlive harg).1
  have hown := (h.own i x hpcb).1
  simp [reclaim, Pcb.freed] at hown

/-- **Every slot owns its block, and nobody acts on another's, in every run in which the
stack reclaims no block that still names a slot**; the moment it does, this is lost. -/
theorem blocks_owned (fd : Int) :
    (∀ labels : List Label, NoneReclaimed (proxyRun fd labels).trace →
      Owned (proxyRun fd labels) ∧ ∀ i j x, ((proxyRun fd labels).conn i).pcb = some x →
        ((proxyRun fd labels).conn j).pcb = some x → i = j) ∧
    ∀ w, Moment fd w → ∀ x i, (w.pcbs x).live = true → (w.pcbs x).arg = some i →
      ¬ Owned (reclaim w x) := by
  have hstart : NoneReclaimed (awgProxyStart World.boot fd).trace →
      Owned (awgProxyStart World.boot fd) := by
    intro _
    refine ⟨fun i x hx => ?_, fun e he => ?_⟩
    · cases hx
    · obtain rfl := List.mem_singleton.mp he
      rfl
  refine ⟨fun labels hnone => ?_, fun w hw x i hlive harg => ?_⟩
  · have h := (owned_kept.moment hstart (moment_proxyRun fd labels)).2 hnone
    exact ⟨h, fun i j x => h.unique⟩
  · exact not_owned_reclaim (owned_kept.moment hstart hw).1 hlive harg

/-- A connection that is open, with its bytes written. -/
def openSample : List Label :=
  [pollAccepts 5, pollReads firstSlot (clientHello 97) (.ok 1 ResolveEnv.fine),
    .connected firstPcb false, .poll { PollEnv.quiet with final := fun _ => ⟨100, true, 0, []⟩ }]

theorem blocks_owned_open :
    ((proxyRun 3 openSample).conn 0).pcb = some 0 ∧
      ((proxyRun 3 openSample).pcbs 0).arg = some 0 := by
  have hpcb : ((proxyRun 3 openSample).conn 0).pcb = some 0 := by decide +kernel
  have hnone : NoneReclaimed (proxyRun 3 openSample).trace := by
    unfold NoneReclaimed
    decide +kernel
  exact ⟨hpcb, (((blocks_owned 3).1 openSample hnone).1.own 0 0 hpcb).2⟩

/-- The client is done sending, and takes one byte. -/
def SlotEnv.slowEof : SlotEnv := { SlotEnv.eof with
  pollOut := true
  down := [(.took 0, 0)] }

/-- The server sends two bytes, the client half-closes, and the server finishes: the block
is in TIME_WAIT.  A minute later the client takes one of the bytes.  So the sweep finds the
slot idle for 60.5 s when the block has waited for 120.5 s and its time is over. -/
def staleSample : List Label :=
  openSample ++ [.recv firstPcb [.holding [1, 2]] false, pollOneAt firstSlot SlotEnv.eof 0,
    .ack firstPcb, .fin firstPcb false, pollOneAt firstSlot SlotEnv.slowEof 60000,
    pollOneAt firstSlot SlotEnv.eof 120500, .timeWaitOver firstPcb]

/-- Half a second later the client hangs up. -/
def staleHangsUp : Label := pollOneAt firstSlot { SlotEnv.eof with pollErr := true } 121000

/-- The slot still holds the block, and when the client hangs up, the freed block is
aborted. -/
theorem staleSample_not_owned :
    ((proxyRun 3 staleSample).conn 0).pcb = some 0 ∧
    ((proxyRun 3 staleSample).conn 0).lastMs = 60000 ∧
    ((proxyRun 3 staleSample).conn 0).unsent = [2] ∧
    ((proxyRun 3 staleSample).pcbs 0).live = false ∧
    Event.touch 0 0 false none ∈ (proxyRun 3 (staleSample ++ [staleHangsUp])).trace := by
  decide +kernel

end SysAwg
