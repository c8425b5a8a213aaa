/-
What the proxy and the stack can do to the table, one indivisible change at a time.

The functions of `awg_proxy.c` are entered from the poll loop, from lwIP's callbacks and
from inside one another.  Instead of proving every property of every function, `Move`
lists the changes they are made of, each with what is known when it happens, and `Ask`
those in which the resolver has a part.  A property of all runs is then an invariant of
these changes (`Kept`).  The lists are complete as soon as the table is in order
(`TableOk`), which is itself such an invariant.

Some properties do not hold while a slot is in the middle of using an answer.  For them a
`Stride` takes the use of an answer as one change.
-/
import SysAwg.ProxyRun
import Mathlib.Logic.Relation

namespace SysAwg

/-! ### Closing, field by field -/

section Close

variable {w : World} {i : Slot}

theorem connClose_free (h : (w.conn i).st = .free) (why : Option Why) : connClose w i why = w := by
  simp [connClose, h]

theorem connClose_conn (h : (w.conn i).st ≠ .free) (why : Option Why) :
    (connClose w i why).conn = Function.update w.conn i Conn.blank := by
  unfold connClose
  rw [if_neg h]
  dsimp only
  rcases (w.conn i).pcb with _ | x <;> cases why <;> rfl

theorem connClose_pcbs (h : (w.conn i).st ≠ .free) (why : Option Why) :
    (connClose w i why).pcbs = match (w.conn i).pcb with
      | none => w.pcbs
      | some x => Function.update w.pcbs x Pcb.freed := by
  unfold connClose
  rw [if_neg h]
  dsimp only
  rcases (w.conn i).pcb with _ | x <;> cases why <;> rfl

theorem connClose_stats (h : (w.conn i).st ≠ .free) (why : Option Why) :
    (connClose w i why).stats = match why with
      | none => w.stats
      | some _ => { w.stats with closed := w.stats.closed + 1 } := by
  unfold connClose
  rw [if_neg h]
  dsimp only
  rcases (w.conn i).pcb with _ | x <;> cases why <;> rfl

theorem connClose_reqs (why : Option Why) : (connClose w i why).reqs = w.reqs := by
  by_cases h : (w.conn i).st = .free
  · rw [connClose_free h]
  · unfold connClose
    rw [if_neg h]
    dsimp only
    rcases (w.conn i).pcb with _ | x <;> cases why <;> rfl

theorem connClose_trace (h : (w.conn i).st ≠ .free) (why : Option Why) :
    (connClose w i why).trace = match (w.conn i).pcb with
      | none => w.trace
      | some x => .touch i x (w.pcbs x).live (w.pcbs x).arg :: w.trace := by
  unfold connClose
  rw [if_neg h]
  dsimp only
  rcases (w.conn i).pcb with _ | x <;> cases why <;> rfl

end Close

/-- The err callback of a block that names the slot, after the block was freed. -/
theorem onErr_eq {w : World} {i : Slot} (h : (w.conn i).st ≠ .free) :
    onErr w (some i) = { w with
      conn := Function.update w.conn i Conn.blank
      stats := { w.stats with failed := w.stats.failed + 1 }
      trace := .failed i .lwipErr :: w.trace } := by
  simp [onErr, connClose, countFailed, World.setConn, World.count, World.log, h]

/-- A successful `send`, by a slot that has a block. -/
theorem sendSome_eq {w : World} {i : Slot} {x : PcbId} (hpcb : (w.conn i).pcb = some x) (b : Bytes)
    (now : UInt32) :
    sendSome w i b now = { w with
      conn := Function.update w.conn i
        { w.conn i with rxOff := (w.conn i).rxOff + b.length, lastMs := now }
      stats := { w.stats with bytesDown := w.stats.bytesDown + UInt64.ofNat b.length }
      trace := .recved i b.length :: .touch i x (w.pcbs x).live (w.pcbs x).arg :: .send i b
        :: w.trace } := by
  simp [sendSome, tcpRecved, hpcb, World.setConn, World.count, World.log, World.touch]

/-! ### The moves

A move is one assignment of the source together with what the path to it has established.
Where a function does two things that only make sense together, such as freeing a block
and telling its slot, they are one move.
-/

/-- A change of the counters that leaves the accounting alone. -/
def Harmless (f : Stats → Stats) : Prop :=
  ∀ s, (f s).accepted = s.accepted ∧ (f s).completed = s.completed ∧ (f s).failed = s.failed ∧
    (f s).closed = s.closed

/-- The proxy is between `awg_proxy_start` and the next `awg_proxy_stop`. -/
def running : List Event → Bool
  | [] => false
  | .start :: _ => true
  | .stop :: _ => false
  | _ :: rest => running rest

/-- One change. -/
inductive Move (w : World) : World → Prop
  | note (f : Stats → Stats) (hf : Harmless f) : Move w (w.count f)
  | accept (i : Slot) (cfd : Int) (now : UInt32) (hst : (w.conn i).st = .free) (hcfd : 0 ≤ cfd) :
      Move w (acceptOn w i cfd now)
  | received (i : Slot) (b : Bytes) (now : UInt32) (hst : (w.conn i).st ≠ .free)
      (hroom : (w.conn i).up.length + b.length ≤ bufSize) :
      Move w ((w.setConn i { w.conn i with up := (w.conn i).up ++ b, lastMs := now }).log
        (.recv i b))
  | rename (i : Slot) (h : Bytes) (hst : (w.conn i).st = .sniff) :
      Move w (w.setConn i { w.conn i with host := h })
  | unasked (k : Nat) : Move w { w with reqs := w.reqs.eraseIdx k }
  | failed (i : Slot) (how : Failure) (hhow : how ≠ .lwipErr) : Move w (countFailed w i how)
  | close (i : Slot) (why : Why) : Move w (connClose w i (some why))
  | take (i : Slot) (x : PcbId) (hst : (w.conn i).st = .resolving)
      (hfree : (w.pcbs x).live = false) : Move w (takePcb w i x)
  | blocks (f : PcbId → Pcb) (hf : ∀ x, (f x).live = (w.pcbs x).live ∧
      (f x).arg = (w.pcbs x).arg ∧ (f x).errFn = (w.pcbs x).errFn) : Move w { w with pcbs := f }
  | reclaimed (x : PcbId) (hlive : (w.pcbs x).live = true) : Move w (reclaim w x)
  | dropped (x : PcbId) (harg : (w.pcbs x).arg = none) : Move w (w.setPcb x Pcb.freed)
  | taken (x : PcbId) (hfree : (w.pcbs x).live = false) : Move w (w.setPcb x Pcb.fresh)
  | err (x : PcbId) (i : Slot) (hlive : (w.pcbs x).live = true)
      (harg : (w.pcbs x).arg = some i) : Move w (onErr (w.setPcb x Pcb.freed) (some i))
  | connected (i : Slot) (hst : (w.conn i).st = .connecting ∨ (w.conn i).st = .relay) :
      Move w (w.setConn i { w.conn i with st := .relay })
  | delivered (i : Slot) (chain : List Pbuf)
      (hst : (w.conn i).st = .connecting ∨ (w.conn i).st = .relay) :
      Move w ((w.setConn i { w.conn i with rx := (w.conn i).rx ++ chain }).log
        (.deliver i (chainBytes chain)))
  | finished (i : Slot) (hst : (w.conn i).st = .connecting ∨ (w.conn i).st = .relay) :
      Move w (w.setConn i { w.conn i with peerClosed := true })
  | wrote (i : Slot) (n : Nat) (now : UInt32) :
      Move w ((w.setConn i { w.conn i with up := (w.conn i).up.drop n, lastMs := now }).log
        (.write i ((w.conn i).up.take n)))
  | spent (i : Slot) : Move w (dropSpent w i)
  | sent (i : Slot) (p : Pbuf) (rest : List Pbuf) (n : Nat) (now : UInt32) (x : PcbId)
      (hrx : (w.conn i).rx = p :: rest) (hpcb : (w.conn i).pcb = some x) :
      Move w (sendSome w i ((p.payload.drop (w.conn i).rxOff).take n) now)
  | touched (i : Slot) (x : PcbId) (hpcb : (w.conn i).pcb = some x) : Move w (w.touch i x)
  | completed (i : Slot) (hst : (w.conn i).st ≠ .free) (hpeer : (w.conn i).peerClosed = true)
      (hrx : (w.conn i).rx = []) : Move w (complete w i)
  | started (fd : Int) (hst : ∀ i, (w.conn i).st = .free) : Move w (awgProxyStart w fd)
  | stopping : Move w (w.log .stop)
  | stopClose (i : Slot) (hrun : running w.trace = false) : Move w (connClose w i none)
  | listening (fd : Int) : Move w { w with listen := fd }

/-- Any number of changes. -/
abbrev Moves : World → World → Prop := Relation.ReflTransGen Move

/-- A slot that has read a host name asks for its address. -/
def queryOn (w : World) (i : Slot) (name : Bytes) : World :=
  askDns (w.setConn i { w.conn i with host := name, st := .resolving }) i

/-- The answer to a query is used. -/
def answeredOn (w : World) (i : Slot) (q : Nat) (ip : Option Ip) : World :=
  w.log (.answered i q (w.conn i).host ip)

/-- One change in which the resolver has a part. -/
inductive Ask (w : World) : World → Prop
  | query (i : Slot) (name : Bytes) (hst : (w.conn i).st = .sniff) (hok : HostOk name) :
      Ask w (queryOn w i name)
  | queued (i : Slot) (q : Nat) : Ask w (queueDns w i q)
  | answered (i : Slot) (q : Nat) (ip : Option Ip) : Ask w (answeredOn w i q ip)

/-- A change that starts and ends with no slot in the middle of using an answer. -/
inductive Stride (w : World) : World → Prop
  | move {v : World} (m : Move w v) : Stride w v
  /-- The resolver keeps the request. -/
  | asked (i : Slot) (name : Bytes) (hst : (w.conn i).st = .sniff) (hok : HostOk name) :
      Stride w (queueDns (queryOn w i name) i w.nextQ)
  /-- It refuses the request. -/
  | refused {v : World} (i : Slot) (name : Bytes) (hst : (w.conn i).st = .sniff)
      (hok : HostOk name) (m : Moves (queryOn w i name) v) (hv : (v.conn i).st ≠ .resolving) :
      Stride w v
  /-- It answers at once. -/
  | now {v : World} (i : Slot) (name : Bytes) (ip : Option Ip) (hst : (w.conn i).st = .sniff)
      (hok : HostOk name) (m : Moves (answeredOn (queryOn w i name) i w.nextQ ip) v)
      (hv : (v.conn i).st ≠ .resolving) : Stride w v
  /-- It answers a request it kept. -/
  | later {v : World} (k : Nat) (r : Request) (ip : Option Ip) (hr : w.reqs[k]? = some r)
      (hst : (w.conn r.slot).st = .resolving)
      (m : Moves (answeredOn { w with reqs := w.reqs.eraseIdx k } r.slot r.q ip) v)
      (hv : (v.conn r.slot).st ≠ .resolving) : Stride w v

abbrev Strides : World → World → Prop := Relation.ReflTransGen Stride

/-! ### The table in order

A slot's fields are tied to its state: a slot that sniffs or waits has no block and nothing
to send, one that relays has.  And a block that names a slot is the one the slot holds, so
that a callback can only reach its own.
-/

/-- The offset lies within the first link. -/
def OffOk : List Pbuf → Nat → Prop
  | [], off => off = 0
  | p :: _, off => off ≤ p.payload.length

/-- A slot in order. -/
structure SlotOk (c : Conn) : Prop where
  /-- The client's bytes fit the buffer. -/
  up_le : c.up.length ≤ bufSize
  /-- The offset lies within the first link. -/
  off_ok : OffOk c.rx c.rxOff
  /-- A free slot holds nothing. -/
  free : c.st = .free →
    c.pcb = none ∧ c.rx = [] ∧ c.cfd = -1 ∧ c.up = [] ∧ c.peerClosed = false
  /-- A busy slot has a socket. -/
  busy : c.st ≠ .free → 0 ≤ c.cfd
  /-- Before it connects a slot has no block and no data. -/
  early : c.st = .sniff ∨ c.st = .resolving → c.pcb = none ∧ c.rx = []
  /-- From then on it has a block. -/
  late : c.st = .connecting ∨ c.st = .relay → c.pcb ≠ none
  /-- What is resolved or connected may be. -/
  host : c.st = .resolving ∨ c.st = .connecting ∨ c.st = .relay → HostOk c.host

/-- Every slot is in order, and a block that names a slot is the block of that slot. -/
structure TableOk (w : World) : Prop where
  slots : ∀ i, SlotOk (w.conn i)
  blocks : ∀ x i, (w.pcbs x).live = true → (w.pcbs x).arg = some i →
    (w.conn i).pcb = some x ∧ ((w.conn i).st = .connecting ∨ (w.conn i).st = .relay) ∧
      (w.pcbs x).errFn = true

theorem SlotOk.blank : SlotOk Conn.blank where
  up_le := by decide
  off_ok := rfl
  free := fun _ => ⟨rfl, rfl, rfl, rfl, rfl⟩
  busy := fun h => absurd rfl h
  early := by rintro (h | h) <;> cases h
  late := by rintro (h | h) <;> cases h
  host := by rintro (h | h | h) <;> cases h

theorem skipSpent_offOk : ∀ (rx : List Pbuf) (off : Nat), OffOk rx off →
    OffOk (skipSpent rx off).1 (skipSpent rx off).2 := by
  intro rx
  induction rx with
  | nil =>
      intro off h
      exact h
  | cons p rest ih =>
      intro off h
      rw [skipSpent]
      split
      · apply ih
        cases rest with
        | nil => rfl
        | cons q _ => exact Nat.zero_le _
      · exact h

/-- Appending to a chain keeps the offset within the first link. -/
theorem OffOk.append {rx : List Pbuf} {off : Nat} (h : OffOk rx off) (chain : List Pbuf) :
    OffOk (rx ++ chain) off := by
  cases rx with
  | nil =>
      obtain rfl : off = 0 := h
      cases chain with
      | nil => rfl
      | cons p rest => exact Nat.zero_le _
  | cons p rest => exact h

/-- A slot of another state has no block that names it. -/
theorem TableOk.unnamed {w : World} (h : TableOk w) {i : Slot}
    (hst : (w.conn i).st ≠ .connecting ∧ (w.conn i).st ≠ .relay) (x : PcbId)
    (hlive : (w.pcbs x).live = true) : (w.pcbs x).arg ≠ some i := by
  intro harg
  rcases (h.blocks x i hlive harg).2.1 with hs | hs
  · exact hst.1 hs
  · exact hst.2 hs

/-- A slot is rewritten: it is in order, and it keeps the block that names it. -/
theorem TableOk.setConn {w w' : World} (h : TableOk w) {i : Slot} {c : Conn}
    (hconn : w'.conn = Function.update w.conn i c) (hpcbs : w'.pcbs = w.pcbs) (hc : SlotOk c)
    (hpcb : c.pcb = (w.conn i).pcb)
    (hst : (w.conn i).st = .connecting ∨ (w.conn i).st = .relay →
      c.st = .connecting ∨ c.st = .relay) : TableOk w' where
  slots := by
    intro j
    rw [hconn]
    by_cases hj : j = i
    · subst hj
      rwa [Function.update_self]
    · rw [Function.update_of_ne hj]
      exact h.slots j
  blocks := by
    intro x j hlive harg
    rw [hpcbs] at hlive harg ⊢
    obtain ⟨hown, hs, herr⟩ := h.blocks x j hlive harg
    rw [hconn]
    by_cases hj : j = i
    · subst hj
      rw [Function.update_self, hpcb]
      exact ⟨hown, hst hs, herr⟩
    · rw [Function.update_of_ne hj]
      exact ⟨hown, hs, herr⟩

/-- A slot is emptied, and no block names it any more. -/
theorem TableOk.empty {w w' : World} (h : TableOk w) {i : Slot}
    (hconn : w'.conn = Function.update w.conn i Conn.blank)
    (hpcbs : ∀ x, (w'.pcbs x).live = true → w'.pcbs x = w.pcbs x ∧ (w.pcbs x).arg ≠ some i) :
    TableOk w' where
  slots := by
    intro j
    rw [hconn]
    by_cases hj : j = i
    · subst hj
      rw [Function.update_self]
      exact SlotOk.blank
    · rw [Function.update_of_ne hj]
      exact h.slots j
  blocks := by
    intro x j hlive harg
    obtain ⟨hsame, hne⟩ := hpcbs x hlive
    rw [hsame] at hlive harg ⊢
    have hj : j ≠ i := by
      rintro rfl
      exact hne harg
    rw [hconn, Function.update_of_ne hj]
    exact h.blocks x j hlive harg

/-- The slots stay, and so does what the blocks say about them. -/
theorem TableOk.keep {w w' : World} (h : TableOk w) (hconn : w'.conn = w.conn)
    (hpcbs : ∀ x, (w'.pcbs x).live = true → (w.pcbs x).live = true ∧
      (w'.pcbs x).arg = (w.pcbs x).arg ∧ (w'.pcbs x).errFn = (w.pcbs x).errFn ∨
      (w'.pcbs x).arg = none) : TableOk w' where
  slots := by
    intro i
    rw [hconn]
    exact h.slots i
  blocks := by
    intro x i hlive harg
    rw [hconn]
    rcases hpcbs x hlive with ⟨hl, ha, he⟩ | hnone
    · rw [he]
      rw [ha] at harg
      exact h.blocks x i hl harg
    · rw [hnone] at harg
      cases harg

theorem TableOk.same {w w' : World} (h : TableOk w) (hconn : w'.conn = w.conn)
    (hpcbs : w'.pcbs = w.pcbs) : TableOk w' := by
  refine h.keep hconn fun x hlive => Or.inl ?_
  rw [hpcbs] at hlive ⊢
  exact ⟨hlive, rfl, rfl⟩

theorem live_update_freed {f : PcbId → Pcb} {x y : PcbId}
    (h : (Function.update f x Pcb.freed y).live = true) :
    y ≠ x ∧ Function.update f x Pcb.freed y = f y := by
  by_cases hy : y = x
  · subst hy
    rw [Function.update_self] at h
    cases h
  · exact ⟨hy, Function.update_of_ne hy _ _⟩

theorem TableOk.freed {w w' : World} (h : TableOk w) (x : PcbId) (hconn : w'.conn = w.conn)
    (hpcbs : w'.pcbs = Function.update w.pcbs x Pcb.freed) : TableOk w' := by
  refine h.keep hconn fun y hy => Or.inl ?_
  rw [hpcbs] at hy ⊢
  obtain ⟨-, hsame⟩ := live_update_freed hy
  rw [hsame] at hy ⊢
  exact ⟨hy, rfl, rfl⟩

theorem TableOk.connClose {w : World} (h : TableOk w) (i : Slot) (why : Option Why) :
    TableOk (connClose w i why) := by
  by_cases hst : (w.conn i).st = .free
  · rwa [connClose_free hst]
  · refine h.empty (connClose_conn hst why) ?_
    intro x hlive
    rw [connClose_pcbs hst] at hlive ⊢
    -- The only block that can name the slot is the one it holds, and that one is freed.
    rcases hpcb : (w.conn i).pcb with _ | y
    · simp only [hpcb] at hlive
      refine ⟨rfl, fun harg => ?_⟩
      have hown := (h.blocks x i hlive harg).1
      rw [hpcb] at hown
      cases hown
    · simp only [hpcb] at hlive ⊢
      obtain ⟨hne, hsame⟩ := live_update_freed hlive
      refine ⟨hsame, fun harg => ?_⟩
      rw [hsame] at hlive
      have hown := (h.blocks x i hlive harg).1
      rw [hpcb] at hown
      exact hne (Option.some.inj hown).symm

/-- What the err callback of a block does, once the block is freed. -/
theorem TableOk.onErr_eq {w : World} (h : TableOk w) {x : PcbId} {i : Slot}
    (hlive : (w.pcbs x).live = true) (harg : (w.pcbs x).arg = some i) :
    SysAwg.onErr (w.setPcb x Pcb.freed) (some i) = { w with
      conn := Function.update w.conn i Conn.blank
      pcbs := Function.update w.pcbs x Pcb.freed
      stats := { w.stats with failed := w.stats.failed + 1 }
      trace := .failed i .lwipErr :: w.trace } := by
  have hbusy : ((w.setPcb x Pcb.freed).conn i).st ≠ .free := by
    rcases (h.blocks x i hlive harg).2.1 with hs | hs <;> simp [hs]
  rw [SysAwg.onErr_eq hbusy]
  rfl

theorem TableOk.onErr {w : World} (h : TableOk w) {x : PcbId} {i : Slot}
    (hlive : (w.pcbs x).live = true) (harg : (w.pcbs x).arg = some i) :
    TableOk (onErr (w.setPcb x Pcb.freed) (some i)) := by
  have hown := (h.blocks x i hlive harg).1
  rw [h.onErr_eq hlive harg]
  refine h.empty rfl ?_
  intro y hy
  obtain ⟨hne, hsame⟩ := live_update_freed hy
  refine ⟨hsame, fun hyarg => ?_⟩
  have hy' : (w.pcbs y).live = true := by
    rw [← hsame]
    exact hy
  have := (h.blocks y i hy' hyarg).1
  rw [hown] at this
  exact hne (Option.some.inj this).symm

/-- A slot that waits for its address takes a block nobody has. -/
theorem TableOk.takePcb {w : World} (h : TableOk w) {i : Slot} {x : PcbId}
    (hst : (w.conn i).st = .resolving) : TableOk (takePcb w i x) where
  slots := by
    intro j
    by_cases hj : j = i
    · subst hj
      have hs := h.slots j
      simp only [SysAwg.takePcb, World.setConn_conn, Function.update_self]
      exact
        { up_le := hs.up_le
          off_ok := hs.off_ok
          free := fun hf => by cases hf
          busy := fun _ => hs.busy (by simp [hst])
          early := by rintro (hf | hf) <;> cases hf
          late := fun _ => by simp
          host := fun _ => hs.host (Or.inl hst) }
    · simp only [SysAwg.takePcb, World.setConn_conn, Function.update_of_ne hj]
      exact h.slots j
  blocks := by
    intro y j hlive harg
    simp only [SysAwg.takePcb, World.setConn_pcbs, World.setPcb_pcbs, World.setConn_conn]
      at hlive harg ⊢
    by_cases hy : y = x
    · subst hy
      rw [Function.update_self] at harg ⊢
      obtain rfl : i = j := Option.some.inj harg
      rw [Function.update_self]
      exact ⟨rfl, Or.inl rfl, rfl⟩
    · rw [Function.update_of_ne hy] at hlive harg ⊢
      -- no other block names a slot that is still waiting
      have hj : j ≠ i := by
        rintro rfl
        exact h.unnamed (by simp [hst]) y hlive harg
      rw [Function.update_of_ne hj]
      exact h.blocks y j hlive harg

theorem SlotOk.accepted {cfd : Int} (hcfd : 0 ≤ cfd) (now : UInt32) :
    SlotOk { Conn.blank with cfd := cfd, st := .sniff, lastMs := now } where
  up_le := Nat.zero_le _
  off_ok := rfl
  free := fun h => by cases h
  busy := fun _ => hcfd
  early := fun _ => ⟨rfl, rfl⟩
  late := by rintro (h | h) <;> cases h
  host := by rintro (h | h | h) <;> cases h

/-- **Every change keeps the table in order.** -/
theorem TableOk.move {w w' : World} (h : TableOk w) (m : Move w w') : TableOk w' := by
  cases m with
  | note f hf => exact h.same rfl rfl
  | accept i cfd now hst hcfd =>
      have hs := (h.slots i).free hst
      exact h.setConn rfl rfl (SlotOk.accepted hcfd now) hs.1.symm (by simp [hst])
  | received i b now hst hroom =>
      have hs := h.slots i
      refine h.setConn rfl rfl { hs with up_le := ?_, free := fun hf => absurd hf hst } rfl id
      simpa using hroom
  | rename i name hst =>
      have hs := h.slots i
      exact h.setConn rfl rfl { hs with host := by simp [hst] } rfl id
  | unasked k => exact h.same rfl rfl
  | failed i how hhow => exact h.same rfl rfl
  | close i why => exact h.connClose i (some why)
  | take i x hst hfree => exact h.takePcb hst
  | blocks f hf =>
      refine h.keep rfl fun x hlive => Or.inl ?_
      obtain ⟨hl, ha, he⟩ := hf x
      exact ⟨hl ▸ hlive, ha, he⟩
  | reclaimed x hlive => exact h.freed x rfl rfl
  | dropped x harg => exact h.freed x rfl rfl
  | taken x hfree =>
      refine h.keep rfl ?_
      intro y hy
      simp only [World.setPcb_pcbs] at hy ⊢
      by_cases hyx : y = x
      · subst hyx
        refine Or.inr ?_
        rw [Function.update_self]
        rfl
      · refine Or.inl ?_
        rw [Function.update_of_ne hyx] at hy ⊢
        exact ⟨hy, rfl, rfl⟩
  | err x i hlive harg => exact h.onErr hlive harg
  | connected i hst =>
      have hs := h.slots i
      refine h.setConn rfl rfl ?_ rfl fun _ => Or.inr rfl
      exact
        { up_le := hs.up_le
          off_ok := hs.off_ok
          free := fun hf => by cases hf
          busy := fun _ => hs.busy (by rcases hst with hs | hs <;> simp [hs])
          early := by rintro (hf | hf) <;> cases hf
          late := fun _ => hs.late hst
          host := fun _ => hs.host (Or.inr hst) }
  | delivered i chain hst =>
      have hs := h.slots i
      refine h.setConn rfl rfl ?_ rfl id
      exact
        { hs with
          off_ok := hs.off_ok.append chain
          free := fun hf => by rcases hst with hs | hs <;> rw [hs] at hf <;> cases hf
          early := by rintro (hf | hf) <;> rcases hst with hs | hs <;> rw [hs] at hf <;> cases hf }
  | finished i hst =>
      have hs := h.slots i
      refine h.setConn rfl rfl ?_ rfl id
      exact
        { hs with
          free := fun hf => by rcases hst with hs | hs <;> rw [hs] at hf <;> cases hf }
  | wrote i n now =>
      have hs := h.slots i
      refine h.setConn rfl rfl ?_ rfl id
      exact
        { hs with
          up_le := by
            have := hs.up_le
            simp only [List.length_drop]
            omega
          free := fun hf => by
            obtain ⟨hpcb, hrx, hcfd, hup, hpeer⟩ := hs.free hf
            exact ⟨hpcb, hrx, hcfd, by simp [hup], hpeer⟩ }
  | spent i =>
      have hs := h.slots i
      refine h.setConn rfl rfl ?_ rfl id
      have hnil : (w.conn i).rx = [] → (skipSpent (w.conn i).rx (w.conn i).rxOff).1 = [] := by
        intro hrx
        rw [hrx]
        rfl
      exact
        { hs with
          off_ok := skipSpent_offOk _ _ hs.off_ok
          free := fun hf => by
            obtain ⟨hpcb, hrx, hrest⟩ := hs.free hf
            exact ⟨hpcb, hnil hrx, hrest⟩
          early := fun hf => ⟨(hs.early hf).1, hnil (hs.early hf).2⟩ }
  | sent i p rest n now x hrx hpcb =>
      have hs := h.slots i
      rw [sendSome_eq hpcb]
      refine h.setConn rfl rfl ?_ rfl id
      refine { hs with off_ok := ?_ }
      have hoff := hs.off_ok
      rw [hrx] at hoff
      show OffOk (w.conn i).rx _
      rw [hrx]
      simp only [OffOk, List.length_take, List.length_drop] at hoff ⊢
      omega
  | touched i x hpcb => exact h.same rfl rfl
  | completed i hst hpeer hrx =>
      unfold complete
      refine TableOk.connClose ?_ i none
      exact h.same rfl rfl
  | started fd hst =>
      refine ⟨fun i => ?_, fun x i hlive harg => ?_⟩
      · have hs := h.slots i
        obtain ⟨hpcb, hrx, -, hup, hpeer⟩ := hs.free (hst i)
        exact
          { up_le := hs.up_le
            off_ok := hs.off_ok
            free := fun _ => ⟨hpcb, hrx, rfl, hup, hpeer⟩
            busy := fun hf => absurd rfl hf
            early := by rintro (hf | hf) <;> cases hf
            late := by rintro (hf | hf) <;> cases hf
            host := by rintro (hf | hf | hf) <;> cases hf }
      · exact absurd harg (h.unnamed (by simp [hst i]) x hlive)
  | stopping => exact h.same rfl rfl
  | stopClose i hrun => exact h.connClose i none
  | listening fd => exact h.same rfl rfl

theorem tableOk_start (fd : Int) : TableOk (awgProxyStart World.boot fd) where
  slots := by
    intro i
    exact SlotOk.blank
  blocks := by
    intro x i hlive harg
    cases hlive

theorem TableOk.ask {w w' : World} (h : TableOk w) (m : Ask w w') : TableOk w' := by
  cases m with
  | query i name hst hok =>
      have hs := h.slots i
      refine h.setConn rfl rfl ?_ rfl (by simp [hst])
      exact
        { up_le := hs.up_le
          off_ok := hs.off_ok
          free := fun hf => by cases hf
          busy := fun _ => hs.busy (by simp [hst])
          early := fun _ => hs.early (Or.inl hst)
          late := by rintro (hf | hf) <;> cases hf
          host := fun _ => hok }
  | queued i q => exact h.same rfl rfl
  | answered i q ip => exact h.same rfl rfl

/-! ### Invariants

A property is proved of a move under the assumption that the table is in order, and the
table is in order because moves keep it so.  The two inductions are made at once.
-/

theorem TableOk.moves {w w' : World} (h : TableOk w) (m : Moves w w') : TableOk w' := by
  induction m with
  | refl => exact h
  | tail _ hm ih => exact ih.move hm

/-- A property that every change keeps as long as the table is in order. -/
structure Kept (P : World → Prop) : Prop where
  move : ∀ {w w' : World}, TableOk w → P w → Move w w' → P w'
  ask : ∀ {w w' : World}, TableOk w → P w → Ask w w' → P w'

namespace Kept

variable {P : World → Prop} (k : Kept P) {w w' : World}
include k

theorem moves (ht : TableOk w) (hp : P w) (m : Moves w w') : P w' := by
  induction m with
  | refl => exact hp
  | tail hm hlast ih => exact k.move (ht.moves hm) ih hlast

/-- The table and the property after a change by the resolver and the moves it leads to. -/
theorem askMoves {u : World} (ht : TableOk w) (hp : P w) (a : Ask w u) (m : Moves u w') :
    TableOk w' ∧ P w' :=
  ⟨(ht.ask a).moves m, k.moves (ht.ask a) (k.ask ht hp a) m⟩

theorem stride (ht : TableOk w) (hp : P w) (m : Stride w w') : TableOk w' ∧ P w' := by
  cases m with
  | move m => exact ⟨ht.move m, k.move ht hp m⟩
  | asked i name hst hok =>
      have hq := Ask.query i name hst hok
      exact k.askMoves (ht.ask hq) (k.ask ht hp hq) (.queued i w.nextQ) .refl
  | refused i name hst hok m hv => exact k.askMoves ht hp (.query i name hst hok) m
  | now i name ip hst hok m hv =>
      have hq := Ask.query i name hst hok
      exact k.askMoves (ht.ask hq) (k.ask ht hp hq) (.answered i w.nextQ ip) m
  | later j r ip hr hst m hv =>
      have hu := Move.unasked (w := w) j
      exact k.askMoves (ht.move hu) (k.move ht hp hu) (.answered r.slot r.q ip) m

theorem strides (ht : TableOk w) (hp : P w) (m : Strides w w') : TableOk w' ∧ P w' := by
  induction m with
  | refl => exact ⟨ht, hp⟩
  | tail _ hm ih => exact k.stride ih.1 ih.2 hm

end Kept

theorem TableOk.strides {w w' : World} (h : TableOk w) (m : Strides w w') : TableOk w' :=
  (Kept.strides (P := fun _ => True) ⟨fun _ _ _ => trivial, fun _ _ _ => trivial⟩ h trivial m).1

/-! ### What a change adds to the history

Many invariants speak of the history.  What a move can add to it is said here once, with
what became of the slot it was added for.
-/

/-- A new connection took the slot. -/
def Event.acceptOf (i : Slot) : Event → Bool
  | .accept j => decide (j = i)
  | _ => false

/-- The resolver has a part in it. -/
def Event.dns : Event → Bool
  | .query .. | .queued .. | .answered .. => true
  | _ => false

/-- Entries that are neither an accept nor of the resolver. -/
def Event.plain (e : Event) : Prop := e.dns = false ∧ ∀ i, e ≠ .accept i

/-- A close adds that the block was acted on, if there was one. -/
theorem connClose_adds (w : World) (i : Slot) (why : Option Why) :
    ∃ new, (connClose w i why).trace = new ++ w.trace ∧
      ∀ e ∈ new, ∃ x live arg, e = .touch i x live arg := by
  by_cases hst : (w.conn i).st = .free
  · exact ⟨[], by rw [connClose_free hst]; rfl, by simp⟩
  · rw [connClose_trace hst]
    rcases (w.conn i).pcb with _ | x
    · exact ⟨[], rfl, by simp⟩
    · refine ⟨[_], rfl, fun e he => ?_⟩
      exact ⟨x, _, _, List.mem_singleton.mp he⟩

theorem connClose_plain (w : World) (i : Slot) (why : Option Why) :
    ∃ new, (connClose w i why).trace = new ++ w.trace ∧ ∀ e ∈ new, e.plain := by
  obtain ⟨new, htrace, htouch⟩ := connClose_adds w i why
  refine ⟨new, htrace, fun e he => ?_⟩
  obtain ⟨x, live, arg, rfl⟩ := htouch e he
  simp [Event.plain, Event.dns]

/-- Moves add to the history: an accept, which leaves the slot sniffing, or plain entries. -/
theorem Move.adds {w w' : World} (m : Move w w') :
    (∃ i, w'.trace = .accept i :: w.trace ∧ (w'.conn i).st = .sniff) ∨
      ∃ new, w'.trace = new ++ w.trace ∧ ∀ e ∈ new, e.plain := by
  cases m with
  | accept i cfd now hst hcfd => exact Or.inl ⟨i, rfl, by simp [acceptOn]⟩
  | note | rename | unasked | take | blocks | dropped | taken | connected | finished | spent
  | listening => exact Or.inr ⟨[], rfl, by simp⟩
  | received | failed | reclaimed | delivered | wrote | touched | started | stopping =>
      exact Or.inr ⟨[_], rfl, by simp [Event.plain, Event.dns]⟩
  | close i why => exact Or.inr (connClose_plain w i (some why))
  | stopClose i hrun => exact Or.inr (connClose_plain w i none)
  | err x i hlive harg =>
      refine Or.inr ⟨[.failed i .lwipErr], ?_, by simp [Event.plain, Event.dns]⟩
      by_cases hst : (w.conn i).st = .free
      · simp [onErr, connClose, countFailed, hst]
      · rw [onErr_eq (by simpa using hst)]
        rfl
  | sent i p rest n now x hrx hpcb =>
      rw [sendSome_eq hpcb]
      exact Or.inr ⟨[_, _, _], rfl, by simp [Event.plain, Event.dns]⟩
  | completed i hst hpeer hrx =>
      obtain ⟨new, hnew, hplain⟩ := connClose_plain
        ((w.log (.completed i (w.conn i).peerClosed (w.conn i).unsent)).count
          fun s => { s with completed := s.completed + 1 }) i none
      refine Or.inr ⟨new ++ [.completed i (w.conn i).peerClosed (w.conn i).unsent], ?_, ?_⟩
      · unfold complete
        rw [hnew]
        simp
      · intro e he
        rcases List.mem_append.mp he with hm | hm
        · exact hplain e hm
        · rw [List.mem_singleton.mp hm]
          simp [Event.plain, Event.dns]

/-- What a move adds, in short. -/
theorem Move.adds_dns {w w' : World} (m : Move w w') :
    ∃ new, w'.trace = new ++ w.trace ∧ ∀ e ∈ new, e.dns = false := by
  rcases m.adds with ⟨i, htrace, -⟩ | ⟨new, htrace, hplain⟩
  · exact ⟨[.accept i], htrace, by simp [Event.dns]⟩
  · exact ⟨new, htrace, fun e he => (hplain e he).1⟩

end SysAwg
