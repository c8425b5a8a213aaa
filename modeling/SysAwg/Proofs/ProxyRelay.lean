/-
No byte is lost, duplicated or reordered on its way through the proxy.

For each direction the history says what went in and what went out since the slot was
last accepted into, and the slot says what is parked in between.  The two add up after
every change: a buffer is only appended to at its end, by what came in, and only shortened at
its front, by what went out.

The invariant is `Flow`, one equation a direction: what went in is what went out followed
by what is parked.  A move either has no part in a slot's streams or is one of five that
have, and each of those is a small equation on lists.  At a completion nothing is parked
for the client, so it has been sent everything.
-/
import SysAwg.Proofs.ProxyWalk
import SysAwg.Lib.History

namespace SysAwg

open History

/-! ### The streams of a connection -/

/-- What `recv` returned for the client socket of the slot. -/
def received (i : Slot) : List Event → Bytes :=
  since (Event.acceptOf i) fun
    | .recv j b => if j = i then b else []
    | _ => []

/-- What `tcp_write` took. -/
def written (i : Slot) : List Event → Bytes :=
  since (Event.acceptOf i) fun
    | .write j b => if j = i then b else []
    | _ => []

/-- What `on_recv` was handed. -/
def delivered (i : Slot) : List Event → Bytes :=
  since (Event.acceptOf i) fun
    | .deliver j b => if j = i then b else []
    | _ => []

/-- What `send` took. -/
def sent (i : Slot) : List Event → Bytes :=
  since (Event.acceptOf i) fun
    | .send j b => if j = i then b else []
    | _ => []

/-- The lengths `tcp_recved` was called for. -/
def acknowledged (i : Slot) : List Event → List Nat :=
  since (Event.acceptOf i) fun
    | .recved j n => if j = i then [n] else []
    | _ => []

/-- The slot whose streams an entry belongs to. -/
def Event.stream : Event → Option Slot
  | .accept i | .recv i _ | .write i _ | .deliver i _ | .send i _ | .recved i _ => some i
  | _ => none

theorem Event.other_stream {e : Event} {i : Slot} (h : e.stream ≠ some i) :
    e.acceptOf i = false ∧ received i [e] = [] ∧ written i [e] = [] ∧ delivered i [e] = [] ∧
      sent i [e] = [] ∧ acknowledged i [e] = [] := by
  cases e <;> simp_all [stream, acceptOf, received, written, delivered, sent, acknowledged, since]

/-- The two directions of a connection add up. -/
structure Flow (c : Conn) (i : Slot) (t : List Event) : Prop where
  up : written i t ++ c.up = received i t
  down : sent i t ++ c.unsent = delivered i t
  acked : (acknowledged i t).sum = (sent i t).length

/-- Entries of other streams change nothing. -/
theorem Flow.frame {c c' : Conn} {i : Slot} {t l : List Event} (h : Flow c i t)
    (hup : c'.up = c.up) (hdown : c'.unsent = c.unsent) (hnew : ∀ e ∈ l, e.stream ≠ some i) :
    Flow c' i (l ++ t) := by
  have hquiet : ∀ {α : Type} (f : Event → List α),
      (∀ e : Event, e.stream ≠ some i → since (Event.acceptOf i) f [e] = []) →
      since (Event.acceptOf i) f (l ++ t) = since (Event.acceptOf i) f t := by
    intro α f hf
    refine since_quiet (fun e he => ?_) t
    have hreset := (Event.other_stream (hnew e he)).1
    have hnone := hf e (hnew e he)
    rw [since_cons hreset] at hnone
    exact ⟨hreset, by simpa using hnone⟩
  have hr : received i (l ++ t) = received i t :=
    hquiet _ fun e he => (Event.other_stream he).2.1
  have hw : written i (l ++ t) = written i t :=
    hquiet _ fun e he => (Event.other_stream he).2.2.1
  have hd : delivered i (l ++ t) = delivered i t :=
    hquiet _ fun e he => (Event.other_stream he).2.2.2.1
  have hs : sent i (l ++ t) = sent i t :=
    hquiet _ fun e he => (Event.other_stream he).2.2.2.2.1
  have ha : acknowledged i (l ++ t) = acknowledged i t :=
    hquiet _ fun e he => (Event.other_stream he).2.2.2.2.2
  constructor
  · rw [hw, hr, hup]
    exact h.up
  · rw [hs, hd, hdown]
    exact h.down
  · rw [ha, hs]
    exact h.acked

theorem Flow.accepted {c : Conn} {i : Slot} (hup : c.up = []) (hrx : c.rx = []) (t : List Event) :
    Flow c i (.accept i :: t) := by
  have hreset : (Event.accept i).acceptOf i = true := by simp [Event.acceptOf]
  constructor
  · simp [written, received, since_cons_reset hreset, hup]
  · simp [sent, delivered, since_cons_reset hreset, Conn.unsent, hrx]
  · simp [acknowledged, sent, since_cons_reset hreset]

section Streams

variable {c c' : Conn} {i : Slot} {t : List Event}

/-- Bytes come from the client. -/
theorem Flow.received (h : Flow c i t) {b : Bytes} (hup : c'.up = c.up ++ b)
    (hdown : c'.unsent = c.unsent) : Flow c' i (.recv i b :: t) := by
  constructor
  · have := h.up
    simp only [SysAwg.written, SysAwg.received, since, Event.acceptOf] at this ⊢
    simp [hup, ← this]
  · simpa [sent, delivered, since, Event.acceptOf, hdown] using h.down
  · simpa [acknowledged, sent, since, Event.acceptOf] using h.acked

/-- The first bytes parked go to the tunnel. -/
theorem Flow.wrote (h : Flow c i t) {b : Bytes} (hup : c.up = b ++ c'.up)
    (hdown : c'.unsent = c.unsent) : Flow c' i (.write i b :: t) := by
  constructor
  · have := h.up
    rw [hup] at this
    simpa [written, SysAwg.received, since, Event.acceptOf] using this
  · simpa [sent, delivered, since, Event.acceptOf, hdown] using h.down
  · simpa [acknowledged, sent, since, Event.acceptOf] using h.acked

/-- Bytes come from the tunnel. -/
theorem Flow.delivered (h : Flow c i t) {b : Bytes} (hup : c'.up = c.up)
    (hdown : c'.unsent = c.unsent ++ b) : Flow c' i (.deliver i b :: t) := by
  constructor
  · simpa [written, SysAwg.received, since, Event.acceptOf, hup] using h.up
  · have := h.down
    simp only [sent, SysAwg.delivered, since, Event.acceptOf] at this ⊢
    simp [hdown, ← this]
  · simpa [acknowledged, sent, since, Event.acceptOf] using h.acked

/-- The first bytes left go to the client, and are acknowledged. -/
theorem Flow.sent (h : Flow c i t) {b : Bytes} {x : PcbId} {live : Bool} {arg : Option Slot}
    (hup : c'.up = c.up) (hdown : c.unsent = b ++ c'.unsent) :
    Flow c' i (.recved i b.length :: .touch i x live arg :: .send i b :: t) := by
  constructor
  · simpa [written, SysAwg.received, since, Event.acceptOf, hup] using h.up
  · have := h.down
    rw [hdown] at this
    simpa [SysAwg.sent, SysAwg.delivered, since, Event.acceptOf] using this
  · have := h.acked
    simp only [acknowledged, SysAwg.sent, since, Event.acceptOf] at this ⊢
    simp [this]

end Streams

/-! ### The chain

What waits for the client is a chain of links with an offset into the first.  Its contents
are one byte string, and the operations on links are appending to it and taking from its
front.
-/

theorem chainBytes_append (a b : List Pbuf) : chainBytes (a ++ b) = chainBytes a ++ chainBytes b :=
  List.flatMap_append

/-- What is left of a chain. -/
def remainder : List Pbuf → Nat → Bytes
  | [], _ => []
  | p :: rest, off => p.payload.drop off ++ chainBytes rest

theorem Conn.unsent_eq (c : Conn) : c.unsent = remainder c.rx c.rxOff := by
  unfold Conn.unsent remainder
  cases c.rx <;> rfl

theorem remainder_zero (rx : List Pbuf) : remainder rx 0 = chainBytes rx := by
  cases rx with
  | nil => rfl
  | cons p rest => simp [remainder, chainBytes]

/-- New links go to the end. -/
theorem remainder_append {rx : List Pbuf} {off : Nat} (hoff : OffOk rx off) (chain : List Pbuf) :
    remainder (rx ++ chain) off = remainder rx off ++ chainBytes chain := by
  cases rx with
  | nil =>
      obtain rfl : off = 0 := hoff
      rw [List.nil_append, remainder_zero]
      rfl
  | cons p rest =>
      show p.payload.drop off ++ chainBytes (rest ++ chain) = _
      rw [chainBytes_append, ← List.append_assoc]
      rfl

/-- A spent link holds nothing any more. -/
theorem remainder_skipSpent : ∀ (rx : List Pbuf) (off : Nat),
    remainder (skipSpent rx off).1 (skipSpent rx off).2 = remainder rx off := by
  intro rx
  induction rx with
  | nil => intro off; rfl
  | cons p rest ih =>
      intro off
      rw [skipSpent]
      split
      · rename_i hspent
        rw [ih 0, remainder_zero]
        show _ = p.payload.drop off ++ chainBytes rest
        rw [List.drop_of_length_le hspent, List.nil_append]
      · rfl

/-- The bytes `send` took leave at the front. -/
theorem remainder_sent (p : Pbuf) (rest : List Pbuf) (off n : Nat) :
    (p.payload.drop off).take n
      ++ remainder (p :: rest) (off + ((p.payload.drop off).take n).length)
      = remainder (p :: rest) off := by
  generalize hl : p.payload.drop off = l
  show l.take n ++ (p.payload.drop (off + (l.take n).length) ++ chainBytes rest) = _
  rw [← List.drop_drop, hl, ← List.append_assoc]
  have hsplit : l.take n ++ l.drop (l.take n).length = l := by
    rw [List.length_take]
    rcases Nat.le_total n l.length with hle | hle
    · rw [Nat.min_eq_left hle, List.take_append_drop]
    · rw [Nat.min_eq_right hle, List.take_of_length_le hle, List.drop_length, List.append_nil]
  rw [hsplit, ← hl]
  rfl

/-! ### The invariant

A connection that ends without being completed may leave bytes behind, so nothing is said of
what it has not sent.  One that is counted as completed has sent everything.
-/

/-- Every connection adds up, and those that were completed had sent everything. -/
structure RelayOk (w : World) : Prop where
  flows : ∀ i, (w.conn i).st ≠ .free → Flow (w.conn i) i w.trace
  completed : ∀ i peerClosed rest older, .completed i peerClosed rest :: older <:+ w.trace →
    peerClosed = true ∧ rest = [] ∧ sent i older = delivered i older

def Event.isCompleted : Event → Bool
  | .completed .. => true
  | _ => false

section Steps

variable {w w' : World} {i : Slot} {c : Conn} {l : List Event}

/-- Entries other than a completion. -/
theorem RelayOk.completed_append (h : RelayOk w) (htrace : w'.trace = l ++ w.trace)
    (hnew : ∀ e ∈ l, e.isCompleted = false) :
    ∀ i peerClosed rest older, .completed i peerClosed rest :: older <:+ w'.trace →
      peerClosed = true ∧ rest = [] ∧ sent i older = delivered i older := by
  intro i peerClosed rest older hsuf
  rw [htrace] at hsuf
  refine h.completed i peerClosed rest older (suffix_cases hsuf fun hmem => ?_)
  have := hnew _ hmem
  cases this

theorem RelayOk.same (h : RelayOk w) (hconn : w'.conn = w.conn) (htrace : w'.trace = l ++ w.trace)
    (hnew : ∀ e ∈ l, e.isCompleted = false ∧ e.stream = none) : RelayOk w' where
  flows := by
    intro j hj
    rw [hconn] at hj ⊢
    rw [htrace]
    refine (h.flows j hj).frame rfl rfl ?_
    intro e he
    simp [(hnew e he).2]
  completed := h.completed_append htrace fun e he => (hnew e he).1

/-- One slot changes, and only its streams go on. -/
theorem RelayOk.update (h : RelayOk w) (hconn : w'.conn = Function.update w.conn i c)
    (htrace : w'.trace = l ++ w.trace)
    (hnew : ∀ e ∈ l, e.isCompleted = false ∧ (e.stream = none ∨ e.stream = some i))
    (hc : c.st ≠ .free → Flow c i w'.trace) : RelayOk w' where
  flows := by
    intro j hj
    rw [hconn] at hj ⊢
    by_cases hji : j = i
    · subst hji
      rw [Function.update_self] at hj ⊢
      exact hc hj
    · rw [Function.update_of_ne hji] at hj ⊢
      rw [htrace]
      refine (h.flows j hj).frame rfl rfl ?_
      intro e he
      rcases (hnew e he).2 with hs | hs
      · simp [hs]
      · simp only [hs, ne_eq, Option.some.injEq]
        exact fun hij => hji hij.symm
  completed := h.completed_append htrace fun e he => (hnew e he).1

/-- One slot changes in a way its streams do not notice. -/
theorem RelayOk.rewrite (h : RelayOk w) (hconn : w'.conn = Function.update w.conn i c)
    (htrace : w'.trace = w.trace) (hst : c.st ≠ .free → (w.conn i).st ≠ .free)
    (hup : c.up = (w.conn i).up) (hdown : c.unsent = (w.conn i).unsent) : RelayOk w' := by
  refine h.update (l := []) hconn htrace (by simp) ?_
  intro hc
  rw [htrace]
  exact (h.flows i (hst hc)).frame (l := []) hup hdown (by simp)

theorem RelayOk.connClose (h : RelayOk w) (i : Slot) (why : Option Why) :
    RelayOk (connClose w i why) := by
  by_cases hst : (w.conn i).st = .free
  · rwa [connClose_free hst]
  · obtain ⟨new, htrace, htouch⟩ := connClose_adds w i why
    refine h.update (connClose_conn hst why) htrace (fun e he => ?_) fun hf => absurd rfl hf
    obtain ⟨x, live, arg, rfl⟩ := htouch e he
    simp [Event.isCompleted, Event.stream]

end Steps

theorem RelayOk.move {w w' : World} (ht : TableOk w) (h : RelayOk w) (m : Move w w') :
    RelayOk w' := by
  cases m with
  | note | unasked | blocks | dropped | taken | listening =>
      exact h.same (l := []) rfl rfl (by simp)
  | failed | reclaimed | touched | stopping =>
      exact h.same (l := [_]) rfl rfl (by simp [Event.isCompleted, Event.stream])
  | accept i cfd now hst hcfd =>
      refine h.update (l := [_]) rfl rfl ?_ fun _ => Flow.accepted rfl rfl w.trace
      simp [Event.isCompleted, Event.stream]
  | received i b now hst hroom =>
      refine h.update (l := [_]) rfl rfl (by simp [Event.isCompleted, Event.stream]) ?_
      intro _
      exact (h.flows i hst).received rfl rfl
  | rename i name hst => exact h.rewrite rfl rfl id rfl rfl
  | close i why => exact h.connClose i (some why)
  | take i x hst hfree => exact h.rewrite rfl rfl (fun _ => by simp [hst]) rfl rfl
  | err x i hlive harg =>
      rw [ht.onErr_eq hlive harg]
      refine h.update (l := [_]) rfl rfl (by simp [Event.isCompleted, Event.stream]) ?_
      exact fun hf => absurd rfl hf
  | connected i hst =>
      exact h.rewrite rfl rfl (fun _ => by rcases hst with hs | hs <;> simp [hs]) rfl rfl
  | finished i hst => exact h.rewrite rfl rfl id rfl rfl
  | delivered i chain hst =>
      refine h.update (l := [_]) rfl rfl (by simp [Event.isCompleted, Event.stream]) ?_
      intro hc
      refine (h.flows i hc).delivered rfl ?_
      rw [Conn.unsent_eq, Conn.unsent_eq]
      exact remainder_append (ht.slots i).off_ok chain
  | wrote i n now =>
      refine h.update (l := [_]) rfl rfl (by simp [Event.isCompleted, Event.stream]) ?_
      intro hc
      exact (h.flows i hc).wrote (List.take_append_drop n _).symm rfl
  | spent i =>
      refine h.rewrite rfl rfl id rfl ?_
      rw [Conn.unsent_eq, Conn.unsent_eq]
      exact remainder_skipSpent _ _
  | sent i p rest n now x hrx hpcb =>
      rw [sendSome_eq hpcb]
      refine h.update (l := [_, _, _]) rfl rfl (by simp [Event.isCompleted, Event.stream])
        fun hc => ?_
      refine (h.flows i hc).sent rfl ?_
      rw [Conn.unsent_eq, Conn.unsent_eq]
      dsimp only
      rw [hrx]
      exact (remainder_sent p rest _ n).symm
  | completed i hst hpeer hrx =>
      unfold complete
      refine RelayOk.connClose ?_ i none
      refine ⟨fun j hj => ?_, fun j peerClosed rest older hsuf => ?_⟩
      · exact (h.flows j hj).frame (l := [_]) rfl rfl (by simp [Event.stream])
      · rcases List.suffix_cons_iff.mp hsuf with heq | hold
        · -- the slot has nothing left, so what it sent is what it was handed
          obtain ⟨hev, rfl⟩ := List.cons.inj heq
          obtain ⟨rfl, rfl, rfl⟩ := Event.completed.inj hev
          have hnil : (w.conn j).unsent = [] := by simp [Conn.unsent, hrx]
          have := (h.flows j hst).down
          rw [hnil, List.append_nil] at this
          exact ⟨hpeer, hnil, this⟩
        · exact h.completed j peerClosed rest older hold
  | started fd hst =>
      refine ⟨fun j hj => absurd rfl hj, ?_⟩
      exact h.completed_append (l := [_]) rfl (by simp [Event.isCompleted])
  | stopClose i hrun => exact h.connClose i none

theorem relayOk_kept : Kept RelayOk where
  move ht h m := h.move ht m
  ask := by
    intro w w' _ h m
    cases m with
    | query i name hst hok =>
        refine h.update (l := [_]) rfl rfl (by simp [Event.isCompleted, Event.stream]) ?_
        intro hc
        exact (h.flows i (by simp [hst])).frame (l := [_]) rfl rfl (by simp [Event.stream])
    | queued i q => exact h.same (l := [_]) rfl rfl (by simp [Event.isCompleted, Event.stream])
    | answered i q ip =>
        exact h.same (l := [_]) rfl rfl (by simp [Event.isCompleted, Event.stream])

theorem relayOk_start (fd : Int) : RelayOk (awgProxyStart World.boot fd) where
  flows := by
    intro i hi
    exact absurd rfl hi
  completed := by
    intro i peerClosed rest older hsuf
    have := hsuf.subset (List.mem_cons_self ..)
    simp [awgProxyStart, World.boot] at this

/-- **Every byte is relayed once and in order**, in every run and at every moment of it. -/
theorem relay_intact (fd : Int) :
    (∀ labels : List Label, RelayOk (proxyRun fd labels) ∧ Moment fd (proxyRun fd labels)) ∧
    ∀ w, Moment fd w → RelayOk w := by
  have hall : ∀ w, Moment fd w → RelayOk w := fun w h =>
    (relayOk_kept.moment (relayOk_start fd) h).2
  exact ⟨fun labels => ⟨hall _ (moment_proxyRun fd labels), moment_proxyRun fd labels⟩, hall⟩

/-- A connection is opened, the answer comes in two links, and the client takes two bytes of
the three. -/
def relaySample : List Label :=
  [pollAccepts 5, pollReads firstSlot (clientHello 97) (.ok 1 ResolveEnv.fine),
    .connected firstPcb false, .recv firstPcb [.holding [], .holding [1, 2, 3]] false,
    pollOne firstSlot { SlotEnv.quiet with pollOut := true, down := [(.took 1, 0), (.again, 0)] }]

theorem relay_intact_sample :
    ((proxyRun 3 relaySample).conn 0).st = .relay ∧ sent 0 (proxyRun 3 relaySample).trace = [1, 2] ∧
      [1, 2] ++ ((proxyRun 3 relaySample).conn 0).unsent
        = delivered 0 (proxyRun 3 relaySample).trace := by
  have hst : ((proxyRun 3 relaySample).conn 0).st = .relay := by decide +kernel
  have hsent : sent 0 (proxyRun 3 relaySample).trace = [1, 2] := by decide +kernel
  have h := (relay_intact 3).2 _ ((relay_intact 3).1 relaySample).2
  refine ⟨hst, hsent, ?_⟩
  rw [← hsent]
  exact (h.flows 0 (by simp [hst])).down

end SysAwg
