/-
Whose answer a slot uses.

`on_resolved` is handed the slot and nothing else, so it cannot tell an answer to the
connection in the slot from an answer to one that was there before.  It only looks at
the state.  An answer is misused exactly when two queries made for the same slot are
unanswered at a time; while that does not happen, every answer used is the answer to the
one query of the connection that uses it.
-/
import SysAwg.Proofs.ProxyWalk
import SysAwg.Lib.History

namespace SysAwg

open History

/-- The queries of the connection in a slot, and the hosts they were for. -/
def queries (i : Slot) : List Event → List (Nat × Bytes) :=
  since (Event.acceptOf i) fun
    | .query j q host => if j = i then [(q, host)] else []
    | _ => []

/-- Every answer that was used belongs to the only query of the connection, and that query
was for the host the slot held. -/
def AnswersOk (t : List Event) : Prop :=
  ∀ i q host ip older, .answered i q host ip :: older <:+ t → queries i older = [(q, host)]

/-- No query was left unanswered while another for the same slot was. -/
def NoOverlap (t : List Event) : Prop := ∀ i q older, Event.queued i q older ∈ t → older = []

section Slots

variable {w w' : World} {i j : Slot} {c : Conn} {l : List Event}

/-- A connection that has not read a host name has asked for none. -/
def Unasked (j : Slot) (w : World) : Prop :=
  (w.conn j).st = .sniff → queries j w.trace = []

/-- A connection that waits has made one query, for its host, and the resolver holds no
other request for the slot. -/
def Waits (j : Slot) (w : World) : Prop :=
  (w.conn j).st = .resolving →
    ∃ q, queries j w.trace = [(q, (w.conn j).host)] ∧ ∀ r ∈ w.reqs, r.slot = j → r.q = q

theorem queries_plain (hnew : ∀ e ∈ l, e.plain) (t : List Event) :
    queries j (l ++ t) = queries j t := by
  refine since_quiet (fun e he => ?_) t
  obtain ⟨hdns, hacc⟩ := hnew e he
  cases e with
  | accept i => exact absurd rfl (hacc i)
  | query | queued | answered => cases hdns
  | _ => exact ⟨rfl, rfl⟩

theorem queries_accept (i : Slot) (t : List Event) :
    queries j (.accept i :: t) = if i = j then [] else queries j t := by
  simp [queries, since, Event.acceptOf]

/-! ### One slot under one move

Which connection a slot holds, and which host it waits for, changes at an accept and where a
host name was read.  Everything else that happens to the slot is told by how its state may
move.
-/

/-- A slot neither begins to sniff nor to wait, and keeps its host while it waits. -/
def Steady (c c' : Conn) : Prop :=
  (c'.st = .sniff → c.st = .sniff) ∧
    (c'.st = .resolving → c.st = .resolving ∧ c'.host = c.host)

theorem Steady.refl (c : Conn) : Steady c c := ⟨id, fun h => ⟨h, rfl⟩⟩

theorem Steady.update (hconn : w'.conn = Function.update w.conn i c) (hc : Steady (w.conn i) c)
    (j : Slot) : Steady (w.conn j) (w'.conn j) := by
  rw [hconn]
  by_cases hj : j = i
  · subst hj
    rwa [Function.update_self]
  · rw [Function.update_of_ne hj]
    exact Steady.refl _

theorem Steady.late (hc : c.st ≠ .sniff ∧ c.st ≠ .resolving) (c₀ : Conn) : Steady c₀ c :=
  ⟨fun h => absurd h hc.1, fun h => absurd h hc.2⟩

theorem Steady.connClose (w : World) (i : Slot) (why : Option Why) (j : Slot) :
    Steady (w.conn j) ((connClose w i why).conn j) := by
  by_cases hst : (w.conn i).st = .free
  · rw [connClose_free hst]
    exact Steady.refl _
  · exact Steady.update (connClose_conn hst why) (Steady.late (by decide) _) j

/-- Apart from an accept, a move leaves every slot steady. -/
theorem Move.steady (ht : TableOk w) (m : Move w w') (j : Slot) :
    (w'.conn j).st = .sniff ∧ queries j w'.trace = [] ∨ Steady (w.conn j) (w'.conn j) := by
  cases m with
  | accept i cfd now hst hcfd =>
      by_cases hj : j = i
      · subst hj
        refine Or.inl ⟨by simp [acceptOn], ?_⟩
        exact (queries_accept j w.trace).trans (if_pos rfl)
      · refine Or.inr ?_
        have hsame : (acceptOn w i cfd now).conn j = w.conn j := Function.update_of_ne hj _ _
        rw [hsame]
        exact Steady.refl _
  | note | unasked | failed | blocks | reclaimed | dropped | taken | touched | stopping
  | listening => exact Or.inr (Steady.refl _)
  | received | wrote | delivered | finished | spent =>
      refine Or.inr (Steady.update rfl ?_ j)
      exact ⟨id, fun h => ⟨h, rfl⟩⟩
  | rename i name hst =>
      refine Or.inr (Steady.update rfl ?_ j)
      exact ⟨id, by simp [hst]⟩
  | close i why => exact Or.inr (Steady.connClose w i (some why) j)
  | stopClose i hrun => exact Or.inr (Steady.connClose w i none j)
  | take | connected =>
      refine Or.inr (Steady.update rfl ?_ j)
      exact Steady.late (by simp) _
  | err x i hlive harg =>
      rw [ht.onErr_eq hlive harg]
      refine Or.inr (Steady.update rfl ?_ j)
      exact Steady.late (by decide) _
  | sent i p rest n now x hrx hpcb =>
      rw [sendSome_eq hpcb]
      refine Or.inr (Steady.update rfl ?_ j)
      exact ⟨id, fun h => ⟨h, rfl⟩⟩
  | completed i hst hpeer hrx => exact Or.inr (Steady.connClose _ i none j)
  | started fd hst => exact Or.inr (Steady.late (by simp [awgProxyStart]) _)

theorem Move.reqs_subset (m : Move w w') : ∀ r ∈ w'.reqs, r ∈ w.reqs := by
  cases m with
  | unasked k => exact fun r hr => List.mem_of_mem_eraseIdx hr
  | close i why => exact fun r hr => by rwa [connClose_reqs] at hr
  | stopClose i hrun => exact fun r hr => by rwa [connClose_reqs] at hr
  | completed i hst hpeer hrx => exact fun r hr => by rwa [complete, connClose_reqs] at hr
  | err x i hlive harg =>
      intro r hr
      unfold onErr at hr
      dsimp only at hr
      rwa [connClose_reqs] at hr
  | sent i p rest n now x hrx hpcb =>
      rw [sendSome_eq hpcb]
      exact fun r hr => hr
  | _ => exact fun r hr => hr

/-- A slot is accepted into, or it is steady and makes no query. -/
theorem Move.slot (ht : TableOk w) (m : Move w w') (j : Slot) :
    (w'.conn j).st = .sniff ∧ queries j w'.trace = [] ∨
      Steady (w.conn j) (w'.conn j) ∧ queries j w'.trace = queries j w.trace := by
  rcases m.steady ht j with hacc | hsteady
  · exact Or.inl hacc
  · rcases m.adds with ⟨i, htrace, hsniff⟩ | ⟨l, htrace, hplain⟩
    · rw [htrace, queries_accept]
      by_cases hij : i = j
      · subst hij
        exact Or.inl ⟨hsniff, if_pos rfl⟩
      · exact Or.inr ⟨hsteady, if_neg hij⟩
    · rw [htrace]
      exact Or.inr ⟨hsteady, queries_plain hplain _⟩

theorem Unasked.move (ht : TableOk w) (h : Unasked j w) (m : Move w w') : Unasked j w' := by
  intro hst
  rcases m.slot ht j with ⟨-, hnone⟩ | ⟨hsteady, hsame⟩
  · exact hnone
  · rw [hsame]
    exact h (hsteady.1 hst)

theorem Waits.move (ht : TableOk w) (h : Waits j w) (m : Move w w') : Waits j w' := by
  intro hst
  rcases m.slot ht j with ⟨hsniff, -⟩ | ⟨hsteady, hsame⟩
  · rw [hsniff] at hst
    cases hst
  · obtain ⟨hold, hhost⟩ := hsteady.2 hst
    obtain ⟨q, hq, hreqs⟩ := h hold
    rw [hsame, hhost]
    exact ⟨q, hq, fun r hr hs => hreqs r (m.reqs_subset r hr) hs⟩

theorem Unasked.moves (ht : TableOk w) (h : Unasked j w) (m : Moves w w') : Unasked j w' := by
  induction m with
  | refl => exact h
  | tail hm hlast ih => exact ih.move (ht.moves hm) hlast

theorem Waits.moves (ht : TableOk w) (h : Waits j w) (m : Moves w w') : Waits j w' := by
  induction m with
  | refl => exact h
  | tail hm hlast ih => exact ih.move (ht.moves hm) hlast

/-! ### One slot under a query

The query is made and, for a cached name, answered within one call, so the invariant is
broken in between: the slot waits and its request is not among the resolver's.
-/

theorem queries_query (i : Slot) (q : Nat) (name : Bytes) (t : List Event) :
    queries j (.query i q name :: t)
      = if i = j then queries j t ++ [(q, name)] else queries j t := by
  by_cases hij : i = j <;> simp [queries, since, Event.acceptOf, hij]

theorem queryOn_trace (w : World) (i : Slot) (name : Bytes) :
    (queryOn w i name).trace = .query i w.nextQ name :: w.trace := by
  simp [queryOn, askDns]

theorem queryOn_conn_of_ne (w : World) {i j : Slot} (hj : j ≠ i) (name : Bytes) :
    (queryOn w i name).conn j = w.conn j :=
  Function.update_of_ne hj _ _

theorem queryOn_conn_self (w : World) (i : Slot) (name : Bytes) :
    (queryOn w i name).conn i = { w.conn i with host := name, st := .resolving } :=
  Function.update_self ..

/-- The connection that asks has asked once. -/
theorem queries_queryOn (h : Unasked i w) (hst : (w.conn i).st = .sniff) (name : Bytes) :
    queries i (queryOn w i name).trace = [(w.nextQ, name)] := by
  rw [queryOn_trace, queries_query, if_pos rfl, h hst]
  rfl

theorem Unasked.queryOn (h : Unasked j w) (i : Slot) (name : Bytes) :
    Unasked j (queryOn w i name) := by
  intro hst
  by_cases hj : j = i
  · subst hj
    rw [queryOn_conn_self] at hst
    cases hst
  · rw [queryOn_conn_of_ne w hj] at hst
    rw [queryOn_trace, queries_query, if_neg (Ne.symm hj)]
    exact h hst

theorem Waits.queryOn (h : Waits j w) (hj : j ≠ i) (name : Bytes) : Waits j (queryOn w i name) := by
  intro hst
  rw [queryOn_conn_of_ne w hj] at hst ⊢
  rw [queryOn_trace, queries_query, if_neg (Ne.symm hj)]
  exact h hst

theorem Unasked.answeredOn (h : Unasked j w) (i : Slot) (q : Nat) (ip : Option Ip) :
    Unasked j (answeredOn w i q ip) := by
  intro hst
  show queries j (.answered i q (w.conn i).host ip :: w.trace) = []
  simpa [queries, since, Event.acceptOf] using h hst

theorem Waits.answeredOn (h : Waits j w) (i : Slot) (q : Nat) (ip : Option Ip) :
    Waits j (answeredOn w i q ip) := by
  intro hst
  have hsame : queries j (SysAwg.answeredOn w i q ip).trace = queries j w.trace := by
    simp [SysAwg.answeredOn, queries, since, Event.acceptOf]
  rw [hsame]
  exact h hst

end Slots

/-! ### Runs

Without overlap the resolver holds at most one request for a slot, and it is the one of the
connection that waits there.  So whatever answer comes, it is the right one.
-/

/-- The invariant, at the points where no slot is in the middle of using an answer. -/
structure AnswersInv (w : World) : Prop where
  unasked : ∀ j, Unasked j w
  waits : ∀ j, Waits j w
  answers : AnswersOk w.trace

section Strides

variable {w v u : World} {i : Slot}

theorem AnswersOk.append {t l : List Event} (h : AnswersOk t)
    (hnew : ∀ i q host ip, Event.answered i q host ip ∉ l) : AnswersOk (l ++ t) := by
  intro i q host ip older hsuf
  exact h i q host ip older (suffix_cases hsuf (hnew i q host ip))

theorem AnswersOk.moves {w w' : World} (h : AnswersOk w.trace) (m : Moves w w') :
    AnswersOk w'.trace := by
  induction m with
  | refl => exact h
  | tail _ hlast ih =>
      obtain ⟨l, htrace, hdns⟩ := hlast.adds_dns
      rw [htrace]
      refine ih.append ?_
      intro i q host ip hmem
      have := hdns _ hmem
      cases this

/-- An answer is used that belongs to the one query of the connection. -/
theorem AnswersOk.answered {q : Nat} {ip : Option Ip} (h : AnswersOk w.trace)
    (hq : queries i w.trace = [(q, (w.conn i).host)]) : AnswersOk (answeredOn w i q ip).trace := by
  intro j k host a older hsuf
  rcases List.suffix_cons_iff.mp hsuf with heq | hold
  · obtain ⟨hev, rfl⟩ := List.cons.inj heq
    obtain ⟨rfl, rfl, rfl, rfl⟩ := Event.answered.inj hev
    exact hq
  · exact h j k host a older hold

theorem AnswersInv.after (ht : TableOk u) (hunasked : ∀ j, Unasked j u)
    (hwaits : ∀ j, j ≠ i → Waits j u) (hanswers : AnswersOk u.trace) (m : Moves u v)
    (hv : (v.conn i).st ≠ .resolving) : AnswersInv v where
  unasked j := (hunasked j).moves ht m
  waits := by
    intro j
    by_cases hj : j = i
    · subst hj
      exact fun hst => absurd hst hv
    · exact (hwaits j hj).moves ht m
  answers := hanswers.moves m

/-- A query is made, and the resolver holds no other request for the slot. -/
theorem AnswersInv.asked (h : AnswersInv w) (hst : (w.conn i).st = .sniff) (name : Bytes)
    (hnone : ∀ r ∈ w.reqs, r.slot ≠ i) :
    AnswersInv (queueDns (queryOn w i name) i w.nextQ) := by
  have hsame : ∀ j, queries j (queueDns (queryOn w i name) i w.nextQ).trace
      = queries j (queryOn w i name).trace := by
    intro j
    simp [queueDns, queries, since, Event.acceptOf]
  refine ⟨fun j hj => ?_, fun j hj => ?_, ?_⟩
  · rw [hsame]
    exact (h.unasked j).queryOn i name hj
  · rw [hsame]
    by_cases hji : j = i
    · subst hji
      refine ⟨w.nextQ, ?_, fun r hr hs => ?_⟩
      · rw [queries_queryOn (h.unasked j) hst]
        show [(w.nextQ, name)] = [(w.nextQ, ((queryOn w j name).conn j).host)]
        rw [queryOn_conn_self]
      · rcases List.mem_append.mp hr with hold | hnew
        · exact absurd hs (hnone r hold)
        · rw [List.mem_singleton.mp hnew]
    · obtain ⟨q, hq, hreqs⟩ := (h.waits j).queryOn hji name hj
      refine ⟨q, hq, fun r hr hs => ?_⟩
      rcases List.mem_append.mp hr with hold | hnew
      · exact hreqs r hold hs
      · rw [List.mem_singleton.mp hnew] at hs
        exact absurd hs.symm hji
  · have htrace : (queueDns (queryOn w i name) i w.nextQ).trace
        = [_, .query i w.nextQ name] ++ w.trace := congrArg _ (queryOn_trace w i name)
    rw [htrace]
    exact h.answers.append (by simp)

theorem Moves.suffix {w w' : World} (m : Moves w w') : w.trace <:+ w'.trace := by
  induction m with
  | refl => exact List.suffix_rfl
  | tail _ hlast ih =>
      obtain ⟨l, htrace, -⟩ := hlast.adds_dns
      rw [htrace]
      exact ih.trans (List.suffix_append l _)

theorem Stride.suffix (m : Stride w v) : w.trace <:+ v.trace := by
  have hquery : ∀ i name, w.trace <:+ (queryOn w i name).trace := by
    intro i name
    rw [queryOn_trace]
    exact List.suffix_cons ..
  cases m with
  | move m => exact Moves.suffix (.single m)
  | asked i name hst hok => exact (hquery i name).trans (List.suffix_cons ..)
  | refused i name hst hok m hv => exact (hquery i name).trans m.suffix
  | now i name ip hst hok m hv =>
      exact (hquery i name).trans ((List.suffix_cons ..).trans m.suffix)
  | later k r ip hr hst m hv => exact (List.suffix_cons ..).trans m.suffix

theorem AnswersInv.stride (ht : TableOk w) (h : AnswersInv w) (hno : NoOverlap v.trace)
    (m : Stride w v) : AnswersInv v := by
  cases m with
  | move m =>
      exact ⟨fun j => (h.unasked j).move ht m, fun j => (h.waits j).move ht m,
        h.answers.moves (.single m)⟩
  | asked i name hst hok =>
      refine h.asked hst name ?_
      intro r hr hs
      -- an older request for the slot would be in the record of this one
      have hnil := hno i w.nextQ _ (List.mem_cons_self ..)
      have hmem : r ∈ (queryOn w i name).reqs.filter fun r => r.slot = i :=
        List.mem_filter.mpr ⟨hr, by simpa using hs⟩
      rw [List.map_eq_nil_iff.mp hnil] at hmem
      cases hmem
  | refused i name hst hok m hv =>
      refine AnswersInv.after (ht.ask (.query i name hst hok)) ?_ ?_ ?_ m hv
      · exact fun j => (h.unasked j).queryOn i name
      · exact fun j hj => (h.waits j).queryOn hj name
      · rw [queryOn_trace]
        exact h.answers.append (l := [_]) (by simp)
  | now i name ip hst hok m hv =>
      have hq := ht.ask (.query i name hst hok)
      refine AnswersInv.after (hq.ask (.answered i w.nextQ ip)) ?_ ?_ ?_ m hv
      · exact fun j => ((h.unasked j).queryOn i name).answeredOn i _ ip
      · exact fun j hj => ((h.waits j).queryOn hj name).answeredOn i _ ip
      · refine AnswersOk.answered ?_ ?_
        · rw [queryOn_trace]
          exact h.answers.append (l := [_]) (by simp)
        · rw [queries_queryOn (h.unasked i) hst, queryOn_conn_self]
  | later k r ip hr hst m hv =>
      have hu := Move.unasked (w := w) k
      have hunasked := fun j => (h.unasked j).move ht hu
      have hwaits := fun j => (h.waits j).move ht hu
      refine AnswersInv.after ((ht.move hu).ask (.answered r.slot r.q ip)) ?_ ?_ ?_ m hv
      · exact fun j => (hunasked j).answeredOn r.slot r.q ip
      · exact fun j _ => (hwaits j).answeredOn r.slot r.q ip
      · refine AnswersOk.answered h.answers ?_
        obtain ⟨q, hq, hreqs⟩ := h.waits r.slot hst
        rw [hreqs r (List.mem_of_getElem? hr) rfl]
        exact hq

theorem NoOverlap.older {t t' : List Event} (h : NoOverlap t') (hsuf : t <:+ t') : NoOverlap t :=
  fun i q older hmem => h i q older (hsuf.subset hmem)

theorem AnswersInv.strides (ht : TableOk w) (h : AnswersInv w) (m : Strides w v) :
    NoOverlap v.trace → AnswersInv v := by
  induction m with
  | refl => exact fun _ => h
  | tail hm hlast ih =>
      intro hno
      exact (ih (hno.older hlast.suffix)).stride (ht.strides hm) hno hlast

theorem answersInv_start (fd : Int) : AnswersInv (awgProxyStart World.boot fd) where
  unasked := by
    intro j hst
    cases hst
  waits := by
    intro j hst
    cases hst
  answers := by
    intro i q host ip older hsuf
    have := hsuf.subset (List.mem_cons_self ..)
    simp [awgProxyStart, World.boot] at this

end Strides

/-- **Every answer that is used is the answer to the query the same connection made for the
host in its slot**, and so will be the next one, in every run in which no query for a slot
is left to the resolver while an older one for that slot is unanswered. -/
theorem answers_match (fd : Int) (labels : List Label)
    (hno : NoOverlap (proxyRun fd labels).trace) :
    AnswersOk (proxyRun fd labels).trace ∧
    ∀ (k : Nat) (r : Request), (proxyRun fd labels).reqs[k]? = some r →
      ((proxyRun fd labels).conn r.slot).st = .resolving →
      queries r.slot (proxyRun fd labels).trace
        = [(r.q, ((proxyRun fd labels).conn r.slot).host)] := by
  have h := (answersInv_start fd).strides (tableOk_start fd) (proxyRun_strides fd labels) hno
  refine ⟨h.answers, fun k r hr hst => ?_⟩
  obtain ⟨q, hq, hreqs⟩ := h.waits r.slot hst
  rw [hreqs r (List.mem_of_getElem? hr) rfl]
  exact hq

/-- One connection, which waits for its address. -/
def waitingSample : List Label :=
  [pollAccepts 5, pollReads firstSlot (clientHello 97) .inProgress]

theorem answers_match_waiting :
    (proxyRun 3 waitingSample).reqs = [⟨0, 0⟩] ∧
      queries 0 (proxyRun 3 waitingSample).trace
        = [(0, ((proxyRun 3 waitingSample).conn 0).host)] := by
  have hreqs : (proxyRun 3 waitingSample).reqs = [⟨0, 0⟩] := by decide +kernel
  have htrace : (proxyRun 3 waitingSample).trace = [.queued 0 0 [], .query 0 0 [97],
      .recv 0 (clientHello 97), .accept 0, .start] := by decide +kernel
  have hno : NoOverlap (proxyRun 3 waitingSample).trace := by
    rw [htrace]
    intro i q older hmem
    simp only [List.mem_cons, reduceCtorEq, List.not_mem_nil, or_false, Event.queued.injEq] at hmem
    exact hmem.2.2
  have hst : ((proxyRun 3 waitingSample).conn 0).st = .resolving := by decide +kernel
  have h := (answers_match 3 waitingSample hno).2
  generalize proxyRun 3 waitingSample = w at h hreqs hst ⊢
  refine ⟨hreqs, h 0 ⟨0, 0⟩ ?_ hst⟩
  rw [hreqs]
  rfl

/-- The client hangs up, another takes the slot and asks for another host, and then the
answer to the first query comes. -/
def staleAnswerSample : List Label :=
  waitingSample ++ [pollHangsUp firstSlot, pollAccepts 6,
    pollReads firstSlot (clientHello 98) .inProgress, .dnsFound 0 (some 1) ResolveEnv.fine]

/-- The second connection goes on with the answer to the query of the first. -/
theorem staleAnswerSample_mismatch :
    ((proxyRun 3 staleAnswerSample).conn 0).st = .connecting ∧
    ((proxyRun 3 staleAnswerSample).conn 0).host = [98] ∧
    Event.query 0 0 [97] ∈ (proxyRun 3 staleAnswerSample).trace ∧
    (proxyRun 3 staleAnswerSample).trace.head? = some (.answered 0 0 [98] (some 1)) ∧
    queries 0 (proxyRun 3 staleAnswerSample).trace.tail = [(1, [98])] ∧
    ¬ AnswersOk (proxyRun 3 staleAnswerSample).trace := by
  have hhead : (proxyRun 3 staleAnswerSample).trace.head? = some (.answered 0 0 [98] (some 1)) := by
    decide +kernel
  have hquery : queries 0 (proxyRun 3 staleAnswerSample).trace.tail = [(1, [98])] := by
    decide +kernel
  refine ⟨by decide +kernel, by decide +kernel, by decide +kernel, hhead, hquery, fun h => ?_⟩
  have hsuf : .answered 0 0 [98] (some 1) :: (proxyRun 3 staleAnswerSample).trace.tail
      <:+ (proxyRun 3 staleAnswerSample).trace :=
    ⟨[], (List.nil_append _).trans (List.cons_head?_tail hhead)⟩
  have hbad := h 0 0 [98] (some 1) _ hsuf
  rw [hquery] at hbad
  simp at hbad

end SysAwg
