/-
The runs of the loop among the runs of calls.

When the session asks for a keepalive was settled for any run of calls, each with its true
time beside the time the session is told.  The loop makes such calls, but it does not keep
the true times: what lwIP reads is `sys_now()`, the low half of the clock.  Here they are put
back.  A pass is timed if its readings can be completed to times of the full clock that come
one after the other (`PassEnv.Timed`), and then the pass is a run of calls at these times.

One reading is out of order.  `now` is read at the top of a pass and used for the handshake,
after the places where stopping the proxy has let lwIP run.  The run of calls asks for order
only while the session is established, and there the two never meet: a session that sees a
handshake with the old reading is one that `wipe` or `awg_session_init` has just ended, or
lwIP has not run since, or there is no socket and so no handshake.  So the stages that come
before the handshake are followed with two times, the one they end at and, for a session that
is still established, the one the pass began at.

Whatever holds of calls then holds of the loop; in particular, as long as its clock fits in
32 bits, the session asks for a keepalive exactly when it has been idle.
-/
import SysAwg.Proofs.Keepalive

namespace SysAwg

variable (P : Primitives) (cfg : Config)

/-! ### The times of a pass -/

/-- What lwIP reads while it does these things are the low halves of times that go on from
`t` to `t'`. -/
def ActsFrom : UInt64 → List StackAct → UInt64 → Prop
  | t, [], t' => t ≤ t'
  | t, .output _ reading _ :: acts, t' =>
    ∃ clock, t ≤ clock ∧ sysNow clock = reading ∧ ActsFrom clock acts t'
  | t, _ :: acts, t' => ActsFrom t acts t'

/-- What the drain hands over is read at such times too, and what lwIP does with it. -/
def DrainFrom : UInt64 → List Received → UInt64 → Prop
  | t, [], t' => t ≤ t'
  | t, d :: ds, t' => t ≤ d.nowMs ∧ ∃ s, ActsFrom d.nowMs d.acts s ∧ DrainFrom s ds t'

/-- What a pass reads goes on from `t` to `t'`, in the order in which it is read. -/
def PassEnv.Timed (e : PassEnv) (t t' : UInt64) : Prop :=
  t ≤ e.now ∧ ∃ stopped rebuilt fetched polled drained,
    ActsFrom e.now e.powerStop stopped ∧
    ActsFrom stopped (e.rebuildStop ++ e.rebuildReset) rebuilt ∧
    ActsFrom rebuilt (e.fetchReset ++ (e.fetchNewActs ++ (e.fetchConnectActs ++ e.reportReset)))
      fetched ∧
    ActsFrom fetched e.pollActs polled ∧ DrainFrom polled (e.datagrams.take 64) drained ∧
    ActsFrom drained e.timers t'

/-- What a run of the loop reads goes on from `t` to `t'`. -/
def TimedRun : UInt64 → List PassEnv → UInt64 → Prop
  | t, [], t' => t ≤ t'
  | t, e :: es, t' => ∃ s, e.Timed t s ∧ TimedRun s es t'

theorem ActsFrom.le {acts : List StackAct} : ∀ {t t' : UInt64}, ActsFrom t acts t' → t ≤ t' := by
  induction acts with
  | nil => exact fun h => h
  | cons a acts ih =>
      intro t t' h
      cases a with
      | output payload reading e =>
          obtain ⟨clock, hle, -, hrest⟩ := h
          exact UInt64.le_trans hle (ih hrest)
      | httpConnected | httpFin | httpRecv | httpErr => exact ih h

theorem ActsFrom.append {acts acts' : List StackAct} : ∀ {t t' : UInt64},
    ActsFrom t (acts ++ acts') t' → ∃ s, ActsFrom t acts s ∧ ActsFrom s acts' t' := by
  induction acts with
  | nil => exact fun {t _} h => ⟨t, UInt64.le_refl t, h⟩
  | cons a acts ih =>
      intro t t' h
      cases a with
      | output payload reading e =>
          obtain ⟨clock, hle, hreading, hrest⟩ := h
          obtain ⟨s, hfirst, hsecond⟩ := ih hrest
          exact ⟨s, ⟨clock, hle, hreading, hfirst⟩, hsecond⟩
      | httpConnected | httpFin | httpRecv | httpErr => exact ih h

theorem DrainFrom.le {ds : List Received} : ∀ {t t' : UInt64}, DrainFrom t ds t' → t ≤ t' := by
  induction ds with
  | nil => exact fun h => h
  | cons d ds ih =>
      rintro t t' ⟨hle, s, hacts, hrest⟩
      exact UInt64.le_trans hle (UInt64.le_trans hacts.le (ih hrest))

theorem PassEnv.Timed.le {e : PassEnv} {t t' : UInt64} (h : e.Timed t t') : t ≤ t' := by
  obtain ⟨hnow, _, _, _, _, _, hpower, hrebuild, hfetch, hpoll, hdrain, htimers⟩ := h
  have hfetched := UInt64.le_trans hpower.le (UInt64.le_trans hrebuild.le hfetch.le)
  have hdrained := UInt64.le_trans hpoll.le (UInt64.le_trans hdrain.le htimers.le)
  exact UInt64.le_trans hnow (UInt64.le_trans hfetched hdrained)

theorem TimedRun.le {es : List PassEnv} : ∀ {t t' : UInt64}, TimedRun t es t' → t ≤ t' := by
  induction es with
  | nil => exact fun h => h
  | cons e es ih =>
      rintro t t' ⟨s, hpass, hrest⟩
      exact UInt64.le_trans hpass.le (ih hrest)

/-! ### Where a run of calls has come to

A run of calls that has come to a state may be extended by any call the loop makes, as long
as the call is in order, which it need not be unless the session is established.  All of a
pass is such extensions.
-/

/-- A call the loop makes: `main` builds no data, all of that is lwIP's. -/
def Call.OfLoop : Call → Prop
  | .main (.buildData _ _ _ _ _) => False
  | _ => True

/-- Calls of the loop, in order and none later than `top`, lead from `w` to `m`; the last was
made at `t` or before. -/
def LoopAt (w : Watched) (top : UInt64) (m : Main) (t : UInt64) : Prop :=
  ∃ calls : List Call,
    (∀ c ∈ calls, c.OfLoop ∧ c.IntPeriod ∧ ∀ s, c.clock = some s → s ≤ top) ∧
    AlongCalls P cfg ReadsForward w calls ∧
    (calls.foldl (Watched.step P cfg) w).main = m ∧
    (calls.foldl (Watched.step P cfg) w).latest ≤ t

theorem alongCalls_snoc {property : Watched → Call → Prop} {c : Call} (calls : List Call) :
    ∀ {w : Watched}, AlongCalls P cfg property w calls →
      property (calls.foldl (Watched.step P cfg) w) c →
      AlongCalls P cfg property w (calls ++ [c]) := by
  induction calls with
  | nil => exact fun _ hlast => ⟨hlast, trivial⟩
  | cons d calls ih => exact fun h hlast => ⟨h.1, ih h.2 hlast⟩

section LoopAt

variable {P} {cfg} {w : Watched} {top : UInt64} {m m' : Main} {t t' : UInt64}

theorem LoopAt.mono (h : LoopAt P cfg w top m t) (hle : t ≤ t') : LoopAt P cfg w top m t' := by
  obtain ⟨calls, hall, halong, hmain, hlatest⟩ := h
  exact ⟨calls, hall, halong, hmain, UInt64.le_trans hlatest hle⟩

/-- A run is extended by a call, which may go back behind the last one if no session is
established. -/
theorem LoopAt.call (h : LoopAt P cfg w top m t) {c : Call} (hloop : c.OfLoop) (hint : c.IntPeriod)
    (hclock : ∀ s, c.clock = some s → s ≤ top ∧ (m.run.sess.established = true → t ≤ s)) :
    LoopAt P cfg w top (m.call P cfg c) (c.clock.getD t) := by
  obtain ⟨calls, hall, halong, rfl, hlatest⟩ := h
  have hforward : ReadsForward (calls.foldl (Watched.step P cfg) w) c := by
    intro hest s hs
    exact UInt64.le_trans hlatest ((hclock s hs).2 hest)
  refine ⟨calls ++ [c], ?_, alongCalls_snoc P cfg calls halong hforward, ?_, ?_⟩
  · intro d hd
    rcases List.mem_append.mp hd with hd | hd
    · exact hall d hd
    · obtain rfl := List.mem_singleton.mp hd
      exact ⟨hloop, hint, fun s hs => (hclock s hs).1⟩
  · rw [List.foldl_append]
    rfl
  · rw [List.foldl_append]
    show c.clock.getD _ ≤ c.clock.getD t
    cases c.clock with
    | none => exact hlatest
    | some s => exact UInt64.le_refl s

/-- The session is not touched. -/
theorem LoopAt.rest (h : LoopAt P cfg w top m t) (hrun : m'.run = m.run) :
    LoopAt P cfg w top m' t := by
  have hcall : m.call P cfg (.rest m') = m' := by
    show { m' with run := m.run } = m'
    rw [← hrun]
  have hnext := h.call (c := .rest m') trivial trivial fun _ hs => by cases hs
  rwa [hcall] at hnext

/-! ### lwIP -/

theorem stackAct_run {a : StackAct} (h : ∀ payload now e, a ≠ .output payload now e) :
    (stackAct P cfg m a).run = m.run := by
  cases a with
  | output payload now e => exact absurd rfl (h payload now e)
  | httpConnected err written =>
      rw [stackAct]
      split
      · rfl
      · split <;> rfl
  | httpFin =>
      rw [stackAct]
      split <;> rfl
  | httpRecv err totLen =>
      rw [stackAct]
      split
      · rfl
      · split <;> rfl
  | httpErr =>
      rw [stackAct]
      split <;> rfl

theorem LoopAt.foldl (acts : List StackAct) : ∀ {m : Main} {t : UInt64},
    LoopAt P cfg w top m t → ActsFrom t acts t' → t' ≤ top →
      LoopAt P cfg w top (acts.foldl (stackAct P cfg) m) t' := by
  induction acts with
  | nil => exact fun h hacts _ => h.mono hacts
  | cons a acts ih =>
      intro m t h hacts htop
      cases a with
      | output payload reading e =>
          obtain ⟨clock, hle, rfl, hrest⟩ := hacts
          have hcall := h.call (c := .output clock payload e) trivial trivial fun s hs => by
            obtain rfl := Option.some.inj hs
            exact ⟨UInt64.le_trans hrest.le htop, fun _ => hle⟩
          exact ih hcall hrest htop
      | httpConnected err written => exact ih (h.rest (stackAct_run (by simp))) hacts htop
      | httpFin => exact ih (h.rest (stackAct_run (by simp))) hacts htop
      | httpRecv err totLen => exact ih (h.rest (stackAct_run (by simp))) hacts htop
      | httpErr => exact ih (h.rest (stackAct_run (by simp))) hacts htop

theorem LoopAt.lwipRuns (h : LoopAt P cfg w top m t) {acts : List StackAct}
    (hacts : ActsFrom t acts t') (htop : t' ≤ top) :
    LoopAt P cfg w top (lwipRuns P cfg acts m) t' := by
  unfold SysAwg.lwipRuns
  split
  · exact LoopAt.foldl acts (h.rest rfl) hacts htop
  · exact h.mono hacts.le

theorem LoopAt.httpReset (h : LoopAt P cfg w top m t) {acts : List StackAct}
    (hacts : ActsFrom t acts t') (htop : t' ≤ top) :
    LoopAt P cfg w top (httpReset P cfg acts m) t' := by
  have hoff : LoopAt P cfg w top { m with httpPcb := false } t := h.rest rfl
  unfold SysAwg.httpReset
  split
  · exact hoff.lwipRuns hacts htop
  · exact h.mono hacts.le

/-- lwIP does not establish a session. -/
theorem downKept : LwipKeeps P cfg fun m m' =>
    m.run.sess.established = false → m'.run.sess.established = false where
  refl := fun _ h => h
  trans := fun h h' hdown => h' (h hdown)
  entered := fun _ _ h => h
  output := by
    intro m payload now e hdown
    unfold tunnelOutput
    rw [if_pos (Or.inr hdown)]
    exact hdown
  fetch := fun _ _ _ _ _ h => h

/-! ### The stages of a pass

`t` is always a time that no call so far has passed, and grows from stage to stage.  Up to
the handshake a second fact goes along with it, for a session that is established: that
nothing has been called since the top of the pass.
-/

variable {e : PassEnv}

/-- Stopping the proxy for a sleep lets lwIP run, and the session is wiped after it. -/
theorem powerStage_at (h : LoopAt P cfg w top m e.now) (hacts : ActsFrom e.now e.powerStop t)
    (htop : t ≤ top) :
    LoopAt P cfg w top (powerStage P cfg e m) t ∧
      ((powerStage P cfg e m).run.sess.established = true →
        LoopAt P cfg w top (powerStage P cfg e m) e.now) := by
  have hsame : ∀ m', m'.run = m.run → LoopAt P cfg w top m' t ∧
      (m'.run.sess.established = true → LoopAt P cfg w top m' e.now) := by
    intro m' hrun
    exact ⟨(h.rest hrun).mono hacts.le, fun _ => h.rest hrun⟩
  unfold powerStage powerTransition
  split
  · split
    · split
      · have hset : LoopAt P cfg w top
            { m with nextPower := e.now + 1000, unreachableSince := 0 } e.now := h.rest rfl
        have hwiped := (hset.lwipRuns hacts htop).call (c := .main .wipe) trivial trivial
          fun _ hs => by cases hs
        exact ⟨hwiped.rest rfl, fun hest => by cases hest⟩
      · exact hsame _ rfl
    · exact hsame _ rfl
  · exact hsame m rfl

theorem rebuilt_at (hcfg : cfg.persistentKeepalive.IsInt) (h : LoopAt P cfg w top m t)
    (hacts : ActsFrom t e.rebuildReset t') (htop : t' ≤ top) (fd : Nat) :
    LoopAt P cfg w top (rebuilt P cfg e fd m) t' ∧
      (rebuilt P cfg e fd m).run.sess.established = false := by
  have hinit := h.call (c := .main (.init cfg e.draws)) trivial hcfg fun _ hs => by cases hs
  have hsocket : LoopAt P cfg w top
      { m with fd := fd, gFd := fd, run := m.run.step P (.init cfg e.draws) } t := hinit.rest rfl
  exact ⟨(hsocket.httpReset hacts htop).rest rfl, downKept.httpReset e.rebuildReset _ rfl⟩

/-- Rebuilding: without a socket there is no descriptor, and with one the session is new. -/
theorem rebuildStage_at (hcfg : cfg.persistentKeepalive.IsInt) (h : LoopAt P cfg w top m t)
    (hold : m.run.sess.established = true → LoopAt P cfg w top m e.now)
    (hacts : ActsFrom t (e.rebuildStop ++ e.rebuildReset) t') (htop : t' ≤ top) :
    LoopAt P cfg w top (rebuildStage P cfg e m) t' ∧
      ((rebuildStage P cfg e m).run.sess.established = true → 0 ≤ (rebuildStage P cfg e m).fd →
        LoopAt P cfg w top (rebuildStage P cfg e m) e.now) := by
  obtain ⟨s, hstop, hreset⟩ := hacts.append
  unfold rebuildStage
  split
  · have hset : LoopAt P cfg w top { m with nextRebuild := e.now + 3000 } t := h.rest rfl
    have hstopped := hset.lwipRuns hstop (UInt64.le_trans hreset.le htop)
    dsimp only
    generalize SysAwg.lwipRuns P cfg e.rebuildStop { m with nextRebuild := e.now + 3000 } = u
      at hstopped
    split
    · have hclosed : LoopAt P cfg w top { u with fd := -1 } s := hstopped.rest rfl
      refine ⟨hclosed.mono hreset.le, fun _ hfd => ?_⟩
      have hnone : ¬ (0 : Int) ≤ -1 := by decide
      exact absurd hfd hnone
    · rename_i fd _
      obtain ⟨hat, hdown⟩ := rebuilt_at hcfg hstopped hreset htop fd
      refine ⟨hat, fun hest => ?_⟩
      rw [hdown] at hest
      cases hest
  · exact ⟨h.mono hacts.le, fun hest _ => hold hest⟩

theorem afterSend_run (e : PassEnv) (m : Main) : (afterSend e m).run = m.run := by
  obtain ⟨lost, since, heq⟩ := afterSend_eq e m
  rw [heq]

/-- A call at the reading from the top of the pass, which may lie before the last ones. -/
theorem LoopAt.callNow {now : UInt64} (h : LoopAt P cfg w top m t)
    (hold : m.run.sess.established = true → LoopAt P cfg w top m now) (hle : now ≤ t)
    (htop : t ≤ top) (op : Op) (hnow : op.nowMs = some now) (hloop : (Call.main op).OfLoop)
    (hint : (Call.main op).IntPeriod) : LoopAt P cfg w top (m.call P cfg (.main op)) t := by
  have hin : ∀ s, (Call.main op).clock = some s → s = now := by
    intro s hs
    exact Option.some.inj (hs.symm.trans hnow)
  have hend : ∀ s, (Call.main op).clock.getD s = now := by
    intro s
    show op.nowMs.getD s = now
    rw [hnow]
    rfl
  have hmade : LoopAt P cfg w top (m.call P cfg (.main op)) now := by
    by_cases hest : m.run.sess.established = true
    · have hafter := (hold hest).call hloop hint fun s hs => by
        rw [hin s hs]
        exact ⟨UInt64.le_trans hle htop, fun _ => UInt64.le_refl _⟩
      rwa [hend] at hafter
    · have hafter := h.call hloop hint fun s hs => by
        rw [hin s hs]
        exact ⟨UInt64.le_trans hle htop, fun hup => absurd hup hest⟩
      rwa [hend] at hafter
  exact hmade.mono hle

/-- The handshake and the keepalive. -/
theorem handshakeStage_at (h : LoopAt P cfg w top m t)
    (hold : m.run.sess.established = true → 0 ≤ m.fd → LoopAt P cfg w top m e.now)
    (hle : e.now ≤ t) (htop : t ≤ top) : LoopAt P cfg w top (handshakeStage P cfg e m) t := by
  unfold handshakeStage
  split
  · exact h
  · rename_i hfd
    have hopen := fun hest => hold hest (Int.not_lt.mp hfd)
    split
    · have hbuilt := h.callNow hopen hle htop
        (.buildInitiation cfg 4096 e.now e.idx e.eph e.nanos e.pad e.nowSeconds)
        rfl trivial trivial
      dsimp only
      split
      · exact hbuilt
      · exact hbuilt.rest (afterSend_run e _)
    · split
      · exact h.callNow hopen hle htop (.buildKeepalive cfg 4096 e.now e.pad) rfl trivial trivial
      · exact h

theorem netifStage_at (h : LoopAt P cfg w top m t) : LoopAt P cfg w top (netifStage e m) t := by
  rcases netifStage_cases e m with heq | ⟨-, -, -, -, hrun, -⟩
  · rwa [heq]
  · exact h.rest hrun

theorem httpStart_at (h : LoopAt P cfg w top m t)
    (hacts : ActsFrom t (e.fetchReset ++ (e.fetchNewActs ++ e.fetchConnectActs)) t')
    (htop : t' ≤ top) : LoopAt P cfg w top (httpStart P cfg e m) t' := by
  obtain ⟨s, hreset, hrest⟩ := hacts.append
  obtain ⟨s', hnew, hconnect⟩ := hrest.append
  have hbefore := UInt64.le_trans hconnect.le htop
  have hclosed : LoopAt P cfg w top
      { SysAwg.httpReset P cfg e.fetchReset m with httpBytes := 0 } s :=
    (h.httpReset hreset (UInt64.le_trans hnew.le hbefore)).rest rfl
  have hopened := hclosed.lwipRuns hnew hbefore
  unfold httpStart
  dsimp only at hopened ⊢
  generalize SysAwg.lwipRuns P cfg e.fetchNewActs _ = u at hopened ⊢
  split
  · have hfailed : LoopAt P cfg w top { u with http := .failed } s' :=
      hopened.rest rfl
    exact hfailed.mono hconnect.le
  · have hmade : LoopAt P cfg w top { u with httpPcb := true, http := .connecting } s' :=
      hopened.rest rfl
    have hconnecting := hmade.lwipRuns hconnect htop
    split
    · exact hconnecting
    · exact hconnecting.rest rfl

theorem fetchStage_at (h : LoopAt P cfg w top m t)
    (hacts : ActsFrom t (e.fetchReset ++ (e.fetchNewActs ++ (e.fetchConnectActs ++ e.reportReset)))
      t') (htop : t' ≤ top) : LoopAt P cfg w top (fetchStage P cfg e m) t' := by
  rw [← List.append_assoc e.fetchNewActs, ← List.append_assoc e.fetchReset] at hacts
  obtain ⟨s, hstart, hreport⟩ := hacts.append
  -- the report comes after the start or after nothing
  have hreported : ∀ u, LoopAt P cfg w top u s →
      LoopAt P cfg w top (if u.http = .done ∨ u.http = .failed then
        { SysAwg.httpReset P cfg e.reportReset u with http := .idle } else u) t' := by
    intro u hu
    split
    · exact (hu.httpReset hreport htop).rest rfl
    · exact hu.mono hreport.le
  refine hreported _ ?_
  split
  · exact (httpStart_at h hstart (UInt64.le_trans hreport.le htop)).rest rfl
  · exact h.mono hstart.le

theorem drainOne_at (h : LoopAt P cfg w top m t) {d : Received} (hle : t ≤ d.nowMs)
    (hacts : ActsFrom d.nowMs d.acts t') (htop : t' ≤ top) :
    LoopAt P cfg w top (drainOne P cfg m d) t' := by
  have hcall := h.call (c := .main (.onDatagram cfg d.pkt 2048 d.nowMs)) trivial trivial
    fun s hs => by
      obtain rfl : d.nowMs = s := Option.some.inj hs
      exact ⟨UInt64.le_trans hacts.le htop, fun _ => hle⟩
  unfold drainOne
  split
  · dsimp only
    split
    · exact LoopAt.lwipRuns hcall hacts htop
    · exact LoopAt.mono hcall hacts.le
  · exact h.mono (UInt64.le_trans hle hacts.le)

theorem drain_at (ds : List Received) : ∀ {m : Main} {t : UInt64}, LoopAt P cfg w top m t →
    DrainFrom t ds t' → t' ≤ top → LoopAt P cfg w top (ds.foldl (drainOne P cfg) m) t' := by
  induction ds with
  | nil => exact fun h hds _ => h.mono hds
  | cons d ds ih =>
      rintro m t h ⟨hle, s, hacts, hrest⟩ htop
      exact ih (drainOne_at h hle hacts (UInt64.le_trans hrest.le htop)) hrest htop

theorem pollStage_at (h : LoopAt P cfg w top m t) {s : UInt64} (hacts : ActsFrom t e.pollActs s)
    (hdrain : DrainFrom s (e.datagrams.take 64) t') (htop : t' ≤ top) :
    LoopAt P cfg w top (pollStage P cfg e m) t' := by
  have hproxy : LoopAt P cfg w top
      (if m.netifUp then SysAwg.lwipRuns P cfg e.pollActs m else m) s := by
    split
    · exact h.lwipRuns hacts (UInt64.le_trans hdrain.le htop)
    · exact h.mono hacts.le
  have hdied : ∀ m', LoopAt P cfg w top m' s →
      LoopAt P cfg w top (if e.pollErr then { m' with tunnelLost := true } else m') s := by
    intro m' hm
    split
    · exact hm.rest rfl
    · exact hm
  unfold pollStage
  split
  · exact h.mono (UInt64.le_trans hacts.le hdrain.le)
  · dsimp only
    split
    · exact drain_at _ (hdied _ hproxy) hdrain htop
    · exact (hdied _ hproxy).mono hdrain.le

/-- **A timed pass is a run of calls.** -/
theorem mainPass_at (hcfg : cfg.persistentKeepalive.IsInt) (h : LoopAt P cfg w top m t)
    (htimed : e.Timed t t') (htop : t' ≤ top) : LoopAt P cfg w top (mainPass P cfg m e) t' := by
  obtain ⟨hnow, stopped, rebuilt, fetched, polled, drained, hpower, hrebuild, hfetch, hpoll, hdrain,
    htimers⟩ := htimed
  have hdrained := UInt64.le_trans htimers.le htop
  have hfetched := UInt64.le_trans (UInt64.le_trans hpoll.le hdrain.le) hdrained
  have hrebuilt := UInt64.le_trans hfetch.le hfetched
  obtain ⟨hasleep, hold⟩ := powerStage_at (h.mono hnow) hpower (UInt64.le_trans hrebuild.le hrebuilt)
  obtain ⟨hagain, hold⟩ := rebuildStage_at hcfg hasleep hold hrebuild hrebuilt
  have hshaken := handshakeStage_at hagain hold (UInt64.le_trans hpower.le hrebuild.le) hrebuilt
  have hfetching := fetchStage_at (netifStage_at (e := e) hshaken) hfetch hfetched
  exact (pollStage_at hfetching hpoll hdrain hdrained).lwipRuns htimers htop

end LoopAt

/-! ### Runs -/

/-- **Whatever the loop does is a run of such calls**, at the true times. -/
theorem mainRun_at {cfg : Config} (hcfg : cfg.persistentKeepalive.IsInt) (fd : Nat)
    (draws : Fin 5 → Entropy) {es : List PassEnv} {t : UInt64} (htimed : TimedRun 0 es t) :
    LoopAt P cfg (Watched.start cfg fd draws) t (mainRun P cfg fd draws es) t := by
  have hpasses : ∀ (es : List PassEnv) {m : Main} {s : UInt64},
      LoopAt P cfg (Watched.start cfg fd draws) t m s → TimedRun s es t →
      LoopAt P cfg (Watched.start cfg fd draws) t (es.foldl (mainPass P cfg) m) t := by
    intro es
    induction es with
    | nil => exact fun h hle => h.mono hle
    | cons e es ih =>
        rintro m s h ⟨s', hpass, hrest⟩
        exact ih (mainPass_at hcfg h hpass hrest.le) hrest
  exact hpasses es ⟨[], by simp, trivial, rfl, UInt64.le_refl _⟩ htimed

theorem alongCalls_of_forall {property : Watched → Call → Prop} {calls : List Call} :
    ∀ {w : Watched}, (∀ c ∈ calls, ∀ w, property w c) → AlongCalls P cfg property w calls := by
  induction calls with
  | nil => exact fun _ => trivial
  | cons c calls ih =>
      intro w h
      exact ⟨h c (List.mem_cons_self ..) w, ih fun d hd => h d (List.mem_cons_of_mem _ hd)⟩

/--
**The loop asks for keepalives when the session is idle.**  For a run of the loop that its
clock leaves below 2^32 milliseconds, after every call that `main` or lwIP made in it.
-/
theorem keepalive_in_loop {cfg : Config} (hcfg : cfg.persistentKeepalive.IsInt) (fd : Nat)
    (draws : Fin 5 → Entropy) {es : List PassEnv} {t : UInt64} (htimed : TimedRun 0 es t)
    (hwhole : t.toNat < 4294967296) :
    ∃ calls : List Call, (∀ c ∈ calls, c.OfLoop) ∧
      (calls.foldl (Watched.step P cfg) (Watched.start cfg fd draws)).main
        = mainRun P cfg fd draws es ∧
      Everywhere P cfg KeepaliveWhenIdle (Watched.start cfg fd draws) calls := by
  obtain ⟨calls, hall, halong, hmain, -⟩ := mainRun_at P hcfg fd draws htimed
  refine ⟨calls, fun c hc => (hall c hc).1, hmain, ?_⟩
  have hbelow : AlongCalls P cfg (StampsWhole cfg) (Watched.start cfg fd draws) calls := by
    refine alongCalls_of_forall P cfg fun c hc w => ?_
    cases c with
    | main op => trivial
    | rest m => trivial
    | output clock payload e =>
        have hle : clock.toNat ≤ t.toNat :=
          UInt64.le_iff_toNat_le.mp ((hall _ hc).2.2 clock rfl)
        exact fun _ _ => Nat.lt_of_le_of_lt hle hwhole
  exact (Tracked.start hcfg fd draws).everywhere P cfg (fun c hc => (hall c hc).2.1) halong hbelow

/-- lwIP sends a packet in the timers of a pass, a millisecond after it began. -/
example : TimedRun 0 [passDies, { passWakes with timers := [.output [1] 1101 fun _ => 0] }]
    1101 := by
  have hstill : ∀ t : UInt64, t ≤ t := UInt64.le_refl
  refine ⟨0, ?_, 1101, ?_, hstill _⟩
  · exact ⟨hstill _, 0, 0, 0, 0, 0, hstill _, hstill _, hstill _, hstill _, hstill _, hstill _⟩
  · exact ⟨by decide, 1100, 1100, 1100, 1100, 1100, hstill _, hstill _, hstill _, hstill _,
      hstill _, 1101, by decide, by decide, hstill _⟩

end SysAwg
