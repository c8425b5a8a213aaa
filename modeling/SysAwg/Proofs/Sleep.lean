/-
No session survives a sleep, or does it.

A noticed sleep wipes the session if the tunnel runs, and otherwise leaves it to the
rebuild.  `Young` says that none of the first keypairs is held any more.  Wiping and
starting over make a session young, and no call brings a key back, so everything comes down
to the pass that notices: if the tunnel was already given up while a session is held, the
rebuild must come in that very pass, and it comes only if it is due and gets a socket.
-/
import SysAwg.Proofs.MainLoop
import SysAwg.Proofs.Keypairs
import SysAwg.Lib.History

namespace SysAwg

variable (P : Primitives)

/-! ### Old keys

Keypairs are numbered in the order of their installation, so "from before the pass" means a
number below the count at the beginning of the pass.  A session is young if what it holds
has been installed since.
-/

/-- The packet was sealed or accepted under one of the first `n` keypairs. -/
def KeyEvent.UsesOld (n : Nat) : KeyEvent → Prop
  | .installed _ => False
  | .sealedWith id _ _ => id < n
  | .accepted id _ _ => id < n

/-- None of the first `n` keypairs is held any more. -/
structure Young (n : Nat) (r : Run) : Prop where
  installed : n ≤ (installedIn r.log).length
  cur : r.sess.established = true → n ≤ r.curId
  prev : r.sess.havePrev = true → n ≤ r.prevId

/-- The log grew, by entries that use none of the first `n` keypairs. -/
def GrewYoung (n : Nat) (log log' : List KeyEvent) : Prop :=
  ∃ new, log' = log ++ new ∧ ∀ ev ∈ new, ¬ ev.UsesOld n

theorem GrewYoung.refl (n : Nat) (log : List KeyEvent) : GrewYoung n log log :=
  ⟨[], by simp, by simp⟩

theorem GrewYoung.one {n : Nat} {log : List KeyEvent} {ev : KeyEvent} (h : ¬ ev.UsesOld n) :
    GrewYoung n log (log ++ [ev]) :=
  ⟨[ev], rfl, by simpa using h⟩

theorem GrewYoung.trans {n : Nat} {log log' log'' : List KeyEvent} (h : GrewYoung n log log')
    (h' : GrewYoung n log' log'') : GrewYoung n log log'' := by
  obtain ⟨new, rfl, hall⟩ := h
  obtain ⟨new', rfl, hall'⟩ := h'
  refine ⟨new ++ new', by rw [List.append_assoc], ?_⟩
  intro ev hev
  rcases List.mem_append.mp hev with hev | hev
  · exact hall ev hev
  · exact hall' ev hev

theorem Young.forgotten {n : Nat} {r : Run} (hn : n ≤ (installedIn r.log).length)
    (hcur : r.sess.established = false) (hprev : r.sess.havePrev = false) : Young n r where
  installed := hn
  cur := by simp [hcur]
  prev := by simp [hprev]

theorem Young.keep {n : Nat} {r : Run} (h : Young n r) {s : Session} {g : ReplayDrop}
    {log : List KeyEvent} (hest : s.established = r.sess.established)
    (hprev : s.havePrev = true → r.sess.havePrev = true)
    (hlog : installedIn log = installedIn r.log) :
    Young n { r with sess := s, drop := g, log := log } where
  installed := by
    show n ≤ (installedIn log).length
    rw [hlog]
    exact h.installed
  cur := by
    intro hcur
    exact h.cur (hest ▸ hcur)
  prev := by
    intro hhave
    exact h.prev (hprev hhave)

theorem Young.logSeal {n : Nat} {r : Run} (h : Young n r) {out : Session × Option (Int × Bytes)}
    (hstep : TxStep r.sess out) :
    Young n (r.logSeal out) ∧ GrewYoung n r.log (r.logSeal out).log := by
  cases hstep with
  | failed => exact ⟨h, .refl n r.log⟩
  | sent s' out hest hkeys hcounter =>
      refine ⟨h.keep hkeys.established (fun hp => hkeys.havePrev ▸ hp) (by simp), .one ?_⟩
      show ¬ r.curId < n
      have := h.cur hest
      omega

theorem Young.logRx {n : Nat} {r : Run} (h : Young n r) {o : RxOutcome}
    (hstep : RxStep r.sess o.sess o.result o.opened) :
    Young n (r.logRx o) ∧ GrewYoung n r.log (r.logRx o).log := by
  obtain ⟨result, sess, drop, pkt, payload, opened⟩ := o
  dsimp only at hstep
  cases hstep with
  | quiet opened hcur hprev _ _ =>
      exact ⟨h.keep hcur.established (fun hp => (hprev hp).1) rfl, .refl n r.log⟩
  | install pending nowMs hsess =>
      subst hsess
      have hlen := h.installed
      refine ⟨⟨?_, ?_, ?_⟩, .one id⟩
      · show n ≤ (installedIn (r.log ++ [.installed _])).length
        rw [installedIn_installed, List.length_append]
        omega
      · intro _
        exact hlen
      · intro hhave
        show n ≤ if r.sess.established = true then r.curId else r.prevId
        by_cases hest : r.sess.established = true
        · rw [if_pos hest]
          exact h.cur hest
        · rw [if_neg hest]
          have hsame := promote_first (s := { r.sess with pending := pending })
            (by simpa using hest) nowMs
          exact h.prev (hsame ▸ hhave)
  | acceptCur result ctr hres hest hcur hprev _ _ =>
      have hyoung := h.cur hest
      have hnew : ¬ (KeyEvent.accepted r.curId r.sess.cur ctr).UsesOld n := by
        show ¬ r.curId < n
        omega
      rcases hres with rfl | rfl
      · exact ⟨h.keep hcur.established (fun hp => (hprev hp).1) (by simp), .one hnew⟩
      · exact ⟨h.keep hcur.established (fun hp => (hprev hp).1) (by simp), .one hnew⟩
  | acceptPrev result ctr hres hhave hcur hprev _ _ =>
      have hyoung := h.prev hhave
      have hnew : ¬ (KeyEvent.accepted r.prevId r.sess.prev ctr).UsesOld n := by
        show ¬ r.prevId < n
        omega
      rcases hres with rfl | rfl
      · exact ⟨h.keep hcur.established (fun hp => (hprev hp).1) (by simp), .one hnew⟩
      · exact ⟨h.keep hcur.established (fun hp => (hprev hp).1) (by simp), .one hnew⟩

/-- **No call brings an old key back**, and none uses one. -/
theorem Young.step {n : Nat} {r : Run} (h : Young n r) (op : Op) :
    Young n (r.step P op) ∧ GrewYoung n r.log (r.step P op).log := by
  cases op with
  | init cfg draws => exact ⟨.forgotten h.installed rfl rfl, .refl n r.log⟩
  | buildInitiation cfg outCap nowMs idx eph nanos pad nowSeconds =>
      obtain ⟨hkeys, -⟩ :=
        buildInitiation_step P cfg r.sess outCap nowMs idx eph nanos pad nowSeconds
      exact ⟨h.keep hkeys.established (fun hp => hkeys.havePrev ▸ hp) rfl, .refl n r.log⟩
  | buildData cfg payload outCap nowMs e => exact h.logSeal (buildData_step P _ _ _ _ _ _)
  | buildKeepalive cfg outCap nowMs e => exact h.logSeal (buildKeepalive_step P _ _ _ _ _)
  | onDatagram cfg pkt payloadCap nowMs => exact h.logRx (onDatagram_step P _ _ _ _ _ _)
  | wipe => exact ⟨.forgotten h.installed rfl rfl, .refl n r.log⟩

theorem Young.advances {n : Nat} {r r' : Run} (h : Young n r) (ha : Advances P r r') :
    Young n r' ∧ GrewYoung n r.log r'.log := by
  obtain ⟨ops, rfl⟩ := ha
  induction ops generalizing r with
  | nil => exact ⟨h, .refl n r.log⟩
  | cons op ops ih =>
      obtain ⟨hone, hgrew⟩ := h.step P op
      obtain ⟨hall, hgrew'⟩ := ih hone
      exact ⟨hall, hgrew.trans hgrew'⟩

theorem Advances.installed {r r' : Run} (h : Advances P r r') :
    (installedIn r.log).length ≤ (installedIn r'.log).length := by
  have hzero : Young 0 r := ⟨Nat.zero_le _, fun _ => Nat.zero_le _, fun _ => Nat.zero_le _⟩
  obtain ⟨-, new, hlog, -⟩ := hzero.advances P h
  have hsplit : installedIn r'.log = installedIn r.log ++ installedIn new := by
    rw [hlog]
    exact List.filterMap_append
  rw [hsplit, List.length_append]
  exact Nat.le_add_right _ _

/-- A keypair is retired only by another that took its place. -/
def PrevHasCur (s : Session) : Prop := s.havePrev = true → s.established = true

theorem RxStep.prevHasCur {s s' : Session} {result : RxResult} {opened : Option (Bool × UInt64)}
    (hstep : RxStep s s' result opened) (h : PrevHasCur s) : PrevHasCur s' := by
  have hkept : CurKept s s' → PrevKept s s' → PrevHasCur s' := by
    intro hcur hprev hhave
    rw [hcur.established]
    exact h (hprev hhave).1
  cases hstep with
  | quiet opened hcur hprev _ _ => exact hkept hcur hprev
  | install pending nowMs hsess =>
      intro _
      rw [hsess]
      rfl
  | acceptCur result ctr _ _ hcur hprev _ _ => exact hkept hcur hprev
  | acceptPrev result ctr _ _ hcur hprev _ _ => exact hkept hcur hprev

theorem Run.step_prevHasCur {r : Run} (h : PrevHasCur r.sess) (op : Op) :
    PrevHasCur (r.step P op).sess := by
  have hseal : ∀ {out}, TxStep r.sess out → PrevHasCur (r.logSeal out).sess := by
    intro out hstep
    cases hstep with
    | failed => exact h
    | sent s' out hest hkeys hcounter =>
        intro hhave
        exact hkeys.established.trans hest
  cases op with
  | init cfg draws => exact nofun
  | buildInitiation cfg outCap nowMs idx eph nanos pad nowSeconds =>
      obtain ⟨hkeys, -⟩ :=
        buildInitiation_step P cfg r.sess outCap nowMs idx eph nanos pad nowSeconds
      intro hhave
      exact hkeys.established.trans (h (hkeys.havePrev ▸ hhave))
  | buildData cfg payload outCap nowMs e => exact hseal (buildData_step P _ _ _ _ _ _)
  | buildKeepalive cfg outCap nowMs e => exact hseal (buildKeepalive_step P _ _ _ _ _)
  | onDatagram cfg pkt payloadCap nowMs =>
      have hstep := onDatagram_step P cfg r.drop r.sess pkt payloadCap nowMs
      have hsess : (r.step P (.onDatagram cfg pkt payloadCap nowMs)).sess
          = (awgSessionOnDatagram P cfg r.drop r.sess pkt payloadCap nowMs).sess := logRx_sess _ _
      rw [hsess]
      exact hstep.prevHasCur h
  | wipe => exact nofun

theorem Advances.prevHasCur {r r' : Run} (h : Advances P r r') (hr : PrevHasCur r.sess) :
    PrevHasCur r'.sess := by
  obtain ⟨ops, rfl⟩ := h
  induction ops generalizing r with
  | nil => exact hr
  | cons op ops ih => exact ih (Run.step_prevHasCur P hr op)

/-! ### After a noticed sleep

The three stages that could hold on to old keys are gone through with the outcomes of the
sleep: torn down at once, left to a rebuild that comes in the same pass, or nothing held
to begin with.
-/

/-- If the sleep is noticed while a session is held over a tunnel already given up, the
rebuild is due and gets its socket. -/
def RebuiltAtOnce (m : Main) (e : PassEnv) : Prop :=
  Noticed m e → m.run.sess.established = true → m.tunnelLost = true →
    e.now ≥ m.nextRebuild ∧ e.socket.isSome = true

/-- A pass that notices a sleep ends with none of the keypairs it found. -/
theorem mainPass_young (cfg : Config) {m : Main} {e : PassEnv} (hprev : PrevHasCur m.run.sess)
    (hnoticed : Noticed m e) (hrebuilt : RebuiltAtOnce m e) :
    Young (installedIn m.run.log).length (mainPass P cfg m e).run := by
  have hrebuild := rebuildStage_advances P cfg e (powerStage P cfg e m)
  have hrest := afterRebuild_advances P cfg m e
  rcases powerStage_cases P cfg e m with ⟨-, u, hu, heq⟩ | ⟨hlost, -, hlostKept, hnext, hrun⟩
  · -- torn down: the session was wiped
    have hwiped : Young (installedIn m.run.log).length (powerStage P cfg e m).run := by
      rw [heq]
      exact .forgotten hu.run.installed rfl rfl
    exact (hwiped.advances P (hrebuild.trans P hrest)).1
  · by_cases hest : m.run.sess.established = true
    · -- left to the rebuild, which starts a new session
      obtain ⟨hdue, hsocket⟩ := hrebuilt hnoticed hest (hlost hnoticed hest)
      rcases rebuildStage_cases P cfg e (powerStage P cfg e m) with
        ⟨hnot, -⟩ | ⟨-, u, hu, ⟨hnone, -⟩ | ⟨fd, -, hnew⟩⟩
      · exact absurd ⟨hlostKept.trans (hlost hnoticed hest), hnext ▸ hdue⟩ hnot
      · rw [hnone] at hsocket
        cases hsocket
      · have hstarted : Young (installedIn m.run.log).length (u.run.step P (.init cfg e.draws)) := by
          refine .forgotten ?_ rfl rfl
          exact hrun ▸ hu.run.installed
        exact (hstarted.advances P (hnew.run.trans P hrest)).1
    · -- there was no session, so no retired keypair either
      have hnone : Young (installedIn m.run.log).length (powerStage P cfg e m).run := by
        rw [hrun]
        refine .forgotten le_rfl (by simpa using hest) ?_
        by_contra hhave
        exact hest (hprev (by simpa using hhave))
      exact (hnone.advances P (hrebuild.trans P hrest)).1

/--
**No session survives a noticed sleep**, as long as one that is noticed over a tunnel
already given up finds the rebuild due and able to get a socket.  In every such run, after
a pass in which `awg_power_transition` said yes, no packet is sealed or accepted under a
keypair that was there before that pass.
-/
theorem no_session_survives_sleep (cfg : Config) (fd : Nat) (draws : Fin 5 → Entropy)
    (es : List PassEnv) (hrebuilt : ∀ before e after, es = before ++ e :: after →
      RebuiltAtOnce (mainRun P cfg fd draws before) e) :
    ∀ before e after, es = before ++ e :: after → Noticed (mainRun P cfg fd draws before) e →
      ∃ new, (mainRun P cfg fd draws es).run.log
          = (mainRun P cfg fd draws (before ++ [e])).run.log ++ new ∧
        ∀ ev ∈ new,
          ¬ ev.UsesOld (installedIn (mainRun P cfg fd draws before).run.log).length := by
  intro before e after hes hnoticed
  have hprev : PrevHasCur (mainRun P cfg fd draws before).run.sess :=
    (foldl_mainPass_advances P cfg before _).prevHasCur P nofun
  have hpass := mainRun_snoc P cfg fd draws before e
  have hrun : mainRun P cfg fd draws es
      = after.foldl (mainPass P cfg) (mainRun P cfg fd draws (before ++ [e])) := by
    rw [hes, hpass]
    unfold mainRun
    rw [List.foldl_append]
    rfl
  have hyoung := mainPass_young P cfg hprev hnoticed (hrebuilt before e after hes)
  rw [← hpass] at hyoung
  rw [hrun]
  exact (hyoung.advances P (foldl_mainPass_advances P cfg after _)).2

/-- A packet that was built is logged under `cur`. -/
theorem Run.logSeal_some (r : Run) {out : Session × Option (Int × Bytes)} {built : Int × Bytes}
    (h : out.2 = some built) :
    (r.logSeal out).log = r.log ++ [.sealedWith r.curId r.sess.cur r.sess.txCounter] := by
  obtain ⟨s, b⟩ := out
  obtain rfl : b = some built := h
  rfl

/-- A tenth of a second later lwIP's timers have a packet to send. -/
def passLate : PassEnv := { PassEnv.quiet 1200 with timers := [.output [1] 1200 fun _ => 0] }

/-- The run in which the second socket does not die tears its tunnel down. -/
theorem rebuiltAtOnce_running (cfg : Config) (htalks : (loopMeeting cfg).Talks P cfg)
    (htimers : DefaultTimers cfg) :
    ∀ before e after, answeredRun P cfg false ++ [passWakes, passLate] = before ++ e :: after →
      RebuiltAtOnce (mainRun P cfg 3 (fun _ _ => 0) before) e := by
  have hquiet : ∀ m (e : PassEnv), e.power = false → RebuiltAtOnce m e := by
    intro m e hpower hn
    rw [hn.2] at hpower
    cases hpower
  obtain ⟨r, -, -, -, hstate⟩ := mainRun_answered P cfg htalks htimers false
  have hwakes : RebuiltAtOnce (mainRun P cfg 3 (fun _ _ => 0) (answeredRun P cfg false))
      passWakes := by
    intro _ _ hlost
    rw [hstate] at hlost
    cases hlost
  simp only [answeredRun, List.cons_append, List.nil_append, History.splits_cons]
  exact ⟨hquiet _ _ rfl, hquiet _ _ rfl, hwakes, hquiet _ _ rfl, History.splits_nil⟩

/-- After that, lwIP's packet is refused for want of a session. -/
theorem no_session_survives_running :
    ∃ new, (mainRun standardPrimitives (wordsConfig 1 2) 3 (fun _ _ => 0)
          (answeredRun standardPrimitives (wordsConfig 1 2) false ++ [passWakes, passLate])).run.log
        = (mainRun standardPrimitives (wordsConfig 1 2) 3 (fun _ _ => 0)
          (answeredRun standardPrimitives (wordsConfig 1 2) false ++ [passWakes])).run.log ++ new ∧
      ∀ ev ∈ new, ¬ ev.UsesOld (installedIn (mainRun standardPrimitives (wordsConfig 1 2) 3
        (fun _ _ => 0) (answeredRun standardPrimitives (wordsConfig 1 2) false)).run.log).length := by
  obtain ⟨r, -, -, -, hstate⟩ := mainRun_answered standardPrimitives (wordsConfig 1 2)
    (startedMeeting_talks 100 110) defaultTimers_words false
  refine no_session_survives_sleep standardPrimitives (wordsConfig 1 2) 3 (fun _ _ => 0) _
    (rebuiltAtOnce_running standardPrimitives (wordsConfig 1 2) (startedMeeting_talks 100 110)
      defaultTimers_words) _ passWakes [passLate] rfl ?_
  rw [hstate]
  refine ⟨?_, rfl⟩
  show (1100 : UInt64) ≥ 1000
  decide

/-- In the run in which it dies too, the next packet is sealed under the keys from before. -/
theorem woken_seals (cfg : Config) (htalks : (loopMeeting cfg).Talks P cfg)
    (htimers : DefaultTimers cfg) (hs4 : cfg.s4 = 0) (hprot : cfg.haveHeaderProtection = false) :
    Noticed (mainRun P cfg 3 (fun _ _ => 0) (answeredRun P cfg true)) passWakes ∧
      (installedIn (mainRun P cfg 3 (fun _ _ => 0) (answeredRun P cfg true)).run.log).length = 1 ∧
      ∃ hs counter, (mainRun P cfg 3 (fun _ _ => 0)
          (answeredRun P cfg true ++ [passWakes, passLate])).run.log
        = (mainRun P cfg 3 (fun _ _ => 0) (answeredRun P cfg true ++ [passWakes])).run.log
          ++ [.sealedWith 0 hs counter] := by
  obtain ⟨r, hanswered, hid, hone, hstate⟩ := mainRun_answered P cfg htalks htimers true
  have hwoken : mainRun P cfg 3 (fun _ _ => 0) (answeredRun P cfg true ++ [passWakes])
      = woken cfg r := by
    rw [mainRun_snoc, hstate]
    exact after_passWakes P cfg hanswered
  have hsplit : answeredRun P cfg true ++ [passWakes, passLate]
      = answeredRun P cfg true ++ [passWakes] ++ [passLate] := rfl
  rw [hsplit, mainRun_snoc, hwoken, hstate]
  refine ⟨⟨?_, rfl⟩, hone, r.sess.cur, r.sess.txCounter, ?_⟩
  · show (1100 : UInt64) ≥ 1000
    decide
  · have hlate : (mainPass P cfg (woken cfg r) passLate).run
        = r.step P (.buildData cfg [1] 2048 1200 fun _ => 0) := by
      obtain ⟨hneed, hkeep⟩ := hanswered.idle 1200 (by decide)
      simp [mainPass, powerStage, rebuildStage, handshakeStage, netifStage, fetchStage, pollStage,
        timerStage, lwipRuns, stackAct, tunnelOutput, tunnelMtu, passLate, PassEnv.quiet, woken,
        upAgain, diedOnce, Main.start, hneed, hkeep, hanswered.established]
    have hroom : cfg.s4 + 32 + paddedLen ([1] : Bytes).length ≤ 2048 := by
      simp [hs4, paddedLen]
    obtain ⟨n, pkt, -, hbuild⟩ := buildData_some P hanswered.established (le_of_eq hs4.symm)
      (by simp [hprot]) hroom 1200 fun _ => 0
    have hlogged := Run.logSeal_some r hbuild
    rw [hid] at hlogged
    rw [hlate]
    exact hlogged

/-- A sleep noticed over a tunnel that had died less than three seconds after it was
rebuilt: lwIP's next packet goes out under the keys from before the sleep. -/
theorem sealed_after_sleep :
    Noticed (mainRun standardPrimitives (wordsConfig 1 2) 3 (fun _ _ => 0)
      (answeredRun standardPrimitives (wordsConfig 1 2) true)) passWakes ∧
    ∃ hs counter, (mainRun standardPrimitives (wordsConfig 1 2) 3 (fun _ _ => 0)
          (answeredRun standardPrimitives (wordsConfig 1 2) true ++ [passWakes, passLate])).run.log
        = (mainRun standardPrimitives (wordsConfig 1 2) 3 (fun _ _ => 0)
          (answeredRun standardPrimitives (wordsConfig 1 2) true ++ [passWakes])).run.log
          ++ [.sealedWith 0 hs counter] ∧
      (KeyEvent.sealedWith 0 hs counter).UsesOld (installedIn (mainRun standardPrimitives
        (wordsConfig 1 2) 3 (fun _ _ => 0)
        (answeredRun standardPrimitives (wordsConfig 1 2) true)).run.log).length := by
  obtain ⟨hnoticed, hone, hs, counter, hlog⟩ := woken_seals standardPrimitives (wordsConfig 1 2)
    (startedMeeting_talks 100 110) defaultTimers_words rfl rfl
  refine ⟨hnoticed, hs, counter, hlog, ?_⟩
  rw [hone]
  show 0 < 1
  omega

end SysAwg
