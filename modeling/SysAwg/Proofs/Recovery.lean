/-
The tunnel comes back.

Once the loop knows that the tunnel is lost it does not forget it before a rebuild has put a
new socket in its place, and the time before which it will not try again is never more than
three seconds after its last attempt.  So with a socket to be had a rebuild is at most three
seconds away, and the pass that rebuilds also starts the next handshake.  The other way,
only an attempt moves that time, and each moves it on: attempts come three seconds apart.

The relation `LossKept` stands for all of a pass but the rebuild, and composes.  With it a
run between two attempts is a single step, and both results come from what an attempt
does: without a socket it only puts off the next one, with one it ends the loss.
-/
import SysAwg.Proofs.Spacing

namespace SysAwg

variable (P : Primitives)

/-! ### What is not forgotten

The loss is remembered in one flag, which only a rebuild with a socket takes back.  Every
other stage keeps it, and keeps the time before which no attempt is made.
-/

/-- The tunnel stays lost, the time of the next attempt stays, and a socket that is there
stays. -/
structure LossKept (m m' : Main) : Prop where
  next : m'.nextRebuild = m.nextRebuild
  lost : m.tunnelLost = true → m'.tunnelLost = true
  fd : m'.fd = m.fd

theorem LossKept.refl (m : Main) : LossKept m m := ⟨rfl, id, rfl⟩

theorem LossKept.trans {m m' m'' : Main} (h : LossKept m m') (h' : LossKept m' m'') :
    LossKept m m'' :=
  ⟨h'.next.trans h.next, h'.lost ∘ h.lost, h'.fd.trans h.fd⟩

theorem lossKept_drainKeeps (cfg : Config) : DrainKeeps P cfg LossKept where
  refl := LossKept.refl
  trans := LossKept.trans
  entered m _ := ⟨rfl, id, rfl⟩
  output m payload sysNow e := by
    unfold tunnelOutput
    split
    · exact .refl m
    · split
      · exact .refl m
      · exact ⟨rfl, id, rfl⟩
  fetch m _ _ _ _ := ⟨rfl, id, rfl⟩
  datagram m _ _ := ⟨rfl, id, rfl⟩
  died m := ⟨rfl, fun _ => rfl, rfl⟩

theorem afterSend_lossKept (e : PassEnv) (m : Main) : LossKept m (afterSend e m) := by
  unfold afterSend
  split
  · exact ⟨rfl, id, rfl⟩
  · split
    · exact ⟨rfl, fun _ => rfl, rfl⟩
    · split
      · split
        · exact ⟨rfl, id, rfl⟩
        · split
          · exact ⟨rfl, fun _ => rfl, rfl⟩
          · exact .refl m
      · exact .refl m

theorem handshakeStage_lossKept (cfg : Config) (e : PassEnv) (m : Main) :
    LossKept m (handshakeStage P cfg e m) := by
  unfold handshakeStage
  split
  · exact .refl m
  · split
    · dsimp only
      split
      · exact ⟨rfl, id, rfl⟩
      · have hcall : LossKept m { m with run := m.run.step P (.buildInitiation cfg 4096 e.now e.idx
            e.eph e.nanos e.pad e.nowSeconds) } := ⟨rfl, id, rfl⟩
        exact hcall.trans (afterSend_lossKept e _)
    · split
      · exact ⟨rfl, id, rfl⟩
      · exact .refl m

theorem netifStage_lossKept (e : PassEnv) (m : Main) : LossKept m (netifStage e m) := by
  unfold netifStage awgNetifStart
  split
  · dsimp only
    split
    · exact ⟨rfl, id, rfl⟩
    · exact ⟨rfl, id, rfl⟩
  · exact .refl m

/-- From the handshake on, a pass forgets nothing. -/
theorem atHandshake_lossKept (cfg : Config) (m : Main) (e : PassEnv) :
    LossKept (atHandshake P cfg m e) (mainPass P cfg m e) := by
  have h := lossKept_drainKeeps P cfg
  rw [mainPass_eq]
  exact (((handshakeStage_lossKept P cfg e _).trans (netifStage_lossKept e _)).trans
    (h.fetchStage e _)).trans ((h.pollStage e _).trans (h.lwipRuns e.timers _))

/-- A power event may lose the tunnel, and the socket with it. -/
theorem powerStage_loses (cfg : Config) (m : Main) (e : PassEnv) :
    (powerStage P cfg e m).nextRebuild = m.nextRebuild ∧
      (m.tunnelLost = true → (powerStage P cfg e m).tunnelLost = true) ∧
      ((powerStage P cfg e m).fd = m.fd ∨ (powerStage P cfg e m).tunnelLost = true) := by
  have h := (lossKept_drainKeeps P cfg).lwipRuns e.powerStop
  unfold powerStage powerTransition
  split
  · split
    · split
      · refine ⟨?_, fun _ => rfl, .inr rfl⟩
        exact (h _).next
      · exact ⟨rfl, id, .inl rfl⟩
    · exact ⟨rfl, id, .inl rfl⟩
  · exact ⟨rfl, id, .inl rfl⟩

/-! ### Attempts

An attempt is a call of `socket`.  It happens in one stage, under a test on three fields,
and all that follows from the test failing or holding is said once.
-/

/-- The pass calls `socket`. -/
def Attempts (cfg : Config) (m : Main) (e : PassEnv) : Prop :=
  (powerStage P cfg e m).tunnelLost = true ∧ e.now ≥ m.nextRebuild

/-- Without an attempt nothing is forgotten. -/
theorem not_attempts {cfg : Config} {m : Main} {e : PassEnv} (h : ¬ Attempts P cfg m e) :
    (mainPass P cfg m e).nextRebuild = m.nextRebuild ∧
      (m.tunnelLost = true → (mainPass P cfg m e).tunnelLost = true) := by
  obtain ⟨hnext, hlost, -⟩ := powerStage_loses P cfg m e
  have hkept := atHandshake_lossKept P cfg m e
  have hsame : atHandshake P cfg m e = powerStage P cfg e m := by
    unfold atHandshake rebuildStage
    rw [if_neg]
    rw [hnext]
    exact h
  rw [hsame] at hkept
  exact ⟨hkept.next.trans hnext, fun hm => hkept.lost (hlost hm)⟩

/-- An attempt sets the time of the next; without a socket the tunnel stays lost. -/
theorem attempts_next {cfg : Config} {m : Main} {e : PassEnv} (h : Attempts P cfg m e) :
    (mainPass P cfg m e).nextRebuild = e.now + 3000 := by
  obtain ⟨hnext, -, -⟩ := powerStage_loses P cfg m e
  have hkept := atHandshake_lossKept P cfg m e
  have hstop := (lossKept_drainKeeps P cfg).lwipRuns e.rebuildStop
    { powerStage P cfg e m with nextRebuild := e.now + 3000 }
  rw [hkept.next]
  unfold atHandshake rebuildStage
  rw [if_pos (by rw [hnext]; exact h)]
  dsimp only
  split
  · exact hstop.next
  · unfold rebuilt
    dsimp only
    exact ((lossKept_drainKeeps P cfg).httpReset e.rebuildReset _).next.trans hstop.next

/-- Nothing goes through the interface before a session is established. -/
def QuietUntilUp (m m' : Main) : Prop :=
  m.run.sess.established = false → m'.run = m.run ∧ m'.fd = m.fd ∧ m'.gFd = m.gFd

theorem quietUntilUp_lwipKeeps (cfg : Config) : LwipKeeps P cfg QuietUntilUp where
  refl m _ := ⟨rfl, rfl, rfl⟩
  trans {m m' m''} h h' hdown := by
    obtain ⟨hrun, hfd, hg⟩ := h hdown
    obtain ⟨hrun', hfd', hg'⟩ := h' (by rw [hrun]; exact hdown)
    exact ⟨hrun'.trans hrun, hfd'.trans hfd, hg'.trans hg⟩
  entered m _ _ := ⟨rfl, rfl, rfl⟩
  output m payload sysNow e hdown := by
    unfold tunnelOutput
    rw [if_pos (.inr hdown)]
    exact ⟨rfl, rfl, rfl⟩
  fetch m _ _ _ _ _ := ⟨rfl, rfl, rfl⟩

/-- **An attempt that gets a socket** puts it in both places, with a session that has just been
initialised, and the handshake is due. -/
theorem attempt_rebuilds {cfg : Config} {m : Main} {e : PassEnv} {s : Nat}
    (h : Attempts P cfg m e) (hsocket : e.socket = some s) :
    let u := atHandshake P cfg m e
    u.fd = s ∧ u.gFd = s ∧ u.tunnelLost = false ∧ u.run.sess = awgSessionInit cfg e.draws ∧
      awgSessionNeedsHandshake u.run.sess e.now = true := by
  intro u
  obtain ⟨hnext, -, -⟩ := powerStage_loses P cfg m e
  set v := lwipRuns P cfg e.rebuildStop { powerStage P cfg e m with nextRebuild := e.now + 3000 }
    with hv
  have hu : u = rebuilt P cfg e s v := by
    show rebuildStage P cfg e (powerStage P cfg e m) = _
    unfold rebuildStage
    rw [if_pos (by rw [hnext]; exact h)]
    dsimp only
    rw [hsocket, ← hv]
  have hquiet := (quietUntilUp_lwipKeeps P cfg).httpReset e.rebuildReset
    { v with fd := s, gFd := s, run := v.run.step P (.init cfg e.draws) }
  obtain ⟨hrun, hfd, hg⟩ := hquiet rfl
  have hsess : u.run.sess = awgSessionInit cfg e.draws := by
    rw [hu]
    exact congrArg Run.sess hrun
  refine ⟨?_, ?_, ?_, hsess, ?_⟩
  · rw [hu]
    exact hfd
  · rw [hu]
    exact hg
  · rw [hu]
    rfl
  · rw [hsess]
    rfl

/-! ### Runs -/

/-- There is always a socket, or it is known that there is none. -/
theorem mainPass_socket {cfg : Config} {m : Main} {e : PassEnv}
    (h : m.fd < 0 → m.tunnelLost = true) :
    (mainPass P cfg m e).fd < 0 → (mainPass P cfg m e).tunnelLost = true := by
  obtain ⟨hnext, hlost, hfd⟩ := powerStage_loses P cfg m e
  have hpower : (powerStage P cfg e m).fd < 0 → (powerStage P cfg e m).tunnelLost = true := by
    intro hneg
    rcases hfd with hsame | hgone
    · exact hlost (h (hsame ▸ hneg))
    · exact hgone
  have hkept := atHandshake_lossKept P cfg m e
  intro hneg
  rw [hkept.fd] at hneg
  refine hkept.lost ?_
  by_cases hattempt : Attempts P cfg m e
  · cases hsocket : e.socket with
    | some s =>
        rw [(attempt_rebuilds P hattempt hsocket).1] at hneg
        omega
    | none =>
        unfold atHandshake rebuildStage
        rw [if_pos (by rw [hnext]; exact hattempt), hsocket]
        exact ((lossKept_drainKeeps P cfg).lwipRuns e.rebuildStop _).lost hattempt.1
  · have hsame : atHandshake P cfg m e = powerStage P cfg e m := by
      unfold atHandshake rebuildStage
      rw [if_neg (by rw [hnext]; exact hattempt)]
    rw [hsame] at hneg ⊢
    exact hpower hneg

theorem mainRun_socket (cfg : Config) (fd : Nat) (draws : Fin 5 → Entropy) (es : List PassEnv) :
    (mainRun P cfg fd draws es).fd < 0 → (mainRun P cfg fd draws es).tunnelLost = true := by
  induction es using List.reverseRecOn with
  | nil =>
      intro hneg
      have hfd : (fd : Int) < 0 := hneg
      omega
  | append_singleton es e ih =>
      rw [mainRun_snoc]
      exact mainPass_socket P ih

theorem mainRun_one (cfg : Config) (fd : Nat) (draws : Fin 5 → Entropy) (e : PassEnv) :
    mainRun P cfg fd draws [e] = mainPass P cfg (Main.start cfg fd draws) e := by
  unfold mainRun
  rw [List.foldl_cons, List.foldl_nil]

/-- The time of the next attempt comes from the last one. -/
theorem mainRun_next (cfg : Config) (fd : Nat) (draws : Fin 5 → Entropy) (es : List PassEnv) :
    (mainRun P cfg fd draws es).nextRebuild = 0 ∨
      ∃ b ∈ es, (mainRun P cfg fd draws es).nextRebuild = b.now + 3000 := by
  induction es using List.reverseRecOn with
  | nil => exact .inl rfl
  | append_singleton es e ih =>
      rw [mainRun_snoc]
      by_cases hattempt : Attempts P cfg (mainRun P cfg fd draws es) e
      · exact .inr ⟨e, by simp, attempts_next P hattempt⟩
      · rw [(not_attempts P hattempt).1]
        rcases ih with hzero | ⟨b, hb, hnext⟩
        · exact .inl hzero
        · exact .inr ⟨b, List.mem_append_left _ hb, hnext⟩

/-- A lost tunnel stays lost up to the first attempt, and there is one once it is due. -/
theorem attempt_comes {cfg : Config} {m : Main} {e : PassEnv} (after : List PassEnv)
    (hlost : m.tunnelLost = true) (hdue : e.now ≥ m.nextRebuild) :
    ∃ skipped a rest, after ++ [e] = skipped ++ a :: rest ∧
      Attempts P cfg (skipped.foldl (mainPass P cfg) m) a := by
  induction after generalizing m with
  | nil => exact ⟨[], e, [], rfl, (powerStage_loses P cfg m e).2.1 hlost, hdue⟩
  | cons a after ih =>
      by_cases hattempt : Attempts P cfg m a
      · exact ⟨[], a, after ++ [e], rfl, hattempt⟩
      · obtain ⟨hnext, hkept⟩ := not_attempts P hattempt
        obtain ⟨skipped, b, rest, hsplit, hb⟩ := ih (m := mainPass P cfg m a) (hkept hlost)
          (by rw [hnext]; exact hdue)
        exact ⟨a :: skipped, b, rest, by rw [List.cons_append, hsplit]; rfl, hb⟩

/--
**A lost tunnel comes back.**  Wherever a run has lost the tunnel, whatever else happens from
then on: if every call of `socket` succeeds, then by the first pass three seconds after the
passes so far there is one that puts a new socket under `main` and under lwIP alike, with a
session fresh from `awg_session_init`, and goes on to the handshake.
-/
theorem tunnel_recovers (cfg : Config) (fd : Nat) (draws : Fin 5 → Entropy)
    (before after : List PassEnv) (e : PassEnv)
    (hlost : (mainRun P cfg fd draws before).tunnelLost = true)
    (hwait : ∀ b ∈ before, b.now.toNat + 3000 ≤ e.now.toNat)
    (hsockets : ∀ a ∈ after ++ [e], a.socket.isSome = true) :
    ∃ (skipped : List PassEnv) (a : PassEnv) (rest : List PassEnv) (s : Nat),
      after ++ [e] = skipped ++ a :: rest ∧ a.socket = some s ∧
      let u := atHandshake P cfg (mainRun P cfg fd draws (before ++ skipped)) a
      u.fd = s ∧ u.gFd = s ∧ u.tunnelLost = false ∧ u.run.sess = awgSessionInit cfg a.draws ∧
        awgSessionNeedsHandshake u.run.sess a.now = true := by
  have hdue : e.now ≥ (mainRun P cfg fd draws before).nextRebuild := by
    rw [ge_iff_le, UInt64.le_iff_toNat_le]
    rcases mainRun_next P cfg fd draws before with hzero | ⟨b, hb, hnext⟩
    · rw [hzero]
      exact Nat.zero_le _
    · have hle := hwait b hb
      have hlt := e.now.toNat_lt
      rw [hnext, UInt64.toNat_add, show (3000 : UInt64).toNat = 3000 from rfl,
        Nat.mod_eq_of_lt (by omega)]
      exact hle
  obtain ⟨skipped, a, rest, hsplit, hattempt⟩ := attempt_comes P after hlost hdue
  obtain ⟨s, hs⟩ := Option.isSome_iff_exists.mp (hsockets a (by rw [hsplit]; simp))
  have hrun : mainRun P cfg fd draws (before ++ skipped)
      = skipped.foldl (mainPass P cfg) (mainRun P cfg fd draws before) := by
    unfold mainRun
    rw [List.foldl_append]
  rw [← hrun] at hattempt
  exact ⟨skipped, a, rest, s, hsplit, hs, attempt_rebuilds P hattempt hs⟩

/-- The socket dies in the first pass; three seconds later there is a new one. -/
theorem tunnel_recovers_died :
    ∃ (skipped : List PassEnv) (a : PassEnv) (rest : List PassEnv) (s : Nat),
      [] ++ [{ PassEnv.quiet 3000 with socket := some 4 }] = skipped ++ a :: rest ∧
      a.socket = some s ∧
      (atHandshake standardPrimitives (wordsConfig 1 2) (mainRun standardPrimitives
        (wordsConfig 1 2) 3 (fun _ _ => 0) ([passDies] ++ skipped)) a).fd = s := by
  obtain ⟨r, -, -, hrun⟩ := after_passDies standardPrimitives (wordsConfig 1 2)
  have hlost : (mainRun standardPrimitives (wordsConfig 1 2) 3 (fun _ _ => 0)
      [passDies]).tunnelLost = true := by
    rw [mainRun_one, hrun]
    simp only [diedOnce]
  obtain ⟨skipped, a, rest, s, hsplit, hs, hfd, -⟩ :=
    tunnel_recovers standardPrimitives (wordsConfig 1 2) 3 (fun _ _ => 0) [passDies] []
      { PassEnv.quiet 3000 with socket := some 4 } hlost (by simp [passDies, PassEnv.quiet])
      (by simp)
  exact ⟨skipped, a, rest, s, hsplit, hs, hfd⟩

/-- Until the clock has gone on by three seconds the next attempt is not due. -/
theorem next_from (cfg : Config) {t : Nat} (es : List PassEnv) {m : Main}
    (hm : t ≤ m.nextRebuild.toNat)
    (hes : ∀ e ∈ es, t ≤ e.now.toNat + 3000 ∧ e.now.toNat + 3000 < 2 ^ 64) :
    t ≤ (es.foldl (mainPass P cfg) m).nextRebuild.toNat := by
  induction es generalizing m with
  | nil => exact hm
  | cons e es ih =>
      refine ih ?_ fun a ha => hes a (List.mem_cons_of_mem _ ha)
      by_cases hattempt : Attempts P cfg m e
      · obtain ⟨hle, hlt⟩ := hes e List.mem_cons_self
        rw [attempts_next P hattempt, UInt64.toNat_add, show (3000 : UInt64).toNat = 3000 from rfl,
          Nat.mod_eq_of_lt hlt]
        exact hle
      · rw [(not_attempts P hattempt).1]
        exact hm

/--
**Attempts to rebuild are three seconds apart.**

A run is never without a socket unless it knows and goes on trying.  However often the socket
is found dead, and whatever `socket` answers, two attempts of a run whose clock does not go
back, and does not come within three seconds of its end, are three seconds apart.
-/
theorem rebuilds_spaced (cfg : Config) (fd : Nat) (draws : Fin 5 → Entropy) :
    (∀ es, (mainRun P cfg fd draws es).fd < 0 → (mainRun P cfg fd draws es).tunnelLost = true) ∧
    ∀ (before between : List PassEnv) (e₁ e₂ : PassEnv),
      ((e₁ :: between ++ [e₂]).map PassEnv.now).Pairwise (· ≤ ·) →
      e₂.now.toNat + 3000 < 2 ^ 64 →
      Attempts P cfg (mainRun P cfg fd draws before) e₁ →
      Attempts P cfg (mainRun P cfg fd draws (before ++ e₁ :: between)) e₂ →
      e₁.now.toNat + 3000 ≤ e₂.now.toNat := by
  refine ⟨fun es => mainRun_socket P cfg fd draws es, ?_⟩
  intro before between e₁ e₂ hclock hfar h₁ h₂
  have hrun : mainRun P cfg fd draws (before ++ e₁ :: between)
      = between.foldl (mainPass P cfg) (mainPass P cfg (mainRun P cfg fd draws before) e₁) := by
    unfold mainRun
    rw [List.foldl_append]
    rfl
  have hlast : ∀ e ∈ e₁ :: between, e.now ≤ e₂.now := by
    intro e he
    rw [List.map_append] at hclock
    exact (List.pairwise_append.mp hclock).2.2 e.now (List.mem_map_of_mem he) e₂.now
      (by simp)
  have hfirst : ∀ e ∈ between, e₁.now ≤ e.now := by
    intro e he
    refine (List.pairwise_cons.mp hclock).1 e.now ?_
    exact List.mem_map_of_mem (List.mem_append_left _ he)
  have hstart : e₁.now.toNat + 3000
      ≤ (mainPass P cfg (mainRun P cfg fd draws before) e₁).nextRebuild.toNat := by
    have hle := UInt64.le_iff_toNat_le.mp (hlast e₁ List.mem_cons_self)
    rw [attempts_next P h₁, UInt64.toNat_add, show (3000 : UInt64).toNat = 3000 from rfl,
      Nat.mod_eq_of_lt (by omega)]
  have hnext := next_from P cfg between hstart fun e he => by
    have hge := UInt64.le_iff_toNat_le.mp (hfirst e he)
    have hle := UInt64.le_iff_toNat_le.mp (hlast e (List.mem_cons_of_mem _ he))
    omega
  rw [← hrun] at hnext
  exact hnext.trans (UInt64.le_iff_toNat_le.mp h₂.2)

/-- The socket dies, the first attempt gets none, and the second comes at 3100. -/
theorem rebuilds_spaced_twice :
    Attempts standardPrimitives (wordsConfig 1 2)
        (mainRun standardPrimitives (wordsConfig 1 2) 3 (fun _ _ => 0) [passDies])
        (PassEnv.quiet 100) ∧
      Attempts standardPrimitives (wordsConfig 1 2)
        (mainRun standardPrimitives (wordsConfig 1 2) 3 (fun _ _ => 0)
          ([passDies] ++ PassEnv.quiet 100 :: []))
        (PassEnv.quiet 3100) ∧
      (PassEnv.quiet 100).now.toNat + 3000 ≤ (PassEnv.quiet 3100).now.toNat := by
  obtain ⟨r, -, -, hrun⟩ := after_passDies standardPrimitives (wordsConfig 1 2)
  have hfirst : mainRun standardPrimitives (wordsConfig 1 2) 3 (fun _ _ => 0) [passDies]
      = diedOnce (wordsConfig 1 2) r := by rw [mainRun_one, hrun]
  have hsecond : mainRun standardPrimitives (wordsConfig 1 2) 3 (fun _ _ => 0)
      ([passDies] ++ PassEnv.quiet 100 :: []) = mainPass standardPrimitives (wordsConfig 1 2)
        (diedOnce (wordsConfig 1 2) r) (PassEnv.quiet 100) := by
    rw [mainRun_snoc, hfirst]
  have h₁ : Attempts standardPrimitives (wordsConfig 1 2) (diedOnce (wordsConfig 1 2) r)
      (PassEnv.quiet 100) := by
    simp [Attempts, powerStage, diedOnce, Main.start, PassEnv.quiet]
  have hnext := attempts_next standardPrimitives h₁
  have hlost : (mainPass standardPrimitives (wordsConfig 1 2) (diedOnce (wordsConfig 1 2) r)
      (PassEnv.quiet 100)).tunnelLost = true := by
    refine (atHandshake_lossKept standardPrimitives (wordsConfig 1 2) _ _).lost ?_
    simp [atHandshake, powerStage, rebuildStage, lwipRuns, diedOnce, Main.start, PassEnv.quiet]
  have h₂ : Attempts standardPrimitives (wordsConfig 1 2) (mainPass standardPrimitives
      (wordsConfig 1 2) (diedOnce (wordsConfig 1 2) r) (PassEnv.quiet 100))
      (PassEnv.quiet 3100) := by
    refine ⟨(powerStage_loses standardPrimitives _ _ _).2.1 hlost, ?_⟩
    rw [hnext]
    decide
  refine ⟨hfirst ▸ h₁, hsecond ▸ h₂, ?_⟩
  exact (rebuilds_spaced standardPrimitives (wordsConfig 1 2) 3 (fun _ _ => 0)).2 [passDies] []
    (PassEnv.quiet 100) (PassEnv.quiet 3100) (by decide) (by decide) (hfirst ▸ h₁)
    (hsecond ▸ h₂)

end SysAwg
