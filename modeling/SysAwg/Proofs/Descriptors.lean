/-
The two copies of the tunnel's descriptor.

`main` holds the socket in `fd`, and `tunnel_output` writes to `g_fd`.  A power event, a
successful rebuild and the start of the interface set both to the same.  A rebuild whose
`socket()` fails has closed the old descriptor and leaves lwIP's copy as it was, and lwIP's
timers run before the pass is over.

The condition on rebuilds is needed as well as enough.  A pass that meets it ends with
both copies the same, so the next one starts well; a pass that does not leaves a place
behind at which lwIP ran over a closed descriptor, and what was recorded stays recorded.
An induction on the passes therefore gives both directions at once.
-/
import SysAwg.Proofs.MainLoop
import SysAwg.Lib.History

namespace SysAwg

variable (P : Primitives)

/-! ### The two copies of the descriptor

The two copies are compared only where it matters: at the places where lwIP may run, which
a pass records as it goes, and between passes.
-/

def OutputPoint.Ok (p : OutputPoint) : Prop := p.gFd = -1 ∨ p.gFd = p.fd ∧ 0 ≤ p.fd

instance (p : OutputPoint) : Decidable p.Ok := inferInstanceAs (Decidable (_ ∨ _))

/-- Between passes the copies agree, once there are two. -/
structure FdsAgree (m : Main) : Prop where
  fd : m.fd = -1 ∨ 0 ≤ m.fd
  ready : m.gReady = m.netifUp
  copy : m.netifUp = true → m.gFd = m.fd

/-- The places where lwIP runs from the first to the second are all in order. -/
def GrewOk (m m' : Main) : Prop := ∃ new, m'.points = m.points ++ new ∧ ∀ p ∈ new, p.Ok

theorem GrewOk.refl {m m' : Main} (h : m'.points = m.points) : GrewOk m m' :=
  ⟨[], by simp [h], by simp⟩

theorem GrewOk.trans {m m' m'' : Main} (h : GrewOk m m') (h' : GrewOk m' m'') : GrewOk m m'' := by
  obtain ⟨new, hnew, hall⟩ := h
  obtain ⟨new', hnew', hall'⟩ := h'
  refine ⟨new ++ new', by rw [hnew', hnew, List.append_assoc], ?_⟩
  intro p hp
  rcases List.mem_append.mp hp with hp | hp
  · exact hall p hp
  · exact hall' p hp

theorem GrewOk.mem {m m' : Main} (h : GrewOk m m') {p : OutputPoint} (hp : p ∈ m'.points) :
    p ∈ m.points ∨ p.Ok := by
  obtain ⟨new, hnew, hall⟩ := h
  rw [hnew] at hp
  rcases List.mem_append.mp hp with hp | hp
  · exact Or.inl hp
  · exact Or.inr (hall p hp)

theorem FdsAgree.point_ok {m : Main} (h : FdsAgree m) (hready : m.gReady = true) :
    OutputPoint.Ok ⟨m.fd, m.gFd⟩ := by
  have hcopy := h.copy (h.ready ▸ hready)
  rcases h.fd with hnone | hopen
  · exact Or.inl (hcopy.trans hnone)
  · exact Or.inr ⟨hcopy, hopen⟩

/-- A calm stage keeps the agreement, and lwIP finds it everywhere. -/
theorem FdsAgree.calm {m m' : Main} (h : FdsAgree m) (hs : Calm P m m') :
    FdsAgree m' ∧ GrewOk m m' := by
  refine ⟨⟨?_, ?_, ?_⟩, ?_⟩
  · rw [hs.fd]
    exact h.fd
  · rw [hs.gReady, hs.netifUp]
    exact h.ready
  · rw [hs.netifUp, hs.gFd, hs.fd]
    exact h.copy
  · obtain ⟨new, hnew, hall⟩ := hs.points
    refine ⟨new, hnew, ?_⟩
    intro p hp
    obtain ⟨hready, rfl⟩ := hall p hp
    exact h.point_ok hready

/-- A stage that sets both descriptors to the same. -/
theorem FdsAgree.both {m m' : Main} (h : FdsAgree m) {fd : Int} (hfd : fd = -1 ∨ 0 ≤ fd)
    (hset : m'.fd = fd ∧ m'.gFd = fd) (hup : m'.netifUp = m.netifUp)
    (hready : m'.gReady = m.gReady) : FdsAgree m' where
  fd := by
    rw [hset.1]
    exact hfd
  ready := by
    rw [hup, hready]
    exact h.ready
  copy := by
    intro _
    rw [hset.1, hset.2]

theorem FdsAgree.powerStage {m : Main} (h : FdsAgree m) (cfg : Config) (e : PassEnv) :
    FdsAgree (powerStage P cfg e m) ∧ GrewOk m (powerStage P cfg e m) := by
  rcases powerStage_cases P cfg e m with ⟨-, u, hu, heq⟩ | ⟨-, hcalm, -⟩
  · obtain ⟨hagree, hgrew⟩ := h.calm P hu
    rw [heq]
    exact ⟨hagree.both (Or.inl rfl) ⟨rfl, rfl⟩ rfl rfl, hgrew.trans (.refl rfl)⟩
  · exact h.calm P hcalm

theorem FdsAgree.netifStage {m : Main} (h : FdsAgree m) (e : PassEnv) :
    FdsAgree (netifStage e m) ∧ GrewOk m (netifStage e m) := by
  rcases netifStage_cases e m with heq | ⟨hdown, hfd, hgFd, hpoints, -, hup⟩
  · rw [heq]
    exact ⟨h, .refl rfl⟩
  · refine ⟨⟨?_, ?_, ?_⟩, .refl hpoints⟩
    · rw [hfd]
      exact h.fd
    · rcases hup with ⟨hup, hready⟩ | ⟨hup, hready⟩
      · rw [hup, hready]
      · rw [hup, hready]
        exact h.ready
    · intro _
      rw [hgFd, hfd]

/-- A rebuild that is due while lwIP runs over an open socket gets a new one. -/
def SocketReplaced (m : Main) (e : PassEnv) : Prop :=
  m.tunnelLost = true → e.now ≥ m.nextRebuild → m.netifUp = true → 0 ≤ m.fd →
    e.socket.isSome = true

instance (m : Main) (e : PassEnv) : Decidable (SocketReplaced m e) :=
  inferInstanceAs (Decidable (_ → _))

/-- A rebuild keeps the agreement if it has a socket to offer, or if none was open. -/
theorem FdsAgree.rebuildStage {m : Main} (h : FdsAgree m) (cfg : Config) {e : PassEnv}
    (hsocket : SocketReplaced m e) :
    FdsAgree (rebuildStage P cfg e m) ∧ GrewOk m (rebuildStage P cfg e m) := by
  rcases rebuildStage_cases P cfg e m with ⟨-, heq⟩ | ⟨hdue, u, hu, hcases⟩
  · rw [heq]
    exact ⟨h, .refl rfl⟩
  · obtain ⟨hagree, hgrew⟩ := h.calm P hu
    rcases hcases with ⟨hnone, heq⟩ | ⟨fd, -, hnew⟩
    · rw [heq]
      refine ⟨⟨Or.inl rfl, hagree.ready, ?_⟩, hgrew.trans (.refl rfl)⟩
      intro hup
      -- the interface is up, so the socket that could not be replaced was not open
      have hclosed : m.fd = -1 := by
        rcases h.fd with hclosed | hopen
        · exact hclosed
        · have hsome := hsocket hdue.1 hdue.2 (hu.netifUp ▸ hup) hopen
          rw [hnone] at hsome
          cases hsome
      show u.gFd = -1
      rw [hagree.copy hup, hu.fd, hclosed]
    · have hset : FdsAgree { u with fd := fd, gFd := fd, run := u.run.step P (.init cfg e.draws) } :=
        hagree.both (Or.inr (Int.natCast_nonneg fd)) ⟨rfl, rfl⟩ rfl rfl
      obtain ⟨hagree', hgrew'⟩ := hset.calm P hnew
      exact ⟨hagree', (hgrew.trans (.refl rfl)).trans hgrew'⟩

/-- What the power stage leaves for the rebuild to decide. -/
theorem SocketReplaced.powerStage {m : Main} {e : PassEnv} (h : SocketReplaced m e)
    (cfg : Config) : SocketReplaced (powerStage P cfg e m) e := by
  intro hlost hdue hup hopen
  rcases powerStage_cases P cfg e m with ⟨-, u, -, heq⟩ | ⟨-, hcalm, hlostKept, hnext, -⟩
  · rw [heq] at hopen
    exact absurd hopen (by simp)
  · exact h (hlostKept ▸ hlost) (hnext ▸ hdue) (hcalm.netifUp ▸ hup) (hcalm.fd ▸ hopen)

/-- **A pass that replaces its socket** keeps the agreement. -/
theorem FdsAgree.mainPass {m : Main} (h : FdsAgree m) (cfg : Config) {e : PassEnv}
    (hsocket : SocketReplaced m e) :
    FdsAgree (mainPass P cfg m e) ∧ GrewOk m (mainPass P cfg m e) := by
  obtain ⟨h₁, g₁⟩ := h.powerStage P cfg e
  obtain ⟨h₂, g₂⟩ := h₁.rebuildStage P cfg (hsocket.powerStage P cfg)
  obtain ⟨h₃, g₃⟩ := h₂.calm P (handshakeStage_calm P cfg e _)
  obtain ⟨h₄, g₄⟩ := h₃.netifStage e
  obtain ⟨h₅, g₅⟩ := h₄.calm P (restOfPass_calm P cfg e _)
  rw [mainPass_eq]
  exact ⟨h₅, (((g₁.trans g₂).trans g₃).trans g₄).trans g₅⟩

/-! #### A rebuild without a socket -/

theorem lwipRuns_point (cfg : Config) (acts : List StackAct) {m : Main} (h : m.gReady = true) :
    ⟨m.fd, m.gFd⟩ ∈ (lwipRuns P cfg acts m).points := by
  obtain ⟨new, hnew, -⟩ := (Calm.foldl P (stackAct_calm P cfg) acts
    { m with points := m.points ++ [⟨m.fd, m.gFd⟩] }).points
  rw [lwipRuns, if_pos h, hnew]
  simp

theorem restOfPass_point (cfg : Config) (e : PassEnv) {m : Main} (h : m.gReady = true) :
    ⟨m.fd, m.gFd⟩ ∈ (restOfPass P cfg e m).points := by
  have hcalm := (fetchStage_calm P cfg e m).trans P (pollStage_calm P cfg e _)
  have hpoint := lwipRuns_point P cfg e.timers (hcalm.gReady.trans h)
  rw [hcalm.fd, hcalm.gFd] at hpoint
  exact hpoint

/-- **A pass whose rebuild gets no socket** has lwIP run over the closed one. -/
theorem FdsAgree.point_closed {m : Main} (h : FdsAgree m) (cfg : Config) {e : PassEnv}
    (hfail : ¬ SocketReplaced m e) :
    ⟨-1, m.fd⟩ ∈ (SysAwg.mainPass P cfg m e).points ∧ ¬ OutputPoint.Ok ⟨-1, m.fd⟩ := by
  unfold SocketReplaced at hfail
  simp only [Classical.not_imp] at hfail
  obtain ⟨hlost, hdue, hup, hopen, hnone⟩ := hfail
  refine ⟨?_, ?_⟩
  · rcases powerStage_cases P cfg e m with ⟨hnot, -⟩ | ⟨-, hpower, hlostKept, hnext, -⟩
    · rw [hlost] at hnot
      cases hnot
    · rcases rebuildStage_cases P cfg e (SysAwg.powerStage P cfg e m) with
        ⟨hnot, -⟩ | ⟨-, u, hu, ⟨-, heq⟩ | ⟨fd, hsome, -⟩⟩
      · exact absurd ⟨hlostKept.trans hlost, hnext ▸ hdue⟩ hnot
      · -- neither the handshake nor the interface looks at what is left
        have hsame := hpower.trans P hu
        have hcopy : u.gFd = m.fd := hsame.gFd.trans (h.copy hup)
        have hready : u.gReady = true := hsame.gReady.trans (h.ready.trans hup)
        have hskip : handshakeStage P cfg e { u with fd := -1 } = { u with fd := -1 } :=
          if_pos (by simp)
        have hstays : SysAwg.netifStage e { u with fd := -1 } = { u with fd := -1 } :=
          if_neg (by simp [hsame.netifUp.trans hup])
        rw [mainPass_eq, heq, hskip, hstays, ← hcopy]
        exact restOfPass_point P cfg e hready
      · rw [hsome] at hnone
        exact absurd rfl hnone
  · intro hok
    rcases hok with hclosed | ⟨hclosed, -⟩
    · have : m.fd = -1 := hclosed
      omega
    · have : m.fd = -1 := hclosed
      omega

/-- The points at which lwIP ran are only added to. -/
theorem mainPass_points (cfg : Config) (m : Main) (e : PassEnv) :
    m.points <+: (SysAwg.mainPass P cfg m e).points := by
  have hcalm : ∀ {u v : Main}, Calm P u v → u.points <+: v.points := by
    intro u v h
    obtain ⟨new, hnew, -⟩ := h.points
    exact ⟨new, hnew.symm⟩
  have hpower : m.points <+: (SysAwg.powerStage P cfg e m).points := by
    rcases powerStage_cases P cfg e m with ⟨-, u, hu, heq⟩ | ⟨-, h, -⟩
    · rw [heq]
      show m.points <+: u.points
      exact hcalm hu
    · exact hcalm h
  have hrebuild : ∀ u : Main, u.points <+: (SysAwg.rebuildStage P cfg e u).points := by
    intro u
    rcases rebuildStage_cases P cfg e u with ⟨-, heq⟩ | ⟨-, v, hv, ⟨-, heq⟩ | ⟨fd, -, hnew⟩⟩
    · simp only [heq, List.prefix_rfl]
    · rw [heq]
      show u.points <+: v.points
      exact hcalm hv
    · have hlater := hcalm hnew
      exact (hcalm hv).trans hlater
  have hnetif : ∀ u : Main, u.points <+: (SysAwg.netifStage e u).points := by
    intro u
    rcases netifStage_cases e u with heq | ⟨-, -, -, hpoints, -⟩
    · simp only [heq, List.prefix_rfl]
    · simp only [hpoints, List.prefix_rfl]
  rw [mainPass_eq]
  exact ((((hpower.trans (hrebuild _)).trans (hcalm (handshakeStage_calm P cfg e _))).trans
    (hnetif _)).trans (hcalm (restOfPass_calm P cfg e _)))

theorem foldl_mainPass_points (cfg : Config) (es : List PassEnv) (m : Main) :
    m.points <+: (es.foldl (SysAwg.mainPass P cfg) m).points := by
  induction es generalizing m with
  | nil => exact List.prefix_rfl
  | cons e es ih => exact (mainPass_points P cfg m e).trans (ih (SysAwg.mainPass P cfg m e))

/-- From any state where the copies agree, the whole run is in order exactly when every
rebuild is. -/
theorem FdsAgree.run_iff (cfg : Config) (es : List PassEnv) {m : Main} (h : FdsAgree m)
    (hok : ∀ p ∈ m.points, p.Ok) :
    (∀ p ∈ (es.foldl (SysAwg.mainPass P cfg) m).points, p.Ok) ↔
      ∀ before e after, es = before ++ e :: after →
        SocketReplaced (before.foldl (SysAwg.mainPass P cfg) m) e := by
  induction es generalizing m with
  | nil => exact ⟨fun _ => History.splits_nil, fun _ => hok⟩
  | cons e es ih =>
      rw [History.splits_cons]
      by_cases hsocket : SocketReplaced m e
      · obtain ⟨hagree, hgrew⟩ := h.mainPass P cfg hsocket
        have hok' : ∀ p ∈ (SysAwg.mainPass P cfg m e).points, p.Ok := by
          intro p hp
          rcases hgrew.mem hp with hold | hnew
          · exact hok p hold
          · exact hnew
        rw [List.foldl_cons, ih hagree hok']
        exact (and_iff_right hsocket).symm
      · -- the first failed rebuild leaves a place that is not in order
        obtain ⟨hp, hbad⟩ := h.point_closed P cfg hsocket
        constructor
        · intro hall
          have hlater := foldl_mainPass_points P cfg es (SysAwg.mainPass P cfg m e)
          exact absurd (hall _ (hlater.subset hp)) hbad
        · intro hall
          exact absurd hall.1 hsocket

/--
**lwIP never writes to a closed descriptor** exactly in the runs in which every rebuild
that is due over an open socket, with the interface up, gets a new socket.
-/
theorem descriptors_agree_iff (cfg : Config) (fd : Nat) (draws : Fin 5 → Entropy)
    (es : List PassEnv) :
    (∀ p ∈ (mainRun P cfg fd draws es).points, p.Ok) ↔
      ∀ before e after, es = before ++ e :: after →
        SocketReplaced (mainRun P cfg fd draws before) e := by
  have hstart : FdsAgree (Main.start cfg fd draws) :=
    ⟨Or.inr (Int.natCast_nonneg fd), rfl, nofun⟩
  exact hstart.run_iff P cfg es (by simp [Main.start])

/-- The rebuild comes due, and there is no socket to be had. -/
def passNoSocket : PassEnv := PassEnv.quiet 3200

/-- lwIP's timers then run over descriptor 4, which `main` has closed. -/
theorem woken_closed (cfg : Config) (htalks : (loopMeeting cfg).Talks P cfg)
    (htimers : DefaultTimers cfg) :
    ⟨-1, 4⟩ ∈ (mainRun P cfg 3 (fun _ _ => 0)
      (answeredRun P cfg true ++ [passWakes] ++ [passNoSocket])).points := by
  obtain ⟨r, hanswered, -, -, hstate⟩ := mainRun_answered P cfg htalks htimers true
  have hagree : FdsAgree (woken cfg r) :=
    ⟨Or.inr (by simp [woken, upAgain]), rfl, fun _ => rfl⟩
  have hfail : ¬ SocketReplaced (woken cfg r) passNoSocket := by
    simp [SocketReplaced, woken, upAgain, passNoSocket, PassEnv.quiet]
  rw [mainRun_snoc, mainRun_snoc, hstate, after_passWakes P cfg hanswered]
  exact (hagree.point_closed P cfg hfail).1

/-- The run under the standard primitives: lwIP is run while its copy names the closed
descriptor 4. -/
theorem closed_descriptor_written :
    ∃ p ∈ (mainRun standardPrimitives (wordsConfig 1 2) 3 (fun _ _ => 0)
      (answeredRun standardPrimitives (wordsConfig 1 2) true ++ [passWakes]
        ++ [passNoSocket])).points, p = ⟨-1, 4⟩ ∧ ¬ p.Ok := by
  have hmem := woken_closed standardPrimitives (wordsConfig 1 2) (startedMeeting_talks 100 110)
    defaultTimers_words
  exact ⟨_, hmem, rfl, by decide⟩

end SysAwg
