/-
What the stages of a pass can do.

Most of a pass leaves both descriptors alone, runs lwIP at places where it finds them so,
and moves the session on by ordinary calls; such a stage is `Calm`.  Only three stages do
more: a power event tears the tunnel down, a rebuild replaces the socket, and the interface
is brought up once.  Each of them has one lemma that lists its outcomes, and whatever is
proved about runs of the loop is proved from these.

lwIP is the difficulty: it runs inside most stages, and there any number of packets may be
sent.  What it cannot do is move a descriptor or bring the interface up, so a relation
that survives a single packet and a single callback survives the stage (`LwipKeeps`), and
several modules hand in a relation of their own.
-/
import SysAwg.MainLoop
import SysAwg.Proofs.TypeWords

namespace SysAwg

variable (P : Primitives)

/-! ### Calm stages -/

/-- The second is what some calls lead to from the first. -/
def Advances (r r' : Run) : Prop := ∃ ops, r' = r.exec P ops

theorem Advances.refl (r : Run) : Advances P r r := ⟨[], rfl⟩

theorem Advances.trans {r r' r'' : Run} (h : Advances P r r') (h' : Advances P r' r'') :
    Advances P r r'' := by
  obtain ⟨ops, rfl⟩ := h
  obtain ⟨ops', rfl⟩ := h'
  refine ⟨ops ++ ops', ?_⟩
  simp only [Run.exec, List.foldl_append]

structure Calm (m m' : Main) : Prop where
  fd : m'.fd = m.fd
  gFd : m'.gFd = m.gFd
  netifUp : m'.netifUp = m.netifUp
  gReady : m'.gReady = m.gReady
  points : ∃ new, m'.points = m.points ++ new ∧
    ∀ p ∈ new, m.gReady = true ∧ p = ⟨m.fd, m.gFd⟩
  run : Advances P m.run m'.run

/-- Nothing any of this is about has changed. -/
theorem Calm.same {m m' : Main} (hfd : m'.fd = m.fd) (hgFd : m'.gFd = m.gFd)
    (hup : m'.netifUp = m.netifUp) (hready : m'.gReady = m.gReady)
    (hpoints : m'.points = m.points) (hrun : Advances P m.run m'.run) : Calm P m m' :=
  ⟨hfd, hgFd, hup, hready, ⟨[], by simp [hpoints], by simp⟩, hrun⟩

theorem Calm.refl (m : Main) : Calm P m m :=
  .same P rfl rfl rfl rfl rfl (.refl P _)

/-- A call of the session. -/
theorem Calm.call (m : Main) (op : Op) : Calm P m { m with run := m.run.step P op } :=
  .same P rfl rfl rfl rfl rfl ⟨[op], rfl⟩

theorem Calm.trans {m m' m'' : Main} (h : Calm P m m') (h' : Calm P m' m'') :
    Calm P m m'' := by
  obtain ⟨new, hnew, hall⟩ := h.points
  obtain ⟨new', hnew', hall'⟩ := h'.points
  refine ⟨h'.fd.trans h.fd, h'.gFd.trans h.gFd, h'.netifUp.trans h.netifUp,
    h'.gReady.trans h.gReady, ⟨new ++ new', ?_, ?_⟩, h.run.trans P h'.run⟩
  · rw [hnew', hnew, List.append_assoc]
  · intro p hp
    rcases List.mem_append.mp hp with hp | hp
    · exact hall p hp
    · have hlater := hall' p hp
      rwa [h.gReady, h.fd, h.gFd] at hlater

theorem Calm.foldl {α : Type} {f : Main → α → Main} (hf : ∀ m a, Calm P m (f m a)) :
    ∀ (l : List α) (m : Main), Calm P m (l.foldl f m) := by
  intro l
  induction l with
  | nil => exact Calm.refl P
  | cons a rest ih =>
      intro m
      exact (hf m a).trans P (ih (f m a))

/-! ### Stages that call into lwIP

Where lwIP runs, it does any number of things, each a packet or a callback of the fetch.  A
relation that survives those two and composes survives every stage that does nothing else;
the relations of several modules are carried through the loop by this one argument.
-/

/-- A relation that holds across every stage which only calls into lwIP. -/
structure LwipKeeps (cfg : Config) (R : Main → Main → Prop) : Prop where
  refl : ∀ m, R m m
  trans : ∀ {m m' m''}, R m m' → R m' m'' → R m m''
  /-- lwIP is entered. -/
  entered : ∀ m, m.gReady = true → R m { m with points := m.points ++ [⟨m.fd, m.gFd⟩] }
  /-- It hands a packet to the interface. -/
  output : ∀ m payload sysNow e, R m (tunnelOutput P cfg m payload sysNow e)
  /-- The fetch moves on. -/
  fetch : ∀ m http pcb bytes next,
    R m { m with http := http, httpPcb := pcb, httpBytes := bytes, nextFetch := next }

section LwipKeeps

variable {P} {cfg : Config} {R : Main → Main → Prop} (h : LwipKeeps P cfg R)

include h

theorem LwipKeeps.stackAct (m : Main) (a : StackAct) : R m (stackAct P cfg m a) := by
  have hfetch : ∀ http pcb bytes,
      R m { m with http := http, httpPcb := pcb, httpBytes := bytes } :=
    fun http pcb bytes => h.fetch m http pcb bytes m.nextFetch
  cases a with
  | output payload sysNow e => exact h.output m payload sysNow e
  | httpConnected err written =>
      rw [SysAwg.stackAct]
      split
      · exact h.refl m
      · split
        · exact hfetch _ m.httpPcb m.httpBytes
        · exact hfetch _ m.httpPcb m.httpBytes
  | httpFin =>
      rw [SysAwg.stackAct]
      split
      · exact h.refl m
      · exact hfetch _ m.httpPcb m.httpBytes
  | httpRecv err totLen =>
      rw [SysAwg.stackAct]
      split
      · exact h.refl m
      · split
        · exact hfetch _ m.httpPcb m.httpBytes
        · exact hfetch _ m.httpPcb _
  | httpErr =>
      rw [SysAwg.stackAct]
      split
      · exact h.refl m
      · exact hfetch _ _ m.httpBytes

theorem LwipKeeps.foldl (acts : List StackAct) :
    ∀ m, R m (acts.foldl (SysAwg.stackAct P cfg) m) := by
  induction acts with
  | nil => exact h.refl
  | cons a rest ih =>
      intro m
      exact h.trans (h.stackAct m a) (ih _)

theorem LwipKeeps.lwipRuns (acts : List StackAct) (m : Main) :
    R m (lwipRuns P cfg acts m) := by
  unfold SysAwg.lwipRuns
  split
  · rename_i hready
    exact h.trans (h.entered m hready) (h.foldl acts _)
  · exact h.refl m

theorem LwipKeeps.httpReset (acts : List StackAct) (m : Main) :
    R m (httpReset P cfg acts m) := by
  unfold SysAwg.httpReset
  split
  · exact h.trans (h.fetch m m.http false m.httpBytes m.nextFetch) (h.lwipRuns acts _)
  · exact h.refl m

theorem LwipKeeps.httpStart (e : PassEnv) (m : Main) : R m (httpStart P cfg e m) := by
  have hreset : R m { SysAwg.httpReset P cfg e.fetchReset m with httpBytes := 0 } :=
    h.trans (h.httpReset e.fetchReset m) (h.fetch _ _ _ 0 _)
  have hnew := h.trans hreset (h.lwipRuns e.fetchNewActs _)
  unfold SysAwg.httpStart
  dsimp only at hnew ⊢
  generalize SysAwg.lwipRuns P cfg e.fetchNewActs _ = u at hnew ⊢
  split
  · exact h.trans hnew (h.fetch _ .failed _ _ _)
  · have hopened := h.trans hnew (h.fetch u .connecting true u.httpBytes u.nextFetch)
    have hconn := h.trans hopened (h.lwipRuns e.fetchConnectActs _)
    split
    · exact hconn
    · exact h.trans hconn (h.fetch _ .failed _ _ _)

theorem LwipKeeps.fetchStage (e : PassEnv) (m : Main) : R m (fetchStage P cfg e m) := by
  have hreport : ∀ m', R m m' →
      R m (if m'.http = .done ∨ m'.http = .failed
        then { SysAwg.httpReset P cfg e.reportReset m' with http := .idle } else m') := by
    intro m' hm
    split
    · exact h.trans (h.trans hm (h.httpReset e.reportReset m')) (h.fetch _ .idle _ _ _)
    · exact hm
  unfold SysAwg.fetchStage
  dsimp only
  refine hreport _ ?_
  split
  · exact h.trans (h.httpStart e m) (h.fetch _ _ _ _ _)
  · exact h.refl m

end LwipKeeps

/-- One that holds across the draining of the socket as well. -/
structure DrainKeeps (cfg : Config) (R : Main → Main → Prop) : Prop extends LwipKeeps P cfg R where
  /-- The session is handed a datagram. -/
  datagram : ∀ m pkt nowMs, R m { m with run := m.run.step P (.onDatagram cfg pkt 2048 nowMs) }
  /-- The socket reports an error. -/
  died : ∀ m, R m { m with tunnelLost := true }

section DrainKeeps

variable {P} {cfg : Config} {R : Main → Main → Prop} (h : DrainKeeps P cfg R)

include h

theorem DrainKeeps.drainOne (m : Main) (d : Received) : R m (drainOne P cfg m d) := by
  have hcall := h.datagram m d.pkt d.nowMs
  unfold SysAwg.drainOne
  split
  · dsimp only
    split
    · exact h.trans hcall (h.lwipRuns d.acts _)
    · exact hcall
  · exact h.refl m

theorem DrainKeeps.drain (ds : List Received) :
    ∀ m, R m (ds.foldl (SysAwg.drainOne P cfg) m) := by
  induction ds with
  | nil => exact h.refl
  | cons d ds ih =>
      intro m
      exact h.trans (h.drainOne m d) (ih _)

theorem DrainKeeps.pollStage (e : PassEnv) (m : Main) : R m (pollStage P cfg e m) := by
  have hproxy : R m (if m.netifUp then SysAwg.lwipRuns P cfg e.pollActs m else m) := by
    split
    · exact h.lwipRuns e.pollActs m
    · exact h.refl m
  have hdied : ∀ m', R m m' →
      R m (if e.pollErr then { m' with tunnelLost := true } else m') := by
    intro m' hm
    split
    · exact h.trans hm (h.died m')
    · exact hm
  unfold SysAwg.pollStage
  split
  · exact h.refl m
  · dsimp only
    split
    · exact h.trans (hdied _ hproxy) (h.drain _ _)
    · exact hdied _ hproxy

end DrainKeeps

/-- Fields of the fetch and of the timers may change freely. -/
theorem Calm.with {m m' m'' : Main} (h : Calm P m m') (hfd : m''.fd = m'.fd)
    (hgFd : m''.gFd = m'.gFd) (hup : m''.netifUp = m'.netifUp) (hready : m''.gReady = m'.gReady)
    (hpoints : m''.points = m'.points) (hrun : m''.run = m'.run) : Calm P m m'' :=
  h.trans P (.same P hfd hgFd hup hready hpoints ⟨[], hrun⟩)

theorem tunnelOutput_calm (cfg : Config) (m : Main) (payload : Bytes) (sysNow : UInt32)
    (e : Entropy) : Calm P m (tunnelOutput P cfg m payload sysNow e) := by
  unfold tunnelOutput
  split
  · exact .refl P m
  · split
    · exact .refl P m
    · exact .call P m _

theorem calm_lwipKeeps (cfg : Config) : LwipKeeps P cfg (Calm P) where
  refl := Calm.refl P
  trans := Calm.trans P
  entered := fun m hready => ⟨rfl, rfl, rfl, rfl, ⟨_, rfl, by simp [hready]⟩, .refl P _⟩
  output := tunnelOutput_calm P cfg
  fetch := fun _ _ _ _ _ => .same P rfl rfl rfl rfl rfl (.refl P _)

theorem stackAct_calm (cfg : Config) (m : Main) (a : StackAct) :
    Calm P m (stackAct P cfg m a) :=
  (calm_lwipKeeps P cfg).stackAct m a

theorem lwipRuns_calm (cfg : Config) (acts : List StackAct) (m : Main) :
    Calm P m (lwipRuns P cfg acts m) :=
  (calm_lwipKeeps P cfg).lwipRuns acts m

theorem httpReset_calm (cfg : Config) (acts : List StackAct) (m : Main) :
    Calm P m (httpReset P cfg acts m) :=
  (calm_lwipKeeps P cfg).httpReset acts m

theorem fetchStage_calm (cfg : Config) (e : PassEnv) (m : Main) :
    Calm P m (fetchStage P cfg e m) :=
  (calm_lwipKeeps P cfg).fetchStage e m

/-- The outcome of a `sendto` is a matter of two fields. -/
theorem afterSend_eq (e : PassEnv) (m : Main) : ∃ (lost : Bool) (since : UInt64),
    afterSend e m = { m with tunnelLost := lost, unreachableSince := since } := by
  unfold afterSend
  split
  · exact ⟨m.tunnelLost, 0, rfl⟩
  · split
    · exact ⟨true, m.unreachableSince, rfl⟩
    · split
      · split
        · exact ⟨m.tunnelLost, e.now, rfl⟩
        · split
          · exact ⟨true, 0, rfl⟩
          · exact ⟨m.tunnelLost, m.unreachableSince, rfl⟩
      · exact ⟨m.tunnelLost, m.unreachableSince, rfl⟩

theorem afterSend_calm (e : PassEnv) (m : Main) : Calm P m (afterSend e m) := by
  obtain ⟨lost, since, heq⟩ := afterSend_eq e m
  rw [heq]
  exact .same P rfl rfl rfl rfl rfl (.refl P _)

theorem handshakeStage_calm (cfg : Config) (e : PassEnv) (m : Main) :
    Calm P m (handshakeStage P cfg e m) := by
  unfold handshakeStage
  split
  · exact .refl P m
  · split
    · dsimp only
      split
      · exact .call P m _
      · exact (Calm.call P m _).trans P (afterSend_calm P e _)
    · split
      · exact .call P m _
      · exact .refl P m

theorem calm_drainKeeps (cfg : Config) : DrainKeeps P cfg (Calm P) where
  toLwipKeeps := calm_lwipKeeps P cfg
  datagram := fun m _ _ => .call P m _
  died := fun _ => .same P rfl rfl rfl rfl rfl (.refl P _)

theorem pollStage_calm (cfg : Config) (e : PassEnv) (m : Main) :
    Calm P m (pollStage P cfg e m) :=
  (calm_drainKeeps P cfg).pollStage e m

/-- The stages after the interface is brought up. -/
def restOfPass (cfg : Config) (e : PassEnv) (m : Main) : Main :=
  timerStage P cfg e (pollStage P cfg e (fetchStage P cfg e m))

theorem restOfPass_calm (cfg : Config) (e : PassEnv) (m : Main) :
    Calm P m (restOfPass P cfg e m) :=
  ((fetchStage_calm P cfg e m).trans P (pollStage_calm P cfg e _)).trans P
    (lwipRuns_calm P cfg e.timers _)

theorem mainPass_eq (cfg : Config) (m : Main) (e : PassEnv) :
    mainPass P cfg m e = restOfPass P cfg e (netifStage e (handshakeStage P cfg e
      (rebuildStage P cfg e (powerStage P cfg e m)))) := rfl

/-! ### The other three stages

Every stage is one of a few assignments, chosen by tests on the state and on what the system
answered.  The lemmas give the assignment with the tests that led to it.
-/

/-- The interface is brought up on the descriptor `main` holds, or not touched. -/
theorem netifStage_cases (e : PassEnv) (m : Main) :
    netifStage e m = m ∨
      m.netifUp = false ∧ (netifStage e m).fd = m.fd ∧ (netifStage e m).gFd = m.fd ∧
        (netifStage e m).points = m.points ∧ (netifStage e m).run = m.run ∧
        ((netifStage e m).netifUp = true ∧ (netifStage e m).gReady = true ∨
          (netifStage e m).netifUp = m.netifUp ∧ (netifStage e m).gReady = m.gReady) := by
  unfold netifStage
  split
  · rename_i hdown
    refine Or.inr ⟨hdown.2, ?_⟩
    unfold awgNetifStart
    dsimp only
    split
    · exact ⟨rfl, rfl, rfl, rfl, Or.inl ⟨rfl, rfl⟩⟩
    · exact ⟨rfl, rfl, rfl, rfl, Or.inr ⟨rfl, rfl⟩⟩
  · exact Or.inl rfl

/-- `awg_power_transition` is asked in this pass, and says yes. -/
def Noticed (m : Main) (e : PassEnv) : Prop := e.now ≥ m.nextPower ∧ e.power = true

/-- A sleep noticed over a running tunnel tears it down; else all is left to the rebuild. -/
theorem powerStage_cases (cfg : Config) (e : PassEnv) (m : Main) :
    (m.tunnelLost = false ∧ ∃ u, Calm P m u ∧ powerStage P cfg e m
        = { u with fd := -1, gFd := -1, run := u.run.step P .wipe, tunnelLost := true }) ∨
      (Noticed m e → m.run.sess.established = true → m.tunnelLost = true) ∧
        Calm P m (powerStage P cfg e m) ∧ (powerStage P cfg e m).tunnelLost = m.tunnelLost ∧
        (powerStage P cfg e m).nextRebuild = m.nextRebuild ∧
        (powerStage P cfg e m).run = m.run := by
  unfold powerStage powerTransition
  split
  · split
    · split
      · rename_i hgo
        have hset : Calm P m { m with nextPower := e.now + 1000, unreachableSince := 0 } :=
          .same P rfl rfl rfl rfl rfl (.refl P _)
        exact Or.inl ⟨hgo.2, _, hset.trans P (lwipRuns_calm P cfg e.powerStop _), rfl⟩
      · rename_i hgo
        refine Or.inr ⟨?_, .same P rfl rfl rfl rfl rfl (.refl P _), rfl, rfl, rfl⟩
        intro _ hest
        by_contra hlost
        exact hgo ⟨hest, by simpa using hlost⟩
    · rename_i hno
      refine Or.inr ⟨?_, .same P rfl rfl rfl rfl rfl (.refl P _), rfl, rfl, rfl⟩
      intro hnoticed
      exact absurd hnoticed.2 hno
  · rename_i hearly
    refine Or.inr ⟨?_, .refl P m, rfl, rfl, rfl⟩
    intro hnoticed
    exact absurd hnoticed.1 hearly

/-- A rebuild that is due closes the old socket, and replaces it if it can. -/
theorem rebuildStage_cases (cfg : Config) (e : PassEnv) (m : Main) :
    (¬ (m.tunnelLost = true ∧ e.now ≥ m.nextRebuild) ∧ rebuildStage P cfg e m = m) ∨
      (m.tunnelLost = true ∧ e.now ≥ m.nextRebuild) ∧ ∃ u, Calm P m u ∧
        (e.socket = none ∧ rebuildStage P cfg e m = { u with fd := -1 } ∨
          ∃ fd : Nat, e.socket = some fd ∧ Calm P
            { u with fd := fd, gFd := fd, run := u.run.step P (.init cfg e.draws) }
            (rebuildStage P cfg e m)) := by
  unfold rebuildStage
  split
  · rename_i hdue
    refine Or.inr ⟨hdue, ?_⟩
    dsimp only
    have hset : Calm P m { m with nextRebuild := e.now + 3000 } :=
      .same P rfl rfl rfl rfl rfl (.refl P _)
    have hstop := hset.trans P (lwipRuns_calm P cfg e.rebuildStop _)
    refine ⟨_, hstop, ?_⟩
    generalize lwipRuns P cfg e.rebuildStop _ = u
    rcases hsocket : e.socket with _ | fd
    · exact Or.inl ⟨rfl, rfl⟩
    · refine Or.inr ⟨fd, rfl, ?_⟩
      exact (httpReset_calm P cfg e.rebuildReset _).with P rfl rfl rfl rfl rfl rfl
  · rename_i hnot
    exact Or.inl ⟨hnot, rfl⟩

theorem powerStage_advances (cfg : Config) (e : PassEnv) (m : Main) :
    Advances P m.run (powerStage P cfg e m).run := by
  rcases powerStage_cases P cfg e m with ⟨-, u, hu, heq⟩ | ⟨-, hcalm, -⟩
  · rw [heq]
    exact hu.run.trans P ⟨[.wipe], rfl⟩
  · exact hcalm.run

theorem rebuildStage_advances (cfg : Config) (e : PassEnv) (m : Main) :
    Advances P m.run (rebuildStage P cfg e m).run := by
  rcases rebuildStage_cases P cfg e m with ⟨-, heq⟩ | ⟨-, u, hu, ⟨-, heq⟩ | ⟨fd, -, hnew⟩⟩
  · rw [heq]
    exact .refl P _
  · rw [heq]
    exact hu.run
  · exact (hu.run.trans P ⟨[.init cfg e.draws], rfl⟩).trans P hnew.run

/-- From the rebuild on, a pass only calls the session. -/
theorem afterRebuild_advances (cfg : Config) (m : Main) (e : PassEnv) :
    Advances P (rebuildStage P cfg e (powerStage P cfg e m)).run (mainPass P cfg m e).run := by
  have hnetif : ∀ m', Advances P m'.run (netifStage e m').run := by
    intro m'
    rcases netifStage_cases e m' with heq | ⟨-, -, -, -, hrun, -⟩
    · rw [heq]
      exact .refl P _
    · rw [hrun]
      exact .refl P _
  rw [mainPass_eq]
  exact ((handshakeStage_calm P cfg e _).run.trans P (hnetif _)).trans P
    (restOfPass_calm P cfg e _).run

theorem mainPass_advances (cfg : Config) (m : Main) (e : PassEnv) :
    Advances P m.run (mainPass P cfg m e).run :=
  ((powerStage_advances P cfg e m).trans P (rebuildStage_advances P cfg e _)).trans P
    (afterRebuild_advances P cfg m e)

theorem mainRun_snoc (cfg : Config) (fd : Nat) (draws : Fin 5 → Entropy) (es : List PassEnv)
    (e : PassEnv) :
    mainRun P cfg fd draws (es ++ [e]) = mainPass P cfg (mainRun P cfg fd draws es) e := by
  unfold mainRun
  rw [List.foldl_append]
  rfl

theorem foldl_mainPass_advances (cfg : Config) (es : List PassEnv) (m : Main) :
    Advances P m.run (es.foldl (mainPass P cfg) m).run := by
  induction es generalizing m with
  | nil => exact .refl P _
  | cons e es ih => exact (mainPass_advances P cfg m e).trans P (ih (mainPass P cfg m e))

/-! ### A short run

The socket dies before the first answer.  The tunnel is rebuilt, the peer answers at once,
and the new socket may die too.  A second later a sleep is noticed; a rebuild would not be
due. -/

section ShortRun

variable (cfg : Config)

/-- The client meets its peer a tenth of a second into the run. -/
def loopMeeting : Meeting := startedMeeting cfg 100 110

def passDies : PassEnv := { PassEnv.quiet 0 with pollErr := true }

def passAnswered (dies : Bool) : PassEnv :=
  { PassEnv.quiet 100 with
    socket := some 4
    idx := (loopMeeting cfg).idx
    eph := (loopMeeting cfg).eph
    nanos := (loopMeeting cfg).nanos
    pad := (loopMeeting cfg).pad
    nowSeconds := (loopMeeting cfg).nowSeconds
    pollErr := dies
    pollIn := true
    datagrams := [⟨true, (loopMeeting cfg).reply P cfg, 110, []⟩] }

def passWakes : PassEnv := { PassEnv.quiet 1100 with power := true }

def diedOnce (r : Run) : Main :=
  { Main.start cfg 3 (fun _ _ => 0) with run := r, tunnelLost := true, nextPower := 1000 }

/-- `main` when the peer has answered over the second. -/
def upAgain (dies : Bool) (r : Run) : Main :=
  { diedOnce cfg r with fd := 4, tunnelLost := dies, nextRebuild := 3100, gFd := 4 }

def woken (r : Run) : Main :=
  { upAgain cfg true r with
    netifUp := true
    nextPower := 2100
    nextFetch := 301100
    gSess := true
    gReady := true
    points := [⟨4, 4⟩, ⟨4, 4⟩, ⟨4, 4⟩] }

/-- A session that was answered at 110 ms. -/
structure AnsweredAt110 (s : Session) : Prop where
  established : s.established = true
  handshaking : s.handshaking = false
  establishedMs : s.establishedMs = 110
  lastTxMs : s.lastTxMs = 110
  rekeyAfterS : s.rekeyAfterS = 120
  keepaliveS : s.keepaliveS = 25

theorem AnsweredAt110.idle {s : Session} (h : AnsweredAt110 s) (now : UInt64)
    (hnow : now - 110 < 25000) :
    awgSessionNeedsHandshake s now = false ∧ awgSessionNeedsKeepalive s now = false := by
  have hrekey : ¬ now - 110 ≥ secondsToMs 120 := by
    rw [show secondsToMs 120 = 120000 from rfl]
    intro hle
    have := UInt64.lt_of_le_of_lt hle hnow
    exact absurd this (by decide)
  have hkeep : ¬ now - 110 ≥ secondsToMs 25 := by
    rw [show secondsToMs 25 = 25000 from rfl]
    exact UInt64.not_le.mpr hnow
  refine ⟨?_, ?_⟩
  · simp [awgSessionNeedsHandshake, h.established, h.handshaking, h.establishedMs, h.rekeyAfterS,
      hrekey]
  · simp [awgSessionNeedsKeepalive, h.established, h.lastTxMs, h.keepaliveS, hkeep]

/-- The timers a configuration leaves at their defaults. -/
def DefaultTimers : Prop :=
  (loopMeeting cfg).sess.rekeyAfterS = 120 ∧ (loopMeeting cfg).sess.keepaliveS = 25

theorem loopMeeting_answered (htalks : (loopMeeting cfg).Talks P cfg)
    (htimers : DefaultTimers cfg) :
    AnsweredAt110 ((loopMeeting cfg).answered P cfg ((loopMeeting cfg).reply P cfg)).sess := by
  obtain ⟨hest, hidle, hms, htx, hdrawn⟩ := htalks.answered P
  simp only [Session.drawn, List.cons.injEq] at hdrawn
  obtain ⟨hrekey, -, hkeep, -⟩ := hdrawn
  exact ⟨hest, hidle, hms, htx, hrekey.trans htimers.1, hkeep.trans htimers.2⟩

theorem after_passDies :
    ∃ r : Run, r.log = [] ∧ r.drop = ⟨0, false⟩ ∧
      mainPass P cfg (Main.start cfg 3 fun _ _ => 0) passDies = diedOnce cfg r := by
  set r₀ := Run.start cfg fun _ _ => 0 with hr₀
  refine ⟨r₀.step P (.buildInitiation cfg 4096 0 (fun _ => 0) (fun _ => 0)
    (fun _ => 0) (fun _ => 0) 0), rfl, rfl, ?_⟩
  have hneed : awgSessionNeedsHandshake r₀.sess 0 = true := rfl
  have hest : (r₀.step P (.buildInitiation cfg 4096 0 (fun _ => 0) (fun _ => 0)
      (fun _ => 0) (fun _ => 0) 0)).sess.established = false :=
    (buildInitiation_step P cfg r₀.sess 4096 0 _ _ _ _ 0).1.established
  -- sent or not, the first initiation is not answered
  rcases hbuilt : (awgSessionBuildInitiation P cfg r₀.sess 4096 0 (fun _ => 0)
    (fun _ => 0) (fun _ => 0) (fun _ => 0) 0).2 with _ | pkt
  · simp [mainPass, powerStage, rebuildStage, handshakeStage, netifStage, fetchStage, pollStage,
      timerStage, lwipRuns, passDies, PassEnv.quiet, diedOnce, Main.start, ← hr₀, hneed, hbuilt,
      hest]
  · simp [mainPass, powerStage, rebuildStage, handshakeStage, netifStage, fetchStage, pollStage,
      timerStage, lwipRuns, passDies, PassEnv.quiet, diedOnce, Main.start, ← hr₀, hneed, hbuilt,
      hest, afterSend]

theorem after_passAnswered (htalks : (loopMeeting cfg).Talks P cfg) (htimers : DefaultTimers cfg)
    (dies : Bool) {r : Run} (hr : r.log = []) (hdrop : r.drop = ⟨0, false⟩) :
    ∃ r' : Run, AnsweredAt110 r'.sess ∧ r'.curId = 0 ∧ (installedIn r'.log).length = 1 ∧
      mainPass P cfg (diedOnce cfg r) (passAnswered P cfg dies) = upAgain cfg dies r' := by
  obtain ⟨hsent, hresult⟩ := htalks.reply P
  obtain ⟨pkt, hpkt⟩ := Option.isSome_iff_exists.mp hsent
  have hanswered := loopMeeting_answered P cfg htalks htimers
  set r₁ : Run := { r with sess := (loopMeeting cfg).sess } with hr₁
  set r₂ : Run := { r with sess := ((loopMeeting cfg).initiation P cfg).1 } with hr₂
  set o := (loopMeeting cfg).answered P cfg ((loopMeeting cfg).reply P cfg) with ho
  have hrx : awgSessionOnDatagram P cfg r.drop r₂.sess ((loopMeeting cfg).reply P cfg) 2048 110
      = o := by
    rw [hdrop]
    rfl
  have hlogged : r₂.logRx o = { r₂ with
      sess := o.sess
      drop := o.drop
      curId := (installedIn r.log).length
      prevId := if r₂.sess.established then r.curId else r.prevId
      log := r.log ++ [.installed o.sess.cur] } := by
    rw [Run.logRx]
    simp only [hresult, hr₂]
  refine ⟨r₂.logRx o, ?_, ?_, ?_, ?_⟩
  · rw [hlogged]
    exact hanswered
  · rw [hlogged, hr]
    rfl
  · rw [hlogged, hr]
    rfl
  · have hinit : r.step P (.init cfg fun _ _ => 0) = r₁ := rfl
    have hneed : awgSessionNeedsHandshake r₁.sess 100 = true := rfl
    have hbuilt : (awgSessionBuildInitiation P cfg r₁.sess 4096 100 (loopMeeting cfg).idx
        (loopMeeting cfg).eph (loopMeeting cfg).nanos (loopMeeting cfg).pad
        (loopMeeting cfg).nowSeconds).2 = some pkt := hpkt
    have hbuild : r₁.step P (.buildInitiation cfg 4096 100 (loopMeeting cfg).idx
        (loopMeeting cfg).eph (loopMeeting cfg).nanos (loopMeeting cfg).pad
        (loopMeeting cfg).nowSeconds) = r₂ := rfl
    have hest : r₂.sess.established = false :=
      (buildInitiation_step P cfg r₁.sess 4096 100 _ _ _ _ _).1.established
    have htake : r₂.step P (.onDatagram cfg ((loopMeeting cfg).reply P cfg) 2048 110)
        = r₂.logRx o := by
      rw [← hrx]
      rfl
    have hnotData : (awgSessionOnDatagram P cfg r₂.drop r₂.sess ((loopMeeting cfg).reply P cfg) 2048
        110).result ≠ .payload := by
      show (awgSessionOnDatagram P cfg r.drop r₂.sess _ 2048 110).result ≠ .payload
      rw [hrx, hresult]
      simp
    cases dies <;>
      simp [mainPass, powerStage, rebuildStage, rebuilt, httpReset, handshakeStage, netifStage,
        fetchStage, pollStage, timerStage, lwipRuns, drainOne, passAnswered, PassEnv.quiet,
        upAgain, diedOnce, Main.start, afterSend, hinit, hneed, hbuilt, hbuild, hest, htake,
        hnotData]

theorem after_passWakes {r : Run} (hr : AnsweredAt110 r.sess) :
    mainPass P cfg (upAgain cfg true r) passWakes = woken cfg r := by
  obtain ⟨hneed, hkeep⟩ := hr.idle 1100 (by decide)
  simp [mainPass, powerStage, powerTransition, rebuildStage, handshakeStage, netifStage,
    awgNetifStart, fetchStage, httpStart, httpReset, pollStage, timerStage, lwipRuns, passWakes,
    PassEnv.quiet, woken, upAgain, diedOnce, Main.start, hneed, hkeep, hr.established]

/-- The run up to the answer. -/
def answeredRun (dies : Bool) : List PassEnv := [passDies, passAnswered P cfg dies]

theorem mainRun_answered (htalks : (loopMeeting cfg).Talks P cfg) (htimers : DefaultTimers cfg)
    (dies : Bool) :
    ∃ r : Run, AnsweredAt110 r.sess ∧ r.curId = 0 ∧ (installedIn r.log).length = 1 ∧
      mainRun P cfg 3 (fun _ _ => 0) (answeredRun P cfg dies) = upAgain cfg dies r := by
  obtain ⟨r, hr, hdrop, hfirst⟩ := after_passDies P cfg
  obtain ⟨r', hanswered, hid, hone, hsecond⟩ :=
    after_passAnswered P cfg htalks htimers dies hr hdrop
  refine ⟨r', hanswered, hid, hone, ?_⟩
  show mainPass P cfg (mainPass P cfg (Main.start cfg 3 fun _ _ => 0) passDies) _ = _
  rw [hfirst, hsecond]

end ShortRun

theorem defaultTimers_words : DefaultTimers (wordsConfig 1 2) := by
  simp [DefaultTimers, loopMeeting, startedMeeting, awgSessionInit, wordsConfig, Config.default,
    awgRangePick, drawnOr]

end SysAwg
