/-
How often the loop starts a handshake.

`awg_session_needs_handshake` looks at one of two clocks: the sending of the attempt that
is outstanding, or the establishment of the session.  An initiation starts the first, and
a completed handshake stops it and starts the second; nothing else touches either, and a
session that is wiped is out of reach until the next `awg_session_init`.  `Paced` says so
for the time after one initiation, up to the next.

So two initiations are compared through the passes between them.  A pass is cut at its
handshake: up to there it may lose the socket but starts nothing (`atHandshake_cases`),
and from there on only a datagram can change anything (`Paced.restOfPass`).  Between two
initiations this makes `Paced` a property of every pass, and the test before the second
says that one of the clocks has run out (`Paced.apart`).
-/
import SysAwg.Proofs.MainLoop
import SysAwg.Proofs.Keypairs
import SysAwg.Lib.Checked

namespace SysAwg

variable (P : Primitives)

/-! ### One call

Only two things are read by `awg_session_needs_handshake`: whether an attempt is out and
since when, and whether a session is up and since when, each with its own limit.
-/

/-- What `awg_session_needs_handshake` looks at. -/
structure Pace where
  handshaking : Bool
  sentMs : UInt64
  established : Bool
  establishedMs : UInt64
  timeoutS : Int
  afterS : Int

def Session.pace (s : Session) : Pace :=
  ⟨s.handshaking, s.handshakeSentMs, s.established, s.establishedMs, s.rekeyTimeoutS,
    s.rekeyAfterS⟩

theorem buildData_pace (cfg : Config) (s : Session) (payload : Bytes) (outCap : Int)
    (nowMs : UInt64) (e : Entropy) :
    (awgSessionBuildData P cfg s payload outCap nowMs e).1.pace = s.pace := by
  unfold awgSessionBuildData
  split
  · rfl
  · split
    · rfl
    · split
      · rfl
      · rfl

theorem buildKeepalive_pace (cfg : Config) (s : Session) (outCap : Int) (nowMs : UInt64)
    (e : Entropy) : (awgSessionBuildKeepalive P cfg s outCap nowMs e).1.pace = s.pace := by
  obtain ⟨keepalives, packets, heq⟩ := buildKeepalive_eq P cfg s outCap nowMs e
  rw [heq]
  exact buildData_pace P cfg s [] outCap nowMs e

/-- An initiation starts the clock of the attempt; a failed one starts nothing. -/
theorem buildInitiation_pace (cfg : Config) (s : Session) (outCap : Int) (nowMs : UInt64)
    (idx eph nanos pad : Entropy) (nowSeconds : UInt64) :
    let out := awgSessionBuildInitiation P cfg s outCap nowMs idx eph nanos pad nowSeconds
    out.2 = none ∧ out.1.pace = s.pace ∨
      out.2.isSome = true ∧ out.1.pace = { s.pace with handshaking := true, sentMs := nowMs } := by
  unfold awgSessionBuildInitiation
  dsimp only
  generalize awgHandshakeBegin P cfg.privateKey _ _ _ = begun
  split
  · exact .inl ⟨rfl, rfl⟩
  · split
    · exact .inl ⟨rfl, rfl⟩
    · exact .inr ⟨rfl, rfl⟩

/-- The two clocks of the handshake, and the one of the keepalive. -/
def Session.clocks (s : Session) : Pace × UInt64 × Int := (s.pace, s.lastTxMs, s.keepaliveS)

theorem rxTransport_clocks (cfg : Config) (g : ReplayDrop) (s : Session) (pkt : Bytes)
    (payloadCap : Int) (nowMs : UInt64) :
    (rxTransport P cfg g s pkt payloadCap nowMs).sess.clocks = s.clocks ∧
      (rxTransport P cfg g s pkt payloadCap nowMs).result ≠ .established := by
  have hexpire : (s.expirePrev nowMs).clocks = s.clocks := by
    unfold Session.expirePrev
    split
    · rfl
    · rfl
  obtain ⟨hrest, hresult⟩ := rxTransport_unreceived P cfg g s pkt payloadCap nowMs
  refine ⟨?_, hresult⟩
  exact (congrArg Session.clocks hrest).trans hexpire

/-- **A datagram stops the attempt and starts the session's clocks exactly if it completes
the handshake.** -/
theorem onDatagram_clocks (cfg : Config) (g : ReplayDrop) (s : Session) (pkt : Bytes)
    (payloadCap : Int) (nowMs : UInt64) :
    (awgSessionOnDatagram P cfg g s pkt payloadCap nowMs).sess.clocks =
      if (awgSessionOnDatagram P cfg g s pkt payloadCap nowMs).result = .established
      then ({ s.pace with handshaking := false, established := true, establishedMs := nowMs },
        nowMs, s.keepaliveS)
      else s.clocks := by
  unfold awgSessionOnDatagram
  dsimp only
  split
  · split
    · rfl
    · split
      · rfl
      · rename_i pending hconsume
        rw [if_pos rfl]
        unfold Session.promote
        dsimp only
        split
        · rfl
        · rfl
  · split
    · rfl
    · obtain ⟨hclocks, hresult⟩ := rxTransport_clocks P cfg g s pkt payloadCap nowMs
      rw [if_neg hresult, hclocks]

theorem onDatagram_pace (cfg : Config) (g : ReplayDrop) (s : Session) (pkt : Bytes)
    (payloadCap : Int) (nowMs : UInt64) :
    (awgSessionOnDatagram P cfg g s pkt payloadCap nowMs).sess.pace =
      if (awgSessionOnDatagram P cfg g s pkt payloadCap nowMs).result = .established
      then { s.pace with handshaking := false, established := true, establishedMs := nowMs }
      else s.pace := by
  have hclocks := congrArg Prod.fst (onDatagram_clocks P cfg g s pkt payloadCap nowMs)
  rw [apply_ite Prod.fst] at hclocks
  exact hclocks

/-! ### Stages -/

/-- The descriptor, the clocks and the keypairs installed are what they were. -/
structure PaceKept (m m' : Main) : Prop where
  fd : m'.fd = m.fd
  pace : m'.run.sess.pace = m.run.sess.pace
  installed : installedIn m'.run.log = installedIn m.run.log

theorem PaceKept.refl (m : Main) : PaceKept m m := ⟨rfl, rfl, rfl⟩

theorem PaceKept.trans {m m' m'' : Main} (h : PaceKept m m') (h' : PaceKept m' m'') :
    PaceKept m m'' :=
  ⟨h'.fd.trans h.fd, h'.pace.trans h.pace, h'.installed.trans h.installed⟩

/-- A builder of data packets logs no installation. -/
theorem PaceKept.sealing (m : Main) {out : Session × Option (Int × Bytes)}
    (hpace : out.1.pace = m.run.sess.pace) :
    PaceKept m { m with run := m.run.logSeal out } := by
  obtain ⟨s, sealed⟩ := out
  cases sealed with
  | none => exact ⟨rfl, hpace, rfl⟩
  | some packet => exact ⟨rfl, hpace, by simp [Run.logSeal]⟩

theorem tunnelOutput_paceKept (cfg : Config) (m : Main) (payload : Bytes) (sysNow : UInt32)
    (e : Entropy) : PaceKept m (tunnelOutput P cfg m payload sysNow e) := by
  unfold tunnelOutput
  split
  · exact .refl m
  · split
    · exact .refl m
    · exact .sealing m (buildData_pace P cfg m.run.sess payload 2048 sysNow.toUInt64 e)

theorem paceKept_lwipKeeps (cfg : Config) : LwipKeeps P cfg PaceKept where
  refl := .refl
  trans := .trans
  entered := fun _ _ => ⟨rfl, rfl, rfl⟩
  output := tunnelOutput_paceKept P cfg
  fetch := fun _ _ _ _ _ => ⟨rfl, rfl, rfl⟩

theorem afterSend_paceKept (e : PassEnv) (m : Main) : PaceKept m (afterSend e m) := by
  obtain ⟨lost, since, heq⟩ := afterSend_eq e m
  rw [heq]
  exact ⟨rfl, rfl, rfl⟩

theorem netifStage_paceKept (e : PassEnv) (m : Main) : PaceKept m (netifStage e m) := by
  rcases netifStage_cases e m with heq | ⟨-, hfd, -, -, hrun, -⟩
  · rw [heq]
    exact .refl m
  · exact ⟨hfd, by rw [hrun], by rw [hrun]⟩

/-- `main` as it comes to the handshake in a pass. -/
def atHandshake (cfg : Config) (m : Main) (e : PassEnv) : Main :=
  rebuildStage P cfg e (powerStage P cfg e m)

/-- The pass hands an initiation to its caller. -/
def Initiates (cfg : Config) (m : Main) (e : PassEnv) : Prop :=
  ¬ (atHandshake P cfg m e).fd < 0 ∧
    awgSessionNeedsHandshake (atHandshake P cfg m e).run.sess e.now = true ∧
    (awgSessionBuildInitiation P cfg (atHandshake P cfg m e).run.sess 4096 e.now e.idx e.eph
      e.nanos e.pad e.nowSeconds).2.isSome = true

/-- The pass calls `awg_session_init`: a rebuild is due, and `socket` succeeds. -/
def Reinits (cfg : Config) (m : Main) (e : PassEnv) : Prop :=
  (powerStage P cfg e m).tunnelLost = true ∧ e.now ≥ (powerStage P cfg e m).nextRebuild ∧
    e.socket.isSome = true

/-- Up to the handshake, a pass that does not call `awg_session_init` keeps the clocks or
loses the socket. -/
theorem atHandshake_cases {cfg : Config} {m : Main} {e : PassEnv} (h : ¬ Reinits P cfg m e) :
    (atHandshake P cfg m e).fd < 0 ∨ PaceKept m (atHandshake P cfg m e) := by
  have hpower : (powerStage P cfg e m).fd < 0 ∨ PaceKept m (powerStage P cfg e m) := by
    rcases powerStage_cases P cfg e m with ⟨-, u, -, heq⟩ | ⟨-, hcalm, -, -, hrun⟩
    · rw [heq]
      exact .inl (show (-1 : Int) < 0 by decide)
    · exact .inr ⟨hcalm.fd, by rw [hrun], by rw [hrun]⟩
  unfold atHandshake
  rcases rebuildStage_cases P cfg e (powerStage P cfg e m) with
    ⟨-, heq⟩ | ⟨hdue, u, -, ⟨-, heq⟩ | ⟨fd, hsocket, -⟩⟩
  · rw [heq]
    exact hpower
  · rw [heq]
    exact .inl (show (-1 : Int) < 0 by decide)
  · exact absurd ⟨hdue.1, hdue.2, by rw [hsocket]; rfl⟩ h

theorem handshakeStage_paceKept {cfg : Config} {u : Main} {e : PassEnv}
    (h : ¬ (¬ u.fd < 0 ∧ awgSessionNeedsHandshake u.run.sess e.now = true ∧
      (awgSessionBuildInitiation P cfg u.run.sess 4096 e.now e.idx e.eph e.nanos e.pad
        e.nowSeconds).2.isSome = true)) : PaceKept u (handshakeStage P cfg e u) := by
  unfold handshakeStage
  split
  · exact .refl u
  · rename_i hfd
    split
    · rename_i hneeds
      have hpace := buildInitiation_pace P cfg u.run.sess 4096 e.now e.idx e.eph e.nanos e.pad
        e.nowSeconds
      dsimp only at hpace ⊢
      rcases hpace with ⟨hnone, hsame⟩ | ⟨hsome, -⟩
      · rw [hnone]
        exact ⟨rfl, hsame, rfl⟩
      · exact absurd ⟨hfd, hneeds, hsome⟩ h
    · split
      · exact .sealing u (buildKeepalive_pace P cfg u.run.sess 4096 e.now e.pad)
      · exact .refl u

theorem handshakeStage_initiates {cfg : Config} {u : Main} {e : PassEnv} (hfd : ¬ u.fd < 0)
    (hneeds : awgSessionNeedsHandshake u.run.sess e.now = true)
    (hsome : (awgSessionBuildInitiation P cfg u.run.sess 4096 e.now e.idx e.eph e.nanos e.pad
      e.nowSeconds).2.isSome = true) :
    (handshakeStage P cfg e u).run.sess.pace
        = { u.run.sess.pace with handshaking := true, sentMs := e.now } ∧
      installedIn (handshakeStage P cfg e u).run.log = installedIn u.run.log := by
  have hpace := buildInitiation_pace P cfg u.run.sess 4096 e.now e.idx e.eph e.nanos e.pad
    e.nowSeconds
  dsimp only at hpace
  obtain ⟨out, hout⟩ := Option.isSome_iff_exists.mp hsome
  rcases hpace with ⟨hnone, -⟩ | ⟨-, hstarted⟩
  · rw [hnone] at hout
    cases hout
  · unfold handshakeStage
    rw [if_neg hfd, if_pos hneeds]
    dsimp only
    rw [hout]
    have hkept := afterSend_paceKept e { u with
      run := u.run.step P (.buildInitiation cfg 4096 e.now e.idx e.eph e.nanos e.pad e.nowSeconds) }
    exact ⟨hkept.pace.trans hstarted, hkept.installed⟩

/-! ### After an initiation

After an initiation the session is in one of three conditions, and none of them lets the
next initiation come early.  The conditions follow each other in one direction until the
next initiation, or until `awg_session_init`.
-/

/-- After an initiation at `t`, when `n` keypairs had been installed: the socket is gone,
or the attempt is still outstanding, or it was answered and the session established.
`future` are the clock readings still to come. -/
inductive Paced (t : UInt64) (timeoutS afterS : Int) (n : Nat) (future : List UInt64) (m : Main) :
    Prop
  | down (hfd : m.fd < 0)
  | waiting (hhandshaking : m.run.sess.handshaking = true)
      (hsent : m.run.sess.handshakeSentMs = t) (htimeout : m.run.sess.rekeyTimeoutS = timeoutS)
      (hafter : m.run.sess.rekeyAfterS = afterS) (hn : (installedIn m.run.log).length = n)
  | answered (hhandshaking : m.run.sess.handshaking = false)
      (hest : m.run.sess.established = true) (hsince : t ≤ m.run.sess.establishedMs)
      (hfuture : ∀ x ∈ future, m.run.sess.establishedMs ≤ x)
      (hafter : m.run.sess.rekeyAfterS = afterS) (hn : n < (installedIn m.run.log).length)

section Paced

variable {t : UInt64} {timeoutS afterS : Int} {n : Nat} {future future' : List UInt64} {m m' : Main}

theorem Paced.keep (h : Paced t timeoutS afterS n future m) (hkept : PaceKept m m') :
    Paced t timeoutS afterS n future m' := by
  obtain ⟨hfd, hpace, hinst⟩ := hkept
  have hhandshaking := congrArg Pace.handshaking hpace
  have hsentMs := congrArg Pace.sentMs hpace
  have hestablished := congrArg Pace.established hpace
  have hestablishedMs := congrArg Pace.establishedMs hpace
  have htimeoutS := congrArg Pace.timeoutS hpace
  have hafterS := congrArg Pace.afterS hpace
  dsimp only [Session.pace] at hhandshaking hsentMs hestablished hestablishedMs htimeoutS hafterS
  cases h with
  | down hdown => exact .down (hfd ▸ hdown)
  | waiting hhand hsent htimeout hafter hn =>
      exact .waiting (hhandshaking.trans hhand) (hsentMs.trans hsent) (htimeoutS.trans htimeout)
        (hafterS.trans hafter) (hinst ▸ hn)
  | answered hhand hest hsince hfuture hafter hn =>
      exact .answered (hhandshaking.trans hhand) (hestablished.trans hest)
        (hestablishedMs ▸ hsince) (hestablishedMs ▸ hfuture) (hafterS.trans hafter) (hinst ▸ hn)

theorem Paced.later (h : Paced t timeoutS afterS n future m) (hsub : future' ⊆ future) :
    Paced t timeoutS afterS n future' m := by
  cases h with
  | down hdown => exact .down hdown
  | waiting hhand hsent htimeout hafter hn => exact .waiting hhand hsent htimeout hafter hn
  | answered hhand hest hsince hfuture hafter hn =>
      exact .answered hhand hest hsince (fun x hx => hfuture x (hsub hx)) hafter hn

/-- With a socket, the session still has its timers, and its history. -/
theorem Paced.alive (h : Paced t timeoutS afterS n future m) :
    m.fd < 0 ∨ m.run.sess.rekeyAfterS = afterS ∧ n ≤ (installedIn m.run.log).length := by
  cases h with
  | down hdown => exact .inl hdown
  | waiting _ _ _ hafter hn => exact .inr ⟨hafter, hn.ge⟩
  | answered _ _ _ _ hafter hn => exact .inr ⟨hafter, hn.le⟩

theorem Paced.onDatagram (cfg : Config) (pkt : Bytes) {nowMs : UInt64}
    (h : Paced t timeoutS afterS n (nowMs :: future) m) (ht : t ≤ nowMs)
    (hnow : ∀ x ∈ future, nowMs ≤ x) :
    Paced t timeoutS afterS n future
      { m with run := m.run.step P (.onDatagram cfg pkt 2048 nowMs) } := by
  have hpace := onDatagram_pace P cfg m.run.drop m.run.sess pkt 2048 nowMs
  have hsess := logRx_sess m.run (awgSessionOnDatagram P cfg m.run.drop m.run.sess pkt 2048 nowMs)
  by_cases hresult : (awgSessionOnDatagram P cfg m.run.drop m.run.sess pkt 2048 nowMs).result
      = .established
  · rw [if_pos hresult, ← hsess] at hpace
    have hlen : (installedIn (m.run.step P (.onDatagram cfg pkt 2048 nowMs)).log).length
        = (installedIn m.run.log).length + 1 := by
      rw [Run.step, logRx_established hresult, installedIn_installed, List.length_append]
      rfl
    rcases h.alive with hdown | ⟨hafter, hn⟩
    · exact .down hdown
    · have hms := congrArg Pace.establishedMs hpace
      refine .answered (congrArg Pace.handshaking hpace) (congrArg Pace.established hpace) ?_ ?_
        ((congrArg Pace.afterS hpace).trans hafter) ?_
      · exact le_of_le_of_eq ht hms.symm
      · intro x hx
        exact le_of_eq_of_le hms (hnow x hx)
      · show n < (installedIn (m.run.step P (.onDatagram cfg pkt 2048 nowMs)).log).length
        omega
  · rw [if_neg hresult, ← hsess] at hpace
    obtain ⟨-, -, hinst⟩ := logRx_other (r := m.run) hresult
    refine (h.later (List.subset_cons_self _ _)).keep ⟨rfl, hpace, hinst⟩

theorem Paced.drain {cfg : Config} (ds : List Received) :
    ∀ {m : Main}, (t :: (ds.map Received.nowMs ++ future)).Pairwise (· ≤ ·) →
      Paced t timeoutS afterS n (ds.map Received.nowMs ++ future) m →
      Paced t timeoutS afterS n future (ds.foldl (drainOne P cfg) m) := by
  induction ds with
  | nil =>
      intro m _ h
      exact h
  | cons d ds ih =>
      intro m hclock h
      rw [List.map_cons, List.cons_append] at h
      obtain ⟨ht, hrest⟩ := List.pairwise_cons.mp hclock
      rw [List.map_cons, List.cons_append] at ht hrest
      obtain ⟨hnow, hrest⟩ := List.pairwise_cons.mp hrest
      have hclock' : (t :: (ds.map Received.nowMs ++ future)).Pairwise (· ≤ ·) :=
        List.pairwise_cons.mpr ⟨fun x hx => ht x (List.mem_cons_of_mem _ hx), hrest⟩
      refine ih hclock' ?_
      unfold drainOne
      split
      · have hcalled := h.onDatagram P cfg d.pkt (ht _ (List.mem_cons_self ..)) hnow
        dsimp only
        split
        · exact hcalled.keep ((paceKept_lwipKeeps P cfg).lwipRuns d.acts _)
        · exact hcalled
      · exact h.later (List.subset_cons_self _ _)

end Paced

/-- The clock readings of a pass: its own, and one for each datagram it drains. -/
def PassEnv.drained (e : PassEnv) : List UInt64 := (e.datagrams.take 64).map Received.nowMs

def PassEnv.readings (e : PassEnv) : List UInt64 := e.now :: e.drained

/-- The clock of a run of the loop does not go back. -/
def LoopClockForward (es : List PassEnv) : Prop := (es.flatMap PassEnv.readings).Pairwise (· ≤ ·)

section Passes

variable {t : UInt64} {timeoutS afterS : Int} {n : Nat} {future : List UInt64} {m : Main}
  {cfg : Config} {e : PassEnv}

theorem Paced.restOfPass (hclock : (t :: (e.drained ++ future)).Pairwise (· ≤ ·))
    (h : Paced t timeoutS afterS n (e.drained ++ future) m) :
    Paced t timeoutS afterS n future (restOfPass P cfg e (netifStage e m)) := by
  have hkeeps := paceKept_lwipKeeps P cfg
  have hfetched := (h.keep (netifStage_paceKept e m)).keep (hkeeps.fetchStage e _)
  have hpolled : Paced t timeoutS afterS n future
      (pollStage P cfg e (fetchStage P cfg e (netifStage e m))) := by
    unfold pollStage
    split
    · exact hfetched.later (List.subset_append_right _ _)
    · have hproxy : Paced t timeoutS afterS n (e.drained ++ future)
          (if (fetchStage P cfg e (netifStage e m)).netifUp
            then lwipRuns P cfg e.pollActs (fetchStage P cfg e (netifStage e m))
            else fetchStage P cfg e (netifStage e m)) := by
        split
        · exact hfetched.keep (hkeeps.lwipRuns e.pollActs _)
        · exact hfetched
      have hdied : ∀ m', Paced t timeoutS afterS n (e.drained ++ future) m' →
          Paced t timeoutS afterS n (e.drained ++ future)
            (if e.pollErr then { m' with tunnelLost := true } else m') := by
        intro m' h'
        split
        · exact h'.keep ⟨rfl, rfl, rfl⟩
        · exact h'
      dsimp only
      split
      · exact (hdied _ hproxy).drain P _ hclock
      · exact (hdied _ hproxy).later (List.subset_append_right _ _)
  exact hpolled.keep (hkeeps.lwipRuns e.timers _)

/-- A pass that neither hands out an initiation nor starts the session over. -/
theorem Paced.pass (hclock : (t :: (e.readings ++ future)).Pairwise (· ≤ ·))
    (hquiet : ¬ Initiates P cfg m e) (hkept : ¬ Reinits P cfg m e)
    (h : Paced t timeoutS afterS n (e.readings ++ future) m) :
    Paced t timeoutS afterS n future (mainPass P cfg m e) := by
  have hclock' : (t :: (e.drained ++ future)).Pairwise (· ≤ ·) := by
    refine hclock.sublist ?_
    exact List.Sublist.cons_cons t (List.sublist_cons_self _ _)
  have hlater : Paced t timeoutS afterS n (e.drained ++ future) m :=
    h.later (List.subset_cons_self _ _)
  have hat : Paced t timeoutS afterS n (e.drained ++ future) (atHandshake P cfg m e) := by
    rcases atHandshake_cases P hkept with hdown | hkeep
    · exact .down hdown
    · exact hlater.keep hkeep
  exact (hat.keep (handshakeStage_paceKept P hquiet)).restOfPass P hclock'

end Passes

/-- No pass of a run hands out an initiation or calls `awg_session_init`. -/
def NothingBetween (cfg : Config) : Main → List PassEnv → Prop
  | _, [] => True
  | m, e :: es => ¬ Initiates P cfg m e ∧ ¬ Reinits P cfg m e ∧
    NothingBetween cfg (mainPass P cfg m e) es

/-- **What one initiation leaves behind lasts until the next.** -/
theorem Paced.passes {t : UInt64} {timeoutS afterS : Int} {n : Nat} {cfg : Config}
    {future : List UInt64} (es : List PassEnv) :
    ∀ {m : Main}, (t :: (es.flatMap PassEnv.readings ++ future)).Pairwise (· ≤ ·) →
      NothingBetween P cfg m es →
      Paced t timeoutS afterS n (es.flatMap PassEnv.readings ++ future) m →
      Paced t timeoutS afterS n future (es.foldl (mainPass P cfg) m) := by
  induction es with
  | nil =>
      intro m _ _ h
      exact h
  | cons e es ih =>
      rintro m hclock ⟨hquiet, hkept, hrest⟩ h
      rw [List.flatMap_cons, List.append_assoc] at hclock h
      have hclock' : (t :: (es.flatMap PassEnv.readings ++ future)).Pairwise (· ≤ ·) := by
        refine hclock.sublist ?_
        exact List.Sublist.cons_cons t (List.sublist_append_right _ _)
      exact ih hclock' hrest (h.pass P hclock hquiet hkept)

/-! ### The timers

The limits are numbers of seconds that were drawn from a configured range.  A loader cannot
make them larger than an `int`, and the session takes none that is not positive, so the
products with 1000 do not overflow.
-/

/-- The limits of a range are `int`s. -/
structure Range.IsInt (r : Range) : Prop where
  min : Checked.intMin ≤ r.min ∧ r.min ≤ Checked.intMax
  max : Checked.intMin ≤ r.max ∧ r.max ≤ Checked.intMax

structure Config.IntTimers (cfg : Config) : Prop where
  rekeyTimeout : cfg.rekeyTimeout.IsInt
  rekeyAfterTime : cfg.rekeyAfterTime.IsInt

/-- A positive `int`. -/
def PosInt (v : Int) : Prop := 0 < v ∧ v ≤ Checked.intMax

theorem awgRangePick_le {r : Range} (h : r.IsInt) (e : Entropy) :
    awgRangePick r e ≤ Checked.intMax := by
  obtain ⟨⟨hmin, hmin'⟩, ⟨hmax, hmax'⟩⟩ := h
  unfold awgRangePick
  split
  · exact hmin'
  · dsimp only
    generalize hw : (r.max - r.min + 1) % 4294967296 = w
    have hk : (((awgRandomWord e).toNat % w.toNat : Nat) : Int) < 4294967296 := by
      have := (awgRandomWord e).toNat_lt
      have := Nat.mod_le (awgRandomWord e).toNat w.toNat
      omega
    have hk' : 0 < w → (((awgRandomWord e).toNat % w.toNat : Nat) : Int) < w := by
      intro hpos
      have := Nat.mod_lt (awgRandomWord e).toNat (show w.toNat > 0 by omega)
      omega
    have hk0 : 0 ≤ (((awgRandomWord e).toNat % w.toNat : Nat) : Int) := Int.natCast_nonneg _
    generalize (((awgRandomWord e).toNat % w.toNat : Nat) : Int) = k at hk hk' hk0 ⊢
    unfold asInt
    simp only [Checked.intMin, Checked.intMax] at *
    omega

theorem drawnOr_posInt {v dflt : Int} (hv : v ≤ Checked.intMax) (hd : PosInt dflt) :
    PosInt (drawnOr v dflt) := by
  unfold drawnOr
  split
  · exact hd
  · exact ⟨by omega, hv⟩

/-- The timers of a session that main holds a socket for are positive `int`s. -/
def TimersOk (m : Main) : Prop :=
  m.fd < 0 ∨ PosInt m.run.sess.rekeyTimeoutS ∧ PosInt m.run.sess.rekeyAfterS

theorem awgSessionInit_timers {cfg : Config} (hcfg : cfg.IntTimers) (draws : Fin 5 → Entropy) :
    PosInt (awgSessionInit cfg draws).rekeyTimeoutS ∧
      PosInt (awgSessionInit cfg draws).rekeyAfterS := by
  refine ⟨?_, ?_⟩
  · exact drawnOr_posInt (awgRangePick_le hcfg.rekeyTimeout _) ⟨by decide, by decide⟩
  · exact drawnOr_posInt (awgRangePick_le hcfg.rekeyAfterTime _) ⟨by decide, by decide⟩

/-- The descriptor and the timers are what they were. -/
structure TimersKept (m m' : Main) : Prop where
  fd : m'.fd = m.fd
  timeoutS : m'.run.sess.rekeyTimeoutS = m.run.sess.rekeyTimeoutS
  afterS : m'.run.sess.rekeyAfterS = m.run.sess.rekeyAfterS

theorem TimersKept.trans {m m' m'' : Main} (h : TimersKept m m') (h' : TimersKept m' m'') :
    TimersKept m m'' :=
  ⟨h'.fd.trans h.fd, h'.timeoutS.trans h.timeoutS, h'.afterS.trans h.afterS⟩

theorem PaceKept.timers {m m' : Main} (h : PaceKept m m') : TimersKept m m' :=
  ⟨h.fd, congrArg Pace.timeoutS h.pace, congrArg Pace.afterS h.pace⟩

theorem TimersOk.keep {m m' : Main} (h : TimersOk m) (hkept : TimersKept m m') : TimersOk m' := by
  rcases h with hdown | htimers
  · exact .inl (hkept.fd ▸ hdown)
  · exact .inr ⟨hkept.timeoutS ▸ htimers.1, hkept.afterS ▸ htimers.2⟩

theorem datagram_timersKept (cfg : Config) (m : Main) (pkt : Bytes) (nowMs : UInt64) :
    TimersKept m { m with run := m.run.step P (.onDatagram cfg pkt 2048 nowMs) } := by
  have hpace := onDatagram_pace P cfg m.run.drop m.run.sess pkt 2048 nowMs
  have hsess := logRx_sess m.run
    (awgSessionOnDatagram P cfg m.run.drop m.run.sess pkt 2048 nowMs)
  rw [← hsess] at hpace
  split at hpace
  · exact ⟨rfl, congrArg Pace.timeoutS hpace, congrArg Pace.afterS hpace⟩
  · exact ⟨rfl, congrArg Pace.timeoutS hpace, congrArg Pace.afterS hpace⟩

theorem timersKept_drainKeeps (cfg : Config) : DrainKeeps P cfg TimersKept where
  refl := fun m => (PaceKept.refl m).timers
  trans := .trans
  entered := fun _ _ => ⟨rfl, rfl, rfl⟩
  output := fun m payload now e => (tunnelOutput_paceKept P cfg m payload now e).timers
  fetch := fun _ _ _ _ _ => ⟨rfl, rfl, rfl⟩
  datagram := datagram_timersKept P cfg
  died := fun _ => ⟨rfl, rfl, rfl⟩

theorem handshakeStage_timersKept (cfg : Config) (e : PassEnv) (u : Main) :
    TimersKept u (handshakeStage P cfg e u) := by
  by_cases h : ¬ u.fd < 0 ∧ awgSessionNeedsHandshake u.run.sess e.now = true ∧
      (awgSessionBuildInitiation P cfg u.run.sess 4096 e.now e.idx e.eph e.nanos e.pad
        e.nowSeconds).2.isSome = true
  · obtain ⟨hpace, -⟩ := handshakeStage_initiates P h.1 h.2.1 h.2.2
    exact ⟨(handshakeStage_calm P cfg e u).fd, congrArg Pace.timeoutS hpace,
      congrArg Pace.afterS hpace⟩
  · exact (handshakeStage_paceKept P h).timers

theorem rebuilt_timersOk {cfg : Config} (hcfg : cfg.IntTimers) (e : PassEnv) (fd : Nat) (u : Main) :
    TimersOk (rebuilt P cfg e fd u) := by
  have hinit : TimersOk
      { u with fd := fd, gFd := fd, run := u.run.step P (.init cfg e.draws) } :=
    .inr (awgSessionInit_timers hcfg e.draws)
  have hreset := hinit.keep ((paceKept_lwipKeeps P cfg).httpReset e.rebuildReset _).timers
  exact hreset.keep ⟨rfl, rfl, rfl⟩

theorem TimersOk.atHandshake {cfg : Config} (hcfg : cfg.IntTimers) {m : Main} {e : PassEnv}
    (h : TimersOk m) : TimersOk (atHandshake P cfg m e) := by
  by_cases hkept : Reinits P cfg m e
  · obtain ⟨hlost, hdue, hsocket⟩ := hkept
    obtain ⟨fd, hfd⟩ := Option.isSome_iff_exists.mp hsocket
    unfold SysAwg.atHandshake rebuildStage
    rw [if_pos ⟨hlost, hdue⟩]
    dsimp only
    rw [hfd]
    exact rebuilt_timersOk P hcfg e fd _
  · rcases atHandshake_cases P hkept with hdown | hkeep
    · exact .inl hdown
    · exact h.keep hkeep.timers

theorem TimersOk.pass {cfg : Config} (hcfg : cfg.IntTimers) {m : Main} (h : TimersOk m)
    (e : PassEnv) : TimersOk (mainPass P cfg m e) := by
  have hat := h.atHandshake P hcfg (e := e)
  have hkeeps := paceKept_lwipKeeps P cfg
  have hfetched := ((hat.keep (handshakeStage_timersKept P cfg e _)).keep
    (netifStage_paceKept e _).timers).keep (hkeeps.fetchStage e _).timers
  exact (hfetched.keep ((timersKept_drainKeeps P cfg).pollStage e _)).keep (hkeeps.lwipRuns e.timers _).timers

theorem mainRun_timersOk {cfg : Config} (hcfg : cfg.IntTimers) (fd : Nat) (draws : Fin 5 → Entropy)
    (es : List PassEnv) : TimersOk (mainRun P cfg fd draws es) := by
  have hstart : TimersOk (Main.start cfg fd draws) := .inr (awgSessionInit_timers hcfg draws)
  exact List.foldlRecOn es _ hstart fun m hm e _ => hm.pass P hcfg e

/-- `(uint64_t)seconds * 1000` of an `int` that is not negative is exact. -/
theorem secondsToMs_toNat {v : Int} (hnonneg : 0 ≤ v) (hle : v ≤ Checked.intMax) :
    ((secondsToMs v).toNat : Int) = v * 1000 := by
  simp only [Checked.intMax] at hle
  unfold secondsToMs UInt64.ofInt
  rw [UInt64.toNat_mul, UInt64.toNat_ofNat']
  have h1000 : (1000 : UInt64).toNat = 1000 := rfl
  rw [h1000]
  omega

/-- A clock that has run for so many seconds. -/
theorem elapsed_iff {since now : UInt64} {v : Int} (hnonneg : 0 ≤ v) (hv : v ≤ Checked.intMax)
    (hle : since ≤ now) :
    now - since ≥ secondsToMs v ↔ (since.toNat : Int) + v * 1000 ≤ now.toNat := by
  have hsub : (now - since).toNat = now.toNat - since.toNat := UInt64.toNat_sub_of_le _ _ hle
  have hms := secondsToMs_toNat hnonneg hv
  rw [UInt64.le_iff_toNat_le] at hle
  rw [ge_iff_le, UInt64.le_iff_toNat_le, hsub]
  omega

/-! ### Any two initiations -/

/-- How many handshakes were completed so far. -/
def completed (m : Main) : Nat := (installedIn m.run.log).length

/-- Right after an initiation the attempt is outstanding. -/
theorem Initiates.paced {cfg : Config} {m : Main} {e : PassEnv} (h : Initiates P cfg m e)
    {future : List UInt64} (hclock : (e.now :: (e.drained ++ future)).Pairwise (· ≤ ·)) :
    let u := atHandshake P cfg m e
    Paced e.now u.run.sess.rekeyTimeoutS u.run.sess.rekeyAfterS (completed u) future
      (mainPass P cfg m e) := by
  intro u
  obtain ⟨hfd, hneeds, hsome⟩ := h
  obtain ⟨hpace, hinst⟩ := handshakeStage_initiates P hfd hneeds hsome
  have hstart : Paced e.now u.run.sess.rekeyTimeoutS u.run.sess.rekeyAfterS (completed u)
      (e.drained ++ future) (handshakeStage P cfg e u) :=
    .waiting (congrArg Pace.handshaking hpace) (congrArg Pace.sentMs hpace)
      (congrArg Pace.timeoutS hpace) (congrArg Pace.afterS hpace) (congrArg List.length hinst)
  exact hstart.restOfPass P hclock

/-- When the next is due, one of the two clocks has run out. -/
theorem Paced.apart {t now : UInt64} {timeoutS afterS : Int} {n : Nat} {m : Main}
    (h : Paced t timeoutS afterS n [now] m) (hfd : ¬ m.fd < 0)
    (hneeds : awgSessionNeedsHandshake m.run.sess now = true) (hle : t ≤ now)
    (htimeout : PosInt timeoutS) (hafter : PosInt afterS) :
    (t.toNat : Int) + min timeoutS afterS * 1000 ≤ now.toNat ∧
      (completed m = n → (t.toNat : Int) + timeoutS * 1000 ≤ now.toNat) := by
  unfold awgSessionNeedsHandshake at hneeds
  cases h with
  | down hdown => exact absurd hdown hfd
  | waiting hhand hsent htimeoutS _ _ =>
      rw [hhand, if_pos rfl, decide_eq_true_eq, hsent, htimeoutS] at hneeds
      have helapsed := (elapsed_iff htimeout.1.le htimeout.2 hle).mp hneeds
      exact ⟨by omega, fun _ => helapsed⟩
  | answered hhand hest hsince hfuture hafterS hn =>
      rw [hhand, if_neg (by simp), hest, if_neg (by simp), decide_eq_true_eq, hafterS] at hneeds
      have helapsed := (elapsed_iff hafter.1.le hafter.2
        (hfuture _ (List.mem_singleton_self _))).mp hneeds
      rw [UInt64.le_iff_toNat_le] at hsince
      refine ⟨by omega, fun hsame => ?_⟩
      exact absurd hsame hn.ne'

/--
**Handshake attempts are spaced.**  In every run of the loop whose clock does not go back:
two successive initiations with no `awg_session_init` between them are at least the
shorter of `rekey_timeout_s` and `rekey_after_s` apart, whatever datagrams come in, and at
least `rekey_timeout_s` if no handshake was completed between them.
-/
theorem initiations_spaced {cfg : Config} (hcfg : cfg.IntTimers) (fd : Nat)
    (draws : Fin 5 → Entropy) (before between : List PassEnv) (e₁ e₂ : PassEnv)
    (hclock : LoopClockForward (before ++ e₁ :: between ++ [e₂]))
    (h₁ : Initiates P cfg (mainRun P cfg fd draws before) e₁)
    (hbetween : NothingBetween P cfg (mainRun P cfg fd draws (before ++ [e₁])) between)
    (hkept : ¬ Reinits P cfg (mainRun P cfg fd draws (before ++ e₁ :: between)) e₂)
    (h₂ : Initiates P cfg (mainRun P cfg fd draws (before ++ e₁ :: between)) e₂) :
    let u := atHandshake P cfg (mainRun P cfg fd draws before) e₁
    let s := u.run.sess
    (e₁.now.toNat : Int) + min s.rekeyTimeoutS s.rekeyAfterS * 1000 ≤ e₂.now.toNat ∧
      (completed (mainRun P cfg fd draws (before ++ e₁ :: between)) = completed u →
        (e₁.now.toNat : Int) + s.rekeyTimeoutS * 1000 ≤ e₂.now.toNat) := by
  intro u s
  obtain ⟨hfd₂, hneeds₂, -⟩ := h₂
  obtain ⟨htimeout, hafter⟩ : PosInt s.rekeyTimeoutS ∧ PosInt s.rekeyAfterS :=
    ((mainRun_timersOk P hcfg fd draws before).atHandshake P hcfg).resolve_left h₁.1
  -- the readings from the first initiation on
  have hreadings : (e₁.now :: (e₁.drained ++ (between.flatMap PassEnv.readings ++ [e₂.now]))).Pairwise
      (· ≤ ·) := by
    refine hclock.sublist ?_
    simp only [List.flatMap_append, List.flatMap_cons, List.flatMap_nil, PassEnv.readings,
      List.append_assoc, List.cons_append, List.append_nil]
    refine List.Sublist.trans ?_ (List.sublist_append_right _ _)
    refine List.Sublist.cons_cons _ ((List.Sublist.refl _).append ((List.Sublist.refl _).append ?_))
    exact List.Sublist.cons_cons _ (List.nil_sublist _)
  have hle : e₁.now ≤ e₂.now := by
    refine (List.pairwise_cons.mp hreadings).1 _ ?_
    simp
  have hrest : (e₁.now :: (between.flatMap PassEnv.readings ++ [e₂.now])).Pairwise (· ≤ ·) :=
    hreadings.sublist (List.Sublist.cons_cons _ (List.sublist_append_right _ _))
  -- what the first leaves behind is still there at the second
  rw [mainRun_snoc] at hbetween
  have hlast := (h₁.paced P hreadings).passes P between hrest hbetween
  have hrun : mainRun P cfg fd draws (before ++ e₁ :: between)
      = between.foldl (mainPass P cfg)
          (mainPass P cfg (mainRun P cfg fd draws before) e₁) := by
    unfold mainRun
    rw [List.foldl_append]
    rfl
  rw [← hrun] at hlast
  rcases atHandshake_cases P hkept with hdown | hkeep
  · exact absurd hdown hfd₂
  · obtain ⟨hapart, hsame⟩ := (hlast.keep hkeep).apart hfd₂ hneeds₂ hle htimeout hafter
    refine ⟨hapart, fun hnone => hsame ?_⟩
    exact (congrArg List.length hkeep.installed).trans hnone

/-! ### Two attempts -/

/-- An initiation does not depend on the session it is built for. -/
theorem buildInitiation_sent_eq (cfg : Config) (s s' : Session) (outCap : Int)
    (nowMs nowMs' : UInt64) (idx eph nanos pad : Entropy) (nowSeconds : UInt64) :
    (awgSessionBuildInitiation P cfg s outCap nowMs idx eph nanos pad nowSeconds).2
      = (awgSessionBuildInitiation P cfg s' outCap nowMs' idx eph nanos pad nowSeconds).2 := by
  unfold awgSessionBuildInitiation
  dsimp only
  generalize awgCreateInitiation P _ _ _ _ = created
  obtain ⟨pending, _ | msg⟩ := created
  · rfl
  · dsimp only
    split
    · rfl
    · rfl

/-- A pass with a working generator, and nothing else. -/
def passTries (cfg : Config) (now : UInt64) : PassEnv :=
  { PassEnv.quiet now with
    idx := (loopMeeting cfg).idx
    eph := (loopMeeting cfg).eph
    nanos := (loopMeeting cfg).nanos
    pad := (loopMeeting cfg).pad
    nowSeconds := (loopMeeting cfg).nowSeconds }

/-- `main` after the pass that made the first attempt. -/
def tried (cfg : Config) (r : Run) (nextPower : UInt64) : Main :=
  { Main.start cfg 3 (fun _ _ => 0) with run := r, nextPower := nextPower }

theorem atHandshake_passTries (cfg : Config) (r : Run) {now nextPower : UInt64}
    (hdue : now ≥ nextPower) :
    atHandshake P cfg (tried cfg r nextPower) (passTries cfg now) = tried cfg r (now + 1000) := by
  unfold atHandshake powerStage
  rw [if_pos (show (passTries cfg now).now ≥ (tried cfg r nextPower).nextPower from hdue)]
  rfl

theorem initiates_passTries {cfg : Config} (htalks : (loopMeeting cfg).Talks P cfg) {r : Run}
    {now nextPower : UInt64} (hdue : now ≥ nextPower)
    (hneeds : awgSessionNeedsHandshake r.sess now = true) :
    Initiates P cfg (tried cfg r nextPower) (passTries cfg now) := by
  obtain ⟨hsent, -⟩ := htalks.reply P
  unfold Initiates
  rw [atHandshake_passTries P cfg r hdue]
  refine ⟨show ¬ (3 : Int) < 0 by decide, hneeds, ?_⟩
  rw [← hsent]
  exact congrArg Option.isSome (buildInitiation_sent_eq P cfg _ _ 4096 _ _ _ _ _ _ _)

theorem not_reinits_passTries (cfg : Config) (r : Run) {now nextPower : UInt64} :
    ¬ Reinits P cfg (tried cfg r nextPower) (passTries cfg now) := by
  rintro ⟨-, -, hsocket⟩
  cases hsocket

/-- The first attempt of a run, which is not answered at once. -/
theorem after_passTries {cfg : Config} (htalks : (loopMeeting cfg).Talks P cfg) :
    ∃ r : Run, r.sess.handshaking = true ∧ r.sess.handshakeSentMs = 0 ∧
      r.sess.rekeyTimeoutS = (awgSessionInit cfg fun _ _ => 0).rekeyTimeoutS ∧
      mainRun P cfg 3 (fun _ _ => 0) [passTries cfg 0] = tried cfg r 1000 := by
  have hdue : (0 : UInt64) ≥ 0 := by decide
  obtain ⟨hfd, hneeds, hsome⟩ := initiates_passTries P htalks (r := Run.start cfg fun _ _ => 0)
    hdue rfl
  obtain ⟨hpace, -⟩ := handshakeStage_initiates P hfd hneeds hsome
  rw [atHandshake_passTries P cfg _ hdue] at hfd hneeds hsome hpace
  obtain ⟨out, hout⟩ := Option.isSome_iff_exists.mp hsome
  have hstage : handshakeStage P cfg (passTries cfg 0)
      (tried cfg (Run.start cfg fun _ _ => 0) (0 + 1000))
      = tried cfg ((Run.start cfg fun _ _ => 0).step P (.buildInitiation cfg 4096 0
          (loopMeeting cfg).idx (loopMeeting cfg).eph (loopMeeting cfg).nanos
          (loopMeeting cfg).pad (loopMeeting cfg).nowSeconds)) 1000 := by
    unfold handshakeStage
    rw [if_neg hfd, if_pos hneeds]
    dsimp only
    rw [hout]
    rfl
  rw [hstage] at hpace
  have hest : ((Run.start cfg fun _ _ => 0).step P (.buildInitiation cfg 4096 0
      (loopMeeting cfg).idx (loopMeeting cfg).eph (loopMeeting cfg).nanos (loopMeeting cfg).pad
      (loopMeeting cfg).nowSeconds)).sess.established = false := congrArg Pace.established hpace
  refine ⟨_, congrArg Pace.handshaking hpace, congrArg Pace.sentMs hpace,
    congrArg Pace.timeoutS hpace, ?_⟩
  show restOfPass P cfg _ (netifStage _ (handshakeStage P cfg _
    (atHandshake P cfg (tried cfg (Run.start cfg fun _ _ => 0) 0) (passTries cfg 0)))) = _
  rw [atHandshake_passTries P cfg _ hdue, hstage]
  simp [netifStage, restOfPass, fetchStage, pollStage, timerStage, lwipRuns, tried, Main.start,
    passTries, PassEnv.quiet, hest]

/-- The second attempt, made as soon as the first has timed out. -/
theorem retries {cfg : Config} (htalks : (loopMeeting cfg).Talks P cfg)
    (htimeout : (awgSessionInit cfg fun _ _ => 0).rekeyTimeoutS = 5) :
    Initiates P cfg (mainRun P cfg 3 (fun _ _ => 0) []) (passTries cfg 0) ∧
      ¬ Reinits P cfg (mainRun P cfg 3 (fun _ _ => 0) [passTries cfg 0]) (passTries cfg 5000) ∧
      Initiates P cfg (mainRun P cfg 3 (fun _ _ => 0) [passTries cfg 0]) (passTries cfg 5000) := by
  obtain ⟨r, hhandshaking, hsent, htimeoutS, hrun⟩ := after_passTries P htalks
  have hneeds : awgSessionNeedsHandshake r.sess 5000 = true := by
    unfold awgSessionNeedsHandshake
    rw [if_pos hhandshaking, hsent, htimeoutS, htimeout]
    decide
  rw [hrun]
  refine ⟨?_, not_reinits_passTries P cfg r, ?_⟩
  · exact initiates_passTries P htalks (r := Run.start cfg fun _ _ => 0) (by decide) rfl
  · exact initiates_passTries P htalks (by decide) hneeds

/-- Two attempts of a run that is never answered, five seconds apart. -/
theorem initiations_spaced_retried :
    Initiates standardPrimitives (wordsConfig 1 2)
        (mainRun standardPrimitives (wordsConfig 1 2) 3 (fun _ _ => 0) [passTries (wordsConfig 1 2) 0])
        (passTries (wordsConfig 1 2) 5000) ∧
      (completed (mainRun standardPrimitives (wordsConfig 1 2) 3 (fun _ _ => 0)
          [passTries (wordsConfig 1 2) 0])
          = completed (atHandshake standardPrimitives (wordsConfig 1 2)
            (mainRun standardPrimitives (wordsConfig 1 2) 3 (fun _ _ => 0) [])
            (passTries (wordsConfig 1 2) 0)) →
        (0 : Int) + (atHandshake standardPrimitives (wordsConfig 1 2)
            (mainRun standardPrimitives (wordsConfig 1 2) 3 (fun _ _ => 0) [])
            (passTries (wordsConfig 1 2) 0)).run.sess.rekeyTimeoutS * 1000 ≤ 5000) := by
  have hcfg : (wordsConfig 1 2).IntTimers := by
    refine ⟨⟨?_, ?_⟩, ⟨?_, ?_⟩⟩
    all_goals simp [wordsConfig, Config.default, Checked.intMin, Checked.intMax]
  have htimeout : (awgSessionInit (wordsConfig 1 2) fun _ _ => 0).rekeyTimeoutS = 5 := by
    simp [awgSessionInit, wordsConfig, Config.default, awgRangePick, drawnOr]
  have hclock : LoopClockForward
      ([] ++ passTries (wordsConfig 1 2) 0 :: [] ++ [passTries (wordsConfig 1 2) 5000]) := by
    simp [LoopClockForward, PassEnv.readings, PassEnv.drained, passTries, PassEnv.quiet]
  obtain ⟨hfirst, hkept, hsecond⟩ := retries standardPrimitives (startedMeeting_talks 100 110)
    htimeout
  have hspaced := initiations_spaced standardPrimitives hcfg 3 (fun _ _ => 0) [] []
    (passTries (wordsConfig 1 2) 0) (passTries (wordsConfig 1 2) 5000) hclock hfirst trivial
    hkept hsecond
  exact ⟨hsecond, hspaced.2⟩

end SysAwg
