/-
The name that is resolved, against the name that was asked for.

`find_sni` reports a run of bytes with a length; `sni_hostname` copies it into a buffer
with a terminator, and from there on `host_normalise` and the resolver only see what
stands before the first zero byte.  A name without a zero byte is resolved as it is, less
its trailing dots.  A name with one is cut there, and what is left of it is resolved if it
would pass on its own.

A call asks for a name exactly when the decision on its bytes is to resolve one, and the
resolver is called in no other place.  So the question is about a function of the buffer,
and is answered by following the name through it: found, cut at a zero, stripped, scanned,
compared with the list.
-/
import SysAwg.Proofs.HostNames
import SysAwg.Proofs.ProxyMoves

namespace SysAwg

/-! ### Calls of the resolver

The history records every call of the resolver, so "asks for nothing" and "asks for this
and nothing else" are statements about what an entry adds.
-/

/-- The call of `dns_gethostbyname` that an entry records: its slot, number and host. -/
def Event.asks : Event → Option (Slot × Nat × Bytes)
  | .query i q host => some (i, q, host)
  | _ => none

def asked (t : List Event) : List (Slot × Nat × Bytes) := t.filterMap Event.asks

theorem asked_log (w : World) {e : Event} (h : e.asks = none) :
    asked (w.log e).trace = asked w.trace := by
  show (e :: w.trace).filterMap Event.asks = _
  rw [List.filterMap_cons_none h]
  rfl

section Frame

variable (w : World) (i : Slot)

theorem asked_connClose (why : Option Why) :
    asked (connClose w i why).trace = asked w.trace := by
  obtain ⟨new, htrace, htouch⟩ := connClose_adds w i why
  have hnone : new.filterMap Event.asks = [] := by
    refine List.filterMap_eq_nil_iff.mpr fun e he => ?_
    obtain ⟨x, live, arg, rfl⟩ := htouch e he
    rfl
  unfold asked
  rw [htrace, List.filterMap_append, hnone, List.nil_append]

theorem asked_failClose (how : Failure) (why : Option Why) :
    asked (connClose (countFailed w i how) i why).trace = asked w.trace := by
  rw [asked_connClose]
  exact asked_log _ rfl

theorem asked_abandon (x : PcbId) : asked (abandon w x).trace = asked w.trace := by
  unfold abandon onErr
  dsimp only
  split
  · split
    · rfl
    · rw [asked_failClose]
      rfl
  · rfl

theorem asked_tcpKillState (state : TcpState) (oldest : PcbId) :
    asked (tcpKillState w state oldest).trace = asked w.trace := by
  unfold tcpKillState
  split
  · rfl
  · exact asked_abandon w _

theorem asked_tcpKillTimewait (oldest : PcbId) :
    asked (tcpKillTimewait w oldest).trace = asked w.trace := by
  unfold tcpKillTimewait
  split
  · rfl
  · exact asked_log w rfl

theorem asked_tcpAlloc (e : NewEnv) : asked (tcpAlloc w e).1.trace = asked w.trace := by
  have hkill : asked (tcpKillTimewait (tcpHandleClosepend w e.fins) e.oldest).trace
      = asked w.trace := asked_tcpKillTimewait _ _
  unfold tcpAlloc
  split
  · rfl
  · dsimp only
    split
    · exact hkill
    · split
      · rw [asked_tcpKillState, hkill]
      · rw [asked_tcpKillState, asked_tcpKillState, hkill]

theorem asked_useResult (ip : Option Ip) (e : ResolveEnv) :
    asked (useResult w i ip e).trace = asked w.trace := by
  unfold useResult
  cases ip with
  | none => exact asked_failClose w i _ _
  | some ip =>
      dsimp only
      have halloc := asked_tcpAlloc
        (w.count fun s => { s with resolved := s.resolved + 1 }) e.new
      split
      · rename_i v hv
        rw [hv] at halloc
        rw [asked_failClose]
        exact halloc
      · rename_i v x hv
        rw [hv] at halloc
        split
        · exact halloc
        · rw [asked_failClose]
          exact halloc

theorem asked_onResolved (q : Nat) (ip : Option Ip) (e : ResolveEnv) :
    asked (onResolved w i q ip e).trace = asked w.trace := by
  unfold onResolved
  split
  · rfl
  · rw [asked_useResult]
    exact asked_log w rfl

/-- Resolving calls the resolver once, for the host of the slot. -/
theorem asked_resolve (dns : DnsAnswer) :
    asked (resolve w i dns).trace = (i, w.nextQ, (w.conn i).host) :: asked w.trace := by
  unfold resolve
  cases dns with
  | ok ip e => exact asked_onResolved (askDns w i) i _ _ e
  | inProgress => rfl
  | inside ip e => exact asked_onResolved (askDns w i) i _ _ e
  | rejected => exact asked_failClose (askDns w i) i _ _

end Frame

/-- The decisions after which the resolver is called. -/
def SniffDecision.host : SniffDecision → Option Bytes
  | .resolve host => some host
  | _ => none

/-- **Acting on a decision calls the resolver exactly if the decision is to resolve.** -/
theorem asked_actOn (w : World) (i : Slot) (dns : DnsAnswer) (d : SniffDecision) :
    asked (actOn w i dns d).trace =
      match d.host with
      | some host => (i, w.nextQ, host) :: asked w.trace
      | none => asked w.trace := by
  cases d with
  | waiting => rfl
  | noSniFound => exact asked_connClose _ _ _
  | malformedHostname => exact asked_connClose _ _ _
  | telemetryStaysBlocked host => exact asked_connClose _ _ _
  | resolve host =>
      show asked (resolve _ i dns).trace = _
      rw [asked_resolve]
      simp [SniffDecision.host]

/-! ### One call -/

/-- What a call of `handle_client_readable` adds to the client's bytes. -/
def newBytes (c : Conn) : RecvResult → Bytes
  | .bytes b => b.take (bufSize - c.up.length)
  | .again => []
  | .fail => []

/-- A call that receives nothing asks for nothing. -/
theorem asked_no_bytes {w : World} {i : Slot} {e : ReadEnv}
    (h : newBytes (w.conn i) e.recv = []) :
    asked (handleClientReadable w i e).trace = asked w.trace := by
  unfold handleClientReadable
  dsimp only
  split
  · rfl
  · cases hrecv : e.recv with
    | again => rfl
    | fail => exact asked_connClose w i _
    | bytes b =>
        rw [hrecv] at h
        have hzero : (b.take (bufSize - (w.conn i).up.length)).length = 0 := congrArg List.length h
        dsimp only
        rw [if_pos hzero]
        cases (w.conn i).pcb with
        | none => rfl
        | some x =>
            dsimp only
            split
            · unfold tcpShutdown
              dsimp only
              split <;> rfl
            · rfl

def segmentOf (c : Conn) (e : ReadEnv) : Segment := ⟨newBytes c e.recv, e.now, e.finSent, e.dns⟩

/-- `recv` returns at most as many bytes as there is room for. -/
theorem handleClientReadable_segment {w : World} {i : Slot} {e : ReadEnv}
    (h : newBytes (w.conn i) e.recv ≠ []) :
    handleClientReadable w i e = handleClientReadable w i (segmentOf (w.conn i) e).env := by
  cases hrecv : e.recv with
  | again =>
      rw [hrecv] at h
      exact absurd rfl h
  | fail =>
      rw [hrecv] at h
      exact absurd rfl h
  | bytes b =>
      unfold handleClientReadable
      simp only [hrecv, segmentOf, Segment.env, newBytes, List.take_take, Nat.min_self]

/-- **What a call asks the resolver** for a slot that sniffs. -/
theorem asked_handleClientReadable {w : World} {i : Slot} {e : ReadEnv}
    (hst : (w.conn i).st = .sniff) (hne : newBytes (w.conn i) e.recv ≠ []) :
    asked (handleClientReadable w i e).trace =
      match (sniffDecision ((w.conn i).up ++ newBytes (w.conn i) e.recv)).host with
      | some host => (i, w.nextQ, host) :: asked w.trace
      | none => asked w.trace := by
  have hfits : (newBytes (w.conn i) e.recv).length ≤ bufSize - (w.conn i).up.length := by
    unfold newBytes
    split
    · exact List.length_take_le _ _
    · exact Nat.zero_le _
    · exact Nat.zero_le _
  rw [handleClientReadable_segment hne,
    handleClientReadable_sniffing (a := segmentOf (w.conn i) e) hst hne hfits, asked_actOn]
  have hlog : asked (buffered w i (segmentOf (w.conn i) e)).trace = asked w.trace :=
    asked_log _ rfl
  rw [hlog]
  rfl

/-- The call that leads from one world to the other moved the slot on to `ST_RESOLVING`
and asked the resolver for this host. -/
def AsksFor (w w' : World) (i : Slot) (host : Bytes) : Prop :=
  ∃ q, asked w'.trace = (i, q, host) :: asked w.trace

theorem asksFor_of_decision {w : World} {i : Slot} {e : ReadEnv} {host : Bytes}
    (hst : (w.conn i).st = .sniff) (hne : newBytes (w.conn i) e.recv ≠ [])
    (h : (sniffDecision ((w.conn i).up ++ newBytes (w.conn i) e.recv)).host = some host) :
    AsksFor w (handleClientReadable w i e) i host := by
  have hasked := asked_handleClientReadable hst hne
  rw [h] at hasked
  exact ⟨_, hasked⟩

/-! ### The name of the ClientHello

The host name of a ClientHello may contain any bytes.  If one of them is a zero, the string
that is looked at ends there, and it is this string, not the name, that has to pass.
-/

/-- The host is the whole host_name of the ClientHello without its trailing dots, and the
host_name has no bytes but those of host names. -/
structure ExactName (hello host : Bytes) (off nlen : Nat) : Prop where
  found : findSni hello = some (off, nlen)
  whole : ∃ k, Bytes.slice hello off nlen = host ++ List.replicate k dot
  bytes : ∀ c ∈ Bytes.slice hello off nlen, c ∈ hostAlphabet ∨ c = dot

/-- The host_name of the ClientHello has a zero byte, and what stands before the first one
would be resolved. -/
structure CutByNul (hello : Bytes) (off nlen : Nat) : Prop where
  found : findSni hello = some (off, nlen)
  fits : nlen < hostCap
  nul : 0 ∈ Bytes.slice hello off nlen
  accepted : (hostNormalise (cString (Bytes.slice hello off nlen))).2 = true
  allowed : hostDenied (hostNormalise (cString (Bytes.slice hello off nlen))).1 = false

theorem nameDecision_resolve_iff {name host : Bytes} :
    (nameDecision name).host = some host ↔
      (hostNormalise (cString name)).2 = true ∧ (hostNormalise (cString name)).1 = host ∧
        hostDenied host = false := by
  unfold nameDecision
  dsimp only
  by_cases hok : (hostNormalise (cString name)).2 = true
  · rw [if_neg (by simp [hok])]
    by_cases hdenied : hostDenied (hostNormalise (cString name)).1 = true
    · rw [if_pos hdenied]
      constructor
      · intro h
        cases h
      · rintro ⟨-, rfl, hnot⟩
        rw [hdenied] at hnot
        cases hnot
    · rw [if_neg hdenied]
      constructor
      · intro h
        obtain rfl := Option.some.inj h
        exact ⟨hok, rfl, by simpa using hdenied⟩
      · rintro ⟨-, hhost, -⟩
        exact congrArg some hhost
  · rw [if_pos (by simp [hok])]
    constructor
    · intro h
      cases h
    · intro h
      exact absurd h.1 hok

/-- The decision to resolve, down to the bytes it was taken on. -/
theorem sniffDecision_resolve_iff {hello host : Bytes} :
    (sniffDecision hello).host = some host ↔
      ∃ off nlen, findSni hello = some (off, nlen) ∧ nlen < hostCap ∧
        (nameDecision (Bytes.slice hello off nlen)).host = some host := by
  unfold sniffDecision sniHostname
  cases hfind : findSni hello with
  | none =>
      dsimp only
      constructor
      · intro h
        split at h
        · cases h
        · cases h
      · rintro ⟨off, nlen, hnone, -⟩
        cases hnone
  | some r =>
      obtain ⟨off, nlen⟩ := r
      dsimp only
      by_cases hcap : nlen ≥ hostCap
      · rw [if_pos hcap]
        dsimp only
        constructor
        · intro h
          split at h
          · cases h
          · cases h
        · rintro ⟨off', nlen', hsame, hfits, -⟩
          obtain ⟨rfl, rfl⟩ := Prod.mk.inj (Option.some.inj hsame)
          omega
      · rw [if_neg hcap]
        dsimp only
        constructor
        · intro h
          exact ⟨off, nlen, rfl, by omega, h⟩
        · rintro ⟨off', nlen', hsame, -, h⟩
          obtain ⟨rfl, rfl⟩ := Prod.mk.inj (Option.some.inj hsame)
          exact h

theorem cString_eq {b : Bytes} (h : (0 : UInt8) ∉ b) : cString b = b := by
  refine List.takeWhile_eq_self_iff.mpr fun c hc => ?_
  simp only [ne_eq, decide_eq_true_eq]
  rintro rfl
  exact h hc

/-- The scan lets only host characters and dots through. -/
theorem labelsOk_bytes {h : Bytes} : ∀ {labelEmpty : Bool}, labelsOk h labelEmpty = true →
    ∀ c ∈ h, c ∈ hostAlphabet ∨ c = dot := by
  induction h with
  | nil =>
      intro labelEmpty _ c hc
      cases hc
  | cons a h ih =>
      intro labelEmpty hok c hc
      rw [labelsOk] at hok
      by_cases ha : a = dot
      · rw [if_pos ha] at hok
        split at hok
        · cases hok
        · rcases List.mem_cons.mp hc with rfl | hmem
          · exact .inr ha
          · exact ih hok c hmem
      · rw [if_neg ha] at hok
        split at hok
        · rename_i hbyte
          rcases List.mem_cons.mp hc with rfl | hmem
          · exact .inl ((hostByte_iff _).mp hbyte)
          · exact ih hok c hmem
        · cases hok

/-- A name without a zero byte is resolved as it stands, less its trailing dots. -/
theorem nameDecision_exact {name host : Bytes} (hnul : (0 : UInt8) ∉ name)
    (h : (nameDecision name).host = some host) :
    (∃ k, name = host ++ List.replicate k dot) ∧ ∀ c ∈ name, c ∈ hostAlphabet ∨ c = dot := by
  obtain ⟨hok, hhost, -⟩ := nameDecision_resolve_iff.mp h
  rw [cString_eq hnul] at hok hhost
  unfold hostNormalise at hok hhost
  dsimp only at hok hhost
  split at hok
  · cases hok
  · rename_i hlen
    rw [if_neg hlen] at hhost
    obtain ⟨k, hdots⟩ := (stripDots_removed name).dots
    have hstrip : stripDots name = host := hhost
    rw [hstrip] at hdots hok
    refine ⟨⟨k, hdots⟩, fun c hc => ?_⟩
    rw [hdots] at hc
    rcases List.mem_append.mp hc with hmem | hmem
    · exact labelsOk_bytes hok c hmem
    · exact .inr (List.eq_of_mem_replicate hmem)

/--
**The name that is resolved is the name the client asked for, exactly when no zero byte
hides the rest of it.**  For every slot that sniffs, in any world, and every outcome of
`recv`: every host the call asks the resolver for is the complete host_name of the bytes
received so far, less trailing dots and with no foreign byte in it, if and only if the
call does not complete a host_name that is cut by a zero byte to one that passes.
-/
theorem resolved_name_exact_iff (w : World) (i : Slot) (e : ReadEnv)
    (hst : (w.conn i).st = .sniff) :
    (∀ host, AsksFor w (handleClientReadable w i e) i host →
      ∃ off nlen, ExactName ((w.conn i).up ++ newBytes (w.conn i) e.recv) host off nlen) ↔
      ¬ (newBytes (w.conn i) e.recv ≠ [] ∧
        ∃ off nlen, CutByNul ((w.conn i).up ++ newBytes (w.conn i) e.recv) off nlen) := by
  constructor
  · rintro hexact ⟨hne, off, nlen, hcut⟩
    have hdecision : (sniffDecision ((w.conn i).up ++ newBytes (w.conn i) e.recv)).host
        = some _ :=
      sniffDecision_resolve_iff.mpr ⟨off, nlen, hcut.found, hcut.fits,
        nameDecision_resolve_iff.mpr ⟨hcut.accepted, rfl, hcut.allowed⟩⟩
    obtain ⟨off', nlen', hname⟩ := hexact _ (asksFor_of_decision hst hne hdecision)
    have hsame := hname.found.symm.trans hcut.found
    obtain ⟨rfl, rfl⟩ := Prod.mk.inj (Option.some.inj hsame)
    rcases hname.bytes 0 hcut.nul with hbyte | hdot
    · exact absurd hbyte (by decide)
    · exact absurd hdot (by decide)
  · rintro hcond host ⟨q, hasks⟩
    have hself : ∀ x, asked w.trace ≠ x :: asked w.trace := by
      intro x hx
      have := congrArg List.length hx
      rw [List.length_cons] at this
      omega
    by_cases hne : newBytes (w.conn i) e.recv = []
    · rw [asked_no_bytes hne] at hasks
      exact absurd hasks (hself _)
    · rw [asked_handleClientReadable hst hne] at hasks
      split at hasks
      · rename_i host' hdecision
        obtain ⟨off, nlen, hfind, hfits, hname⟩ := sniffDecision_resolve_iff.mp hdecision
        obtain ⟨heq, -⟩ := List.cons.inj hasks
        obtain rfl : host' = host := (Prod.mk.inj (Prod.mk.inj heq).2).2
        have hnul : (0 : UInt8) ∉ Bytes.slice ((w.conn i).up ++ newBytes (w.conn i) e.recv)
            off nlen := by
          intro hzero
          obtain ⟨hok, hhost, hallowed⟩ := nameDecision_resolve_iff.mp hname
          rw [← hhost] at hallowed
          exact hcond ⟨hne, off, nlen, hfind, hfits, hzero, hok, hallowed⟩
        obtain ⟨hwhole, hbytes⟩ := nameDecision_exact hnul hname
        exact ⟨off, nlen, hfind, hwhole, hbytes⟩
      · exact absurd hasks (hself _)

/-- A ClientHello with one short host_name. -/
def helloFor (name : Bytes) : Bytes :=
  [0x16, 3, 1, 0, 0, 1, 0, 0, 0, 3, 3] ++ List.replicate 32 0 ++
    -- no session, one cipher, no compression
    [0, 0, 2, 0x13, 1, 1, 0] ++
    [0, UInt8.ofNat (name.length + 9)] ++
    [0, 0, 0, UInt8.ofNat (name.length + 5), 0, UInt8.ofNat (name.length + 3)] ++
    [0, 0, UInt8.ofNat name.length] ++ name

def helloRead (name : Bytes) : ReadEnv := ⟨.bytes (helloFor name), 0, false, .inProgress⟩

theorem asksFor_hello {name host : Bytes}
    (hfits : newBytes (sniffingWorld.conn firstSlot) (helloRead name).recv = helloFor name)
    (hdecision : (sniffDecision (helloFor name)).host = some host) :
    AsksFor sniffingWorld (handleClientReadable sniffingWorld firstSlot (helloRead name))
      firstSlot host := by
  have hup : (sniffingWorld.conn firstSlot).up = [] := by
    simp [sniffingWorld, Conn.blank, Conn.zero]
  refine asksFor_of_decision (by simp [sniffingWorld]) ?_ ?_
  · rw [hfits]
    simp [helloFor]
  · rw [hfits, hup, List.nil_append]
    exact hdecision

/-- `a.b.` is resolved as `a.b`. -/
theorem resolved_name_exact_dotted :
    AsksFor sniffingWorld
        (handleClientReadable sniffingWorld firstSlot (helloRead [97, 46, 98, 46])) firstSlot
        [97, 46, 98] ∧
      ∃ off nlen, ExactName (helloFor [97, 46, 98, 46]) [97, 46, 98] off nlen := by
  have hasks : AsksFor sniffingWorld
      (handleClientReadable sniffingWorld firstSlot (helloRead [97, 46, 98, 46])) firstSlot
      [97, 46, 98] := asksFor_hello (by decide +kernel) (by decide +kernel)
  have hfind : findSni (helloFor [97, 46, 98, 46]) = some (61, 4) := by decide +kernel
  refine ⟨hasks, (resolved_name_exact_iff sniffingWorld firstSlot (helloRead [97, 46, 98, 46])
    rfl).mpr ?_ _ hasks⟩
  rintro ⟨-, off, nlen, hcut⟩
  obtain ⟨rfl, rfl⟩ := Prod.mk.inj (Option.some.inj (hcut.found.symm.trans hfind))
  exact absurd hcut.nul (by decide +kernel)

/-- `a.b`, a zero byte and `!` are resolved as `a.b`. -/
theorem cut_name_resolved :
    AsksFor sniffingWorld
        (handleClientReadable sniffingWorld firstSlot (helloRead [97, 46, 98, 0, 33])) firstSlot
        [97, 46, 98] ∧
      findSni (helloFor [97, 46, 98, 0, 33]) = some (61, 5) ∧
      Bytes.slice (helloFor [97, 46, 98, 0, 33]) 61 5 = [97, 46, 98, 0, 33] ∧
      ∀ off nlen, ¬ ExactName (helloFor [97, 46, 98, 0, 33]) [97, 46, 98] off nlen := by
  have hfind : findSni (helloFor [97, 46, 98, 0, 33]) = some (61, 5) := by decide +kernel
  refine ⟨asksFor_hello (by decide +kernel) (by decide +kernel), hfind, by decide +kernel, ?_⟩
  intro off nlen hexact
  obtain ⟨rfl, rfl⟩ := Prod.mk.inj (Option.some.inj (hexact.found.symm.trans hfind))
  have hbad := hexact.bytes 0 (by decide +kernel)
  exact absurd hbad (by decide)

end SysAwg
