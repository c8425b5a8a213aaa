/-
Sniffing, however the bytes arrive.

`handle_client_readable` walks the whole buffer again each time bytes come in.  A name
found in a buffer is found in every longer one, so up to `SNIFF_LIMIT` bytes the cuts do
not matter.  Past the limit they do: the limit is tested against what has arrived, not
against where the name ends, and a name that is complete only past the limit is found or
given up depending on whether a single `recv` happened to reach it.

So the decision is studied as a function of the buffer, `sniffDecision`, and a client's
stream as a list of segments that `recv` may return.  Where the name ends within the
limit, every cutting comes to the same decision; where it ends later, two cuttings are
given that do not, one of a single segment and one that stops at the limit.
-/
import SysAwg.ProxyRun
import Mathlib.Data.List.GetD

namespace SysAwg

/-! ### A longer buffer

More bytes at the end change neither what the walk has read nor where the extensions end for
it, except that the end of the buffer may have stood in their place.  So whatever it found
it finds again.
-/

section Longer

variable {b c : Bytes}

theorem getD_longer {i : Nat} (h : i < b.length) : (b ++ c).getD i 0 = b.getD i 0 :=
  List.getD_append _ _ _ _ h

theorem be16_longer {p : Nat} (h : p + 2 ≤ b.length) : be16 (b ++ c) p = be16 b p := by
  unfold be16
  rw [getD_longer (by omega), getD_longer (by omega)]

/-- A host name inside the first `endp` bytes is there in any longer buffer. -/
theorem serverName_longer {p endp endp' : Nat} {r : Nat × Nat} (hend : endp ≤ b.length)
    (hle : endp ≤ endp') (h : serverName b p endp = some r) :
    serverName (b ++ c) p endp' = some r ∧ r.1 + r.2 ≤ b.length := by
  unfold serverName at h ⊢
  dsimp only at h ⊢
  split at h
  · cases h
  · rw [if_neg (by omega)]
    split at h
    · cases h
    · rw [if_neg (by omega), getD_longer (by omega), be16_longer (by omega)]
      split at h
      · cases h
      · rename_i htype
        rw [if_neg htype]
        split at h
        · cases h
        · rename_i hlen
          rw [if_neg (by omega)]
          refine ⟨h, ?_⟩
          rw [← Option.some.inj h]
          show p + 2 + 3 + be16 b (p + 2 + 1) ≤ b.length
          omega

/-- The walk over the extensions takes the same steps. -/
theorem extensionLoop_longer {endp endp' : Nat} {r : Nat × Nat} (hend : endp ≤ b.length)
    (hle : endp ≤ endp') :
    ∀ (fuel fuel' p : Nat), fuel ≤ fuel' → extensionLoop b endp fuel p = some r →
      extensionLoop (b ++ c) endp' fuel' p = some r ∧ r.1 + r.2 ≤ b.length := by
  intro fuel
  induction fuel with
  | zero =>
      intro fuel' p _ h
      cases h
  | succ fuel ih =>
      intro fuel' p hfuel h
      obtain ⟨more, rfl⟩ : ∃ more, fuel' = more + 1 := ⟨fuel' - 1, by omega⟩
      rw [extensionLoop] at h ⊢
      split at h
      · dsimp only at h ⊢
        rw [if_pos (by omega), be16_longer (by omega), be16_longer (by omega)]
        split at h
        · cases h
        · rw [if_neg (by omega)]
          by_cases htype : be16 b p = 0
          · rw [if_pos htype] at h ⊢
            exact serverName_longer hend hle h
          · rw [if_neg htype] at h ⊢
            exact ih more _ (by omega) h
      · cases h

/-- **A name found in a buffer is found in every longer one**, at the same place. -/
theorem findSni_longer {r : Nat × Nat} (h : findSni b = some r) :
    findSni (b ++ c) = some r ∧ r.1 + r.2 ≤ b.length := by
  have hlen : (b ++ c).length = b.length + c.length := List.length_append
  unfold findSni at h ⊢
  dsimp only at h ⊢
  rw [hlen]
  split at h
  · cases h
  · rw [if_neg (by omega), getD_longer (by omega), getD_longer (by omega), getD_longer (by omega)]
    split at h
    · cases h
    · rename_i hrecord
      rw [if_neg hrecord]
      split at h
      · cases h
      · rename_i hhello
        rw [if_neg hhello]
        split at h
        · cases h
        · rw [if_neg (by omega)]
          split at h
          · cases h
          · rw [if_neg (by omega), be16_longer (by omega)]
            split at h
            · cases h
            · rw [if_neg (by omega), getD_longer (by omega)]
              split at h
              · cases h
              · rw [if_neg (by omega), be16_longer (by omega)]
                exact extensionLoop_longer (by omega) (by omega) _ _ _ (by omega) h

/-- In a longer buffer the host name is the same name. -/
theorem sniHostname_longer {cap : Nat} {name : Bytes} (h : sniHostname b cap = some name) :
    sniHostname (b ++ c) cap = some name := by
  unfold sniHostname at h ⊢
  cases hfind : findSni b with
  | none =>
      rw [hfind] at h
      cases h
  | some r =>
      obtain ⟨hlonger, hin⟩ := findSni_longer (c := c) hfind
      rw [hfind] at h
      rw [hlonger]
      dsimp only at h ⊢
      split at h
      · cases h
      · rename_i hcap
        rw [if_neg hcap, ← Option.some.inj h]
        unfold Bytes.slice
        rw [List.drop_append_of_le_length (by omega), List.take_append_of_le_length]
        rw [List.length_drop]
        omega

end Longer

/-! ### The decision

A call that brings bytes ends in one of four ways: the name is resolved, denied, or refused,
or there is none yet.  That is a function of the buffer alone, and what the proxy does is a
function of the decision.
-/

/-- What sniffing makes of a connection. -/
inductive SniffDecision
  /-- Nothing yet. -/
  | waiting
  | noSniFound
  | malformedHostname
  | telemetryStaysBlocked (host : Bytes)
  | resolve (host : Bytes)
  deriving DecidableEq

/-- The decision about a name. -/
def nameDecision (name : Bytes) : SniffDecision :=
  let h := hostNormalise (cString name)
  if !h.2 then .malformedHostname
  else if hostDenied h.1 then .telemetryStaysBlocked h.1
  else .resolve h.1

/-- The decision on the bytes received so far. -/
def sniffDecision (up : Bytes) : SniffDecision :=
  match sniHostname up hostCap with
  | some name => nameDecision name
  | none => if up.length ≥ sniffLimit then .noSniFound else .waiting

def actOn (w : World) (i : Slot) (dns : DnsAnswer) : SniffDecision → World
  | .waiting => w
  | .noSniFound => connClose w i (some .noSniFound)
  | .malformedHostname =>
    connClose ((w.count fun s => { s with denied := s.denied + 1 }).setConn i
      { w.conn i with host := [] }) i (some .malformedHostname)
  | .telemetryStaysBlocked host =>
    connClose ((w.setConn i { w.conn i with host := host }).count
      fun s => { s with denied := s.denied + 1 }) i (some .telemetryStaysBlocked)
  | .resolve host => resolve (w.setConn i { w.conn i with host := host, st := .resolving }) i dns

/-- `sniff` takes the decision and acts on it. -/
theorem sniff_eq (w : World) (i : Slot) (dns : DnsAnswer) :
    sniff w i dns = actOn w i dns (sniffDecision (w.conn i).up) := by
  unfold sniff sniffDecision
  dsimp only
  cases hname : sniHostname (w.conn i).up hostCap with
  | none =>
      dsimp only
      split <;> rfl
  | some name =>
      dsimp only [nameDecision]
      by_cases hbad : (!(hostNormalise (cString name)).2) = true
      · rw [if_pos hbad, if_pos hbad]
        rfl
      · rw [if_neg hbad, if_neg hbad]
        by_cases hdenied : hostDenied (hostNormalise (cString name)).1 = true
        · rw [if_pos hdenied, if_pos hdenied]
          rfl
        · rw [if_neg hdenied, if_neg hdenied]
          simp only [actOn, World.setConn, Function.update_idem]

/-- What one `recv` returned, and what the call meets besides. -/
structure Segment where
  bytes : Bytes
  now : UInt32
  finSent : Bool
  dns : DnsAnswer

def Segment.env (a : Segment) : ReadEnv := ⟨.bytes a.bytes, a.now, a.finSent, a.dns⟩

/-- The world when the bytes of a segment are in the buffer. -/
def buffered (w : World) (i : Slot) (a : Segment) : World :=
  (w.setConn i { w.conn i with up := (w.conn i).up ++ a.bytes, lastMs := a.now }).log
    (.recv i a.bytes)

/-- **A call for a slot that sniffs acts on the decision** about all bytes so far. -/
theorem handleClientReadable_sniffing {w : World} {i : Slot} {a : Segment}
    (hst : (w.conn i).st = .sniff) (hne : a.bytes ≠ [])
    (hfits : a.bytes.length ≤ bufSize - (w.conn i).up.length) :
    handleClientReadable w i a.env =
      actOn (buffered w i a) i a.dns (sniffDecision ((w.conn i).up ++ a.bytes)) := by
  have hpos : 0 < a.bytes.length := List.length_pos_iff.mpr hne
  have htake : a.bytes.take (bufSize - (w.conn i).up.length) = a.bytes :=
    List.take_of_length_le hfits
  have hup : ((buffered w i a).conn i).up = (w.conn i).up ++ a.bytes := by
    simp [buffered]
  unfold handleClientReadable Segment.env
  dsimp only
  rw [if_neg (by omega), htake, if_neg (by omega), if_pos hst]
  have hact := sniff_eq (buffered w i a) i a.dns
  rw [hup] at hact
  exact hact

/-- The decision reached when a client's bytes come in segment by segment. -/
def sniffSegments (w : World) (i : Slot) : List Segment → SniffDecision
  | [] => .waiting
  | a :: rest =>
    match sniffDecision ((w.conn i).up ++ a.bytes) with
    | .waiting => sniffSegments (handleClientReadable w i a.env) i rest
    | d => d

/-- Segments that `recv` can return one after the other while the slot sniffs, from a
buffer that holds `up`: none is empty, and each fits into the space that is left. -/
def Receivable : Bytes → List Segment → Prop
  | _, [] => True
  | up, a :: rest => a.bytes ≠ [] ∧ a.bytes.length ≤ bufSize - up.length ∧
    (∀ c ∈ rest, c.bytes ≠ []) ∧
    (sniffDecision (up ++ a.bytes) = .waiting → Receivable (up ++ a.bytes) rest)

def streamOf (segs : List Segment) : Bytes := segs.flatMap Segment.bytes

/-- While nothing is decided, the slot goes on sniffing with the bytes added. -/
theorem handleClientReadable_waiting {w : World} {i : Slot} {a : Segment}
    (hst : (w.conn i).st = .sniff) (hne : a.bytes ≠ [])
    (hfits : a.bytes.length ≤ bufSize - (w.conn i).up.length)
    (hwait : sniffDecision ((w.conn i).up ++ a.bytes) = .waiting) :
    ((handleClientReadable w i a.env).conn i).st = .sniff ∧
      ((handleClientReadable w i a.env).conn i).up = (w.conn i).up ++ a.bytes := by
  rw [handleClientReadable_sniffing hst hne hfits, hwait]
  simp [actOn, buffered, hst]

theorem nameDecision_ne (name : Bytes) :
    nameDecision name ≠ .waiting ∧ nameDecision name ≠ .noSniFound := by
  unfold nameDecision
  dsimp only
  split
  · exact ⟨by simp, by simp⟩
  · split
    · exact ⟨by simp, by simp⟩
    · exact ⟨by simp, by simp⟩

/-- Nothing is decided exactly below the limit and without a name. -/
theorem sniffDecision_waiting {up : Bytes} (h : sniffDecision up = .waiting) :
    sniHostname up hostCap = none ∧ up.length < sniffLimit := by
  unfold sniffDecision at h
  split at h
  · rename_i name _
    exact absurd h (nameDecision_ne name).1
  · rename_i hnone
    split at h
    · cases h
    · exact ⟨hnone, by omega⟩

/-! ### Any two cuts

Two cuttings of a stream are compared by what has arrived when the decision falls.  Both are
beginnings of the stream, one is a beginning of the other, and so both decide on the same
name, if they come to decide on one.
-/

/-- A slot that sniffs, with the rest of a stream still to come in these segments. -/
structure Sniffing (w : World) (i : Slot) (stream : Bytes) (segs : List Segment) : Prop where
  st : (w.conn i).st = .sniff
  whole : (w.conn i).up ++ streamOf segs = stream
  undecided : sniffDecision (w.conn i).up = .waiting
  receivable : Receivable (w.conn i).up segs

theorem Sniffing.step {w : World} {i : Slot} {stream : Bytes} {a : Segment} {rest : List Segment}
    (h : Sniffing w i stream (a :: rest))
    (hwait : sniffDecision ((w.conn i).up ++ a.bytes) = .waiting) :
    Sniffing (handleClientReadable w i a.env) i stream rest := by
  obtain ⟨hne, hfits, -, hrest⟩ := h.receivable
  obtain ⟨hst, hup⟩ := handleClientReadable_waiting h.st hne hfits hwait
  refine ⟨hst, ?_, ?_, ?_⟩
  · rw [hup, ← h.whole]
    simp [streamOf]
  · rw [hup]
    exact hwait
  · rw [hup]
    exact hrest hwait

/-- What has arrived is a beginning of the stream. -/
theorem Sniffing.arrived {w : World} {i : Slot} {stream : Bytes} {a : Segment}
    {rest : List Segment} (h : Sniffing w i stream (a :: rest)) :
    (w.conn i).up ++ a.bytes <+: stream := by
  refine ⟨streamOf rest, ?_⟩
  rw [← h.whole]
  simp [streamOf]

/-- A name found in one beginning of a stream is found in every longer one. -/
theorem sniHostname_start {u v stream : Bytes} {name : Bytes} (hu : u <+: stream)
    (hv : v <+: stream) (hle : u.length ≤ v.length) (h : sniHostname u hostCap = some name) :
    sniHostname v hostCap = some name := by
  obtain ⟨c, rfl⟩ := List.prefix_of_prefix_length_le hu hv hle
  exact sniHostname_longer h

theorem sniHostname_unique {u v stream : Bytes} {n m : Bytes} (hu : u <+: stream)
    (hv : v <+: stream) (hn : sniHostname u hostCap = some n)
    (hm : sniHostname v hostCap = some m) : n = m := by
  rcases Nat.le_total u.length v.length with hle | hle
  · rw [sniHostname_start hu hv hle hn] at hm
    exact Option.some.inj hm
  · rw [sniHostname_start hv hu hle hm] at hn
    exact (Option.some.inj hn).symm

/-- A name complete within the limit is decided on, whatever the cuts. -/
theorem sniffSegments_found {i : Slot} {stream name : Bytes}
    (hname : sniHostname (stream.take sniffLimit) hostCap = some name) :
    ∀ (segs : List Segment) (w : World), Sniffing w i stream segs →
      sniffSegments w i segs = nameDecision name := by
  have hlimit := List.take_prefix sniffLimit stream
  intro segs
  induction segs with
  | nil =>
      intro w h
      -- the whole stream has arrived, and it holds a name
      obtain ⟨hnone, hshort⟩ := sniffDecision_waiting h.undecided
      have hall : (w.conn i).up = stream := by simpa [streamOf] using h.whole
      rw [hall] at hnone hshort
      rw [List.take_of_length_le (by omega), hnone] at hname
      cases hname
  | cons a rest ih =>
      intro w h
      rw [sniffSegments]
      cases hnow : sniHostname ((w.conn i).up ++ a.bytes) hostCap with
      | some n =>
          have hsame : n = name := sniHostname_unique h.arrived hlimit hnow hname
          have hd : sniffDecision ((w.conn i).up ++ a.bytes) = nameDecision name := by
            unfold sniffDecision
            rw [hnow, hsame]
          rw [hd]
          split
          · rename_i hwait
            exact absurd hwait (nameDecision_ne name).1
          · rfl
      | none =>
          by_cases hlong : sniffLimit ≤ ((w.conn i).up ++ a.bytes).length
          · -- past the limit the name is in the buffer
            have hle : (stream.take sniffLimit).length ≤ ((w.conn i).up ++ a.bytes).length := by
              rw [List.length_take]
              omega
            rw [sniHostname_start hlimit h.arrived hle hname] at hnow
            cases hnow
          · have hwait : sniffDecision ((w.conn i).up ++ a.bytes) = .waiting := by
              unfold sniffDecision
              rw [hnow]
              exact if_neg (by omega)
            rw [hwait]
            exact ih _ (h.step hwait)

/-- A stream without a name in its first 8192 bytes ends without one, whatever the cuts. -/
theorem sniffSegments_notFound {i : Slot} {stream : Bytes}
    (hnone : sniHostname (stream.take bufSize) hostCap = none) :
    ∀ (segs : List Segment) (w : World), Sniffing w i stream segs →
      sniffSegments w i segs
        = if stream.length ≥ sniffLimit then .noSniFound else .waiting := by
  have hbuf := List.take_prefix bufSize stream
  intro segs
  induction segs with
  | nil =>
      intro w h
      obtain ⟨-, hshort⟩ := sniffDecision_waiting h.undecided
      have hall : (w.conn i).up = stream := by simpa [streamOf] using h.whole
      rw [hall] at hshort
      rw [if_neg (by omega)]
      rfl
  | cons a rest ih =>
      intro w h
      have hin : ((w.conn i).up ++ a.bytes).length ≤ (stream.take bufSize).length := by
        have hle := h.arrived.length_le
        have hfits := h.receivable.2.1
        obtain ⟨-, hshort⟩ := sniffDecision_waiting h.undecided
        have hsmall : sniffLimit < bufSize := by decide
        rw [List.length_take]
        rw [List.length_append] at hle ⊢
        omega
      have hnow : sniHostname ((w.conn i).up ++ a.bytes) hostCap = none := by
        cases hfound : sniHostname ((w.conn i).up ++ a.bytes) hostCap with
        | none => rfl
        | some n =>
            rw [sniHostname_start h.arrived hbuf hin hfound] at hnone
            cases hnone
      rw [sniffSegments]
      by_cases hlong : sniffLimit ≤ ((w.conn i).up ++ a.bytes).length
      · have hgiveUp : sniffDecision ((w.conn i).up ++ a.bytes) = .noSniFound := by
          unfold sniffDecision
          rw [hnow]
          exact if_pos hlong
        have hle := h.arrived.length_le
        rw [hgiveUp, if_pos (by omega)]
      · have hwait : sniffDecision ((w.conn i).up ++ a.bytes) = .waiting := by
          unfold sniffDecision
          rw [hnow]
          exact if_neg (by omega)
        rw [hwait]
        exact ih _ (h.step hwait)

/-- A way of cutting a stream into what `recv` returns. -/
structure CutsOf (stream : Bytes) (segs : List Segment) : Prop where
  receivable : Receivable [] segs
  whole : streamOf segs = stream

def segment (b : Bytes) : Segment := ⟨b, 0, false, .inProgress⟩

/-- The stream in two pieces, or in one if the second is empty. -/
def cutAt (n : Nat) (stream : Bytes) : List Segment :=
  segment (stream.take n) ::
    if stream.drop n = [] then [] else [segment (stream.drop n)]

theorem cutAt_cutsOf {n : Nat} {stream : Bytes} (hne : stream.take n ≠ []) (hle : n ≤ bufSize)
    (hdecided : sniffDecision (stream.take n) ≠ .waiting) : CutsOf stream (cutAt n stream) where
  receivable := by
    refine ⟨hne, ?_, ?_, ?_⟩
    · show (stream.take n).length ≤ bufSize - 0
      rw [List.length_take]
      omega
    · intro c hc
      split at hc
      · cases hc
      · rename_i hmore
        rw [List.mem_singleton.mp hc]
        exact hmore
    · intro hwait
      exact absurd hwait hdecided
  whole := by
    by_cases hmore : stream.drop n = []
    · have hall : stream.take n = stream := by
        have := List.take_append_drop n stream
        rwa [hmore, List.append_nil] at this
      simp [cutAt, hmore, streamOf, segment, hall]
    · simp [cutAt, hmore, streamOf, segment]

theorem sniffSegments_cutAt {n : Nat} {stream : Bytes} {w : World} {i : Slot}
    (hup : (w.conn i).up = []) (hdecided : sniffDecision (stream.take n) ≠ .waiting) :
    sniffSegments w i (cutAt n stream) = sniffDecision (stream.take n) := by
  have hbuffer : (w.conn i).up ++ (segment (stream.take n)).bytes = stream.take n := by
    rw [hup]
    rfl
  rw [cutAt, sniffSegments, hbuffer]
  split
  · rename_i hwait
    exact absurd hwait hdecided
  · rfl

/-- A name past the limit is found by a `recv` that reaches it, and given up when one
stops at the limit. -/
theorem late_name_cuts {w : World} {i : Slot} (hup : (w.conn i).up = []) {stream name : Bytes}
    (hname : sniHostname (stream.take bufSize) hostCap = some name)
    (hnone : sniHostname (stream.take sniffLimit) hostCap = none) :
    CutsOf stream (cutAt bufSize stream) ∧ CutsOf stream (cutAt sniffLimit stream) ∧
      sniffSegments w i (cutAt bufSize stream) = nameDecision name ∧
      sniffSegments w i (cutAt sniffLimit stream) = .noSniFound := by
  have hsizes : 0 < sniffLimit ∧ sniffLimit ≤ bufSize := by decide
  have hlong : sniffLimit ≤ stream.length := by
    by_contra hshort
    rw [List.take_of_length_le (by omega)] at hname hnone
    rw [hnone] at hname
    cases hname
  have hne : ∀ n, 0 < n → stream.take n ≠ [] := by
    intro n hn hnil
    have hzero := congrArg List.length hnil
    rw [List.length_take, List.length_nil] at hzero
    omega
  have hwhole : sniffDecision (stream.take bufSize) = nameDecision name := by
    unfold sniffDecision
    rw [hname]
  have hsplit : sniffDecision (stream.take sniffLimit) = .noSniFound := by
    unfold sniffDecision
    rw [hnone]
    refine if_pos ?_
    rw [List.length_take]
    omega
  have hfound : sniffDecision (stream.take bufSize) ≠ .waiting := by
    rw [hwhole]
    exact (nameDecision_ne name).1
  have hgivenUp : sniffDecision (stream.take sniffLimit) ≠ .waiting := by
    rw [hsplit]
    simp
  refine ⟨?_, ?_, ?_, ?_⟩
  · exact cutAt_cutsOf (hne bufSize (by omega)) le_rfl hfound
  · exact cutAt_cutsOf (hne sniffLimit (by omega)) hsizes.2 hgivenUp
  · rw [sniffSegments_cutAt hup hfound, hwhole]
  · rw [sniffSegments_cutAt hup hgivenUp, hsplit]

/--
**Sniffing depends on the cuts exactly when the name ends past the limit.**  For every
stream, all ways of cutting it lead a slot that sniffs to the same decision if and only
if a name found in the first `BUF_SIZE` bytes is there within the first `SNIFF_LIMIT`.
-/
theorem sniff_segmentation_iff (w : World) (i : Slot) (hst : (w.conn i).st = .sniff)
    (hup : (w.conn i).up = []) (stream : Bytes) :
    (∀ segs segs', CutsOf stream segs → CutsOf stream segs' →
      sniffSegments w i segs = sniffSegments w i segs') ↔
      ((sniHostname (stream.take bufSize) hostCap).isSome →
        (sniHostname (stream.take sniffLimit) hostCap).isSome) := by
  have hstart : ∀ segs, CutsOf stream segs → Sniffing w i stream segs := by
    intro segs hcuts
    refine ⟨hst, ?_, ?_, ?_⟩
    · rw [hup]
      exact hcuts.whole
    · rw [hup]
      decide
    · rw [hup]
      exact hcuts.receivable
  constructor
  · intro hsame hlate
    obtain ⟨name, hname⟩ := Option.isSome_iff_exists.mp hlate
    by_contra hearly
    have hnone : sniHostname (stream.take sniffLimit) hostCap = none := by simpa using hearly
    obtain ⟨hwhole, hsplit, hfound, hgivenUp⟩ := late_name_cuts hup hname hnone
    have hcase := hsame _ _ hwhole hsplit
    rw [hfound, hgivenUp] at hcase
    exact (nameDecision_ne name).2 hcase
  · intro hcond segs segs' hsegs hsegs'
    cases hlimit : sniHostname (stream.take sniffLimit) hostCap with
    | some name =>
        rw [sniffSegments_found hlimit segs w (hstart segs hsegs),
          sniffSegments_found hlimit segs' w (hstart segs' hsegs')]
    | none =>
        have hnone : sniHostname (stream.take bufSize) hostCap = none := by
          rw [hlimit] at hcond
          simpa using hcond
        rw [sniffSegments_notFound hnone segs w (hstart segs hsegs),
          sniffSegments_notFound hnone segs' w (hstart segs' hsegs')]

/-- A ClientHello for `a.b` whose server_name extension comes after so many bytes of
padding. -/
def paddedHello (n : Nat) : Bytes :=
  [0x16, 3, 1, 0, 0, 1, 0, 0, 0, 3, 3] ++ List.replicate 32 0 ++
    -- no session, one cipher, no compression
    [0, 0, 2, 0x13, 1, 1, 0] ++
    [UInt8.ofNat ((n + 16) / 256), UInt8.ofNat (n + 16)] ++
    [0, 21, UInt8.ofNat (n / 256), UInt8.ofNat n] ++ List.replicate n 0 ++
    [0, 0, 0, 8, 0, 6, 0, 0, 3, 97, 46, 98]

/-- A slot that has just accepted its client. -/
def sniffingWorld : World := World.boot.setConn firstSlot { Conn.blank with st := .sniff }

/-- With little padding, a cut in the middle of the padding does not matter. -/
theorem sniff_segmentation_short :
    sniffSegments sniffingWorld 0 [segment (paddedHello 4)]
      = sniffSegments sniffingWorld 0
          [segment ((paddedHello 4).take 58), segment ((paddedHello 4).drop 58)] := by
  have hwhole : CutsOf (paddedHello 4) [segment (paddedHello 4)] :=
    ⟨⟨by decide, by decide, by decide, fun _ => trivial⟩, rfl⟩
  have hsplit : CutsOf (paddedHello 4)
      [segment ((paddedHello 4).take 58), segment ((paddedHello 4).drop 58)] :=
    ⟨⟨by decide, by decide, by decide, fun _ => ⟨by decide, by decide, by decide, fun _ => trivial⟩⟩,
      by decide⟩
  exact (sniff_segmentation_iff sniffingWorld 0 rfl rfl (paddedHello 4)).mpr
    (fun _ => by decide) _ _ hwhole hsplit

/-- With 2100 bytes of it, one `recv` resolves the host, and two give up. -/
theorem sniff_segmentation_long :
    CutsOf (paddedHello 2100) (cutAt bufSize (paddedHello 2100)) ∧
      CutsOf (paddedHello 2100) (cutAt sniffLimit (paddedHello 2100)) ∧
      sniffSegments sniffingWorld 0 (cutAt bufSize (paddedHello 2100)) = .resolve [97, 46, 98] ∧
      sniffSegments sniffingWorld 0 (cutAt sniffLimit (paddedHello 2100)) = .noSniFound := by
  have hname : sniHostname ((paddedHello 2100).take bufSize) hostCap = some [97, 46, 98] := by
    decide +kernel
  have hnone : sniHostname ((paddedHello 2100).take sniffLimit) hostCap = none := by
    decide +kernel
  have hdecision : nameDecision [97, 46, 98] = .resolve [97, 46, 98] := by decide
  rw [← hdecision]
  exact late_name_cuts rfl hname hnone

end SysAwg
