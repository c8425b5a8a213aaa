/-
Which host a connection wants: `find_sni`, `sni_hostname`, `host_normalise` and
`host_denied` of `awg_proxy.c`.

A ClientHello is walked at fixed offsets.  Offsets are natural numbers, since none of
them can go below zero, and a byte beyond the end reads as zero; the checks of the
source stand before every read.  A C string is the bytes before its terminator.
-/
import SysAwg.Lib.Bytes
import Mathlib.Data.List.DropRight

namespace SysAwg

/-! ### ClientHello

The walk passes over the session id, the ciphers and the compression methods by their
lengths and then goes through the extensions.  Any length that leads out of the buffer ends
it without a name.
-/

/-- `(b[p] << 8) | b[p + 1]`. -/
def be16 (b : Bytes) (p : Nat) : Nat := (b.getD p 0).toNat * 256 + (b.getD (p + 1) 0).toNat

/-- The body of the server_name extension at `p`. -/
def serverName (b : Bytes) (p endp : Nat) : Option (Nat × Nat) :=
  let q := p
  if q + 2 > endp then none
  else
    let q := q + 2
    if q + 3 > endp then none
    else if b.getD q 0 ≠ 0 then none
    else
      let nlen := be16 b (q + 1)
      let q := q + 3
      if q + nlen > endp ∨ nlen = 0 then none else some (q, nlen)

/-- The loop over the extensions; every round moves on by at least four bytes. -/
def extensionLoop (b : Bytes) (endp : Nat) : Nat → Nat → Option (Nat × Nat)
  | 0, _ => none
  | fuel + 1, p =>
    if p + 4 ≤ endp then
      let type := be16 b p
      let elen := be16 b (p + 2)
      let p := p + 4
      if p + elen > endp then none
      else if type = 0 then serverName b p endp
      else extensionLoop b endp fuel (p + elen)
    else none

/-- `find_sni`: offset and length of the host name, or nothing for -1. -/
def findSni (b : Bytes) : Option (Nat × Nat) :=
  let len := b.length
  if len < 45 then none
  else if b.getD 0 0 ≠ 0x16 then none
  else if b.getD 5 0 ≠ 0x01 then none
  else
    let p := 43
    if p + 1 > len then none
    else
      -- session id
      let p := p + 1 + (b.getD p 0).toNat
      if p + 2 > len then none
      else
        -- cipher list
        let p := p + 2 + be16 b p
        if p + 1 > len then none
        else
          -- compression
          let p := p + 1 + (b.getD p 0).toNat
          if p + 2 > len then none
          else
            let extTotal := be16 b p
            let p := p + 2
            let endp := min (p + extTotal) len
            extensionLoop b endp len p

/-- `sni_hostname`: the bytes it copies, or nothing for -1. -/
def sniHostname (b : Bytes) (cap : Nat) : Option Bytes :=
  match findSni b with
  | none => none
  | some (off, nlen) => if nlen ≥ cap then none else some (Bytes.slice b off nlen)

/-- The string a buffer holds: everything before the first zero. -/
def cString (b : Bytes) : Bytes := b.takeWhile (· ≠ 0)

/-! ### Host names -/

def dot : UInt8 := 46

/-- `while (n > 0 && h[n - 1] == '.') h[--n] = 0;` -/
def stripDots (h : Bytes) : Bytes := h.rdropWhile (· = dot)

/-- The characters a label is made of. -/
def hostByte (c : UInt8) : Bool :=
  (97 ≤ c && c ≤ 122) || (65 ≤ c && c ≤ 90) || (48 ≤ c && c ≤ 57) || c == 45 || c == 95

/-- The loop of `host_normalise`, with `label_empty` as its second argument. -/
def labelsOk : Bytes → Bool → Bool
  | [], labelEmpty => !labelEmpty
  | c :: rest, labelEmpty =>
    if c = dot then if labelEmpty then false else labelsOk rest true
    else if hostByte c then labelsOk rest false else false

/-- `host_normalise`: the string it leaves, and its verdict. -/
def hostNormalise (h : Bytes) : Bytes × Bool :=
  let h := stripDots h
  if h.length = 0 ∨ h.length > 253 then (h, false) else (h, labelsOk h true)

/-- `g_deny_suffix`: `nintendo.net`, `nintendo.com` and `nintendo.co.jp`. -/
def gDenySuffix : List Bytes :=
  [[110, 105, 110, 116, 101, 110, 100, 111, 46, 110, 101, 116],
    [110, 105, 110, 116, 101, 110, 100, 111, 46, 99, 111, 109],
    [110, 105, 110, 116, 101, 110, 100, 111, 46, 99, 111, 46, 106, 112]]

/-- `tolower`, as `strcasecmp` folds case. -/
def lower (c : UInt8) : UInt8 := if 65 ≤ c ∧ c ≤ 90 then c + 32 else c

/-- `host_denied`: the name ends in a listed suffix, at a label boundary. -/
def hostDenied (host : Bytes) : Bool :=
  gDenySuffix.any fun suffix =>
    let hl := host.length
    let sl := suffix.length
    decide (sl ≤ hl) && (host.drop (hl - sl)).map lower == suffix.map lower &&
      (hl == sl || host.getD (hl - sl - 1) 0 == dot)

/-- A name the proxy may resolve and connect to. -/
structure HostOk (host : Bytes) : Prop where
  nonempty : host ≠ []
  normal : hostNormalise host = (host, true)
  allowed : hostDenied host = false

theorem zero_notMem_cString (b : Bytes) : 0 ∉ cString b := by
  intro h
  have hne := List.mem_takeWhile_imp h
  simp at hne

theorem stripDots_idem (h : Bytes) : stripDots (stripDots h) = stripDots h :=
  List.rdropWhile_idempotent _ h

/-- **What `host_normalise` leaves when it accepts, it accepts as it is.** -/
theorem hostNormalise_idem {h h' : Bytes} (hok : hostNormalise h = (h', true)) :
    h' ≠ [] ∧ hostNormalise h' = (h', true) := by
  unfold hostNormalise at hok ⊢
  dsimp only at hok ⊢
  split at hok
  · cases hok
  · rename_i hlen
    obtain ⟨rfl, hlabels⟩ := Prod.mk.inj hok
    refine ⟨?_, ?_⟩
    · intro hnil
      exact hlen (.inl (by rw [hnil]; rfl))
    · rw [stripDots_idem, if_neg hlen, hlabels]

end SysAwg
