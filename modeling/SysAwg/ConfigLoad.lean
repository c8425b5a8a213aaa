/-
The loader: `awg_config_load` of `awg_config.c`.

The source reads the file with `fgets` into `LINE_MAX` bytes and takes each piece for a
line.  Here a file is its content, the pieces are a list, and one piece is handled by
`configLine`, from the configuration and the section so far.  What fails gives the text
that the source leaves in `err`; a key that is refused leaves the configuration unfinished
in the source, where the caller gets no configuration at all.

`loadLines` with the lines of the content in place of the pieces is the meaning a file has
line by line.
-/
import SysAwg.ConfigText
import SysAwg.Template
import Mathlib.Logic.Function.Basic

namespace SysAwg

open Bytes

/-! ### Values -/

def atoi (s : Bytes) : Int := asInt (strtol s).1

/-- `parse_key` with its error. -/
def keyNamed (what : Bytes) (b64 : Bytes) : Except Bytes Key :=
  match parseKey b64 with
  | some key => .ok key
  | none => .error (errText (what ++ ascii " is not a 32-byte base64 key"))

/-- The tokens of `strtok(v, ", ")`. -/
def strtokList (v : Bytes) : List Bytes :=
  (v.splitOnP fun c => c == 44 || c == 32).filter fun tok => !tok.isEmpty

/-- The loop over the resolvers; the array holds four. -/
def dnsLoop : List Bytes → List UInt32 → List UInt32
  | [], dns => dns
  | tok :: toks, dns =>
    if dns.length < 4 then
      match parseIpv4 tok with
      | some ip => dnsLoop toks (dns ++ [ip])
      | none => dnsLoop toks dns
    else dns

/-- `Address`: with a slash the length of the network follows, else it is 32. -/
def setAddress (v : Bytes) (cfg : Config) : Except Bytes Config :=
  let cidr := if 47 ∈ v then atoi ((v.dropWhile (· ≠ 47)).tail) else 32
  match parseIpv4 (v.takeWhile (· ≠ 47)) with
  | some a => .ok { cfg with address := a, addressCidr := cidr }
  | none => .error (errText (ascii "Address is not IPv4"))

def obfIndex (k : Bytes) : Option (Fin 5) :=
  (List.finRange 5).find? fun idx => k = [73, UInt8.ofNat (49 + idx)]

/-- A template: without an error text, no chain is no failure. -/
def setObf (idx : Fin 5) (v : Bytes) (cfg : Config) : Except Bytes Config :=
  match awgObfParse v with
  | .ok c => .ok { cfg with i := Function.update cfg.i idx (some c) }
  | .error kerr =>
    if kerr = [] then .ok { cfg with i := Function.update cfg.i idx none } else .error kerr

/-- `Endpoint`: split at the last colon, the host cut to its buffer. -/
def setEndpoint (v : Bytes) (cfg : Config) : Except Bytes Config :=
  if 58 ∈ v then
    .ok { cfg with
      endpointHost := ((v.rdropWhile (· ≠ 58)).dropLast).take 127
      endpointPort := atoi (v.rtakeWhile (· ≠ 58)) }
  else .error (errText (ascii "Endpoint has no port"))

/-! ### Keys

A key is looked up among the names of its section only, and the section is whatever the last
bracketed line said: everything that is not `[Peer]` counts as `[Interface]`.  Names the
source does not know are passed over without an error.
-/

/-- A key outside `[Peer]`. -/
def setInterface (k v : Bytes) (cfg : Config) : Except Bytes Config :=
  if k = ascii "PrivateKey" then
    (keyNamed k v).map fun key => { cfg with privateKey := key, havePrivateKey := true }
  else if k = ascii "HeaderProtectionKey" then
    (keyNamed k v).map fun key =>
      { cfg with headerProtectionKey := key, haveHeaderProtection := true }
  else if k = ascii "Address" then setAddress v cfg
  else if k = ascii "DNS" then .ok { cfg with dns := dnsLoop (strtokList v) cfg.dns }
  else if k = ascii "Jc" then .ok { cfg with jc := atoi v }
  else if k = ascii "Jmin" then .ok { cfg with jmin := atoi v }
  else if k = ascii "Jmax" then .ok { cfg with jmax := atoi v }
  else if k = ascii "S1" then .ok { cfg with s1 := atoi v }
  else if k = ascii "S2" then .ok { cfg with s2 := atoi v }
  else if k = ascii "S3" then .ok { cfg with s3 := atoi v }
  else if k = ascii "S4" then .ok { cfg with s4 := atoi v }
  else if k = ascii "H1" then .ok { cfg with h1 := (strtoul v).toUInt32 }
  else if k = ascii "H2" then .ok { cfg with h2 := (strtoul v).toUInt32 }
  else if k = ascii "H3" then .ok { cfg with h3 := (strtoul v).toUInt32 }
  else if k = ascii "H4" then .ok { cfg with h4 := (strtoul v).toUInt32 }
  else if k = ascii "RekeyAfterTime" then .ok { cfg with rekeyAfterTime := parseRange v }
  else if k = ascii "RekeyTimeout" then .ok { cfg with rekeyTimeout := parseRange v }
  else if k = ascii "RejectAfterTime" then .ok { cfg with rejectAfterTime := parseRange v }
  else if k = ascii "KeepaliveTimeout" then .ok { cfg with keepaliveTimeout := parseRange v }
  else if k = ascii "MaxHandshakeAttempts" then
    .ok { cfg with maxHandshakeAttempts := parseRange v }
  else if k = ascii "ContentPaddingAddition" then
    .ok { cfg with contentPaddingAddition := parseRange v }
  else
    match obfIndex k with
    | some idx => setObf idx v cfg
    | none => .ok cfg

/-- A key in `[Peer]`; `AllowedIPs` is ignored, as is every key that is not known. -/
def setPeer (k v : Bytes) (cfg : Config) : Except Bytes Config :=
  if k = ascii "PublicKey" then
    (keyNamed k v).map fun key => { cfg with peerPublicKey := key, havePeerPublicKey := true }
  else if k = ascii "PresharedKey" then
    (keyNamed k v).map fun key => { cfg with presharedKey := key, havePresharedKey := true }
  else if k = ascii "Endpoint" then setEndpoint v cfg
  else if k = ascii "PersistentKeepalive" then .ok { cfg with persistentKeepalive := parseRange v }
  else .ok cfg

/-! ### Lines -/

/-- What the loop carries: `*cfg` and `in_peer`. -/
structure LoadState where
  cfg : Config
  inPeer : Bool

/-- One piece: at most one section or one key.  A failure gives the key and `kerr`. -/
def configLine (st : LoadState) (line : Bytes) : Except (Bytes × Bytes) LoadState :=
  let line := trim (line.takeWhile (· ≠ 35))
  if line = [] then .ok st
  else if line.head? = some 91 then .ok { st with inPeer := line.take 5 = ascii "[Peer" }
  else if 61 ∈ line then
    let k := trim (line.takeWhile (· ≠ 61))
    let v := trim (line.dropWhile (· ≠ 61)).tail
    if k = [] then .ok st
    else
      match if st.inPeer then setPeer k v st.cfg else setInterface k v st.cfg with
      | .ok cfg => .ok { st with cfg := cfg }
      | .error kerr => .error (k, kerr)
  else .ok st

/-- The loop over the pieces, `lineno` of them done. -/
def loadLoop : List Bytes → Nat → LoadState → Except Bytes LoadState
  | [], _, st => .ok st
  | line :: rest, lineno, st =>
    match configLine st line with
    | .ok st => loadLoop rest (lineno + 1) st
    | .error (k, kerr) =>
      .error (ascii "line " ++ decimalText (lineno + 1) ++ ascii " (" ++ k ++ ascii "): " ++ kerr)

def loadChecks (cfg : Config) : Except Bytes Config :=
  if !cfg.havePrivateKey then .error (ascii "no PrivateKey")
  else if !cfg.havePeerPublicKey then .error (ascii "no peer PublicKey")
  else if cfg.endpointHost = [] then .error (ascii "no Endpoint")
  else .ok cfg

def loadLines (lines : List Bytes) : Except Bytes Config := do
  let st ← loadLoop lines 0 ⟨Config.default, false⟩
  loadChecks st.cfg

/-! ### Files

What does not fit into its buffer `fgets` leaves for the next call.  So a line of more than
8191 bytes comes in several pieces, and the loop takes every piece for a line.
-/

/-- `fgets` into `n + 1` bytes: up to `n` characters and not beyond a line feed, and what is
left of the file. -/
def fgets : Nat → Bytes → Bytes × Bytes
  | 0, f => ([], f)
  | _ + 1, [] => ([], [])
  | n + 1, c :: f =>
    if c = 10 then ([c], f)
    else
      let (line, f) := fgets n f
      (c :: line, f)

/-- The strings that `fgets(line, LINE_MAX, f)` leaves one after another, until it returns
NULL.  Each takes a character or more, so as many rounds as characters are enough. -/
def filePieces : Nat → Bytes → List Bytes
  | 0, _ => []
  | fuel + 1, f =>
    match f with
    | [] => []
    | _ :: _ => cString (fgets 8191 f).1 :: filePieces fuel (fgets 8191 f).2

def awgConfigLoad (path : Bytes) (file : Option Bytes) (errsz : Nat) : Except Bytes Config :=
  match file with
  | none => .error ((ascii "cannot open " ++ path).take (errsz - 1))
  | some content =>
    (loadLines (filePieces content.length content)).mapError fun text => text.take (errsz - 1)

end SysAwg
