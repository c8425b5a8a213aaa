/-
What a ClientHello is, and the walk through it with every read.

`Sni.lean` says what `find_sni` returns.  Here the same walk also says which bytes it
reads and which `int`s it adds up, in the order of the source, and stops at the first
operation without a meaning in C.  The loop over the extensions has no bound of its own:
it ends because every round moves on.

Beside it stand two readings of the format that are not the program's: the list of
extensions a buffer declares, and the encoding of a well-formed ClientHello.
-/
import SysAwg.Sni
import SysAwg.Lib.Checked

namespace SysAwg

open Checked

/-! ### The walk, with its reads -/

/-- A sum of lengths, as an `int`. -/
def sum (n : Nat) : Checked Nat := do
  let _ ← int n
  .ok n

def readByte (b : Bytes) (p : Nat) : Checked UInt8 := do
  span b.length p 1
  .ok (b.getD p 0)

def read16 (b : Bytes) (p : Nat) : Checked Nat := do
  span b.length p 1
  span b.length (p + 1) 1
  .ok (be16 b p)

def serverNameChecked (b : Bytes) (p endp : Nat) : Checked (Option (Nat × Nat)) := do
  let q ← sum (p + 2)
  if q > endp then .ok none
  else do
    let q' ← sum (q + 3)
    if q' > endp then .ok none
    else do
      let nameType ← readByte b q
      if nameType ≠ 0 then .ok none
      else do
        let nlen ← read16 b (q + 1)
        let past ← sum (q' + nlen)
        if past > endp ∨ nlen = 0 then .ok none else .ok (some (q', nlen))

def extensionLoopChecked (b : Bytes) (endp p : Nat) : Checked (Option (Nat × Nat)) := do
  let _ ← sum (p + 4)
  if p + 4 ≤ endp then do
    let type ← read16 b p
    let elen ← read16 b (p + 2)
    let _ ← sum (p + 4 + elen)
    if p + 4 + elen > endp then .ok none
    else if type = 0 then serverNameChecked b (p + 4) endp
    else extensionLoopChecked b endp (p + 4 + elen)
  else .ok none
termination_by endp - p

def findSniChecked (b : Bytes) : Checked (Option (Nat × Nat)) :=
  let len := b.length
  if len < 45 then .ok none
  else do
    let record ← readByte b 0
    if record ≠ 0x16 then .ok none
    else do
      let hello ← readByte b 5
      if hello ≠ 0x01 then .ok none
      else do
        let p := 43
        if p + 1 > len then .ok none
        else do
          -- session id
          let n ← readByte b p
          let p ← sum (p + 1 + n.toNat)
          let q ← sum (p + 2)
          if q > len then .ok none
          else do
            -- cipher list
            let n ← read16 b p
            let p ← sum (p + 2 + n)
            let q ← sum (p + 1)
            if q > len then .ok none
            else do
              -- compression
              let n ← readByte b p
              let p ← sum (p + 1 + n.toNat)
              let q ← sum (p + 2)
              if q > len then .ok none
              else do
                let extTotal ← read16 b p
                let past ← sum (p + 2 + extTotal)
                extensionLoopChecked b (min past len) (p + 2)

/-- `sni_hostname`: the name is read, and written with its terminator into `cap` bytes. -/
def sniHostnameChecked (b : Bytes) (cap : Nat) : Checked (Option Bytes) := do
  match ← findSniChecked b with
  | none => .ok none
  | some (off, nlen) =>
    if nlen ≥ cap then .ok none
    else do
      span b.length off nlen
      span cap 0 nlen
      span cap nlen 1
      .ok (some (Bytes.slice b off nlen))

/-! ### The extensions a buffer declares

This is what a reader of the format sees in the same bytes, a list of extensions, without
any idea of looking for one.
-/

/-- An extension: its type, where its body begins, and the length it declares. -/
structure Extension where
  type : Nat
  body : Nat
  len : Nat
  deriving DecidableEq, Repr

/-- The extensions from `p` on, as far as they lie before `endp`. -/
def extensionsFrom (b : Bytes) (endp : Nat) : Nat → Nat → List Extension
  | 0, _ => []
  | fuel + 1, p =>
    if p + 4 + be16 b (p + 2) ≤ endp then
      ⟨be16 b p, p + 4, be16 b (p + 2)⟩ :: extensionsFrom b endp fuel (p + 4 + be16 b (p + 2))
    else []

/-- Where the extensions begin, and where they end: at the length declared for all of them
or with the buffer. -/
def extensionBlock (b : Bytes) : Option (Nat × Nat) :=
  let sessionId := 43 + 1 + (b.getD 43 0).toNat
  let ciphers := sessionId + 2 + be16 b sessionId
  let compression := ciphers + 1 + (b.getD ciphers 0).toNat
  if b.length < 45 ∨ b.getD 0 0 ≠ 0x16 ∨ b.getD 5 0 ≠ 0x01 ∨ sessionId + 2 > b.length ∨
      ciphers + 1 > b.length ∨ compression + 2 > b.length then none
  else some (compression + 2, min (compression + 2 + be16 b compression) b.length)

def extensions (b : Bytes) : List Extension :=
  match extensionBlock b with
  | none => []
  | some (p, endp) => extensionsFrom b endp b.length p

/-- The first server_name extension. -/
def firstServerName (b : Bytes) : Option Extension := (extensions b).find? fun x => x.type = 0

/-! ### Well-formed ClientHellos -/

/-- A number below 2^16, high byte first. -/
def put16 (n : Nat) : Bytes := [UInt8.ofNat (n / 256), UInt8.ofNat n]

/-- A number below 2^24, high byte first. -/
def put24 (n : Nat) : Bytes := UInt8.ofNat (n / 65536) :: put16 (n % 65536)

/-- An extension with its contents. -/
structure HelloExtension where
  type : UInt16
  body : Bytes

def HelloExtension.encode (x : HelloExtension) : Bytes :=
  put16 x.type.toNat ++ put16 x.body.length ++ x.body

def encodeExtensions (xs : List HelloExtension) : Bytes := xs.flatMap HelloExtension.encode

/-- A server_name extension with one host name. -/
def serverNameExtension (name : Bytes) : HelloExtension where
  type := 0
  body := put16 (name.length + 3) ++ [0] ++ put16 name.length ++ name

/-- The fields of a ClientHello that names a host: other extensions before the first
server_name extension, and any after it. -/
structure HelloFields where
  recordVersion : UInt16
  version : UInt16
  random : Vector UInt8 32
  sessionId : Bytes
  ciphers : Bytes
  compression : Bytes
  before : List HelloExtension
  name : Bytes
  after : List HelloExtension

namespace HelloFields

variable (f : HelloFields)

def block : Bytes :=
  encodeExtensions f.before ++ (serverNameExtension f.name).encode ++ encodeExtensions f.after

/-- The handshake message without its own header. -/
def message : Bytes :=
  put16 f.version.toNat ++ f.random.toList ++ [UInt8.ofNat f.sessionId.length] ++ f.sessionId ++
    put16 f.ciphers.length ++ f.ciphers ++ [UInt8.ofNat f.compression.length] ++ f.compression ++
    put16 f.block.length ++ f.block

/-- The record. -/
def encode : Bytes :=
  [0x16] ++ put16 f.recordVersion.toNat ++ put16 (f.message.length + 4) ++ [0x01] ++
    put24 f.message.length ++ f.message

def blockOffset : Nat :=
  43 + 1 + f.sessionId.length + 2 + f.ciphers.length + 1 + f.compression.length + 2

def nameOffset : Nat := f.blockOffset + (encodeExtensions f.before).length + 4 + 5

/-- Where the server_name extension ends. -/
def nameEnd : Nat := f.nameOffset + f.name.length

end HelloFields

/-- A ClientHello in a single record: every length fits the bytes that carry it. -/
structure ClientHello extends HelloFields where
  first : ∀ x ∈ before, x.type ≠ 0
  named : name ≠ []
  sessionIdFits : sessionId.length < 256
  compressionFits : compression.length < 256
  recordFits : toHelloFields.message.length + 4 < 65536

end SysAwg
