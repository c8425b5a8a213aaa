/-
The values of a configuration line: `trim`, `parse_ipv4`, `parse_range` and `parse_key` of
`awg_config.c`, and `ip_str`, which prints an address.

A C string is a list of bytes up to its end or its first zero.  `long` has 64 bits, as on
the console and on the host of the tests.
-/
import SysAwg.Base64
import SysAwg.Session
import SysAwg.Sni

namespace SysAwg

open Bytes

def trim (s : Bytes) : Bytes :=
  let s := s.rdropWhile fun c => c == 10 || c == 13 || c == 32 || c == 9
  s.dropWhile fun c => c == 32 || c == 9

/-- The end of a group in `parse_ipv4`: `v` with the octet, and `parts`. -/
def ipv4Part (v : UInt32) (octet digits parts : Nat) : Option (UInt32 × Nat) :=
  if digits = 0 then none else some (v <<< 8 ||| UInt32.ofNat octet, parts + 1)

def ipv4Loop : Bytes → UInt32 → Nat → Nat → Nat → Option (UInt32 × Nat)
  | [], v, octet, digits, parts => ipv4Part v octet digits parts
  | c :: rest, v, octet, digits, parts =>
    if isDigit c then
      let octet := octet * 10 + (c.toNat - 48)
      let digits := digits + 1
      if digits > 3 ∨ octet > 255 then none else ipv4Loop rest v octet digits parts
    else if c = dot ∨ c = 0 then
      match ipv4Part v octet digits parts with
      | none => none
      | some (v, parts) =>
        if c = 0 then some (v, parts)
        else if parts = 4 then none
        else ipv4Loop rest v 0 0 parts
    else none

/-- The word with its first octet in the low byte. -/
def swapBytes (v : UInt32) : UInt32 :=
  ((v &&& 0xFF) <<< (24 : UInt32)) ||| ((v &&& 0xFF00) <<< (8 : UInt32)) |||
    ((v >>> (8 : UInt32)) &&& 0xFF00) ||| ((v >>> (24 : UInt32)) &&& 0xFF)

/-- `parse_ipv4`: the address in network order, or nothing for -1. -/
def parseIpv4 (s : Bytes) : Option UInt32 :=
  match ipv4Loop s 0 0 0 0 with
  | none => none
  | some (v, parts) =>
    if parts ≠ 4 then none
    else some (swapBytes v)

/-- `parse_range`: the two numbers are compared as `long`s and stored as `int`s. -/
def parseRange (s : Bytes) : Range :=
  let a := (strtol s).1
  match (strtol s).2 with
  | [] => ⟨asInt a, asInt a⟩
  | c :: rest =>
    if c = 45 then
      let b := (strtol rest).1
      if b ≥ a then ⟨asInt a, asInt b⟩ else ⟨asInt a, asInt a⟩
    else ⟨asInt a, asInt a⟩

def parseKey (b64 : Bytes) : Option Key :=
  match awgB64Decode b64 32 with
  | none => none
  | some out => if h : out.length = 32 then some ⟨out.toArray, by simpa using h⟩ else none

def ipStr (netOrder : UInt32) (n : Nat) : Bytes :=
  let b := le32 netOrder
  let text := decimalText (b.getD 0 0).toNat ++ [dot] ++ decimalText (b.getD 1 0).toNat ++ [dot] ++
    decimalText (b.getD 2 0).toNat ++ [dot] ++ decimalText (b.getD 3 0).toNat
  text.take (n - 1)

end SysAwg
