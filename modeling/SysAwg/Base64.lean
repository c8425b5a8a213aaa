/-
The base64 of `awg_obf.c`: `awg_b64_encode_raw`, `b64_val` and `awg_b64_decode`.

The encoder takes three bytes at a time and writes no padding.  The decoder keeps a 32-bit
accumulator that it never clears and gives out a byte whenever eight bits have arrived; it
reads up to the terminator of its text.  Lengths and capacities are natural numbers: the
source counts in `int`s, up to a capacity that is one.
-/
import SysAwg.Lib.Text

namespace SysAwg

def b64Alphabet : Bytes :=
  Bytes.ascii "ABCDEFGHIJKLMNOPQRSTUVWXYZabcdefghijklmnopqrstuvwxyz0123456789+/"

/-- `for (int k = 0; k < units; k++) out[o++] = B64[(v >> (18 - 6 * k)) & 0x3F];` -/
def b64Units (v : UInt32) (units : Nat) : Bytes :=
  (List.range units).map fun k =>
    b64Alphabet.getD ((v >>> UInt32.ofNat (18 - 6 * k)) &&& 0x3F).toNat 0

/-- The loop of `awg_b64_encode_raw`, with what is written so far and what is left to
encode: the value returned and the characters written. -/
def b64EncodeLoop (outCap : Nat) : Bytes → Bytes → Int × Bytes
  | out, [] => (out.length, out)
  | out, [a] =>
    let v := a.toUInt32 <<< 16
    if out.length + 2 > outCap then (-1, out)
    else b64EncodeLoop outCap (out ++ b64Units v 2) []
  | out, [a, b] =>
    let v := a.toUInt32 <<< 16 ||| b.toUInt32 <<< 8
    if out.length + 3 > outCap then (-1, out)
    else b64EncodeLoop outCap (out ++ b64Units v 3) []
  | out, a :: b :: c :: rest =>
    let v := a.toUInt32 <<< 16 ||| b.toUInt32 <<< 8 ||| c.toUInt32
    if out.length + 4 > outCap then (-1, out)
    else b64EncodeLoop outCap (out ++ b64Units v 4) rest

def awgB64EncodeRaw (x : Bytes) (outCap : Nat) : Int × Bytes := b64EncodeLoop outCap [] x

def b64Val (c : UInt8) : Int :=
  if 65 ≤ c ∧ c ≤ 90 then c.toNat - 65
  else if 97 ≤ c ∧ c ≤ 122 then c.toNat - 97 + 26
  else if 48 ≤ c ∧ c ≤ 57 then c.toNat - 48 + 52
  else if c = 43 then 62
  else if c = 47 then 63
  else -1

/-- The characters `awg_b64_decode` skips: `=`, line feed, carriage return and space. -/
def b64Ignored (c : UInt8) : Bool := c == 61 || c == 10 || c == 13 || c == 32

/-- The loop of `awg_b64_decode`, with `acc`, `bits` and the bytes written so far. -/
def b64DecodeLoop (outCap : Nat) : Bytes → UInt32 → Nat → Bytes → Option Bytes
  | [], _, _, out => some out
  | c :: rest, acc, bits, out =>
    if c = 0 then some out
    else if b64Ignored c then b64DecodeLoop outCap rest acc bits out
    else
      let v := b64Val c
      if v < 0 then none
      else
        let acc := acc <<< 6 ||| UInt32.ofInt v
        let bits := bits + 6
        if bits ≥ 8 then
          let bits := bits - 8
          if out.length ≥ outCap then none
          else b64DecodeLoop outCap rest acc bits (out ++ [(acc >>> UInt32.ofNat bits).toUInt8])
        else b64DecodeLoop outCap rest acc bits out

def awgB64Decode (text : Bytes) (outCap : Nat) : Option Bytes :=
  b64DecodeLoop outCap text 0 0 []

end SysAwg
