/-
Random draws from configured ranges: `awg_range_pick` with its arithmetic, and
`awg_junk_packets` with what the main loop sends of it.

`Session.lean` says what `awg_range_pick` returns.  Here it also stops at a sum that is no
`int` and at a remainder by zero.
-/
import SysAwg.Session
import SysAwg.Lib.Checked

namespace SysAwg

open Checked

def awgRangePickChecked (r : Range) (e : Entropy) : Checked Int :=
  if r.max ≤ r.min then .ok r.min
  else do
    let width ← int (r.max - r.min)
    let width ← int (width + 1)
    let k ← Checked.mod (awgRandomWord e).toNat (UInt32.ofInt width).toNat
    int (r.min + asInt k)

/-! ### Junk packets -/

/-- What `awg_random_bytes` gives for one junk packet: its size, and its bytes. -/
structure JunkDraw where
  size : Entropy
  fill : Entropy

def junkLen (cfg : Config) (cap : Int) (e : Entropy) : Int :=
  let span := cfg.jmax - cfg.jmin
  let r := if span > 0 then (awgRandomWord e).toNat % (UInt32.ofInt span).toNat else 0
  let len := cfg.jmin + asInt r
  let len := if len > cap then cap else len
  if len < 0 then 0 else len

/-- The loop of `awg_junk_packets` from packet `i` on, for `n` more: `bufs` and `lens`. -/
def junkLoop (cfg : Config) (cap : Nat) (draws : Nat → JunkDraw) :
    Nat → Nat → Bytes → List Int → Bytes × List Int
  | 0, _, bufs, lens => (bufs, lens)
  | n + 1, i, bufs, lens =>
    let len := junkLen cfg cap (draws i).size
    let bufs := bufs.overlay (i * cap) (awgRandomBytes (draws i).fill len.toNat)
    junkLoop cfg cap draws n (i + 1) bufs (lens ++ [len])

/-- `awg_junk_packets`: the buffer and the lengths it leaves, and what it returns. -/
def awgJunkPackets (cfg : Config) (bufs : Bytes) (cap : Nat) (maxPackets : Int)
    (draws : Nat → JunkDraw) : Bytes × List Int × Int :=
  let n := if cfg.jc > maxPackets then maxPackets else cfg.jc
  if n ≤ 0 then (bufs, [], 0)
  else
    let (bufs, lens) := junkLoop cfg cap draws n.toNat 0 bufs []
    (bufs, lens, n)

/-- The junk packets ahead of an initiation, from main's `junk[16 * 128]`: the buffer
afterwards, and what is given to `sendto`. -/
def mainJunk (cfg : Config) (junk : Bytes) (draws : Nat → JunkDraw) : Bytes × List Bytes :=
  let (junk, jlens, jn) := awgJunkPackets cfg junk 128 16 draws
  (junk, (List.range jn.toNat).map fun j => junk.slice (j * 128) (jlens.getD j 0).toNat)

end SysAwg
