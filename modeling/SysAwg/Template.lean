/-
Obfuscation templates: the parser and the renderer of `awg_obf.c`.

A template is text with tags in it.  A chain is the list of its tags; the copy of the text
that the source keeps beside it is read by nobody.  Allocation succeeds, and the length of
a literal is the length of its list: a text in memory is shorter than what an `int`
counts.  A parse that fails gives the text of its error, which is empty where the source
returns NULL without one.

The renderer adds up widths in `int`s and writes at sums of them, so it stops where a sum
is no `int` or a write leaves the buffer.
-/
import SysAwg.Base64
import SysAwg.Config
import SysAwg.Lib.Checked

namespace SysAwg

open Bytes Checked

/-! ### Tags -/

def hexVal (c : UInt8) : Int :=
  if 48 ≤ c ∧ c ≤ 57 then c.toNat - 48
  else if 97 ≤ c ∧ c ≤ 102 then c.toNat - 97 + 10
  else if 65 ≤ c ∧ c ≤ 70 then c.toNat - 65 + 10
  else -1

/-- The digits of a `<b>`, two a byte; nothing for a character that is none. -/
def hexBytes : Bytes → Option Bytes
  | hi :: lo :: rest =>
    if hexVal hi < 0 ∨ hexVal lo < 0 then none
    else (hexBytes rest).map (UInt8.ofNat (hexVal hi * 16 + hexVal lo).toNat :: ·)
  | _ => some []

/-- `char terr[128]`: what `snprintf` leaves in it. -/
def errText (s : Bytes) : Bytes := s.take 127

/-- `if (val[0] == '0' && (val[1] == 'x' || val[1] == 'X')) val += 2;` -/
def skip0x : Bytes → Bytes
  | a :: b :: rest => if a = 48 ∧ (b = 120 ∨ b = 88) then rest else a :: b :: rest
  | s => s

/-- The literal of a `<b>`. -/
def buildBytes (val : Bytes) : Except Bytes Obf :=
  if val = [] then .error (errText (ascii "<b> without bytes"))
  else
    let val := skip0x val
    if val.length = 0 ∨ val.length % 2 ≠ 0 then .error (errText (ascii "<b> odd hex length"))
    else
      match hexBytes val with
      | none => .error (errText (ascii "<b> bad hex digit"))
      | some data => .ok ⟨.bytes, 0, data⟩

def buildCount (kind : ObfKind) (key val : Bytes) : Except Bytes Obf :=
  if val = [] then .error (errText (ascii "<" ++ key ++ ascii "> without a length"))
  else
    let (n, rest) := strtol val
    if rest = val ∨ rest ≠ [] ∨ n < 0 ∨ n > 1048576 then
      .error (errText (ascii "<" ++ key ++ ascii "> bad length '" ++ val ++ ascii "'"))
    else .ok ⟨kind, n, []⟩

def buildTag (key val : Bytes) : Except Bytes Obf :=
  if key = ascii "b" then buildBytes val
  else if key = ascii "t" then .ok ⟨.timestamp, 0, []⟩
  else if key = ascii "d" then .ok ⟨.data, 0, []⟩
  else if key = ascii "ds" then .ok ⟨.dataString, 0, []⟩
  else if key = ascii "r" then buildCount .rand key val
  else if key = ascii "rc" then buildCount .randChars key val
  else if key = ascii "rd" then buildCount .randDigits key val
  else if key = ascii "dz" then buildCount .dataSize key val
  else .error (errText (ascii "unknown tag <" ++ key ++ ascii ">"))

/-! ### Templates

The source walks the text with a pointer: it looks for the next `<`, then for the `>` after
it, and copies what is between them into a buffer of its own.  What stands outside the
brackets is dropped.
-/

/-- The key of a tag and its argument. -/
def splitTag (tag : Bytes) : Bytes × Bytes :=
  let key := tag.dropWhile (· = 32)
  (key.takeWhile (· ≠ 32), (key.dropWhile (· ≠ 32)).dropWhile (· = 32))

/-- The loop of `awg_obf_parse`.  A round takes two characters or more of what is left, so
with as many rounds as characters the first case is not met. -/
def obfLoop : Nat → Bytes → Except Bytes (List Obf)
  | 0, _ => .ok []
  | fuel + 1, p =>
    match p.dropWhile (· ≠ 60) with
    | [] => .ok []
    | _ :: rest =>
      if 62 ∈ rest then do
        let kv := splitTag (rest.takeWhile (· ≠ 62))
        let tag ← buildTag kv.1 kv.2
        let tags ← obfLoop fuel (rest.dropWhile (· ≠ 62)).tail
        .ok (tag :: tags)
      else .error (ascii "missing closing '>'")

def awgObfParse (spec : Bytes) : Except Bytes (List Obf) := do
  let tags ← obfLoop (spec.length + 1) spec
  if tags = [] then .error [] else .ok tags

/-! ### Rendering

Two functions go over a chain, and they have to agree: `awg_obf_out_len` says how long the
result will be and `awg_obf_render` writes it, each computing a tag's width on its own.
-/

def chars52 : Bytes := ascii "abcdefghijklmnopqrstuvwxyzABCDEFGHIJKLMNOPQRSTUVWXYZ"

def digits10 : Bytes := ascii "0123456789"

/-- `tag_out_len`; a product of `int`s is checked as their sums are. -/
def tagOutLen (o : Obf) (srcLen : Int) : Checked Int :=
  match o.kind with
  | .bytes => .ok o.data.length
  | .rand | .randChars | .randDigits => .ok o.len
  | .timestamp => .ok 4
  | .data => .ok srcLen
  | .dataSize => .ok o.len
  | .dataString => do
    let full ← int (srcLen / 3 * 4)
    int (full + if srcLen % 3 ≠ 0 then srcLen % 3 + 1 else 0)

def outLenLoop (srcLen : Int) : Int → List Obf → Checked Int
  | total, [] => .ok total
  | total, o :: rest => do
    let n ← tagOutLen o srcLen
    let total ← int (total + n)
    outLenLoop srcLen total rest

def awgObfOutLen (c : List Obf) (srcLen : Int) : Checked Int := outLenLoop srcLen 0 c

/-- What one tag is given: random bytes, and `time(NULL)`. -/
structure TagDraw where
  random : Entropy
  time : UInt64

def fillRandomFrom (e : Entropy) (n : Nat) (alphabet : Bytes) (mod : Nat) : Bytes :=
  (awgRandomBytes e n).map fun c => alphabet.getD (c.toNat % mod) 0

/-- The bytes of a `<dz>`, written from the last to the first. -/
def sizeBytes : Nat → UInt32 → Bytes
  | 0, _ => []
  | n + 1, v => sizeBytes n (v >>> 8) ++ [v.toUInt8]

/-- `bytes` go to `dst + w`. -/
def put (dst : Bytes) (w : Int) (bytes : Bytes) : Checked Bytes := do
  span dst.length w bytes.length
  .ok (dst.overlay w.toNat bytes)

/-- The `switch` of `awg_obf_render`, with `n` for the width of the tag. -/
def renderTag (o : Obf) (src : Bytes) (n w : Int) (d : TagDraw) (dst : Bytes) : Checked Bytes :=
  match o.kind with
  | .bytes => put dst w o.data
  | .rand => put dst w (awgRandomBytes d.random o.len.toNat)
  | .randChars => put dst w (fillRandomFrom d.random o.len.toNat chars52 52)
  | .randDigits => put dst w (fillRandomFrom d.random o.len.toNat digits10 10)
  | .timestamp => put dst w (le32 d.time.toUInt32).reverse
  | .data => if src.length > 0 then put dst w src else .ok dst
  | .dataString => if src.length > 0 then put dst w (awgB64EncodeRaw src n.toNat).2 else .ok dst
  | .dataSize => put dst w (sizeBytes o.len.toNat (UInt32.ofNat src.length))

/-- The loop of `awg_obf_render` from tag `i` on. -/
def renderLoop (src : Bytes) (draws : Nat → TagDraw) : Nat → Int → List Obf → Bytes → Checked Bytes
  | _, _, [], dst => .ok dst
  | i, w, o :: rest, dst => do
    let n ← tagOutLen o src.length
    let dst ← renderTag o src n w (draws i) dst
    let w ← int (w + n)
    renderLoop src draws (i + 1) w rest dst

/-- `awg_obf_render`; `src` is NULL where it is empty. -/
def awgObfRender (c : List Obf) (dst src : Bytes) (draws : Nat → TagDraw) : Checked Bytes :=
  renderLoop src draws 0 0 c dst

end SysAwg
