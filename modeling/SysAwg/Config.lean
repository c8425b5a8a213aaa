/-
The data model of the client: `awg.h`.

A configuration is read once and never changes while the tunnel runs, so every function
below takes it as an argument.  The fields are the C structure's own.  C `int`s are
integers; the fixed-width words are Lean's.  Sizes and paddings can be negative here as
they can in the source, where nothing in the loader forbids it.

A definition that models a C function or constant carries its name in camel case, here and
in the modules over this one, and is documented only where it says more than the function
does or departs from its shape: an output parameter that is returned, a failure that is a
constructor, a buffer that is a list.
-/
import SysAwg.Lib.Bytes

namespace SysAwg

/-- `AWG_KEY_LEN` bytes. -/
abbrev Key := Vector UInt8 32

/-- The key a `memset` leaves. -/
def Key.zero : Key := Vector.replicate 32 0

/-- An inclusive range a timer is drawn from. -/
structure Range where
  min : Int
  max : Int
  deriving DecidableEq, Repr

/-- The tags an obfuscation template is made of. -/
inductive ObfKind
  | bytes
  | rand
  | randChars
  | randDigits
  | timestamp
  | data
  | dataString
  | dataSize
  deriving DecidableEq, Repr

/-- One tag: its kind, its count, and the literal bytes of a `<b>`. -/
structure Obf where
  kind : ObfKind
  len : Int
  data : Bytes
  deriving DecidableEq, Repr

structure Config where
  privateKey : Key
  havePrivateKey : Bool
  address : UInt32
  addressCidr : Int
  dns : List UInt32
  jc : Int
  jmin : Int
  jmax : Int
  s1 : Int
  s2 : Int
  s3 : Int
  s4 : Int
  h1 : UInt32
  h2 : UInt32
  h3 : UInt32
  h4 : UInt32
  headerProtectionKey : Key
  haveHeaderProtection : Bool
  rekeyAfterTime : Range
  rekeyTimeout : Range
  rejectAfterTime : Range
  keepaliveTimeout : Range
  maxHandshakeAttempts : Range
  contentPaddingAddition : Range
  i : Fin 5 → Option (List Obf)
  peerPublicKey : Key
  havePeerPublicKey : Bool
  presharedKey : Key
  havePresharedKey : Bool
  endpointHost : Bytes
  endpointPort : Int
  persistentKeepalive : Range

/-- What `awg_config_load` starts from: zeros, and plain WireGuard's defaults. -/
def Config.default : Config where
  privateKey := Key.zero
  havePrivateKey := false
  address := 0
  addressCidr := 0
  dns := []
  jc := 0
  jmin := 0
  jmax := 0
  s1 := 0
  s2 := 0
  s3 := 0
  s4 := 0
  h1 := 1
  h2 := 2
  h3 := 3
  h4 := 4
  headerProtectionKey := Key.zero
  haveHeaderProtection := false
  rekeyAfterTime := ⟨120, 120⟩
  rekeyTimeout := ⟨5, 5⟩
  rejectAfterTime := ⟨180, 180⟩
  keepaliveTimeout := ⟨10, 10⟩
  maxHandshakeAttempts := ⟨18, 18⟩
  contentPaddingAddition := ⟨0, 0⟩
  i := fun _ => none
  peerPublicKey := Key.zero
  havePeerPublicKey := false
  presharedKey := Key.zero
  havePresharedKey := false
  endpointHost := []
  endpointPort := 0
  persistentKeepalive := ⟨0, 0⟩

/-- What one call of `awg_random_bytes` has to give: byte `i` of the buffer it fills. -/
abbrev Entropy := Nat → UInt8

def awgRandomBytes (e : Entropy) (n : Nat) : Bytes := (List.range n).map e

/-- `awg_random_bytes(&v, sizeof(v))` into a 32-bit word of a little-endian machine. -/
def awgRandomWord (e : Entropy) : UInt32 := Bytes.word32 (awgRandomBytes e 4) 0

@[simp] theorem length_awgRandomBytes (e : Entropy) (n : Nat) :
    (awgRandomBytes e n).length = n := by
  simp [awgRandomBytes]

end SysAwg
