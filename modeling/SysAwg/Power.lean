/-
Noticing that the console slept: `awg_power.c`.

The service keeps a log of play events that only grows; entry `k` has index `k`.  A poll
asks for the range that is available, and then for at most `EVENT_BATCH` of the entries it
has not seen.  Either call may fail, and the second may give fewer entries than it was
asked for: `limit` is how many it is willing to give.  Beside what the source returns, a
poll says here which entries it was given and whether a call failed.
-/
import Mathlib.Data.List.Basic

namespace SysAwg

/-- `PdmPlayEventType`: the one kind that is told apart, and the others. -/
inductive PlayEventType
  | powerStateChange
  | other
  deriving DecidableEq, Repr

/-- `g_ok` and `g_last_end`. -/
structure Power where
  ok : Bool
  lastEnd : Int
  deriving DecidableEq, Repr

/-- The service during one poll: the log, the oldest entry available, which calls succeed,
and how many entries it gives at most. -/
structure PowerEnv where
  log : List PlayEventType
  rangeOk : Bool
  first : Int
  queryOk : Bool
  limit : Nat

/-- What a poll leaves and returns, whether a service call failed, and the entries given. -/
structure PowerOut where
  power : Power
  result : Bool
  failed : Bool
  read : List Nat
  deriving DecidableEq, Repr

def eventBatch : Int := 16

/-- The state that `awg_power_start` leaves when it succeeds. -/
def awgPowerStart : Power := ⟨true, -1⟩

/-- `from`: the oldest entry a poll asks for. -/
def askFrom (lastEnd first last : Int) : Int :=
  let start := lastEnd + 1
  let start := if start < last - (eventBatch - 1) then last - (eventBatch - 1) else start
  let start := if start < first then first else start
  if start < 0 then 0 else start

/-- `want`: how many entries it asks for. -/
def askWant (start last : Int) : Int :=
  let want := last - start + 1
  if want > eventBatch then eventBatch else want

def awgPowerTransition (p : Power) (e : PowerEnv) : PowerOut :=
  if !p.ok then ⟨p, false, false, []⟩
  else if !e.rangeOk then ⟨p, false, true, []⟩
  else
    let last : Int := e.log.length - 1
    if last ≤ p.lastEnd then ⟨p, false, false, []⟩
    -- the first look only marks where the log stands
    else if p.lastEnd < 0 then ⟨{ p with lastEnd := last }, false, false, []⟩
    else
      let start := askFrom p.lastEnd e.first last
      let want := askWant start last
      if want ≤ 0 then ⟨{ p with lastEnd := last }, false, false, []⟩
      else if !e.queryOk then ⟨p, false, true, []⟩
      else
        let got := min e.limit want.toNat
        let read := (List.range got).map fun i => start.toNat + i
        ⟨{ p with lastEnd := last }, read.any fun k => e.log[k]? == some .powerStateChange, false,
          read⟩

/-- One poll of a run. -/
structure PowerRecord where
  env : PowerEnv
  before : Power
  out : PowerOut

/-- Polls one after another. -/
def polls : Power → List PowerEnv → List PowerRecord
  | _, [] => []
  | p, e :: es => ⟨e, p, awgPowerTransition p e⟩ :: polls (awgPowerTransition p e).power es

def powerAfter (p : Power) (es : List PowerEnv) : Power :=
  es.foldl (fun p e => (awgPowerTransition p e).power) p

end SysAwg
