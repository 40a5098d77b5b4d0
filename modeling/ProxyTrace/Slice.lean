import ProxyTrace.Error

/-!
Slices of an axis: `start:stop:step`, with each part optional.
-/

namespace ProxyTrace

/-- A range of indices; negative ends count from the end of the axis. -/
structure Slice where
  start : Option Int64 := none
  stop : Option Int64 := none
  step : Option Int64 := none
  deriving DecidableEq, Repr

namespace Slice

/-- An end of a slice on an axis of the given length, brought between two bounds. -/
def clamp (len low high i : Int64) : Int64 :=
  let i := if i < 0 then i + len else i
  if i < low then low else if high < i then high else i

/-- How many elements of an axis of length `len` a slice selects. -/
def count (s : Slice) (op : String) (len : Nat) : Except Error Nat :=
  let len := if len ≤ Int64.maxValue.toInt.toNat then Int64.ofNat len else Int64.maxValue
  let step := s.step.getD 1
  if step = 0 then .error (.invalidOperand op "a slice step of zero")
  else
    -- the lower end is taken, the upper one is not; with a step down `stop` is the lower one
    let (first, last) :=
      if 0 < step then
        (s.start.elim 0 (clamp len 0 len), s.stop.elim len (clamp len 0 len))
      else
        (s.stop.elim (-1) (clamp len (-1) (len - 1)),
          s.start.elim (len - 1) (clamp len (-1) (len - 1)))
    if last ≤ first then .ok 0
    else .ok ((last - first - 1).toInt.natAbs / step.toInt.natAbs + 1)

def partText (i : Option Int64) : String := i.elim "" fun i => toString i.toInt

def text (s : Slice) : String :=
  partText s.start ++ ":" ++ partText s.stop ++ s.step.elim "" fun i => ":" ++ toString i.toInt

end Slice

end ProxyTrace
