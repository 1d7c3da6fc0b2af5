/-!
# The states of a shift

A shift waits until its vehicle starts it, may be interrupted by a break, and ends. An ended
shift never changes again.
-/

namespace DialARide

/-- Where a shift stands. -/
inductive ShiftState where
  | waiting
  | started
  | onBreak
  | ended
  deriving DecidableEq, Repr, Inhabited

namespace ShiftState

/-- A shift may go from the one state to the other. -/
def mayBecome : ShiftState → ShiftState → Bool
  | .waiting, .started => true
  | .started, .onBreak => true
  | .onBreak, .started => true
  | .started, .ended => true
  | _, _ => false

/-- The name of a state. -/
def name : ShiftState → String
  | .waiting => "Waiting"
  | .started => "Started"
  | .onBreak => "OnBreak"
  | .ended => "Ended"

end ShiftState

end DialARide
