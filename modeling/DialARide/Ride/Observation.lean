import DialARide.Clock
import DialARide.Name

/-!
# Observations and calls

A service tells the simulation around it what it observes of its passengers, and calls on it to
move them: to bring a stop and its passenger together, to let a passenger board or alight, and
to abort a journey.
-/

namespace DialARide

/-- The stages of a ride that are observed. -/
inductive ObservationKind where
  | waiting
  | pickedUp
  | droppedOff
  | rejected
  deriving DecidableEq, Repr

/-- One stage of one ride. -/
structure Observation where
  time : Time
  kind : ObservationKind
  mode : ModeId
  request : RequestId
  person : PersonId
  vehicle : Option VehicleId := none
  cause : Option String := none
  deriving DecidableEq, Repr

/-- What the simulation is told to take note of or to do. -/
inductive Call where
  | observe (observation : Observation)
  /-- The passenger for whom a stop waits is there. -/
  | ready (stop passenger : EntityId) (now : Time)
  | board (vehicle : VehicleId) (passenger : EntityId) (now : Time)
  | alight (vehicle : VehicleId) (passenger : EntityId) (link : LinkId) (now : Time)
  | abort (passenger : EntityId) (now : Time)
  deriving DecidableEq, Repr

/-- The observation that a call passes on. -/
def Call.observation? : Call → Option Observation
  | .observe o => some o
  | _ => none

/-- Optimizers reject a request by such a notice, which takes effect at a later step only. -/
structure Rejection where
  time : Time
  mode : ModeId
  request : RequestId
  cause : String
  deriving DecidableEq, Repr

end DialARide
