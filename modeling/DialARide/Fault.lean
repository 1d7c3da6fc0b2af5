import DialARide.Name
import DialARide.Shift.State

/-!
# Faults

Declined and rejected requests are ordinary outcomes and are not reported here. A fault means
that the scenario is set up wrongly, or that the plans which the service is made to carry out
contradict its state.
-/

namespace DialARide

/-- What is wrong with a configuration that was read. -/
inductive ConfigFault where
  | noModes
  | repeatedMode (mode : ModeId)
  | zeroStepInterval
  | zeroDispatchInterval
  | unexpectedShifts
  /-- A fault that a caller found, in the caller's words. -/
  | other (text : String)
  deriving DecidableEq, Repr

/-- The report on a wrong configuration. -/
def ConfigFault.message : ConfigFault → String
  | .noModes => "at least one mode is required"
  | .repeatedMode mode => s!"mode {mode.text} configured twice"
  | .zeroStepInterval => "passenger_step_interval must be positive"
  | .zeroDispatchInterval => "shifts.dispatch_interval must be positive"
  | .unexpectedShifts => "shifts given but shift dispatch is not configured"
  | .other text => text

/-- Why there is no configuration. -/
inductive ConfigError where
  /-- The text could not be had. -/
  | unreadable
  /-- The text is not the text of a configuration. -/
  | malformed
  /-- The configuration contradicts itself. -/
  | invalid (fault : ConfigFault)
  deriving DecidableEq, Repr

/-- The report on a missing configuration. -/
def ConfigError.message : ConfigError → String
  | .unreadable => "failed to read config"
  | .malformed => "failed to parse config"
  | .invalid fault => s!"invalid config: {fault.message}"

/-- The faults of a scenario. -/
inductive Fault where
  /-- A link that a request refers to is not in the network of its mode. -/
  | missingLink (link : LinkId) (mode : ModeId)
  /-- A traveler departs without a leg to travel. -/
  | noCurrentLeg (person : PersonId) (mode : ModeId)
  | unknownVehicle (vehicle : VehicleId)
  | unknownFacility (facility : FacilityId)
  | config (error : ConfigError)
  /-- A passenger is to leave a vehicle for a request that nobody is bound to. -/
  | unboundRequest (request : RequestId) (mode : ModeId)
  /-- A shift is to enter a state that does not follow the one it is in. -/
  | illegalTransition (shift : ShiftId) (current next : ShiftState)
  /-- A vehicle without any shift is to carry out a part of one. -/
  | noShift (vehicle : VehicleId)
  deriving DecidableEq, Repr

/-- Where a fault is to be looked for. -/
inductive FaultClass where
  | configuration
  | invariantViolation
  deriving DecidableEq, Repr

namespace Fault

/-- Faults of the set-up concern the configuration; the others break an invariant of the run. -/
def kind : Fault → FaultClass
  | .missingLink .. | .noCurrentLeg .. | .unknownVehicle .. | .unknownFacility ..
  | .config .. => .configuration
  | .unboundRequest .. | .illegalTransition .. | .noShift .. => .invariantViolation

/-- The report on a fault. -/
def message : Fault → String
  | .missingLink link mode =>
    s!"link id={link.text} does not exist in network for mode {mode.text}; " ++
      "agent departs from a link that does not belong to that network?"
  | .noCurrentLeg person mode =>
    s!"agent {person.text} departing with mode {mode.text} has no current leg"
  | .unknownVehicle vehicle => s!"unknown vehicle {vehicle.text}"
  | .unknownFacility facility => s!"unknown operation facility {facility.text}"
  | .config error => error.message
  | .unboundRequest request mode =>
    s!"no passenger bound to request {request.text} (mode {mode.text}) at dropoff"
  | .illegalTransition shift current next =>
    s!"shift {shift.text}: illegal transition {current.name} -> {next.name}"
  | .noShift vehicle => s!"vehicle {vehicle.text} has no shift"

end Fault

/-- An outcome that can be taken for a value is that value. -/
theorem toOption_eq_some_iff {ε α : Type} {x : Except ε α} {a : α} :
    x.toOption = some a ↔ x = .ok a := by
  cases x <;> simp [Except.toOption]

end DialARide
