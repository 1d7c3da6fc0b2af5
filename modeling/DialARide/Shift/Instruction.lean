import DialARide.Name
import DialARide.Time

/-!
# Instructions and the log of shifts

Dispatch tells the fleet what to do by instructions, and every change of a shift is put down in
a log.
-/

namespace DialARide

/-- A break that a vehicle is to take. -/
structure BreakTask where
  facility : FacilityId
  start : Time
  finish : Time
  deriving DecidableEq, Repr

/-- What the fleet is told. -/
inductive Instruction where
  | assigned (vehicle : VehicleId) (shift : ShiftId)
  | started (vehicle : VehicleId) (shift : ShiftId)
  | takeBreak (vehicle : VehicleId) (shift : ShiftId) (link : LinkId) (task : BreakTask)
  | endShift (vehicle : VehicleId) (shift : ShiftId) (facility : FacilityId) (link : LinkId)
      (time : Time)
  deriving DecidableEq, Repr

/-- The changes of a shift that are put down. -/
inductive ShiftEventKind where
  | assigned
  | started
  | breakScheduled
  | breakStarted
  | breakEnded
  | endScheduled
  | ended
  deriving DecidableEq, Repr

/-- One change of a shift. -/
structure ShiftEvent where
  time : Time
  kind : ShiftEventKind
  vehicle : VehicleId
  shift : ShiftId
  facility : Option FacilityId := none
  deriving DecidableEq, Repr

end DialARide
