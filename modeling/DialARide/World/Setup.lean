import DialARide.World.Basic

/-!
# Setting up a scenario

A scenario is set up from a configuration, a network, the fleet with its facilities and shifts,
and the way in which the optimizer answers. Each configured mode gets a service on the part of
the network that is open to it.
-/

namespace DialARide

/-- Everything that a world is made of. -/
structure Setup where
  config : Config
  network : Network
  /-- The mode that takes bookings in advance. -/
  bookedMode : Option ModeId := none
  facilities : List FacilitySite := []
  vehicles : List VehicleEntry := []
  shifts : List ShiftPlan := []
  endTime : Option Time := none
  /-- The cause for which the optimizer rejects a request, if it does. -/
  verdict : Request → Option String := fun _ => none

namespace Setup

/-- The service of one configured mode. -/
def service (s : Setup) (rule : ModeRule) : Service :=
  let plain : Service :=
    { mode := rule.mode
      network := s.network.forMode rule.mode
      screening := if rule.rejectEqualLinks then .distinctLinks else .acceptAll }
  if s.bookedMode = some rule.mode then plain.withDesk else plain

/-- The dispatcher with the fleet and the shifts. -/
def dispatcher (s : Setup) (policy : ShiftPolicy) : Dispatcher :=
  let d : Dispatcher :=
    { policy, network := s.network, facilities := .ofSites s.facilities }
  s.shifts.foldl Dispatcher.addShift (s.vehicles.foldl Dispatcher.addVehicle d)

/-- The first fault of a set-up: one of its configuration, or shifts that are not dispatched. -/
def fault? (s : Setup) : Option ConfigFault :=
  s.config.fault?.or
    (if s.config.shifts.isNone && !s.shifts.isEmpty then some .unexpectedShifts else none)

/-- The world that is set up. -/
def build (s : Setup) : Except Fault World :=
  match s.fault? with
  | some fault => .error (.config (.invalid fault))
  | none => .ok {
      services := { members := s.config.modes.map s.service, verdict := s.verdict }
      shifts := s.config.shifts.map fun policy => { dispatcher := s.dispatcher policy }
      stepInterval := s.config.stepInterval
      endTime := s.endTime }

end Setup

namespace World

/-- Books a leg in advance at the service that takes bookings, if there is one, and gives the
name of the booking unless the leg is declined. -/
def book (w : World) (now : Time) (person : PersonId) (planned : PlannedLeg) :
    Except Fault (Option (Option RequestId × World)) :=
  match w.services.members.findIdx? (·.desk.isSome) with
  | none => .ok none
  | some i => do
    return (← w.services.act i (·.book now person planned)).map fun (id, services, _) =>
      (id, { w with services })

/-- Publishes a rejection. -/
def publish (w : World) (r : Rejection) : World := { w with services := w.services.publish r }

end World

end DialARide
