import DialARide.Ride.Observation
import DialARide.Shift.Instruction
import DialARide.Table

/-!
# Key figures

Everything that is observed is put down, counted by kind, and put together to the rides that
were completed. A ride is known by its request from the first observation to the last.
-/

namespace DialARide

/-- A ride that was completed. -/
structure Ride where
  request : RequestId
  person : PersonId
  mode : ModeId
  vehicle : Option VehicleId
  requestedAt : Time
  pickedUpAt : Time
  droppedOffAt : Time
  deriving DecidableEq, Repr

namespace Ride

/-- How long the passenger waited. -/
def waitTime (r : Ride) : Time := .minus r.pickedUpAt r.requestedAt

/-- How long the passenger was on board. -/
def duration (r : Ride) : Time := .minus r.droppedOffAt r.pickedUpAt

end Ride

/-- The numbers of observations of each kind. -/
structure Counts where
  waiting : Nat := 0
  pickedUp : Nat := 0
  droppedOff : Nat := 0
  rejected : Nat := 0
  deriving DecidableEq, Repr

/-- The counts with one more observation of a kind. -/
def Counts.add (c : Counts) : ObservationKind → Counts
  | .waiting => { c with waiting := c.waiting + 1 }
  | .pickedUp => { c with pickedUp := c.pickedUp + 1 }
  | .droppedOff => { c with droppedOff := c.droppedOff + 1 }
  | .rejected => { c with rejected := c.rejected + 1 }

/-- A ride that was asked for and is not over. -/
structure RideProgress where
  requestedAt : Time
  pickedUpAt : Option Time := none
  deriving DecidableEq, Repr

/-- What was put down of a run. -/
structure Telemetry where
  observations : List Observation := []
  shiftEvents : List ShiftEvent := []
  counts : Counts := {}
  rides : List Ride := []
  /-- The number of travelers who gave up without having been bound to a request. -/
  aborted : Nat := 0
  /-- The rides that are not over, by request. -/
  progress : Table RequestId RideProgress := .empty
  deriving Repr

namespace Telemetry

/-- The ride that ends with an observation. -/
def completed (o : Observation) (p : RideProgress) : Ride where
  request := o.request
  person := o.person
  mode := o.mode
  vehicle := o.vehicle
  requestedAt := p.requestedAt
  pickedUpAt := p.pickedUpAt.getD p.requestedAt
  droppedOffAt := o.time

/-- What an observation changes about the rides. -/
def follow (t : Telemetry) (o : Observation) : Telemetry :=
  match o.kind with
  | .waiting => { t with progress := t.progress.insert o.request { requestedAt := o.time } }
  | .pickedUp =>
    { t with progress := t.progress.adjust o.request ({ · with pickedUpAt := some o.time }) }
  | .droppedOff =>
    match t.progress.find? o.request with
    | some p =>
      { t with progress := t.progress.erase o.request, rides := t.rides ++ [completed o p] }
    | none => t
  | .rejected => { t with progress := t.progress.erase o.request }

/-- Puts down an observation. -/
def record (t : Telemetry) (o : Observation) : Telemetry :=
  { t.follow o with
    counts := t.counts.add o.kind
    observations := t.observations ++ [o] }

/-- Puts down changes of shifts. -/
def recordShiftEvents (t : Telemetry) (events : List ShiftEvent) : Telemetry :=
  { t with shiftEvents := t.shiftEvents ++ events }

/-- The observations of one request. -/
def observationsFor (t : Telemetry) (request : RequestId) : List Observation :=
  t.observations.filter (·.request = request)

/-- The sum of the given times. -/
def total (times : List Time) : Except Halt Time := times.foldlM Time.plus 0

/-- The mean of the waiting times of the completed rides, if there are any. -/
def meanWait (t : Telemetry) : Except Halt (Option Float) :=
  if t.rides.isEmpty then .ok none
  else do
    let sum ← total (t.rides.map (·.waitTime))
    return some (sum.toFloat / t.rides.length.toFloat)

end Telemetry

end DialARide
