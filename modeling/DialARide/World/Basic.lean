import DialARide.Ride.Services
import DialARide.Shift.Tasks
import DialARide.Telemetry

/-!
# The world of a scenario

A world holds the travelers with their plans, the stops that vehicles make for passengers, the
passenger services, the shifts if they are dispatched, the clock and everything that was put
down. What a service tells the simulation is put into effect here.
-/

namespace DialARide

/-- What a traveler is doing. -/
inductive TravelerState where
  | activity
  | waiting
  | inVehicle
  | arrived
  | aborted
  deriving DecidableEq, Repr

/-- A person on the way. -/
structure Traveler where
  person : PersonId
  link : LinkId
  plan : Plan
  state : TravelerState := .activity
  vehicle : Option VehicleId := none
  deriving DecidableEq, Repr

/-- What a vehicle stops for. A passenger can only alight from a ride that a pickup began. -/
inductive StopKind where
  | pickup
  | dropoff (pickup : EntityId)
  deriving DecidableEq, Repr

/-- How far a stop has come. -/
inductive StopState where
  | scheduled
  | waitingForPassenger
  | completed
  | cancelled
  deriving DecidableEq, Repr

/-- A stop of a vehicle for the passenger of a request. -/
structure Stop where
  vehicle : VehicleId
  request : RequestId
  mode : ModeId
  kind : StopKind
  state : StopState := .scheduled
  deriving DecidableEq, Repr

/-- Travelers and stops are numbered together. -/
inductive Entity where
  | traveler (t : Traveler)
  | stop (s : Stop)
  deriving DecidableEq, Repr

/-- The dispatcher of shifts and the tasks that it has set. -/
structure ShiftOffice where
  dispatcher : Dispatcher
  tasks : TaskQueue := {}
  deriving Repr

/-- There is a shift that has not ended, or a task to be carried out. -/
def ShiftOffice.isBusy (o : ShiftOffice) : Bool :=
  o.dispatcher.hasOpenShifts || !o.tasks.isEmpty

/-- A scenario at one moment. -/
structure World where
  services : Services
  shifts : Option ShiftOffice := none
  /-- The time between two steps of the services. -/
  stepInterval : Time := 1
  /-- The time at which the run stops, if it is limited. -/
  endTime : Option Time := none
  clock : Clock := {}
  /-- The travelers and stops in the order of their numbers. -/
  entities : List Entity := []
  telemetry : Telemetry := {}
  /-- The first fault that was found. -/
  fault : Option Fault := none
  /-- The last event that was taken. -/
  current : Option Event := none

namespace World

/-! ## Travelers and stops -/

/-- The traveler of a number. -/
def traveler? (w : World) (id : EntityId) : Option Traveler :=
  match w.entities[id]? with
  | some (.traveler t) => some t
  | _ => none

/-- The stop of a number. -/
def stop? (w : World) (id : EntityId) : Option Stop :=
  match w.entities[id]? with
  | some (.stop s) => some s
  | _ => none

/-- The world with the traveler of a number, if there is one, changed. -/
def changeTraveler (w : World) (id : EntityId) (f : Traveler → Traveler) : World :=
  { w with entities := w.entities.modify id fun
      | .traveler t => .traveler (f t)
      | .stop s => .stop s }

/-- The world with the state of the stop of a number, if there is one, set. -/
def setStopState (w : World) (id : EntityId) (state : StopState) : World :=
  { w with entities := w.entities.modify id fun
      | .traveler t => .traveler t
      | .stop s => .stop { s with state } }

/-- Schedules an event. -/
def schedule (w : World) (time : Time) (kind : EventKind) (subject : Option Subject) :
    Except Halt World := do
  return { w with clock := ← w.clock.scheduleAt time kind subject }

/-- Adds a traveler at a link, who departs on the first leg when that is due. -/
def addTraveler (w : World) (person : PersonId) (link : LinkId) (legs : List Leg) :
    Except Halt (EntityId × World) := do
  let id := w.entities.length
  let plan : Plan := { legs }
  let w := { w with entities := w.entities ++ [Entity.traveler { person, link, plan }] }
  match legs with
  | [] => return (id, w)
  | leg :: _ => return (id, ← w.schedule leg.departure .departure (some (.traveler id)))

/-- Adds a stop that is reached at a time. -/
def addStop (w : World) (s : Stop) (time : Time) : Except Halt (EntityId × World) := do
  let id := w.entities.length
  let w := { w with entities := w.entities ++ [Entity.stop s] }
  return (id, ← w.schedule time .stopReached (some (.stop id)))

/-- Keeps a fault unless one is kept. -/
def recordFault (w : World) (fault : Fault) : World :=
  { w with fault := some (w.fault.getD fault) }

/-! ## What services call for -/

/-- A traveler alights at a link: the next leg is travelled when it is due, and no earlier than
now. -/
def alight (w : World) (id : EntityId) (link : LinkId) (now : Time) : Except Halt World :=
  match w.traveler? id with
  | none => .ok w
  | some t =>
    let plan := t.plan.advance
    let arrive (state : TravelerState) : World :=
      w.changeTraveler id ({ · with link, plan, state, vehicle := none })
    match plan.current? with
    | some next =>
      (arrive .activity).schedule (max next.leg.departure now) .departure (some (.traveler id))
    | none => .ok (arrive .arrived)

/-- A traveler gives up the journey. -/
def abort (w : World) (id : EntityId) : World :=
  w.changeTraveler id ({ · with state := .aborted, vehicle := none })

/-- Puts one call of a service into effect. -/
def perform (w : World) : Call → Except Halt World
  | .observe o => .ok { w with telemetry := w.telemetry.record o }
  | .ready stop _ now => w.schedule now .stopReached (some (Subject.stop stop))
  | .board vehicle id _ =>
    .ok (w.changeTraveler id ({ · with state := .inVehicle, vehicle := some vehicle }))
  | .alight _ id link now => w.alight id link now
  | .abort id _ => .ok (w.abort id)

/-- Puts calls into effect, in order. -/
def performAll (w : World) (calls : List Call) : Except Halt World := calls.foldlM perform w

end World

end DialARide
