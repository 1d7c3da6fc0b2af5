import DialARide.World.Basic

/-!
# Runs of a world

A run takes the events one by one and lets each do its work: the start of the simulation sets
off the steps of the services and the dispatch of shifts, which go on while there is something
left for them to do; departures and stops are handed to the services. A run stops when nothing
is pending, at the end time, and after a fault.
-/

namespace DialARide

namespace World

/-- The first steps of the services and the first dispatch are due at once. -/
def onStart (w : World) (now : Time) : Except Halt World := do
  let w ← w.schedule now .passengerStep none
  if w.shifts.isSome then w.schedule now .shiftDispatch none else return w

/-- There are departures or stops to come, or rejections to be applied. -/
def needsStep (w : World) : Bool :=
  w.clock.hasPending .departure || w.clock.hasPending .stopReached ||
    w.services.pendingRejections > 0

/-- The services apply what was rejected, and do so again later while they are needed. -/
def onPassengerStep (w : World) (now : Time) : Except Halt World := do
  let (_, services, calls) := w.services.stepAll now
  let w ← { w with services }.performAll calls
  if w.needsStep then
    w.schedule (← Time.plus now (max w.stepInterval 1)) .passengerStep none
  else return w

/-- Shifts are dispatched and the tasks that are due carried out, and again later while there
are any left. The run halts where no dispatch of shifts is set up: the start of the simulation
never asks for it there, so the event was put in from outside. -/
def onShiftDispatch (w : World) (now : Time) : Except Halt World := do
  let some office := w.shifts | throw .noShiftDispatch
  let (dispatcher, instructions) ← office.dispatcher.dispatch now
  let tasks := instructions.foldl TaskQueue.accept office.tasks
  let (tasks, dispatcher, fault) := tasks.executeDue dispatcher now
  let (events, dispatcher) := dispatcher.drainEvents
  let office : ShiftOffice := { dispatcher, tasks }
  let w := { w with shifts := some office, telemetry := w.telemetry.recordShiftEvents events }
  let w := (fault.map w.recordFault).getD w
  if office.isBusy then
    w.schedule (← Time.plus now (max dispatcher.policy.dispatchInterval 1)) .shiftDispatch none
  else return w

/-- A traveler gives up a journey that no service knows of. -/
def abortUntracked (w : World) (id : EntityId) : World :=
  let w := w.abort id
  { w with telemetry := { w.telemetry with aborted := w.telemetry.aborted + 1 } }

/-- A traveler departs on the current leg. One whom no service binds to a request gives up. -/
def onDeparture (w : World) (now : Time) (id : EntityId) : Except Halt World := do
  let some t := w.traveler? id | return w
  let some planned := t.plan.current? | return w
  let w := w.changeTraveler id ({ · with state := .waiting })
  let who : Departing := ⟨id, t.person, planned.leg.mode, some planned⟩
  match w.services.depart now who t.link with
  | .error fault => return w.recordFault fault
  | .ok (taken, services, calls) =>
    let w ← { w with services }.performAll calls
    return if taken && w.services.isBound id then w else w.abortUntracked id

/-- A vehicle is at a stop to pick up a passenger, or told that the passenger is there. -/
def onPickup (w : World) (now : Time) (id : EntityId) (s : Stop) (service : Nat) :
    Except Halt World := do
  let (isThere, services) :=
    if s.state = .scheduled then w.services.awaitPassenger service id s.request
    else (true, w.services)
  let (boarded, services, calls) :=
    if isThere then services.pickUp service s.vehicle s.request now else (false, services, [])
  let w ← { w with services }.performAll calls
  return w.setStopState id (if boarded then .completed else .waitingForPassenger)

/-- A vehicle is at a stop to let a passenger alight, if one boarded at the pickup. -/
def onDropoff (w : World) (now : Time) (id : EntityId) (s : Stop) (pickup : EntityId)
    (service : Nat) : Except Halt World :=
  if (w.stop? pickup).any (·.state = .completed) then
    match w.services.act service (·.dropOff s.vehicle s.request now) with
    | .error fault => .ok (w.recordFault fault)
    | .ok none => .ok w
    | .ok (some (_, services, calls)) => do
      let w ← { w with services }.performAll calls
      return w.setStopState id .completed
  else .ok (w.setStopState id .cancelled)

/-- A vehicle is at a stop. -/
def onStop (w : World) (now : Time) (id : EntityId) : Except Halt World :=
  match w.stop? id with
  | none => .ok w
  | some s =>
    match w.services.position? s.mode with
    | none => .ok w
    | some service =>
      match s.kind, s.state with
      | .pickup, .scheduled | .pickup, .waitingForPassenger => w.onPickup now id s service
      | .dropoff pickup, .scheduled => w.onDropoff now id s pickup service
      | _, _ => .ok w

/-- Lets an event do its work. -/
def handle (w : World) (e : Event) : Except Halt World :=
  match e.kind, e.subject with
  | .simulationStarted, _ => w.onStart e.time
  | .shiftDispatch, _ => w.onShiftDispatch e.time
  | .passengerStep, _ => w.onPassengerStep e.time
  | .departure, some (.traveler id) => w.onDeparture e.time id
  | .stopReached, some (.stop id) => w.onStop e.time id
  | _, _ => .ok w

/-- The run stops before the next event. -/
def isStopped (w : World) : Bool :=
  w.fault.isSome ||
    match w.endTime, w.clock.nextTime? with
    | some last, some next => last ≤ next
    | _, _ => false

/-- Takes the next event, unless the run has stopped. -/
def next? (w : World) : Except Halt (Option (Event × World)) :=
  if w.isStopped then .ok none
  else match w.clock.next? with
  | none => .ok none
  | some (e, clock) => do return some (e, ← { w with clock, current := some e }.handle e)

/-- Schedules the start of the simulation. -/
def start (w : World) : Except Halt World := w.schedule 0 .simulationStarted none

/-- Takes events until the run stops, at most a given number, and lists them, latest first, in
front of those taken before. -/
def runFrom (taken : List Event) : Nat → World → Except Halt (List Event × World)
  | 0, w => .ok (taken, w)
  | limit + 1, w =>
    match w.next? with
    | .error halt => .error halt
    | .ok none => .ok (taken, w)
    | .ok (some (e, w)) => runFrom (e :: taken) limit w

/-- Takes events until the run stops, at most a given number, and lists them. -/
def run (w : World) (limit : Nat) : Except Halt (List Event × World) := do
  let (taken, w) ← runFrom [] limit w
  return (taken.reverse, w)

end World

end DialARide
