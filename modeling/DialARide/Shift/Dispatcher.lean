import DialARide.Config
import DialARide.Network
import DialARide.Shift.Facility
import DialARide.Shift.Instruction
import DialARide.Shift.Vehicle

/-!
# Dispatch of shifts

The dispatcher keeps the fleet, the facilities and the shifts that no vehicle has yet. At each
multiple of its interval it assigns shifts, starts those that are due, and reserves facilities
for breaks and shift ends. In between, vehicles report that breaks start and end and that shifts
end; a report that cannot be true is a fault and changes nothing.
-/

namespace DialARide

/-- The fleet, its facilities, the open shifts and the log of their changes. -/
structure Dispatcher where
  policy : ShiftPolicy := {}
  network : Network := {}
  facilities : Facilities := {}
  vehicles : Table VehicleId Vehicle := .empty
  /-- The shifts without a vehicle, by start and name. -/
  unassigned : List Shift := []
  /-- The changes that were put down and not taken away, oldest first. -/
  events : List ShiftEvent := []
  /-- The time of the last dispatch. -/
  now : Time := 0
  deriving Repr

namespace Dispatcher

/-! ## Fleet and shifts -/

/-- Adds a vehicle to the fleet, in place of any of its name. It is parked at the first hub on
its link if that has a slot free. -/
def addVehicle (d : Dispatcher) (entry : VehicleEntry) : Dispatcher :=
  let parked := (d.facilities.hubAt? entry.link).bind fun hub =>
    (d.facilities.register hub.id entry.id).toOption
  { d with
    facilities := (parked.map (·.2)).getD d.facilities
    vehicles := d.vehicles.insert entry.id { toVehicleEntry := entry } }

/-- A shift starts before another, or with it and under a name that is not greater. -/
def startsBy (a b : Shift) : Bool :=
  ((compare a.start b.start).then (compare a.id b.id)).isLE

/-- The shifts with one put behind those that start no later. -/
def insertUnassigned (s : Shift) : List Shift → List Shift
  | [] => [s]
  | a :: rest => if startsBy a s then a :: insertUnassigned s rest else s :: a :: rest

/-- Adds a shift for which a vehicle is to be found. -/
def addShift (d : Dispatcher) (plan : ShiftPlan) : Dispatcher :=
  { d with unassigned := insertUnassigned { toShiftPlan := plan } d.unassigned }

/-- The vehicle of a name that must be known. -/
def requireVehicle (d : Dispatcher) (id : VehicleId) : Except Fault Vehicle :=
  match d.vehicles.find? id with
  | some v => .ok v
  | none => .error (.unknownVehicle id)

/-- The vehicle of a name, and its current shift, both of which must be there. -/
def requireShift (d : Dispatcher) (id : VehicleId) : Except Fault (Vehicle × Shift) := do
  let v ← d.requireVehicle id
  match v.currentShift? with
  | some s => return (v, s)
  | none => throw (.noShift id)

/-- The dispatcher with the record of a vehicle replaced. -/
def setVehicle (d : Dispatcher) (v : Vehicle) : Dispatcher :=
  { d with vehicles := d.vehicles.insert v.id v }

/-- Puts down the change of a shift. -/
def log (d : Dispatcher) (e : ShiftEvent) : Dispatcher := { d with events := d.events ++ [e] }

/-- A vehicle reports its link and whether it is available. -/
def updateVehicle (d : Dispatcher) (id : VehicleId) (link : LinkId) (available : Bool) :
    Except Fault Dispatcher := do
  let v ← d.requireVehicle id
  return d.setVehicle { v with link, available }

/-- Takes away the log. -/
def drainEvents (d : Dispatcher) : List ShiftEvent × Dispatcher :=
  (d.events, { d with events := [] })

/-- There is a shift that has not ended. -/
def hasOpenShifts (d : Dispatcher) : Bool :=
  !d.unassigned.isEmpty || d.vehicles.values.any (·.hasOpenShifts)

/-! ## Assignment -/

/-- A vehicle is available and free for a shift. The shifts of a vehicle that is not available are
not looked at. -/
def isCandidate (d : Dispatcher) (start : Time) (v : Vehicle) : Except Halt Bool :=
  if v.available then v.isFreeFor start d.policy.changeover else .ok false

/-- The vehicles that are available and free for a shift, in the order of their names. -/
def candidates (d : Dispatcher) (start : Time) : List Vehicle → Except Halt (List Vehicle)
  | [] => .ok []
  | v :: rest => do
    if ← d.isCandidate start v then return v :: (← d.candidates start rest)
    else d.candidates start rest

/-- The first vehicle that is available and free for a shift. Vehicles behind it are not looked
at. -/
def firstCandidate (d : Dispatcher) (start : Time) : List Vehicle → Except Halt (Option Vehicle)
  | [] => .ok none
  | v :: rest => do
    if ← d.isCandidate start v then return some v
    else d.firstCandidate start rest

/-- The distance of a vehicle from a place; a vehicle on an unknown link is infinitely far. -/
def distanceTo (d : Dispatcher) (place : Coord) (v : Vehicle) : Float :=
  match d.network.coord? v.link with
  | some c => c.distance place
  | none => unknownDistance

/-- The vehicle for a shift: the candidate nearest to the facility that the shift belongs to or,
where that is not known, the first. -/
def selectVehicle (d : Dispatcher) (s : Shift) : Except Halt (Option Vehicle) :=
  match s.home.bind d.facilities.find? with
  | some home => do
    let vs ← d.candidates s.start d.vehicles.values
    return firstLeast (fun v => floatRank (d.distanceTo home.coord v)) vs
  | none => d.firstCandidate s.start d.vehicles.values

/-- Assigns the given shifts, each to the vehicle selected for it. Shifts that are over are
dropped; those that start beyond the horizon, or for which there is no vehicle, stay. -/
def assignEach (now horizon : Time) (d : Dispatcher) :
    List Shift → Except Halt (Dispatcher × List Instruction)
  | [] => .ok (d, [])
  | s :: rest => do
    if s.finish ≤ now then d.assignEach now horizon rest
    else
      let selected ← if horizon < s.start then pure none else d.selectVehicle s
      match selected with
      | none =>
        let (d, out) ← d.assignEach now horizon rest
        return ({ d with unassigned := s :: d.unassigned }, out)
      | some v =>
        let d := (d.setVehicle (v.assign s)).log
          { time := now, kind := .assigned, vehicle := v.id, shift := s.id }
        let (d, out) ← d.assignEach now horizon rest
        return (d, .assigned v.id s.id :: out)

/-- Assigns the shifts that start within the look-ahead. -/
def assignShifts (d : Dispatcher) (now : Time) : Except Halt (Dispatcher × List Instruction) := do
  let horizon ← Time.plus now d.policy.assignLookAhead
  { d with unassigned := [] }.assignEach now horizon d.unassigned

/-! ## Start, breaks and ends -/

/-- Takes the vehicles of the given names one after the other; each may change the dispatcher and
give an instruction. -/
def sweep (step : Dispatcher → VehicleId → Except Halt (Option (Dispatcher × Instruction))) :
    Dispatcher → List VehicleId → Except Halt (Dispatcher × List Instruction)
  | d, [] => .ok (d, [])
  | d, id :: rest => do
    match ← step d id with
    | none => sweep step d rest
    | some (d, i) =>
      let (d, out) ← sweep step d rest
      return (d, i :: out)

/-- Starts the first waiting shift of a vehicle if it is due and no shift is running. The vehicle
leaves every facility. -/
def startShift (d : Dispatcher) (now : Time) (id : VehicleId) :
    Option (Dispatcher × Instruction) := do
  let v ← d.vehicles.find? id
  if v.runningShift?.isSome then none
  else
    let i ← v.waitingIndex?
    let s ← v.shifts[i]?
    if now < s.start then none
    else
      let started ← s.begin.toOption
      let d := { d with facilities := d.facilities.deregisterEverywhere id }
      let d := (d.setVehicle { v with shifts := v.shifts.set i started }).log
        { time := now, kind := .started, vehicle := id, shift := s.id }
      return (d, .started id s.id)

/-- Names the facility for the break of a shift: the nearest one with a free slot, provided the
shift has been started, no break was planned or taken, and the break can start soon but not too
late. -/
def decideOnBreak (d : Dispatcher) (v : Vehicle) (s : Shift) : Except Halt (Option FacilityId) :=
  if s.state ≠ .started || s.breakFacility.isSome || s.breakTaken then .ok none
  else match s.breakWindow with
  | none => .ok none
  | some w => do
    if (← Time.plus d.now d.policy.breakLookAhead) < w.earliestStart then return none
    else if w.latestStart < d.now then return none
    else return (d.network.coord? v.link).bind fun place =>
      (d.facilities.nearest? place fun _ => true).map (·.id)

/-- Reserves the break of the current shift of a vehicle, if it is time to. -/
def scheduleBreak (d : Dispatcher) (now : Time) (id : VehicleId) :
    Except Halt (Option (Dispatcher × Instruction)) := do
  let some v := d.vehicles.find? id | return none
  let some s := v.currentShift? | return none
  let some facilityId ← d.decideOnBreak v s | return none
  let some w := s.breakWindow | return none
  let .ok (true, facilities) := d.facilities.register facilityId id | return none
  let some facility := facilities.find? facilityId | return none
  let start := max w.earliestStart now
  let task : BreakTask := ⟨facilityId, start, ← Time.plus start w.duration⟩
  let d := ({ d with facilities }.setVehicle (v.setCurrentShift (s.planBreak facilityId))).log
    { time := now, kind := .breakScheduled, vehicle := id, shift := s.id,
      facility := some facilityId }
  return some (d, .takeBreak id s.id facility.link task)

/-- The facility for the end of a shift: the one that it belongs to if that admits the vehicle,
and else the nearest hub with a free slot. -/
def endFacility? (d : Dispatcher) (v : Vehicle) (s : Shift) : Option Facility :=
  match (s.home.bind d.facilities.find?).filter (·.admits v.id) with
  | some home => some home
  | none => (d.network.coord? v.link).bind fun place =>
      d.facilities.nearest? place fun f => f.kind = .hub

/-- Reserves the end of the current shift of a vehicle if that is running, is to end within the
horizon and has no break before it. -/
def scheduleEnd (d : Dispatcher) (now horizon : Time) (id : VehicleId) :
    Option (Dispatcher × Instruction) := do
  let v ← d.vehicles.find? id
  let s ← v.currentShift?
  if s.state ≠ .started || s.endFacility.isSome || s.breakPending || horizon < s.finish then none
  else
    let facility ← d.endFacility? v s
    let (true, facilities) ← (d.facilities.register facility.id id).toOption | none
    let d := ({ d with facilities }.setVehicle (v.setCurrentShift (s.planEnd facility.id))).log
      { time := now, kind := .endScheduled, vehicle := id, shift := s.id,
        facility := some facility.id }
    return (d, .endShift id s.id facility.id facility.link s.finish)

/-- Starts the shifts that are due. -/
def startShifts (d : Dispatcher) (now : Time) : Except Halt (Dispatcher × List Instruction) :=
  sweep (fun d id => .ok (d.startShift now id)) d d.vehicles.keys

/-- Reserves the breaks that come soon. -/
def scheduleBreaks (d : Dispatcher) (now : Time) : Except Halt (Dispatcher × List Instruction) :=
  sweep (fun d id => d.scheduleBreak now id) d d.vehicles.keys

/-- Reserves the shift ends that come soon. -/
def scheduleEnds (d : Dispatcher) (now : Time) : Except Halt (Dispatcher × List Instruction) := do
  let horizon ← Time.plus now d.policy.endLookAhead
  sweep (fun d id => .ok (d.scheduleEnd now horizon id)) d d.vehicles.keys

/-- This is a time at which dispatch runs. -/
def isBoundary (d : Dispatcher) (now : Time) : Bool := now % max d.policy.dispatchInterval 1 = 0

/-- Assigns, starts and plans whatever is to be assigned, started and planned at a boundary; at
any other time nothing happens. -/
def dispatch (d : Dispatcher) (now : Time) : Except Halt (Dispatcher × List Instruction) :=
  if !d.isBoundary now then .ok (d, [])
  else do
    let (d, assigned) ← { d with now }.assignShifts now
    let (d, started) ← d.startShifts now
    let (d, breaks) ← d.scheduleBreaks now
    let (d, ends) ← d.scheduleEnds now
    return (d, assigned ++ started ++ breaks ++ ends)

/-! ## Reports of vehicles -/

/-- A vehicle reports that its break starts on a link. -/
def startBreak (d : Dispatcher) (id : VehicleId) (link : LinkId) (now : Time) :
    Except Fault Dispatcher := do
  let (v, s) ← d.requireShift id
  let s ← s.startBreak
  return (d.setVehicle { v.setCurrentShift s with link }).log
    { time := now, kind := .breakStarted, vehicle := id, shift := s.id,
      facility := s.breakFacility }

/-- A vehicle reports that its break is over, and gives up the slot. -/
def endBreak (d : Dispatcher) (id : VehicleId) (task : BreakTask) (now : Time) :
    Except Fault Dispatcher := do
  let _ ← d.facilities.require task.facility
  let (v, s) ← d.requireShift id
  let s ← s.endBreak
  let (_, facilities) ← d.facilities.deregister task.facility id
  return ({ d with facilities }.setVehicle (v.setCurrentShift s)).log
    { time := now, kind := .breakEnded, vehicle := id, shift := s.id,
      facility := some task.facility }

/-- A vehicle reports that its shift ends on a link. A break that was planned and not taken is
given up with its slot. -/
def endShift (d : Dispatcher) (id : VehicleId) (link : LinkId) (now : Time) :
    Except Fault Dispatcher := do
  let (v, s) ← d.requireShift id
  if let some facility := s.breakFacility then
    if !s.breakTaken then let _ ← d.facilities.require facility
  let (released, s) := (← s.finishWork).cancelBreak
  let facilities ← match released with
    | some facility => (·.2) <$> d.facilities.deregister facility id
    | none => pure d.facilities
  return ({ d with facilities }.setVehicle { v.setCurrentShift s with link }).log
    { time := now, kind := .ended, vehicle := id, shift := s.id, facility := s.endFacility }

end Dispatcher

end DialARide
