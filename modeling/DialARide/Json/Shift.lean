import DialARide.Json.Network
import DialARide.Json.Printer
import DialARide.Json.Reader
import DialARide.Shift.Facility
import DialARide.Shift.Instruction
import DialARide.Shift.Vehicle

/-!
# Shifts, vehicles and facilities in JSON

Shifts, vehicles and facilities are written as they are planned. What has become of them in a
run is not written, so whatever is read is as new.
-/

namespace DialARide

/-! ## Shifts -/

namespace ShiftState

/-- The states of a shift. -/
def all : List ShiftState := [.waiting, .started, .onBreak, .ended]

/-- Reads the state of a shift. -/
def ofJson? : Json → Option ShiftState := Json.toChoice? name all

/-- Writes the state of a shift. -/
def toJson (s : ShiftState) : Json := .str s.name

end ShiftState

/-- Reads the window of a break. -/
def BreakWindow.ofJson? (v : Json) : Option BreakWindow := do
  let [earliestStart, latestEnd, duration] ← v.slots? ["earliest_start", "latest_end",
    "duration"] | none
  return {
    earliestStart := ← earliestStart.required Json.toTime?
    latestEnd := ← latestEnd.required Json.toTime?
    duration := ← duration.required Json.toTime? }

/-- Writes the window of a break. -/
def BreakWindow.toJson (w : BreakWindow) : Json :=
  .obj [
    ("earliest_start", .time w.earliestStart),
    ("latest_end", .time w.latestEnd),
    ("duration", .time w.duration)]

/-- Reads a shift. -/
def ShiftPlan.ofJson? (v : Json) : Option ShiftPlan := do
  let [id, start, finish, breakWindow, home] ← v.slots? ["id", "start_time", "end_time",
    "shift_break", "operation_facility"] | none
  return {
    id := ← id.required Json.toName?
    start := ← start.required Json.toTime?
    finish := ← finish.required Json.toTime?
    breakWindow := ← breakWindow.withDefault none (Json.orNull BreakWindow.ofJson?)
    home := ← home.withDefault none (Json.orNull Json.toName?) }

/-- Writes a shift. -/
def ShiftPlan.toJson (s : ShiftPlan) : Json :=
  .obj [
    ("id", .name s.id),
    ("start_time", .time s.start),
    ("end_time", .time s.finish),
    ("shift_break", .option BreakWindow.toJson s.breakWindow),
    ("operation_facility", .option .name s.home)]

/-- The text of a shift. -/
def Shift.toText (s : Shift) : String := s.toShiftPlan.toJson.text

/-- The shift that a text writes, which waits to be started. -/
def Shift.ofText? (text : String) : Option Shift :=
  ((Json.ofText? text).bind ShiftPlan.ofJson?).map fun plan => { toShiftPlan := plan }

/-! ## Vehicles and facilities -/

/-- Reads a vehicle. -/
def VehicleEntry.ofJson? (v : Json) : Option VehicleEntry := do
  let [id, link, available] ← v.slots? ["id", "link", "available"] | none
  return {
    id := ← id.required Json.toName?
    link := ← link.required Json.toName?
    available := ← available.withDefault true Json.toBool? }

/-- Writes a vehicle. -/
def VehicleEntry.toJson (v : VehicleEntry) : Json :=
  .obj [("id", .name v.id), ("link", .name v.link), ("available", .bool v.available)]

/-- The text of a vehicle. -/
def Vehicle.toText (v : Vehicle) : String := v.toVehicleEntry.toJson.text

/-- The vehicle that a text writes, to which no shift is assigned. -/
def Vehicle.ofText? (text : String) : Option Vehicle :=
  ((Json.ofText? text).bind VehicleEntry.ofJson?).map fun entry => { toVehicleEntry := entry }

namespace FacilityKind

/-- The kinds of facility. -/
def all : List FacilityKind := [.hub, .inField]

/-- The label of a kind. -/
def label : FacilityKind → String
  | .hub => "Hub"
  | .inField => "InField"

/-- Reads a kind of facility. -/
def ofJson? : Json → Option FacilityKind := Json.toChoice? label all

/-- Writes a kind of facility. -/
def toJson (k : FacilityKind) : Json := .str k.label

end FacilityKind

/-- Reads a facility. -/
def FacilitySite.ofJson? (v : Json) : Option FacilitySite := do
  let [id, kind, link, coord, capacity] ← v.slots? ["id", "kind", "link", "coord",
    "capacity"] | none
  return {
    id := ← id.required Json.toName?
    kind := ← kind.required FacilityKind.ofJson?
    link := ← link.required Json.toName?
    coord := ← coord.required Coord.ofJson?
    capacity := ← capacity.required Json.toCount? }

/-- Writes a facility. How floating-point numbers are written is left to the caller. -/
def FacilitySite.toJson (real : Float → Json) (f : FacilitySite) : Json :=
  .obj [
    ("id", .name f.id),
    ("kind", f.kind.toJson),
    ("link", .name f.link),
    ("coord", f.coord.toJson real),
    ("capacity", .nat f.capacity)]

/-! ## Tasks and the log -/

/-- Reads a break that a vehicle is to take. -/
def BreakTask.ofJson? (v : Json) : Option BreakTask := do
  let [facility, start, finish] ← v.slots? ["facility", "begin", "end"] | none
  return {
    facility := ← facility.required Json.toName?
    start := ← start.required Json.toTime?
    finish := ← finish.required Json.toTime? }

/-- Writes a break that a vehicle is to take. -/
def BreakTask.toJson (t : BreakTask) : Json :=
  .obj [("facility", .name t.facility), ("begin", .time t.start), ("end", .time t.finish)]

namespace ShiftEventKind

/-- The changes of a shift that are put down. -/
def all : List ShiftEventKind :=
  [.assigned, .started, .breakScheduled, .breakStarted, .breakEnded, .endScheduled, .ended]

/-- The label of a change. -/
def label : ShiftEventKind → String
  | .assigned => "Assigned"
  | .started => "Started"
  | .breakScheduled => "BreakScheduled"
  | .breakStarted => "BreakStarted"
  | .breakEnded => "BreakEnded"
  | .endScheduled => "EndScheduled"
  | .ended => "Ended"

/-- Reads the kind of a change. -/
def ofJson? : Json → Option ShiftEventKind := Json.toChoice? label all

/-- Writes the kind of a change. -/
def toJson (k : ShiftEventKind) : Json := .str k.label

end ShiftEventKind

/-- Reads the change of a shift. -/
def ShiftEvent.ofJson? (v : Json) : Option ShiftEvent := do
  let [time, kind, vehicle, shift, facility] ← v.slots? ["time", "kind", "vehicle", "shift",
    "facility"] | none
  return {
    time := ← time.required Json.toTime?
    kind := ← kind.required ShiftEventKind.ofJson?
    vehicle := ← vehicle.required Json.toName?
    shift := ← shift.required Json.toName?
    facility := ← facility.optional Json.toName? }

/-- Writes the change of a shift. -/
def ShiftEvent.toJson (e : ShiftEvent) : Json :=
  .obj [
    ("time", .time e.time),
    ("kind", e.kind.toJson),
    ("vehicle", .name e.vehicle),
    ("shift", .name e.shift),
    ("facility", .option .name e.facility)]

end DialARide
