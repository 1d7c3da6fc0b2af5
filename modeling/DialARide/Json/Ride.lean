import DialARide.Json.Plan
import DialARide.Ride.Observation
import DialARide.Ride.Request

/-!
# Requests and observations in JSON

What passes between the services, their optimizers and whoever watches a run is written as
records, with the stages of a ride by their labels.
-/

namespace DialARide

/-! ## Requests -/

namespace RequestStatus

/-- The statuses of a request. -/
def all : List RequestStatus :=
  [.created, .submitted, .waitingActive, .rejected, .pickedUp, .completed]

/-- The label of a status. -/
def label : RequestStatus → String
  | .created => "Created"
  | .submitted => "Submitted"
  | .waitingActive => "WaitingActive"
  | .rejected => "Rejected"
  | .pickedUp => "PickedUp"
  | .completed => "Completed"

/-- Reads a status. -/
def ofJson? : Json → Option RequestStatus := Json.toChoice? label all

/-- Writes a status. -/
def toJson (s : RequestStatus) : Json := .str s.label

end RequestStatus

/-- Reads a request. -/
def Request.ofJson? (v : Json) : Option Request := do
  let [id, passenger, mode, source, target, earliestStart, submittedAt, route] ← v.slots? ["id",
    "passenger", "mode", "from_link", "to_link", "earliest_start_time", "submission_time",
    "route"] | none
  return {
    id := ← id.required Json.toName?
    passenger := ← passenger.required Json.toName?
    mode := ← mode.required Json.toName?
    source := ← source.required Json.toName?
    target := ← target.required Json.toName?
    earliestStart := ← earliestStart.required Json.toTime?
    submittedAt := ← submittedAt.required Json.toTime?
    route := ← route.optional Route.ofJson? }

/-- Writes a request. -/
def Request.toJson (real : Float → Json) (r : Request) : Json :=
  .obj [
    ("id", .name r.id),
    ("passenger", .name r.passenger),
    ("mode", .name r.mode),
    ("from_link", .name r.source),
    ("to_link", .name r.target),
    ("earliest_start_time", .time r.earliestStart),
    ("submission_time", .time r.submittedAt),
    ("route", .option (Route.toJson real) r.route)]

/-! ## Observations and rejections -/

namespace ObservationKind

/-- The stages of a ride that are observed. -/
def all : List ObservationKind := [.waiting, .pickedUp, .droppedOff, .rejected]

/-- The label of a stage. -/
def label : ObservationKind → String
  | .waiting => "Waiting"
  | .pickedUp => "PickedUp"
  | .droppedOff => "DroppedOff"
  | .rejected => "Rejected"

/-- Reads a stage. -/
def ofJson? : Json → Option ObservationKind := Json.toChoice? label all

/-- Writes a stage. -/
def toJson (k : ObservationKind) : Json := .str k.label

end ObservationKind

/-- Reads an observation. -/
def Observation.ofJson? (v : Json) : Option Observation := do
  let [time, kind, mode, request, person, vehicle, cause] ← v.slots? ["time", "kind", "mode",
    "request", "person", "vehicle", "cause"] | none
  return {
    time := ← time.required Json.toTime?
    kind := ← kind.required ObservationKind.ofJson?
    mode := ← mode.required Json.toName?
    request := ← request.required Json.toName?
    person := ← person.required Json.toName?
    vehicle := ← vehicle.optional Json.toName?
    cause := ← cause.optional Json.toText? }

/-- Writes an observation. -/
def Observation.toJson (o : Observation) : Json :=
  .obj [
    ("time", .time o.time),
    ("kind", o.kind.toJson),
    ("mode", .name o.mode),
    ("request", .name o.request),
    ("person", .name o.person),
    ("vehicle", .option .name o.vehicle),
    ("cause", .option .str o.cause)]

/-- Reads a rejection. -/
def Rejection.ofJson? (v : Json) : Option Rejection := do
  let [time, mode, request, cause] ← v.slots? ["time", "mode", "request", "cause"] | none
  return {
    time := ← time.required Json.toTime?
    mode := ← mode.required Json.toName?
    request := ← request.required Json.toName?
    cause := ← cause.required Json.toText? }

/-- Writes a rejection. -/
def Rejection.toJson (r : Rejection) : Json :=
  .obj [
    ("time", .time r.time),
    ("mode", .name r.mode),
    ("request", .name r.request),
    ("cause", .str r.cause)]

end DialARide
