import DialARide.Json.Record
import DialARide.Plan

/-!
# Legs in JSON

A leg is written with what is expected of its way, or null where nothing is. How floating-point
numbers are written is left to the caller.
-/

namespace DialARide

/-- Reads what is expected of a way. -/
def Route.ofJson? (v : Json) : Option Route := do
  let [distance, travelTime] ← v.slots? ["distance", "travel_time"] | none
  return {
    distance := ← distance.required Json.toFloat?
    travelTime := ← travelTime.required Json.toTime? }

/-- Writes what is expected of a way. -/
def Route.toJson (real : Float → Json) (r : Route) : Json :=
  .obj [("distance", real r.distance), ("travel_time", .time r.travelTime)]

/-- Reads a leg. -/
def Leg.ofJson? (v : Json) : Option Leg := do
  let [mode, source, target, departure, route] ← v.slots? ["mode", "from_link", "to_link",
    "departure_time", "route"] | none
  return {
    mode := ← mode.required Json.toName?
    source := ← source.required Json.toName?
    target := ← target.required Json.toName?
    departure := ← departure.required Json.toTime?
    route := ← route.withDefault none (Json.orNull Route.ofJson?) }

/-- Writes a leg. -/
def Leg.toJson (real : Float → Json) (l : Leg) : Json :=
  .obj [
    ("mode", .name l.mode),
    ("from_link", .name l.source),
    ("to_link", .name l.target),
    ("departure_time", .time l.departure),
    ("route", .option (Route.toJson real) l.route)]

end DialARide
