import DialARide.Json.Reader
import DialARide.Json.Record
import DialARide.Fault
import DialARide.Network

/-!
# Networks in JSON

A network is written as the list of its links. How floating-point numbers are written is left to
the caller.
-/

namespace DialARide

/-- Reads a point. -/
def Coord.ofJson? (v : Json) : Option Coord := do
  let [x, y] ← v.slots? ["x", "y"] | none
  return { x := ← x.required Json.toFloat?, y := ← y.required Json.toFloat? }

/-- Writes a point. -/
def Coord.toJson (real : Float → Json) (c : Coord) : Json := .obj [("x", real c.x), ("y", real c.y)]

namespace Link

/-- Reads a link. -/
def ofJson? (v : Json) : Option Link := do
  let [id, source, target, modes] ← v.slots? ["id", "from", "to", "modes"] | none
  let link : Link := {
    id := ← id.required Json.toName?
    source := ← source.required Coord.ofJson?
    target := ← target.required Coord.ofJson? }
  return link.withModes (← modes.withDefault [] (Json.toList? Json.toName?))

/-- Writes a link. -/
def toJson (real : Float → Json) (l : Link) : Json :=
  .obj [
    ("id", .name l.id),
    ("from", l.source.toJson real),
    ("to", l.target.toJson real),
    ("modes", .list .name l.modes.keys)]

end Link

/-- Reads a network. -/
def Network.ofJson? (v : Json) : Option Network := (v.toList? Link.ofJson?).map .ofLinks

/-- The network that a text writes. -/
def Network.ofText (text : String) : Except ConfigError Network :=
  match (Json.ofText? text).bind ofJson? with
  | none => .error .malformed
  | some n => .ok n

end DialARide
