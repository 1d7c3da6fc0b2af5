import DialARide.Name
import DialARide.Time

/-!
# Travel plans

A plan is a list of legs that are travelled one after the other. The leg that comes next is
known by its position, which also tells apart the legs of one person that were booked ahead.
-/

namespace DialARide

/-- What is expected of the way from one link to another. -/
structure Route where
  distance : Float
  travelTime : Time
  deriving DecidableEq, Repr

/-- One ride of a plan. -/
structure Leg where
  mode : ModeId
  source : LinkId
  target : LinkId
  departure : Time
  route : Option Route := none
  deriving DecidableEq, Repr

/-- A leg and its position in the plan. -/
structure PlannedLeg where
  index : Nat
  leg : Leg
  deriving DecidableEq, Repr

/-- The legs of one person and the position of the one that comes next. -/
structure Plan where
  legs : List Leg
  position : Nat := 0
  deriving DecidableEq, Repr

namespace Plan

/-- The leg that comes next. -/
def current? (p : Plan) : Option PlannedLeg := p.legs[p.position]?.map (⟨p.position, ·⟩)

/-- The plan with the next leg done. -/
def advance (p : Plan) : Plan := { p with position := p.position + 1 }

end Plan

end DialARide
