/-!
# Names

People, links, vehicles and the like are referred to by name. A name carries the kind of thing
that it names, so a vehicle's name cannot stand where a link's is asked for. Names of one kind
are ordered by code point, which is the order in which every list of them is given.
-/

namespace DialARide

/-- The kinds of thing that are referred to by name. -/
inductive NameKind where
  | request
  | person
  | link
  | vehicle
  | shift
  | facility
  | mode
  deriving DecidableEq, Repr

/-- The name of a thing of one kind. -/
structure Name (kind : NameKind) where
  /-- The name as it is written. -/
  text : String
  deriving DecidableEq, Repr

abbrev RequestId := Name .request
abbrev PersonId := Name .person
abbrev LinkId := Name .link
abbrev VehicleId := Name .vehicle
abbrev ShiftId := Name .shift
abbrev FacilityId := Name .facility
abbrev ModeId := Name .mode

namespace Name

variable {kind : NameKind}

/-- Names are compared as texts. -/
instance : Ord (Name kind) := ⟨fun a b => compare a.text b.text⟩

instance : Std.TransOrd (Name kind) where
  eq_swap := Std.OrientedOrd.eq_swap (α := String)
  isLE_trans := Std.TransOrd.isLE_trans (α := String)

instance : Std.LawfulEqOrd (Name kind) where
  eq_of_compare {a b} h := by
    cases a
    cases b
    exact congrArg Name.mk (Std.LawfulEqOrd.eq_of_compare h)

end Name

end DialARide
