import DialARide.Distance
import DialARide.Fault
import DialARide.Table

/-!
# Operation facilities

Vehicles take breaks and end shifts at facilities with a limited number of slots. A vehicle
holds at most one slot of a facility; registering it again changes nothing and succeeds even
when the facility is full.
-/

namespace DialARide

/-- Hubs are where vehicles are parked; other facilities serve for breaks only. -/
inductive FacilityKind where
  | hub
  | inField
  deriving DecidableEq, Repr

/-- A facility as it is built. -/
structure FacilitySite where
  id : FacilityId
  kind : FacilityKind
  link : LinkId
  coord : Coord
  capacity : Nat
  deriving DecidableEq, Repr

/-- A facility and the vehicles that hold a slot of it. -/
structure Facility extends FacilitySite where
  registered : KeySet VehicleId := .empty
  deriving Repr

namespace Facility

/-- The number of slots that are held. -/
def occupancy (f : Facility) : Nat := f.registered.size

/-- A slot is free. -/
def hasCapacity (f : Facility) : Bool := f.occupancy < f.capacity

/-- The vehicle holds a slot. -/
def holds (f : Facility) (vehicle : VehicleId) : Bool := f.registered.contains vehicle

/-- The vehicle may have a slot, be it the one that it holds. -/
def admits (f : Facility) (vehicle : VehicleId) : Bool := f.holds vehicle || f.hasCapacity

/-- The facility with a slot given to the vehicle. -/
def enter (f : Facility) (vehicle : VehicleId) : Facility :=
  { f with registered := f.registered.insert vehicle () }

/-- The facility with the slot of the vehicle given up. -/
def leave (f : Facility) (vehicle : VehicleId) : Facility :=
  { f with registered := f.registered.erase vehicle }

/-- Registers a vehicle if it has a slot or one is free, and says whether it has one now. -/
def register (f : Facility) (vehicle : VehicleId) : Bool × Facility :=
  if f.holds vehicle then (true, f)
  else if f.hasCapacity then (true, f.enter vehicle)
  else (false, f)

theorem register_fst (f : Facility) (vehicle : VehicleId) :
    (f.register vehicle).1 = f.admits vehicle := by
  unfold register admits
  split
  · simp [*]
  · split <;> simp [*]

end Facility

/-- The facilities by name. -/
structure Facilities where
  byId : Table FacilityId Facility := .empty
  deriving Repr

namespace Facilities

/-- The facilities built on the given sites; of several with one name the last counts. -/
def ofSites (sites : List FacilitySite) : Facilities :=
  ⟨.ofList (sites.map fun s => (s.id, { toFacilitySite := s }))⟩

/-- The facility of a name. -/
def find? (fs : Facilities) (id : FacilityId) : Option Facility := fs.byId.find? id

/-- All facilities in the order of their names. -/
def all (fs : Facilities) : List Facility := fs.byId.values

/-- The facility of a name that must be known. -/
def require (fs : Facilities) (id : FacilityId) : Except Fault Facility :=
  match fs.find? id with
  | some f => .ok f
  | none => .error (.unknownFacility id)

/-- The first hub on a link. -/
def hubAt? (fs : Facilities) (link : LinkId) : Option Facility :=
  fs.all.find? fun f => f.kind = .hub && f.link = link

/-- The nearest facility with a free slot among those that are wanted. -/
def nearest? (fs : Facilities) (place : Coord) (wanted : Facility → Bool) : Option Facility :=
  firstLeast (fun f => floatRank (place.distance f.coord))
    (fs.all.filter fun f => f.hasCapacity && wanted f)

/-- Registers a vehicle at a facility if it has a slot there or one is free, and says whether it
has one now. -/
def register (fs : Facilities) (id : FacilityId) (vehicle : VehicleId) :
    Except Fault (Bool × Facilities) := do
  let (admitted, f) := (← fs.require id).register vehicle
  return (admitted, ⟨fs.byId.insert id f⟩)

/-- Gives up the slot of a vehicle at a facility, and says whether it had one. -/
def deregister (fs : Facilities) (id : FacilityId) (vehicle : VehicleId) :
    Except Fault (Bool × Facilities) := do
  let f ← fs.require id
  return (f.holds vehicle, ⟨fs.byId.insert id (f.leave vehicle)⟩)

/-- Gives up every slot of a vehicle. -/
def deregisterEverywhere (fs : Facilities) (vehicle : VehicleId) : Facilities :=
  ⟨fs.byId.mapValues (·.leave vehicle)⟩

end Facilities

end DialARide
