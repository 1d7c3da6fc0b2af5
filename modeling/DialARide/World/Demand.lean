import DialARide.World.Basic

/-!
# Random demand

For load tests, trips between random links are spread over a window of time, each with a vehicle
that picks the traveler up after a delay and drops the traveler off after a ride. The numbers
are drawn from a stream that is fixed by its seed; everything else is the same for any stream.
-/

namespace DialARide

/-- Where random numbers are drawn: the number at each position of a stream. -/
abbrev Draws := Nat → Nat

namespace Draws

/-- The stream of a seed: the position is spread over 64 bits and mixed. -/
def seeded (seed : UInt64) : Draws := fun position =>
  let z := seed + (UInt64.ofNat position + 1) * 0x9E3779B97F4A7C15
  let z := (z ^^^ (z >>> 30)) * 0xBF58476D1CE4E5B9
  let z := (z ^^^ (z >>> 27)) * 0x94D049BB133111EB
  (z ^^^ (z >>> 31)).toNat

/-- The time drawn at a position between two times, both included. -/
def between (draws : Draws) (position : Nat) (range : Time × Time) : Except Halt Time :=
  if range.2 < range.1 then .error .emptyRange
  else .ok (.ofNat (range.1.toNat + draws position % (range.2.toNat - range.1.toNat + 1)))

end Draws

/-- Trips to be drawn and the vehicles that serve them. -/
structure Demand where
  mode : ModeId := ⟨"drt"⟩
  travelers : Nat := 100
  vehicles : Nat := 10
  /-- Trips depart before the end of the window. -/
  window : Time := 3600
  /-- The range of the delay between departure and pickup. -/
  pickupDelay : Time × Time := (0, 600)
  /-- The range of the time between pickup and dropoff. -/
  rideTime : Time × Time := (120, 1200)
  seed : UInt64 := 42
  deriving Repr

/-- A way from link to link that starts at a time. -/
structure Trip where
  departure : Time
  source : LinkId
  target : LinkId
  deriving DecidableEq, Repr

namespace Demand

/-- The trip drawn at a position, between two different places of the list of links. -/
def trip (d : Demand) (draws : Draws) (links : List LinkId) (h : 2 ≤ links.length) (n : Nat) :
    Trip :=
  let first := draws (3 * n + 1) % links.length
  let offset := 1 + draws (3 * n + 2) % (links.length - 1)
  have hpos : 0 < links.length := Nat.lt_of_lt_of_le Nat.two_pos h
  { departure := .ofNat (draws (3 * n) % d.window.toNat)
    source := links.get ⟨first, Nat.mod_lt _ hpos⟩
    target := links.get ⟨(first + offset) % links.length, Nat.mod_lt _ hpos⟩ }

/-- All trips by departure; trips with one departure keep the order in which they were drawn. -/
def trips (d : Demand) (draws : Draws) (links : List LinkId) (h : 2 ≤ links.length) : List Trip :=
  ((List.range d.travelers).map (d.trip draws links h)).mergeSort
    fun a b => decide (a.departure ≤ b.departure)

/-- Adds the traveler of a trip and the stops of the vehicle that serves the trip. The trip's
number among all trips names its traveler and its request. -/
def addTrip (d : Demand) (draws : Draws) (w : World) (n : Nat) (t : Trip) : Except Halt World := do
  let leg : Leg :=
    { mode := d.mode, source := t.source, target := t.target, departure := t.departure }
  let (_, w) ← w.addTraveler ⟨s!"person_{n}"⟩ t.source [leg]
  let position := 3 * d.travelers + 2 * n
  let pickupAt ← Time.plus t.departure (← draws.between position d.pickupDelay)
  let dropoffAt ← Time.plus pickupAt (← draws.between (position + 1) d.rideTime)
  let pickup : Stop :=
    { vehicle := ⟨s!"veh_{n % max d.vehicles 1}"⟩
      request := ⟨s!"{d.mode.text}_{n}"⟩
      mode := d.mode
      kind := .pickup }
  let (id, w) ← w.addStop pickup pickupAt
  let (_, w) ← w.addStop { pickup with kind := .dropoff id } dropoffAt
  return w

/-- Adds trips with their numbers, from a number on. -/
def addTrips (d : Demand) (draws : Draws) : World → Nat → List Trip → Except Halt World
  | w, _, [] => .ok w
  | w, n, t :: rest => do d.addTrips draws (← d.addTrip draws w n t) (n + 1) rest

/-- Draws the demand on the given links and adds it to a world, and gives the number of
travelers. There is no demand without a window or with fewer than two links. -/
def addTo (d : Demand) (draws : Draws) (links : List LinkId) (w : World) :
    Except Halt (Nat × World) :=
  if h : 2 ≤ links.length then
    if d.window = 0 then .ok (0, w)
    else do return (d.travelers, ← d.addTrips draws w 0 (d.trips draws links h))
  else .ok (0, w)

end Demand

end DialARide
