import DialARide.Fault
import DialARide.Network
import DialARide.Ride.Booking
import DialARide.Ride.Observation

/-!
# The passenger service of one mode

A service turns departures into requests, hands those that pass the screening to its optimizer
and binds the traveler to the request until the ride is over. A vehicle that is at the stop
before its passenger waits there. Rejections are collected in a mailbox and applied by a later
step only, and the rejection of a booking whose traveler has not departed is parked until then.
-/

namespace DialARide

/-- A traveler who is about to depart, with the leg to travel. -/
structure Departing where
  traveler : EntityId
  person : PersonId
  mode : ModeId
  leg : Option PlannedLeg
  deriving DecidableEq, Repr

/-- The traveler bound to a request, and how far the request has come. -/
structure Binding where
  traveler : EntityId
  person : PersonId
  target : LinkId
  status : RequestStatus
  deriving DecidableEq, Repr

/-- The passenger side of one mode. -/
structure Service where
  mode : ModeId
  /-- The links that are open to the mode. -/
  network : Network
  naming : Naming := .proposed
  screening : Screening := .distinctLinks
  /-- The bookings in advance, if the mode takes them. -/
  desk : Option Desk := none
  /-- The service submits to an optimizer of its own, which accepts every request. -/
  ownOptimizer : Bool := false
  /-- How many times the mailbox is subscribed to rejections. -/
  subscriptions : Nat := 1
  /-- A closed service serves nobody, but its desk still takes bookings. -/
  closed : Bool := false
  /-- The number of names given to requests at departure so far. -/
  drawn : Nat := 0
  /-- The travelers whose ride is not over, by request. -/
  bound : Table RequestId Binding := .empty
  /-- The stops where a vehicle waits for its passenger, by request. -/
  waitingStops : Table RequestId EntityId := .empty
  /-- The rejections to be applied, in the order in which they are. -/
  mailbox : List Rejection := []
  /-- The rejected bookings whose traveler has not departed, by request. -/
  parked : Table RequestId Rejection := .empty

/-- What a service does at one call: what it is then, what it tells the simulation, and the
requests that it submits. -/
structure Turn where
  service : Service
  calls : List Call := []
  submitted : List Request := []

namespace Service

/-! ## Requests -/

/-- The link of a name, which must be in the network of the mode. -/
def requireLink (s : Service) (id : LinkId) : Except Fault Link :=
  match s.network.link? id with
  | some link => .ok link
  | none => .error (.missingLink id s.mode)

/-- The name proposed for the next request at a departure. -/
def nextName (s : Service) : RequestId := ⟨s!"{s.mode.text}_{s.drawn}"⟩

/-- The request of a person for a leg between two links. -/
def request (s : Service) (proposed : RequestId) (person : PersonId) (leg : Leg)
    (source target : Link) (earliestStart submittedAt : Time) : Request where
  id := s.naming.choose proposed
  passenger := person
  mode := s.mode
  source := source.id
  target := target.id
  earliestStart
  submittedAt
  route := leg.route

/-- The observation of a stage of a request. -/
def observation (s : Service) (now : Time) (kind : ObservationKind) (request : RequestId)
    (person : PersonId) : Observation :=
  { time := now, kind, mode := s.mode, request, person }

/-- Binds a traveler to a request, in place of any that was bound to it. -/
def bind (s : Service) (r : Request) (traveler : EntityId) (status : RequestStatus) : Service :=
  { s with bound := s.bound.insert r.id ⟨traveler, r.passenger, r.target, status⟩ }

/-- Screens a request and submits it, and says whether it was submitted. A declined request is
unbound if the traveler is the one bound to it. -/
def submit (s : Service) (traveler : EntityId) (r : Request) : Bool × Turn :=
  if s.screening.accepts r then
    (true, {
      service := { s with bound := s.bound.adjust r.id ({ · with status := .submitted }) }
      submitted := [r] })
  else if (s.bound.find? r.id).any (·.traveler = traveler) then
    (false, { service := { s with bound := s.bound.erase r.id } })
  else (false, { service := s })

/-- Tells the stop that waits for the passenger of a request, if one does, that the passenger is
there. -/
def releaseStop (s : Service) (id : RequestId) (traveler : EntityId) (now : Time) :
    Service × List Call :=
  match s.waitingStops.find? id with
  | some stop =>
    ({ s with waitingStops := s.waitingStops.erase id }, [.ready stop traveler now])
  | none => (s, [])

/-! ## Bookings -/

/-- Takes bookings from now on, which are screened as departures are. -/
def withDesk (s : Service) : Service := { s with desk := some { screening := s.screening } }

/-- The name proposed for the next booking. -/
def nextBookingName (s : Service) (desk : Desk) : RequestId :=
  ⟨s!"{s.mode.text}_prebooked_{desk.drawn}"⟩

/-- A request of this name is booked. -/
def isBooked (s : Service) (id : RequestId) : Bool := s.desk.any (·.isBooked id)

/-- Books a leg for a person, and gives the name drawn for the booking. Legs of other modes, and
requests that the screening declines, are not booked. -/
def book (s : Service) (now : Time) (person : PersonId) (planned : PlannedLeg) :
    Except Fault (Option RequestId × Turn) :=
  match s.desk with
  | none => .ok (none, { service := s })
  | some desk =>
    if planned.leg.mode ≠ s.mode then .ok (none, { service := s })
    else do
      let source ← s.requireLink planned.leg.source
      let target ← s.requireLink planned.leg.target
      let id := s.nextBookingName desk
      let r := s.request id person planned.leg source target planned.leg.departure now
      let desk := { desk with drawn := desk.drawn + 1 }
      if desk.screening.accepts r then
        let bookings := desk.bookings.insert ⟨person, planned.index⟩ r
        return (some id, {
          service := { s with desk := some { desk with bookings } }
          submitted := [r] })
      else return (none, { service := { s with desk := some desk } })

/-- Hands out the booking of a leg, if there is one. -/
def collect (s : Service) (key : LegKey) : Option (Request × Service) := do
  let desk ← s.desk
  let r ← desk.bookings.find? key
  return (r, { s with desk := some { desk with bookings := desk.bookings.erase key } })

/-! ## Departure -/

/-- Makes and submits a request at the departure of a traveler from a link. -/
def departNow (s : Service) (now : Time) (who : Departing) (leg : Leg) (source target : Link) :
    Turn :=
  let r := s.request s.nextName who.person leg source target now now
  let waiting := Call.observe (s.observation now .waiting r.id r.passenger)
  let s := { s with drawn := s.drawn + 1 }.bind r who.traveler .created
  let (accepted, turn) := s.submit who.traveler r
  let (service, ready) :=
    if accepted then turn.service.releaseStop r.id who.traveler now else (turn.service, [])
  { service, calls := waiting :: ready, submitted := turn.submitted }

/-- Lets a traveler depart with a booking. If the booking was rejected in the meantime, the
rejection is the first to be applied from now on. -/
def departBooked (s : Service) (now : Time) (who : Departing) (r : Request) : Turn :=
  let waiting := Call.observe (s.observation now .waiting r.id r.passenger)
  let s := s.bind r who.traveler .waitingActive
  match s.parked.find? r.id with
  | some rejection =>
    { service := { s with parked := s.parked.erase r.id, mailbox := rejection :: s.mailbox }
      calls := [waiting] }
  | none =>
    let (service, ready) := s.releaseStop r.id who.traveler now
    { service, calls := waiting :: ready }

/-- Lets a traveler of the mode depart from a link, by booking or by a request made now. -/
def depart (s : Service) (now : Time) (who : Departing) (link : LinkId) :
    Except Fault (Option Turn) :=
  if who.mode ≠ s.mode then .ok none
  else match who.leg with
  | none => .error (.noCurrentLeg who.person who.mode)
  | some planned =>
    match s.collect ⟨who.person, planned.index⟩ with
    | some (r, s) => .ok (some (s.departBooked now who r))
    | none => do
      let source ← s.requireLink link
      let target ← s.requireLink planned.leg.target
      return some (s.departNow now who planned.leg source target)

/-! ## Stops -/

/-- Says whether the passenger of a request is there; if not, the stop waits. -/
def awaitPassenger (s : Service) (stop : EntityId) (id : RequestId) : Bool × Service :=
  if s.bound.contains id then (true, s)
  else (false, { s with waitingStops := s.waitingStops.insert id stop })

/-- Lets the passenger of a request board a vehicle, if there is one who is not on board. -/
def pickUp (s : Service) (vehicle : VehicleId) (id : RequestId) (now : Time) : Option Turn :=
  match s.bound.find? id with
  | none => none
  | some b =>
    if b.status = .pickedUp then none
    else some {
      service := { s with
        bound := s.bound.insert id { b with status := .pickedUp }
        waitingStops := s.waitingStops.erase id }
      calls := [.board vehicle b.traveler now,
        .observe { s.observation now .pickedUp id b.person with vehicle := some vehicle }] }

/-- Lets the passenger of a request alight, which ends the ride. -/
def dropOff (s : Service) (vehicle : VehicleId) (id : RequestId) (now : Time) :
    Except Fault (EntityId × Turn) :=
  match s.bound.find? id with
  | none => .error (.unboundRequest id s.mode)
  | some b => .ok (b.traveler, {
      service := { s with bound := s.bound.erase id }
      calls := [.observe { s.observation now .droppedOff id b.person with vehicle := some vehicle },
        .alight vehicle b.traveler b.target now] })

/-! ## Rejections -/

/-- Puts a rejection of the mode into the mailbox, a number of times. -/
def deliver (s : Service) (copies : Nat) (r : Rejection) : Service :=
  if r.mode = s.mode then { s with mailbox := s.mailbox ++ List.replicate copies r } else s

/-- Applies one rejection: whoever is bound to the request is aborted; if nobody is and the
request is booked, the rejection is parked. -/
def applyRejection (s : Service) (now : Time) (r : Rejection) : Service × List Call :=
  let s := { s with waitingStops := s.waitingStops.erase r.request }
  match s.bound.find? r.request with
  | some b =>
    ({ s with bound := s.bound.erase r.request },
      [.observe { s.observation now .rejected r.request b.person with cause := some r.cause },
        .abort b.traveler now])
  | none =>
    if s.isBooked r.request then ({ s with parked := s.parked.insert r.request r }, [])
    else (s, [])

/-- Applies rejections one after the other. -/
def applyRejections (now : Time) : Service → List Rejection → Turn
  | s, [] => { service := s }
  | s, r :: rest =>
    let (s, calls) := s.applyRejection now r
    let turn := applyRejections now s rest
    { turn with calls := calls ++ turn.calls }

/-- Applies the rejections at the front of the mailbox that are older than the present. -/
def step (s : Service) (now : Time) : Turn :=
  applyRejections now { s with mailbox := s.mailbox.dropWhile (·.time < now) }
    (s.mailbox.takeWhile (·.time < now))

/-! ## Views -/

/-- A traveler is bound to some request. -/
def isBound (s : Service) (traveler : EntityId) : Bool :=
  s.bound.values.any (·.traveler = traveler)

/-- How far a request has come, if somebody is bound to it. -/
def status? (s : Service) (id : RequestId) : Option RequestStatus :=
  (s.bound.find? id).map (·.status)

end Service

/-- The call aborts a journey. -/
def Call.isAbort : Call → Bool
  | .abort .. => true
  | _ => false

/-- The number of journeys that a turn aborts. -/
def Turn.aborted (t : Turn) : Nat := t.calls.countP (·.isAbort)

end DialARide
