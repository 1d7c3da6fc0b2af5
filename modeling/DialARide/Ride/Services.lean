import DialARide.Ride.Service

/-!
# All passenger services

The services of a scenario share one optimizer and one channel on which rejections are published.
A departure goes to the first open service of its mode. Submissions reach the optimizer in the
order in which they are made; an optimizer that rejects a request publishes the rejection at
once, so it lies in the mailboxes before the call that submitted the request is over.
-/

namespace DialARide

/-- The services in the order in which departures are offered to them, and what they share. -/
structure Services where
  members : List Service := []
  /-- The cause for which the shared optimizer rejects a request, if it does. -/
  verdict : Request → Option String := fun _ => none
  /-- The requests submitted to the shared optimizer, oldest first. -/
  submitted : List Request := []

namespace Services

/-! ## Who is addressed -/

/-- The services that are open. -/
def active (h : Services) : List Service := h.members.filter (!·.closed)

/-- The position of the first open service of a mode. -/
def position? (h : Services) (mode : ModeId) : Option Nat :=
  h.members.findIdx? fun s => !s.closed && s.mode = mode

/-- The position of the service that stands at a place among the open ones. -/
def openPosition? (h : Services) (place : Nat) : Option Nat :=
  (h.members.zipIdx.filter (!·.1.closed))[place]?.map (·.2)

/-- The position of the first service of a mode that takes bookings, be it open or closed. -/
def deskPosition? (h : Services) (mode : ModeId) : Option Nat :=
  h.members.findIdx? fun s => s.desk.isSome && s.mode = mode

/-- The desks of the services that take bookings. -/
def desks (h : Services) : List Desk := h.members.filterMap (·.desk)

/-! ## The optimizer and the channel of rejections -/

/-- Publishes a rejection to every subscribed mailbox. -/
def publish (h : Services) (r : Rejection) : Services :=
  { h with members := h.members.map fun s => s.deliver s.subscriptions r }

/-- Submits a request to the shared optimizer. -/
def submitShared (h : Services) (r : Request) : Services :=
  let h := { h with submitted := h.submitted ++ [r] }
  match h.verdict r with
  | some cause => h.publish { time := r.submittedAt, mode := r.mode, request := r.id, cause }
  | none => h

/-- The number of mailboxes that a published rejection reaches. -/
def subscriberCount (h : Services) : Nat := h.members.foldl (fun n s => n + s.subscriptions) 0

/-- The services at two positions submit to one optimizer. -/
def shareOptimizer (h : Services) (i j : Nat) : Bool :=
  i = j || [h.members[i]?, h.members[j]?].all (·.any (!·.ownOptimizer))

/-! ## Acts of one service -/

/-- Puts the outcome of a turn of the service at a position into effect. -/
def commit (h : Services) (i : Nat) (t : Turn) : Services :=
  let h := { h with members := h.members.set i t.service }
  if t.service.ownOptimizer then h else t.submitted.foldl submitShared h

/-- Lets the service at a position act, if there is one. A fault leaves everything as it is. -/
def act {α : Type} (h : Services) (i : Nat) (f : Service → Except Fault (α × Turn)) :
    Except Fault (Option (α × Services × List Call)) :=
  match h.members[i]? with
  | none => .ok none
  | some s => do
    let (a, t) ← f s
    return some (a, h.commit i t, t.calls)

/-- Changes the service at a position. -/
def change (h : Services) (i : Nat) (f : Service → Service) : Services :=
  { h with members := h.members.modify i f }

/-- Subscribes the mailbox of a service once more. -/
def subscribe (h : Services) (i : Nat) : Services :=
  h.change i fun s => { s with subscriptions := s.subscriptions + 1 }

/-- Closes a service. -/
def close (h : Services) (i : Nat) : Services := h.change i fun s => { s with closed := true }

/-- Puts a rejection into one mailbox. -/
def deliverTo (h : Services) (i : Nat) (r : Rejection) : Services := h.change i (·.deliver 1 r)

/-- Offers a departure to the service at a position, and says whether it took the traveler. -/
def departAt (h : Services) (i : Nat) (now : Time) (who : Departing) (link : LinkId) :
    Except Fault (Bool × Services × List Call) :=
  match h.members[i]? with
  | none => .ok (false, h, [])
  | some s => do
    match ← s.depart now who link with
    | none => return (false, h, [])
    | some t => return (true, h.commit i t, t.calls)

/-- Offers a departure to the services, and says whether one took the traveler. -/
def depart (h : Services) (now : Time) (who : Departing) (link : LinkId) :
    Except Fault (Bool × Services × List Call) :=
  match h.position? who.mode with
  | none => .ok (false, h, [])
  | some i => h.departAt i now who link

/-- Lets a stop wait for its passenger unless the passenger is there, and says whether that is
so. -/
def awaitPassenger (h : Services) (i : Nat) (stop : EntityId) (id : RequestId) : Bool × Services :=
  match h.members[i]? with
  | none => (false, h)
  | some s =>
    let (isThere, s) := s.awaitPassenger stop id
    (isThere, { h with members := h.members.set i s })

/-- Lets the passenger of a request board a vehicle, and says whether one did. -/
def pickUp (h : Services) (i : Nat) (vehicle : VehicleId) (id : RequestId) (now : Time) :
    Bool × Services × List Call :=
  match h.members[i]?.bind (·.pickUp vehicle id now) with
  | none => (false, h, [])
  | some t => (true, h.commit i t, t.calls)

/-- Applies the rejections that are due in the service at a position, and counts the journeys
that end by it. -/
def stepAt (h : Services) (i : Nat) (now : Time) : Nat × Services × List Call :=
  match h.members[i]? with
  | none => (0, h, [])
  | some s =>
    let t := s.step now
    (t.aborted, h.commit i t, t.calls)

/-- Applies the rejections that are due in the services at the given positions, one after the
other. -/
def stepEach (now : Time) : Services → List Nat → List Nat × Services × List Call
  | h, [] => ([], h, [])
  | h, i :: rest =>
    let (n, h, calls) := h.stepAt i now
    let (ns, h, more) := stepEach now h rest
    (n :: ns, h, calls ++ more)

/-- Applies the rejections that are due in every open service, in order. -/
def stepAll (h : Services) (now : Time) : List Nat × Services × List Call :=
  stepEach now h ((h.members.zipIdx.filter (!·.1.closed)).map (·.2))

/-! ## Views -/

/-- A traveler is bound to some request. -/
def isBound (h : Services) (traveler : EntityId) : Bool := h.active.any (·.isBound traveler)

/-- The number of rejections that are to be applied. -/
def pendingRejections (h : Services) : Nat := (h.active.flatMap (·.mailbox)).length

end Services

end DialARide
