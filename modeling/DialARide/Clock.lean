import DialARide.Time

/-!
# The clock and its pending events

An event is due at a time. Events of one time go by kind, those of one kind in the order in
which they were scheduled. The clock lists what is pending in that order and moves to the time
of each event as it is taken.
-/

namespace DialARide

/-- The kinds of event, in the order in which they are due within one instant. -/
inductive EventKind where
  | simulationStarted
  | shiftDispatch
  | passengerStep
  | departure
  | stopReached
  deriving DecidableEq, Repr

/-- The place of a kind among those of one instant. -/
def EventKind.rank : EventKind → Nat
  | .simulationStarted => 0
  | .shiftDispatch => 1
  | .passengerStep => 2
  | .departure => 3
  | .stopReached => 4

/-- Travelers and stops are numbered together, in the order in which they are added. -/
abbrev EntityId := Nat

/-- What an event is about. -/
inductive Subject where
  | traveler (id : EntityId)
  | stop (id : EntityId)
  deriving DecidableEq, Repr

/-- Something that is due at a time. -/
structure Event where
  time : Time
  kind : EventKind
  subject : Option Subject
  /-- The number of events that were scheduled earlier. -/
  serial : Nat
  deriving DecidableEq, Repr

namespace Event

/-- Events are due by time, then by kind, then in the order of scheduling. -/
def order (a b : Event) : Ordering :=
  (compare a.time b.time).then
    ((compare a.kind.rank b.kind.rank).then (compare a.serial b.serial))

/-- The events with one put before the first that is due after it. -/
def insertIn (e : Event) : List Event → List Event
  | [] => [e]
  | a :: rest => if e.order a = .lt then e :: a :: rest else a :: insertIn e rest

end Event

/-- The present time and the events that are due from now on. -/
structure Clock where
  now : Time := 0
  /-- The events that were scheduled and not taken, in the order in which they are due. -/
  pending : List Event := []
  /-- The number of events scheduled so far. -/
  scheduled : Nat := 0
  deriving DecidableEq, Repr

namespace Clock

/-- Schedules an event at a time, which must not lie in the past. -/
def scheduleAt (c : Clock) (time : Time) (kind : EventKind) (subject : Option Subject) :
    Except Halt Clock :=
  if time < c.now then .error .pastEvent
  else .ok { c with
    pending := Event.insertIn ⟨time, kind, subject, c.scheduled⟩ c.pending
    scheduled := c.scheduled + 1 }

/-- Schedules an event after a delay. -/
def scheduleIn (c : Clock) (delay : Time) (kind : EventKind) (subject : Option Subject) :
    Except Halt Clock := do
  c.scheduleAt (← Time.plus c.now delay) kind subject

/-- Takes the next event; the time of the event becomes the present. -/
def next? (c : Clock) : Option (Event × Clock) :=
  match c.pending with
  | [] => none
  | e :: rest => some (e, { c with now := e.time, pending := rest })

/-- The time of the next event. -/
def nextTime? (c : Clock) : Option Time := c.pending.head?.map (·.time)

/-- An event of the kind is pending. -/
def hasPending (c : Clock) (kind : EventKind) : Bool := c.pending.any (·.kind = kind)

/-- The number of pending events. -/
def size (c : Clock) : Nat := c.pending.length

/-- Nothing is pending. -/
def isEmpty (c : Clock) : Bool := c.pending.isEmpty

end Clock

end DialARide
