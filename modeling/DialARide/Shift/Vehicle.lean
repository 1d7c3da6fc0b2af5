import DialARide.Shift.Basic

/-!
# The shifts of a vehicle

A vehicle drives its shifts in the order of their start. The current shift is the last one that
has left its waiting state, or the first one while all are waiting.
-/

namespace DialARide

/-- A vehicle as it joins the fleet. -/
structure VehicleEntry where
  id : VehicleId
  link : LinkId
  available : Bool := true
  deriving DecidableEq, Repr

/-- A vehicle and the shifts that were assigned to it, in the order of their start. -/
structure Vehicle extends VehicleEntry where
  shifts : List Shift := []
  deriving DecidableEq, Repr

namespace Vehicle

/-- The position of the last shift that has left its waiting state. -/
def lastBegun? : List Shift → Option Nat
  | [] => none
  | s :: rest =>
    match lastBegun? rest with
    | some i => some (i + 1)
    | none => if s.state = .waiting then none else some 0

/-- The position of the current shift. -/
def currentIndex? (v : Vehicle) : Option Nat :=
  match lastBegun? v.shifts with
  | some i => some i
  | none => if v.shifts.isEmpty then none else some 0

/-- The shift that counts at present. -/
def currentShift? (v : Vehicle) : Option Shift := v.currentIndex?.bind (v.shifts[·]?)

/-- The vehicle with its current shift changed. -/
def setCurrentShift (v : Vehicle) (s : Shift) : Vehicle :=
  match v.currentIndex? with
  | some i => { v with shifts := v.shifts.set i s }
  | none => v

/-- The first shift with a driver at work. -/
def runningShift? (v : Vehicle) : Option Shift := v.shifts.find? (·.isRunning)

/-- The position of the first shift that is waiting. -/
def waitingIndex? (v : Vehicle) : Option Nat := v.shifts.findIdx? (·.state = .waiting)

/-- There is a shift that has not ended. -/
def hasOpenShifts (v : Vehicle) : Bool := v.shifts.any (·.state ≠ .ended)

/-- All the given shifts end early enough before a start. Shifts are looked at one by one, up to the
first that does not. -/
def allEndBefore (start changeover : Time) : List Shift → Except Halt Bool
  | [] => .ok true
  | s :: rest => do
    if (← Time.plus s.finish changeover) ≤ start then allEndBefore start changeover rest
    else return false

/-- The vehicle is done with its shifts, and changed over, when a shift is to start. -/
def isFreeFor (v : Vehicle) (start changeover : Time) : Except Halt Bool :=
  allEndBefore start changeover (v.shifts.filter (·.state ≠ .ended))

/-- The shifts with one put behind those that start no later. -/
def insertByStart (s : Shift) : List Shift → List Shift
  | [] => [s]
  | a :: rest => if a.start ≤ s.start then a :: insertByStart s rest else s :: a :: rest

/-- The vehicle with a shift assigned to it. -/
def assign (v : Vehicle) (s : Shift) : Vehicle := { v with shifts := insertByStart s v.shifts }

end Vehicle

end DialARide
