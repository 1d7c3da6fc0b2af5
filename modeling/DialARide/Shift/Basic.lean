import DialARide.Fault
import DialARide.Time

/-!
# Shifts

A shift is planned with its times, a window for one break and a facility to end at. While it is
driven it moves through its states and remembers the facilities at which a slot is reserved for
its break and for its end.
-/

namespace DialARide

/-- The time within which one break is to be taken. -/
structure BreakWindow where
  earliestStart : Time
  latestEnd : Time
  duration : Time
  deriving DecidableEq, Repr

/-- The last moment at which the break can start and still fit its window. -/
def BreakWindow.latestStart (w : BreakWindow) : Time := .minus w.latestEnd w.duration

/-- A shift as it is planned. -/
structure ShiftPlan where
  id : ShiftId
  start : Time
  finish : Time
  breakWindow : Option BreakWindow := none
  /-- The facility that the shift belongs to. -/
  home : Option FacilityId := none
  deriving DecidableEq, Repr

/-- A planned shift and what has become of it. -/
structure Shift extends ShiftPlan where
  state : ShiftState := .waiting
  /-- The facility at which a slot is reserved for the break. -/
  breakFacility : Option FacilityId := none
  breakTaken : Bool := false
  /-- The facility at which a slot is reserved for the end. -/
  endFacility : Option FacilityId := none
  deriving DecidableEq, Repr

namespace Shift

/-- A driver is at work. -/
def isRunning (s : Shift) : Bool := s.state = .started || s.state = .onBreak

/-- A slot is reserved for a break that is still to be taken. -/
def breakPending (s : Shift) : Bool := s.breakFacility.isSome && !s.breakTaken

/-- Moves the shift on from exactly one state. -/
def transition (s : Shift) (current next : ShiftState) : Except Fault Shift :=
  if s.state = current && current.mayBecome next then .ok { s with state := next }
  else .error (.illegalTransition s.id s.state next)

/-- The driver takes up the shift. -/
def begin (s : Shift) : Except Fault Shift := s.transition .waiting .started

/-- The driver stops for the break. -/
def startBreak (s : Shift) : Except Fault Shift := s.transition .started .onBreak

/-- The driver is back from the break. -/
def endBreak (s : Shift) : Except Fault Shift := do
  return { ← s.transition .onBreak .started with breakTaken := true }

/-- The driver gives up the shift. -/
def finishWork (s : Shift) : Except Fault Shift := s.transition .started .ended

/-- Reserves the break at a facility. -/
def planBreak (s : Shift) (facility : FacilityId) : Shift :=
  { s with breakFacility := some facility }

/-- Reserves the end at a facility. -/
def planEnd (s : Shift) (facility : FacilityId) : Shift := { s with endFacility := some facility }

/-- Gives up a break that was not taken, and names the facility that held a slot for it. -/
def cancelBreak (s : Shift) : Option FacilityId × Shift :=
  if s.breakTaken then (none, s) else (s.breakFacility, { s with breakFacility := none })

/-- A transition is made from the state asked for and from no other. -/
theorem transition_eq_ok_iff {s t : Shift} {current next : ShiftState} :
    s.transition current next = .ok t ↔
      s.state = current ∧ current.mayBecome next ∧ t = { s with state := next } := by
  unfold transition
  split
  · next h =>
    simp only [Bool.and_eq_true, decide_eq_true_eq] at h
    simp [h, eq_comm]
  · next h =>
    simp only [Bool.and_eq_true, decide_eq_true_eq] at h
    simp only [reduceCtorEq, false_iff]
    exact fun ⟨h₁, h₂, _⟩ => h ⟨h₁, h₂⟩

end Shift

end DialARide
