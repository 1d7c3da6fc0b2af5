import DialARide.Proofs.Ride.Outcome
import DialARide.Proofs.Shift.Due

/-!
# What may be at fault

A departure can only fail for a link or a leg, a dropoff only because nobody is bound to its
request, and a task of a shift only for a shift, a vehicle or a facility.
-/

namespace DialARide

/-- It is a shift, a vehicle or a facility that is at fault. -/
def Fault.ConcernsShifts : Fault → Prop
  | .unknownVehicle _ | .unknownFacility _ | .illegalTransition .. | .noShift _ => True
  | .missingLink .. | .noCurrentLeg .. | .config _ | .unboundRequest .. => False

/-- It is the leg of a departure that is at fault. -/
def Fault.ConcernsDeparture : Fault → Prop
  | .missingLink .. | .noCurrentLeg .. => True
  | .unknownVehicle _ | .unknownFacility _ | .illegalTransition .. | .noShift _ | .config _
  | .unboundRequest .. => False

/-- Every fault that may be met has a property. -/
def Blames {α : Type} (p : Fault → Prop) (x : Except Fault α) : Prop :=
  ∀ fault, x = .error fault → p fault

/-- Of two steps in a row the faults are those of the one or the other. -/
theorem Blames.bind {α β : Type} {p : Fault → Prop} {x : Except Fault α} {f : α → Except Fault β}
    (hx : Blames p x) (hf : ∀ a, Blames p (f a)) : Blames p (x >>= f) := by
  intro fault h
  cases x with
  | error found =>
    cases h
    exact hx _ rfl
  | ok a => exact hf a fault h

theorem Blames.map {α β : Type} {p : Fault → Prop} {x : Except Fault α} (hx : Blames p x)
    (f : α → β) : Blames p (f <$> x) := by
  intro fault h
  cases x with
  | error found =>
    cases h
    exact hx _ rfl
  | ok a => cases h

theorem blames_ok {α : Type} {p : Fault → Prop} (a : α) : Blames p (.ok a : Except Fault α) := by
  intro fault h
  cases h

/-! ## Passengers -/

namespace Service

/-- What hinders a departure is a fault of its leg. -/
theorem Hinders.concernsDeparture {s : Service} {who : Departing} {link : LinkId} {fault : Fault}
    (h : s.Hinders who link fault) : fault.ConcernsDeparture := by
  cases h <;> trivial

/-- Nobody can alight for a request that nobody is bound to, and this is the only fault. -/
theorem dropOff_eq_error_iff {s : Service} {vehicle : VehicleId} {id : RequestId} {now : Time}
    {fault : Fault} : s.dropOff vehicle id now = .error fault ↔
      s.bound.find? id = none ∧ fault = .unboundRequest id s.mode := by
  unfold dropOff
  cases s.bound.find? id <;> simp [eq_comm]

end Service

/-- Whatever keeps a traveler from departing concerns the leg. -/
theorem Services.blames_depart (h : Services) (now : Time) (who : Departing) (link : LinkId) :
    Blames Fault.ConcernsDeparture (h.depart now who link) := by
  intro fault hfault
  obtain ⟨s, -, hhinders⟩ := depart_eq_error_iff.1 hfault
  exact hhinders.concernsDeparture

/-! ## Shifts -/

namespace Dispatcher

/-- A transition that is not allowed is a fault of the shift. -/
private theorem blames_transition (s : Shift) (current next : ShiftState) :
    Blames Fault.ConcernsShifts (s.transition current next) := by
  intro fault h
  unfold Shift.transition at h
  split at h <;> cases h
  trivial

private theorem blames_requireShift (d : Dispatcher) (id : VehicleId) :
    Blames Fault.ConcernsShifts (d.requireShift id) := by
  refine .bind (fun fault h => ?_) fun v fault h => ?_
  · unfold requireVehicle at h
    split at h <;> cases h
    trivial
  · split at h <;> cases h
    trivial

private theorem blames_require (fs : Facilities) (id : FacilityId) :
    Blames Fault.ConcernsShifts (fs.require id) := by
  intro fault h
  unfold Facilities.require at h
  split at h <;> cases h
  trivial

private theorem blames_deregister (fs : Facilities) (id : FacilityId) (vehicle : VehicleId) :
    Blames Fault.ConcernsShifts (fs.deregister id vehicle) :=
  .bind (blames_require fs id) fun _ => blames_ok _

/-- What keeps a break from starting concerns shifts. -/
private theorem blames_startBreak (d : Dispatcher) (id : VehicleId) (link : LinkId) (now : Time) :
    Blames Fault.ConcernsShifts (d.startBreak id link now) :=
  .bind (d.blames_requireShift id) fun (_, s) =>
    .bind (blames_transition s _ _) fun _ => blames_ok _

/-- What keeps a break from ending concerns shifts. -/
private theorem blames_endBreak (d : Dispatcher) (id : VehicleId) (task : BreakTask) (now : Time) :
    Blames Fault.ConcernsShifts (d.endBreak id task now) := by
  refine .bind (blames_require _ _) fun _ => .bind (d.blames_requireShift id) fun (_, s) => ?_
  refine .bind (.bind (blames_transition s _ _) fun _ => blames_ok _) fun _ => ?_
  exact .bind (blames_deregister _ _ _) fun _ => blames_ok _

private theorem blames_release (fs : Facilities) (id : VehicleId) (released : Option FacilityId)
    (f : Facilities → Dispatcher) : Blames Fault.ConcernsShifts (match released with
      | some facility => do
        let facilities ← (·.2) <$> fs.deregister facility id
        pure (f facilities)
      | none => do
        let facilities ← pure fs
        pure (f facilities)) := by
  cases released with
  | none => exact blames_ok _
  | some facility => exact .bind ((blames_deregister fs facility id).map _) fun _ => blames_ok _

/-- What keeps a shift from ending concerns shifts. -/
private theorem blames_endShift (d : Dispatcher) (id : VehicleId) (link : LinkId) (now : Time) :
    Blames Fault.ConcernsShifts (d.endShift id link now) := by
  refine .bind (d.blames_requireShift id) fun (_, s) => ?_
  have hwork : Blames Fault.ConcernsShifts s.finishWork := blames_transition s _ _
  dsimp only
  split
  · split
    · exact .bind (blames_require _ _) fun _ => .bind hwork fun _ => blames_release _ _ _ _
    · exact .bind hwork fun _ => blames_release _ _ _ _
  · exact .bind hwork fun _ => blames_release _ _ _ _

/-- Whatever keeps a report from being heard concerns shifts. -/
theorem blames_hear (d : Dispatcher) (now : Time) (r : TaskReport) :
    Blames Fault.ConcernsShifts (d.hear now r) := by
  cases r with
  | breakStarts vehicle link => exact d.blames_startBreak vehicle link now
  | breakEnds vehicle task => exact d.blames_endBreak vehicle task now
  | shiftEnds vehicle link => exact d.blames_endShift vehicle link now

end Dispatcher

/-- A fault that is met when tasks are carried out concerns shifts. -/
theorem TaskQueue.blames_executeDue {q tasks : TaskQueue} {d d' : Dispatcher} {now : Time}
    {fault : Fault} (h : q.executeDue d now = (tasks, d', some fault)) :
    fault.ConcernsShifts := by
  have houtcome : d.hearAll now (q.dueReports now) = (d', some fault) :=
    (executeDue_outcome q d now).symm.trans (congrArg (·.2) h)
  obtain ⟨_, r, _, -, -, hfault, -⟩ := Dispatcher.exists_split_of_fault houtcome
  exact d'.blames_hear now r fault hfault

end DialARide
