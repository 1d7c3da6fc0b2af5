import DialARide.Proofs.Shift.Act

/-!
# What becomes of the shifts

A shift that a vehicle has is changed in six ways, and each change is put down with its kind and
the facility concerned. A decision or a report changes one shift at most in one of these ways,
drops a shift that is over, or assigns one to a vehicle that is free for it.
-/

namespace DialARide

namespace Shift

/-- One change of a shift, with its kind and the facility concerned as they are put down. -/
inductive Change (s : Shift) : ShiftEventKind → Option FacilityId → Shift → Prop
  | started : s.state = .waiting → Change s .started none { s with state := .started }
  | breakScheduled (f : FacilityId) : s.state = .started → s.breakFacility = none →
      s.breakTaken = false → Change s .breakScheduled (some f) (s.planBreak f)
  | breakStarted : s.state = .started →
      Change s .breakStarted s.breakFacility { s with state := .onBreak }
  | breakEnded (f : FacilityId) : s.state = .onBreak →
      Change s .breakEnded (some f) { s with state := .started, breakTaken := true }
  | endScheduled (f : FacilityId) : s.state = .started → s.endFacility = none →
      Change s .endScheduled (some f) (s.planEnd f)
  | ended : s.state = .started → Change s .ended s.endFacility s.over

variable {s t : Shift} {kind : ShiftEventKind} {facility : Option FacilityId}

/-- A shift goes on as it was planned. -/
theorem Change.plan_eq (h : s.Change kind facility t) : t.toShiftPlan = s.toShiftPlan := by
  cases h <;> rfl

/-- An ended shift never changes again. -/
theorem Change.not_ended (h : s.Change kind facility t) : s.state ≠ .ended := by
  cases h <;> simp [*]

end Shift

namespace Dispatcher

/-- What a decision or a report does to the shifts. -/
inductive Effect (now : Time) (d : Dispatcher) : Dispatcher → Prop
  /-- The time is noted. -/
  | tick : Effect now d { d with now }
  /-- A shift that is over is dropped. -/
  | expire (before : List Shift) (s : Shift) (after : List Shift) :
      d.unassigned = before ++ s :: after → s.finish ≤ now →
      Effect now d { d with unassigned := before ++ after }
  /-- A shift is assigned to a vehicle that is free for it. -/
  | assign (before : List Shift) (s : Shift) (after : List Shift) (v : Vehicle) :
      d.unassigned = before ++ s :: after → d.vehicles.find? v.id = some v →
      v.isFreeFor s.start d.policy.changeover = .ok true →
      Effect now d
        (amend { d with unassigned := before ++ after } d.facilities (v.assign s)
          { time := now, kind := .assigned, vehicle := v.id, shift := s.id })
  /-- A shift of a vehicle changes. -/
  | change (v u : Vehicle) (before : List Shift) (s t : Shift) (after : List Shift)
      (facilities : Facilities) (e : ShiftEvent) : d.vehicles.find? v.id = some v → u.id = v.id →
      v.shifts = before ++ s :: after → u.shifts = before ++ t :: after → e.vehicle = v.id →
      e.shift = s.id → s.Change e.kind e.facility t → Effect now d (d.amend facilities u e)

variable {d d' : Dispatcher} {now : Time}

/-- After one vehicle was changed, a vehicle is that one or as it was. -/
theorem find?_amend {facilities : Facilities} {u w : Vehicle} {e : ShiftEvent} {id : VehicleId}
    (h : (d.amend facilities u e).vehicles.find? id = some w) :
    (u.id = id ∧ w = u) ∨ (u.id ≠ id ∧ d.vehicles.find? id = some w) :=
  Table.find?_insert_eq_some_iff.1 h

/-- A vehicle that was changed is found as it is now. -/
theorem find?_amend_self (d : Dispatcher) (facilities : Facilities) (u : Vehicle)
    (e : ShiftEvent) : (d.amend facilities u e).vehicles.find? u.id = some u :=
  Table.find?_insert_eq_some_iff.2 (.inl ⟨rfl, rfl⟩)

/-- No vehicle joins or leaves the fleet. -/
theorem Effect.contains_eq (h : d.Effect now d') (id : VehicleId) :
    d'.vehicles.contains id = d.vehicles.contains id := by
  have hone {u v : Vehicle} (hv : d.vehicles.find? v.id = some v) (hid : u.id = v.id) :
      (d.vehicles.insert u.id u).contains id = d.vehicles.contains id := by
    rw [Bool.eq_iff_iff, Table.contains_insert_iff, hid, or_iff_right_iff_imp]
    rintro rfl
    simp [Table.contains, hv]
  cases h with
  | tick | expire => rfl
  | assign before s after v hopen hv => exact hone hv rfl
  | change v u before s t after facilities e hv hid => exact hone hv hid

/-- No shift becomes open again. -/
theorem Effect.unassigned_sublist (h : d.Effect now d') : d'.unassigned.Sublist d.unassigned := by
  cases h with
  | tick | change => exact .refl _
  | expire before s after hopen | assign before s after v hopen =>
    rw [hopen]
    exact (List.sublist_cons_self s after).append_left before

/-- A vehicle that was selected for a shift is free for it. -/
theorem isFreeFor_of_selectVehicle {s : Shift} {v : Vehicle}
    (h : d.selectVehicle s = .ok (some v)) :
    v.isFreeFor s.start d.policy.changeover = .ok true := by
  have hcandidate := (mem_of_selectVehicle h).2
  unfold isCandidate at hcandidate
  split at hcandidate
  · exact hcandidate
  · simp at hcandidate

theorem Decision.effect {i : Option Instruction} (h : d.Decision now d' i) : d.Effect now d' := by
  cases h with
  | tick => exact .tick
  | expire before s after hopen hover => exact .expire before s after hopen hover
  | assign before s after horizon v hopen hlasts hhorizon hstart hv hselect =>
    exact .assign before s after v hopen hv (isFreeFor_of_selectVehicle hselect)
  | start v before s after hv hrunning hsplit hbefore hwait hdue =>
    exact .change v _ before s _ after _ _ hv rfl hsplit rfl rfl rfl (.started hwait)
  | planBreak v before s after w task facilities facility hv hcome hnow hdecide =>
    obtain ⟨hstate, hplan, htaken, -⟩ := decideOnBreak_eq_ok_some hdecide
    exact .change v _ before s _ after _ _ hv rfl hcome.split rfl rfl rfl
      (.breakScheduled task.facility hstate hplan htaken)
  | planEnd v before s after horizon facility facilities hv hcome hstate hend =>
    exact .change v _ before s _ after _ _ hv rfl hcome.split rfl rfl rfl
      (.endScheduled facility.id hstate hend)

theorem Report.effect (h : d.Report now d') : d.Effect now d' := by
  cases h with
  | breakStarted v before s after link hv hcome hstate =>
    exact .change v _ before s _ after _ _ hv rfl hcome.split rfl rfl rfl (.breakStarted hstate)
  | breakEnded v before s after task had facilities hv hcome hstate =>
    exact .change v _ before s _ after _ _ hv rfl hcome.split rfl rfl rfl
      (.breakEnded task.facility hstate)
  | shiftEnded v before s after link facilities hv hcome hstate =>
    exact .change v _ before s _ after _ _ hv rfl hcome.split rfl rfl rfl (.ended hstate)

end Dispatcher

end DialARide
