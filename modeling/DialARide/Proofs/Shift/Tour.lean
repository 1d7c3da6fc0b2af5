import DialARide.Proofs.Shift.Duty
import DialARide.Proofs.Shift.Effect

/-!
# Shifts on the road

A shift of a vehicle is told apart from all others, even from those of the same name, by how many
shifts the vehicle had ended before. Once it is the current one and running it stays so until it
ends, and as long as it does, whatever is reported of the vehicle is put down under its name.
-/

namespace DialARide

/-- A shift on the road. Names may recur, so shifts of a vehicle are told apart by how many it
had ended before. -/
structure Tour where
  vehicle : VehicleId
  shift : ShiftId
  number : Nat
  deriving DecidableEq, Repr

/-- How many shifts a vehicle has ended. -/
def Dispatcher.endedBy (d : Dispatcher) (id : VehicleId) : Nat :=
  d.events.countP fun e => e.vehicle = id ∧ e.kind = .ended

namespace Tour

/-- The tour has ended. -/
def Over (t : Tour) (d : Dispatcher) : Prop := t.number < d.endedBy t.vehicle

/-- The tour is the current shift of its vehicle, and that is running. -/
structure UnderWay (t : Tour) (d : Dispatcher) (s : Shift) : Prop where
  number : t.number = d.endedBy t.vehicle
  name : s.id = t.shift
  running : s.isRunning
  current : ∃ v, d.vehicles.find? t.vehicle = some v ∧ v.currentShift? = some s

/-- The tour is under way or has ended. -/
def Begun (t : Tour) (d : Dispatcher) : Prop := t.Over d ∨ ∃ s, t.UnderWay d s

end Tour

namespace Dispatcher

variable {d d' : Dispatcher} {now : Time} {t : Tour} {s : Shift} {id : VehicleId}

/-! ## What becomes of a tour -/

/-- A vehicle has ended as many shifts as before if none was put down as ended. -/
theorem endedBy_append {es : List ShiftEvent} (h : d'.events = d.events ++ es)
    (hes : ∀ e ∈ es, e.vehicle = id → e.kind ≠ .ended) : d'.endedBy id = d.endedBy id := by
  have hnone : es.countP (fun e => e.vehicle = id ∧ e.kind = .ended) = 0 :=
    List.countP_eq_zero.2 fun e he => by simpa using hes e he
  rw [endedBy, endedBy, h, List.countP_append, hnone, Nat.add_zero]

/-- What is put down of other vehicles or of other matters leaves the number of ended shifts as
it is. -/
theorem endedBy_amend {facilities : Facilities} {u : Vehicle} {e : ShiftEvent}
    (h : e.vehicle = id → e.kind ≠ .ended) :
    (d.amend facilities u e).endedBy id = d.endedBy id :=
  endedBy_append (amend_events d facilities u e) (by simpa using h)

/-- No decision ends a shift. -/
theorem Decision.endedBy_eq {i : Option Instruction} (h : d.Decision now d' i) :
    d'.endedBy = d.endedBy := by
  funext id
  cases h with
  | tick | expire => rfl
  | assign | start | planBreak | planEnd => exact endedBy_amend (by simp)

/-- No report takes back the end of a shift. -/
theorem Report.endedBy_le (h : d.Report now d') (id : VehicleId) :
    d.endedBy id ≤ d'.endedBy id := by
  have hmore (facilities : Facilities) (u : Vehicle) (e : ShiftEvent) :
      d.endedBy id ≤ (d.amend facilities u e).endedBy id := by
    simp [endedBy, List.countP_append]
  cases h <;> exact hmore _ _ _

/-- No reports take back the end of a shift. -/
theorem Reports.endedBy_le (h : Reports now d d') (id : VehicleId) :
    d.endedBy id ≤ d'.endedBy id := by
  induction h with
  | nil => exact Nat.le_refl _
  | cons hfirst _ ih => exact Nat.le_trans (hfirst.endedBy_le id) ih

/-- A tour stays under way if what is done to its vehicle leaves a running shift of that name the
current one. -/
theorem underWay_amend {facilities : Facilities} {u : Vehicle} {e : ShiftEvent}
    (ht : t.UnderWay d s) (hkind : e.vehicle = t.vehicle → e.kind ≠ .ended)
    (hown : u.id = t.vehicle → ∃ s', u.currentShift? = some s' ∧ s'.id = s.id ∧ s'.isRunning ∧
      (s.endFacility ≠ none → s'.endFacility ≠ none)) :
    ∃ s', t.UnderWay (d.amend facilities u e) s' ∧
      (s.endFacility ≠ none → s'.endFacility ≠ none) := by
  obtain ⟨hnumber, hname, hrunning, v, hv, hcurrent⟩ := ht
  have hkept : (d.amend facilities u e).endedBy t.vehicle = d.endedBy t.vehicle :=
    endedBy_amend hkind
  have hsame := hnumber.trans hkept.symm
  by_cases hid : u.id = t.vehicle
  · obtain ⟨s', hs', hname', hrunning', hend⟩ := hown hid
    have hfind := d.find?_amend_self facilities u e
    exact ⟨s', ⟨hsame, hname'.trans hname, hrunning', u, hid ▸ hfind, hs'⟩, hend⟩
  · have hfind : (d.amend facilities u e).vehicles.find? t.vehicle = some v := by
      rw [amend_vehicles, Table.find?_insert, if_neg hid, hv]
    exact ⟨s, ⟨hsame, hname, hrunning, v, hfind, hcurrent⟩, fun hend => hend⟩

/-- The shift that the queue of its vehicle has come to is the one that is under way. -/
theorem eq_of_comesTo {v : Vehicle} {before after : List Shift} {c : Shift}
    (ht : t.UnderWay d s) (hv : d.vehicles.find? v.id = some v) (hid : v.id = t.vehicle)
    (hcome : Vehicle.ComesTo v.shifts before c after) : c = s := by
  obtain ⟨u, hu, hs⟩ := ht.current
  obtain rfl : v = u := Option.some.inj (hv.symm.trans (hid ▸ hu))
  exact Option.some.inj (hcome.currentShift?_eq.symm.trans hs)

/-- No decision takes a tour that is under way off the road. -/
theorem Decision.underWay {i : Option Instruction} (h : d.Decision now d' i) (hd : d.Sound)
    (ht : t.UnderWay d s) :
    ∃ s', t.UnderWay d' s' ∧ (s.endFacility ≠ none → s'.endFacility ≠ none) := by
  have hbegun : s.state ≠ .waiting := fun hwait =>
    Shift.not_running_iff.2 (.inl hwait) ht.running
  cases h with
  | tick | expire =>
    exact ⟨s, ⟨ht.number, ht.name, ht.running, ht.current⟩, fun hend => hend⟩
  | assign before a after horizon v hopen hlasts hhorizon hstart hv =>
    have hrest : t.UnderWay { d with unassigned := before ++ after } s :=
      ⟨ht.number, ht.name, ht.running, ht.current⟩
    refine underWay_amend hrest (by simp) fun hid => ?_
    obtain ⟨u, hu, hcurrent⟩ := ht.current
    obtain rfl : v = u := Option.some.inj (hv.symm.trans (hid ▸ hu))
    have hfresh := hd.fresh a (by simp [hopen])
    exact ⟨s, Vehicle.currentShift?_assign hfresh.state_eq hcurrent hbegun, rfl, ht.running,
      fun hend => hend⟩
  | start v before a after hv hrunning =>
    refine underWay_amend ht (by simp) fun hid => ?_
    obtain ⟨u, hu, hcurrent⟩ := ht.current
    obtain rfl : v = u := Option.some.inj (hv.symm.trans (hid ▸ hu))
    have hidle := List.find?_eq_none.1 hrunning s (Vehicle.mem_of_currentShift? hcurrent)
    exact absurd ht.running hidle
  | planBreak v before a after w task facilities facility hv hcome =>
    refine underWay_amend ht (by simp) fun hid => ?_
    obtain rfl := eq_of_comesTo ht hv hid hcome
    have hcome' := hcome.replace (t := a.planBreak task.facility) hbegun
    exact ⟨a.planBreak task.facility, hcome'.currentShift?_eq, rfl, ht.running, fun hend => hend⟩
  | planEnd v before a after horizon facility facilities hv hcome =>
    refine underWay_amend ht (by simp) fun hid => ?_
    obtain rfl := eq_of_comesTo ht hv hid hcome
    have hcome' := hcome.replace (t := a.planEnd facility.id) hbegun
    exact ⟨a.planEnd facility.id, hcome'.currentShift?_eq, rfl, ht.running, by simp [Shift.planEnd]⟩

/-- A report leaves a tour under way, or it tells that the tour has ended. -/
theorem Report.underWay (h : d.Report now d') (ht : t.UnderWay d s) :
    (∃ s', t.UnderWay d' s' ∧ (s.endFacility ≠ none → s'.endFacility ≠ none)) ∨ t.Over d' := by
  cases h with
  | breakStarted v before a after link hv hcome =>
    refine .inl (underWay_amend ht (by simp) fun hid => ?_)
    obtain rfl := eq_of_comesTo ht hv hid hcome
    have hcome' := hcome.replace (t := { a with state := .onBreak }) (by simp)
    exact ⟨{ a with state := .onBreak }, hcome'.currentShift?_eq, rfl, rfl, fun hend => hend⟩
  | breakEnded v before a after task had facilities hv hcome =>
    refine .inl (underWay_amend ht (by simp) fun hid => ?_)
    obtain rfl := eq_of_comesTo ht hv hid hcome
    let after' : Shift := { a with state := .started, breakTaken := true }
    have hcome' := hcome.replace (t := after') (by simp [after'])
    exact ⟨after', hcome'.currentShift?_eq, rfl, rfl, fun hend => hend⟩
  | shiftEnded v before a after link facilities hv hcome =>
    by_cases hid : v.id = t.vehicle
    · refine .inr ?_
      simp [Tour.Over, endedBy, List.countP_append, hid, ht.number]
    · exact .inl (underWay_amend ht (fun he => absurd he hid) fun he => absurd he hid)

/-- As long as its vehicle has ended no further shift, a tour stays under way. -/
theorem Reports.underWay (h : Reports now d d') (ht : t.UnderWay d s)
    (hsame : d'.endedBy t.vehicle = d.endedBy t.vehicle) :
    ∃ s', t.UnderWay d' s' ∧ (s.endFacility ≠ none → s'.endFacility ≠ none) := by
  induction h generalizing s with
  | nil => exact ⟨s, ht, fun hend => hend⟩
  | cons hfirst hrest ih =>
    have hnumber := ht.number
    have hlast := hrest.endedBy_le t.vehicle
    rcases hfirst.underWay ht with ⟨s₁, ht₁, hend₁⟩ | hover
    · obtain ⟨s', ht', hend'⟩ := ih ht₁ (by rw [hsame, ← hnumber, ht₁.number])
      exact ⟨s', ht', fun hend => hend' (hend₁ hend)⟩
    · unfold Tour.Over at hover
      omega

/-- A tour that has begun has begun after every decision. -/
theorem Decision.begun {i : Option Instruction} (h : d.Decision now d' i) (hd : d.Sound)
    (ht : t.Begun d) : t.Begun d' := by
  rcases ht with hover | ⟨s, ht⟩
  · exact .inl (by simpa [Tour.Over, h.endedBy_eq] using hover)
  · obtain ⟨s', ht', -⟩ := h.underWay hd ht
    exact .inr ⟨s', ht'⟩

/-- A tour that has begun has begun after all reports. -/
theorem Reports.begun (h : Reports now d d') (ht : t.Begun d) : t.Begun d' := by
  refine h.keeps (fun d d' hreport ht => ?_) ht
  rcases ht with hover | ⟨s, ht⟩
  · exact .inl (Nat.lt_of_lt_of_le hover (hreport.endedBy_le t.vehicle))
  · exact (hreport.underWay ht).symm.imp_right fun ⟨s', ht', _⟩ => ⟨s', ht'⟩

/-! ## What is put down of a tour -/

/-- A report is put down under the name of the current shift of its vehicle. -/
theorem Report.concerns (h : d.Report now d') :
    ∃ e v s, d'.events = d.events ++ [e] ∧ d.vehicles.find? e.vehicle = some v ∧
      v.currentShift? = some s ∧ e.shift = s.id := by
  cases h with
  | breakStarted v before s after link hv hcome =>
    exact ⟨_, v, s, rfl, hv, hcome.currentShift?_eq, rfl⟩
  | breakEnded v before s after task had facilities hv hcome =>
    exact ⟨_, v, s, rfl, hv, hcome.currentShift?_eq, rfl⟩
  | shiftEnded v before s after link facilities hv hcome =>
    exact ⟨_, v, s, rfl, hv, hcome.currentShift?_eq, rfl⟩

/-- A report of a vehicle with a tour under way is put down under the name of the tour. -/
theorem Report.shift_eq (h : d.Report now d') {e : ShiftEvent}
    (hevents : d'.events = d.events ++ [e]) (ht : t.UnderWay d s) (he : e.vehicle = t.vehicle) :
    e.shift = t.shift := by
  obtain ⟨e', v, c, hevents', hv, hc, hshift⟩ := h.concerns
  obtain rfl : e = e' := by simpa using hevents.symm.trans hevents'
  obtain ⟨u, hu, hs⟩ := ht.current
  obtain rfl : v = u := Option.some.inj (hv.symm.trans (he ▸ hu))
  obtain rfl : c = s := Option.some.inj (hc.symm.trans hs)
  exact hshift.trans ht.name

/-! ## Vehicles at work -/

/-- The current shift of a vehicle is running. -/
def Driving (d : Dispatcher) (id : VehicleId) : Prop :=
  ∃ v s, d.vehicles.find? id = some v ∧ v.currentShift? = some s ∧ s.isRunning

/-- A vehicle that is at work after a report was so before, and no shift of it has ended. -/
theorem Report.driving (h : d.Report now d') (hid : d'.Driving id) :
    d.Driving id ∧ d'.endedBy id = d.endedBy id := by
  obtain ⟨u, c, hu, hc, hrun⟩ := hid
  cases h with
  | breakStarted v before s after link hv hcome hstate =>
    refine ⟨?_, endedBy_amend (by simp)⟩
    rcases find?_amend hu with ⟨hown, -⟩ | ⟨-, hother⟩
    · have hrun' := Shift.isRunning_iff.2 (.inl hstate)
      exact ⟨v, s, hown ▸ hv, hcome.currentShift?_eq, hrun'⟩
    · exact ⟨u, c, hother, hc, hrun⟩
  | breakEnded v before s after task had facilities hv hcome hstate =>
    refine ⟨?_, endedBy_amend (by simp)⟩
    rcases find?_amend hu with ⟨hown, -⟩ | ⟨-, hother⟩
    · have hrun' := Shift.isRunning_iff.2 (.inr hstate)
      exact ⟨v, s, hown ▸ hv, hcome.currentShift?_eq, hrun'⟩
    · exact ⟨u, c, hother, hc, hrun⟩
  | shiftEnded v before s after link facilities hv hcome hstate =>
    rcases find?_amend hu with ⟨-, rfl⟩ | ⟨hne, hother⟩
    · have hcome' := hcome.replace (t := s.over) (by simp [Shift.over])
      obtain rfl : s.over = c := Option.some.inj (hcome'.currentShift?_eq.symm.trans hc)
      exact absurd hrun (Shift.not_running_iff.2 (.inr rfl))
    · exact ⟨⟨u, c, hother, hc, hrun⟩, endedBy_amend fun he => absurd he hne⟩

/-- A vehicle that is at work after reports has ended no shift in them. -/
theorem Reports.endedBy_eq_of_driving (h : Reports now d d') (hid : d'.Driving id) :
    d'.endedBy id = d.endedBy id := by
  suffices hboth : d.Driving id ∧ d'.endedBy id = d.endedBy id from hboth.2
  induction h with
  | nil => exact ⟨hid, rfl⟩
  | cons hfirst _ ih =>
    obtain ⟨hdriving, hsame⟩ := ih hid
    exact (hfirst.driving hdriving).imp_right hsame.trans

/-- Where all tasks suit, a vehicle with a break to take is at work. -/
theorem OnDuty.driving {q : TaskQueue} {b : PlannedBreak} (h : d.OnDuty q) (hb : b ∈ q.breaks) :
    d.Driving b.vehicle := by
  obtain ⟨done, rest, hsplit⟩ := List.append_of_mem hb
  have hduty : d.OnDuty ⟨done ++ b :: rest, q.ends⟩ := hsplit ▸ h
  obtain ⟨v, before, s, after, hid, hv, hcome, hsuits, -⟩ := hduty.vehicle_of_break
  exact ⟨v, s, hid ▸ hv, hcome.currentShift?_eq, hsuits.running⟩

end Dispatcher

end DialARide
