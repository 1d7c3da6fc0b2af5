import DialARide.Proofs.Shift.Current

/-!
# What a dispatch leaves undone

Where a phase of a dispatch does nothing for a vehicle, there is nothing to be done for it: no
waiting shift is due, no break is decided on, or there is no facility for an end that is due. A
facility that was chosen always admits the vehicle, so no decision is dropped. Each phase takes
every vehicle once, and what it has attended to for one vehicle stays so while the others follow.
-/

namespace DialARide

/-- Unless a shift of the vehicle is running, all those that wait start later. -/
def Vehicle.Prompt (now : Time) (v : Vehicle) : Prop :=
  v.runningShift? = none → ∀ s ∈ v.shifts, s.state = .waiting → now < s.start

/-- A shift is to end within the horizon, and nothing keeps its end from being reserved. -/
structure Shift.EndDue (horizon : Time) (s : Shift) : Prop where
  started : s.state = .started
  unplanned : s.endFacility = none
  settled : s.breakPending = false
  soon : s.finish ≤ horizon

namespace Dispatcher

variable {d d' : Dispatcher} {now horizon : Time} {id : VehicleId} {v : Vehicle} {s : Shift}
  {out : List Instruction}

/-! ## Facilities that are chosen -/

/-- A facility that is chosen for the end of a shift admits the vehicle. -/
theorem admits_of_endFacility? {f : Facility} (h : d.endFacility? v s = some f) :
    (∃ i, d.facilities.find? i = some f) ∧ f.admits v.id := by
  unfold endFacility? at h
  split at h
  · next home hhome =>
    obtain rfl := Option.some.inj h
    obtain ⟨hhome, hadmits⟩ := Option.filter_eq_some_iff.1 hhome
    obtain ⟨i, -, hi⟩ := Option.bind_eq_some_iff.1 hhome
    exact ⟨⟨i, hi⟩, hadmits⟩
  · obtain ⟨place, -, hnearest⟩ := Option.bind_eq_some_iff.1 h
    obtain ⟨hknown, hfree, -⟩ := Facilities.mem_of_nearest? hnearest
    exact ⟨hknown, by simp [Facility.admits, hfree]⟩

/-- There is a facility for the end of a shift if the one that the shift belongs to admits the
vehicle, or the vehicle is on a known link and some hub has a slot free. -/
theorem exists_endFacility?_iff : (∃ f, d.endFacility? v s = some f) ↔
    (∃ i f, s.home = some i ∧ d.facilities.find? i = some f ∧ f.admits v.id) ∨
      ∃ place i f, d.network.coord? v.link = some place ∧ d.facilities.find? i = some f ∧
        f.hasCapacity ∧ f.kind = .hub := by
  unfold endFacility?
  constructor
  · rintro ⟨f, h⟩
    split at h
    · next home hhome =>
      obtain ⟨hhome, hadmits⟩ := Option.filter_eq_some_iff.1 hhome
      obtain ⟨i, hi, hknown⟩ := Option.bind_eq_some_iff.1 hhome
      exact .inl ⟨i, home, hi, hknown, hadmits⟩
    · obtain ⟨place, hplace, hnearest⟩ := Option.bind_eq_some_iff.1 h
      obtain ⟨⟨i, hi⟩, hfree, hhub⟩ := Facilities.mem_of_nearest? hnearest
      exact .inr ⟨place, i, f, hplace, hi, hfree, of_decide_eq_true hhub⟩
  · intro h
    split
    · next home hhome => exact ⟨home, rfl⟩
    · next hnone =>
      rcases h with ⟨i, f, hi, hf, hadmits⟩ | ⟨place, i, f, hplace, hf, hfree, hhub⟩
      · simp [hi, hf, hadmits] at hnone
      · obtain ⟨g, hg⟩ : ∃ g, d.facilities.nearest? place (fun f => f.kind = .hub) = some g :=
          Facilities.exists_nearest? hf hfree (decide_eq_true hhub)
        exact ⟨g, by simp [hplace, hg]⟩

/-! ## Nothing is dropped -/

/-- If no shift of a vehicle is started, then none is due. The queue stands in order, so the first
waiting shift is the first to start. -/
theorem prompt_of_startShift (hin : d.InOrder) (hv : d.vehicles.find? id = some v)
    (h : d.startShift now id = none) : v.Prompt now := by
  intro hidle s hs hwait
  cases hi : v.waitingIndex? with
  | none => simpa [hwait] using List.findIdx?_eq_none_iff.1 hi s hs
  | some i =>
    obtain ⟨before, first, after, hsplit, rfl, hfirst, hbefore⟩ :=
      Vehicle.exists_split_of_waitingIndex? hi
    have hlater : now < first.start := by
      by_contra hdue
      have hbegin : first.begin = .ok { first with state := .started } :=
        Shift.transition_eq_ok_iff.2 ⟨hfirst, rfl, rfl⟩
      simp [startShift, hv, hidle, hi, hsplit, hdue, hbegin, Except.toOption] at h
    rw [hsplit, List.mem_append, List.mem_cons] at hs
    rcases hs with hfront | rfl | hback
    · exact absurd hwait (hbefore s hfront)
    · exact hlater
    · have hprecedes := (Vehicle.inOrder_append_cons.1 (hsplit ▸ hin id v hv)).2.2 s hback
      exact UInt64.lt_of_lt_of_le hlater hprecedes.start_le

/-- A break that is decided on is reserved. -/
theorem scheduleBreak_ne_none {f : FacilityId} (hfs : d.facilities.Named)
    (hv : d.vehicles.find? id = some v) (hs : v.currentShift? = some s)
    (hdecide : d.decideOnBreak v s = .ok (some f)) : d.scheduleBreak now id ≠ .ok none := by
  obtain ⟨-, w, horizon, place, facility, hw, -, -, -, -, hnearest, rfl⟩ :=
    decideOnBreak_eq_ok_some_iff.1 hdecide
  obtain ⟨⟨i, hi⟩, hfree, -⟩ := Facilities.mem_of_nearest? hnearest
  have hadmits : facility.admits id := by simp [Facility.admits, hfree]
  obtain ⟨facilities, hregister⟩ := hfs.exists_register hi hadmits
  obtain ⟨g, hg⟩ : ∃ g, facilities.find? facility.id = some g := by
    refine Option.isSome_iff_exists.1 ?_
    have hknows := Facilities.knows_of_register hregister facility.id
    rw [Facilities.knows_of_register_self hregister] at hknows
    exact hknows
  cases hfinish : Time.plus (max w.earliestStart now) w.duration <;>
    simp [scheduleBreak, hv, hs, hdecide, hw, hregister, hg, hfinish, Bind.bind, Except.bind,
      Pure.pure, Except.pure]

/-- An end that is due is reserved if there is a facility for it. -/
theorem scheduleEnd_ne_none {f : Facility} (hd : d.Named) (hfs : d.facilities.Named)
    (hv : d.vehicles.find? id = some v) (hs : v.currentShift? = some s) (hdue : s.EndDue horizon)
    (hf : d.endFacility? v s = some f) : d.scheduleEnd now horizon id ≠ none := by
  obtain rfl := hd id v hv
  obtain ⟨⟨i, hi⟩, hadmits⟩ := admits_of_endFacility? hf
  obtain ⟨facilities, hregister⟩ := hfs.exists_register hi hadmits
  simp [scheduleEnd, hv, hs, hdue.started, hdue.unplanned, hdue.settled,
    UInt64.not_lt.2 hdue.soon, hf, hregister, Except.toOption]

/-! ## One phase -/

section Sweep

variable {P : Dispatcher → Prop} {Q : VehicleId → Dispatcher → Prop} {ids : List VehicleId}
  {step : Dispatcher → VehicleId → Except Halt (Option (Dispatcher × Instruction))}

/-- Every vehicle is attended to when its turn comes, and what is done for another one leaves it
so. -/
theorem Sweeps.attends (hnone : ∀ d id, P d → step d id = .ok none → Q id d)
    (hsome : ∀ d id d' i, P d → step d id = .ok (some (d', i)) →
      P d' ∧ Q id d' ∧ ∀ j, j ≠ id → Q j d → Q j d')
    (hd : P d) (h : Sweeps step d ids d' out) : P d' ∧ ∀ j, j ∈ ids ∨ Q j d → Q j d' := by
  induction h with
  | nil d => exact ⟨hd, fun j hj => hj.resolve_left (by simp)⟩
  | pass hone _ ih =>
    obtain ⟨hd', hattended⟩ := ih hd
    refine ⟨hd', fun j hj => hattended j ?_⟩
    rw [List.mem_cons] at hj
    rcases hj with (rfl | hj) | hj
    · exact .inr (hnone _ _ hd hone)
    · exact .inl hj
    · exact .inr hj
  | @act d d₁ d' id i rest out hone _ ih =>
    obtain ⟨hd₁, hid, hothers⟩ := hsome _ _ _ _ hd hone
    obtain ⟨hd', hattended⟩ := ih hd₁
    refine ⟨hd', fun j hj => hattended j ?_⟩
    by_cases hj' : j = id
    · exact .inr (hj' ▸ hid)
    · exact hj.imp (fun hj => (List.mem_cons.1 hj).resolve_left hj') (hothers j hj')

/-- A phase takes every vehicle of the fleet, so all are attended to at its end. -/
theorem Sweeps.attends_fleet (hnone : ∀ d id, P d → step d id = .ok none → Q id d)
    (hsome : ∀ d id d' i, P d → step d id = .ok (some (d', i)) →
      P d' ∧ Q id d' ∧ ∀ j, j ≠ id → Q j d → Q j d')
    (hunknown : ∀ id, d.vehicles.find? id = none → Q id d) (hd : P d)
    (h : Sweeps step d d.vehicles.keys d' out) : P d' ∧ ∀ id, Q id d' := by
  obtain ⟨hd', hattended⟩ := h.attends hnone hsome hd
  refine ⟨hd', fun id => hattended id ?_⟩
  cases hv : d.vehicles.find? id with
  | none => exact .inr (hunknown id hv)
  | some v => exact .inl ((Table.mem_keys_iff _ _).2 (by simp [hv]))

/-- A phase in which there is nothing to do changes nothing. -/
theorem Sweeps.idle (h : Sweeps step d ids d' out)
    (hidle : ∀ id d' i, step d id ≠ .ok (some (d', i))) : d' = d ∧ out = [] := by
  induction h with
  | nil d => exact ⟨rfl, rfl⟩
  | pass _ _ ih => exact ih hidle
  | act hone => exact absurd hone (hidle _ _ _)

/-- What each step keeps is kept by a whole phase, and every instruction is of the kind that the
steps give. -/
theorem Sweeps.keeps {R : Instruction → Prop} (h : Sweeps step d ids d' out)
    (hstep : ∀ d id d' i, P d → step d id = .ok (some (d', i)) → P d' ∧ R i) (hd : P d) :
    P d' ∧ ∀ i ∈ out, R i := by
  induction h with
  | nil d => exact ⟨hd, by simp⟩
  | pass _ _ ih => exact ih hd
  | act hone _ ih =>
    obtain ⟨hd₁, hi⟩ := hstep _ _ _ _ hd hone
    obtain ⟨hd', hout⟩ := ih hd₁
    exact ⟨hd', List.forall_mem_cons.2 ⟨hi, hout⟩⟩

end Sweep

end Dispatcher

end DialARide
