import DialARide.Proofs.Shift.EndSlot
import DialARide.Proofs.Shift.History

/-!
# No slot is lost

A facility never admits more vehicles than it has slots for. A vehicle holds a slot because it was
parked there and has not started a shift, or because the slot is reserved for the break or the
end of the shift that it started last, provided that the end of a break is reported from where the
break was reserved. A slot that is not claimed is not held.
-/

namespace DialARide

/-- A slot of a facility is reserved for the break of a shift, which is still to be taken, or for
its end. -/
def Shift.Claims (s : Shift) (f : FacilityId) : Prop :=
  (s.breakFacility = some f ∧ s.breakTaken = false) ∨ s.endFacility = some f

/-- The last start of a shift that a log tells of a vehicle. -/
def lastStart? (log : List ShiftEvent) (id : VehicleId) : Option ShiftEvent :=
  (log.filter fun e => e.kind = .started ∧ e.vehicle = id).getLast?

/-- The last start is the one that is put down last. -/
theorem lastStart?_concat (log : List ShiftEvent) (e : ShiftEvent) (id : VehicleId) :
    lastStart? (log ++ [e]) id =
      if e.kind = .started ∧ e.vehicle = id then some e else lastStart? log id := by
  unfold lastStart?
  rw [List.filter_append]
  split
  · next he => simp [he]
  · next he => simp [he]

/-- The shift that a vehicle started last is the one of the given name, and claims every slot that
the vehicle holds. -/
structure Vehicle.Justified (v : Vehicle) (holds : FacilityId → Prop) (started : Option ShiftId) :
    Prop where
  latest : v.latestShift?.map (·.id) = started
  claims : ∀ s, v.latestShift? = some s → ∀ f, holds f → s.Claims f

/-- The shift that was started last is one of the vehicle. -/
theorem Vehicle.mem_of_latestShift? {v : Vehicle} {s : Shift} (h : v.latestShift? = some s) :
    s ∈ v.shifts := by
  rcases Option.or_eq_some_iff.1 h with hrun | ⟨-, hended⟩
  · exact List.mem_of_find?_eq_some hrun
  · exact (List.mem_filter.1 (List.mem_of_getLast? hended)).1

namespace Dispatcher

variable {d d' : Dispatcher} {now : Time} {os : List Operation} {o : Operation}

/-! ## Slots and shifts -/

/-- Every slot is held by a vehicle of the fleet, and the shift that a vehicle started last, which
is the one that the log tells of, claims the slots that the vehicle holds. -/
structure Justified (log : List ShiftEvent) (d : Dispatcher) : Prop where
  fleet : ∀ f id, d.facilities.holdsAt f id → d.vehicles.contains id
  vehicles : ∀ id v, d.vehicles.find? id = some v →
    v.Justified (d.facilities.holdsAt · id) ((lastStart? log id).map (·.shift))

variable {log taken : List ShiftEvent} {u v : Vehicle} {before after : List Shift} {s t : Shift}
  {facilities : Facilities} {e : ShiftEvent}

/-- What is done to one vehicle leaves the slots of all others alone. -/
theorem Justified.amend (h : Justified log d) (hv : d.vehicles.find? u.id = some v)
    (hvehicle : e.vehicle = u.id)
    (hothers : ∀ f i, i ≠ u.id → (facilities.holdsAt f i ↔ d.facilities.holdsAt f i))
    (hown : u.Justified (facilities.holdsAt · u.id)
      ((lastStart? (log ++ [e]) u.id).map (·.shift))) :
    Justified (log ++ [e]) (d.amend facilities u e) := by
  refine ⟨fun f i hheld => ?_, fun i w hw => ?_⟩
  · rw [amend_vehicles, Table.contains_insert_iff]
    by_cases hi : u.id = i
    · exact .inl hi
    · exact .inr (h.fleet f i ((hothers f i (Ne.symm hi)).1 hheld))
  · rcases find?_amend hw with ⟨rfl, rfl⟩ | ⟨hne, hold⟩
    · exact hown
    · obtain ⟨hlatest, hclaims⟩ := h.vehicles i w hold
      have hnot : ¬ (e.kind = .started ∧ e.vehicle = i) := fun he => hne (hvehicle ▸ he.2)
      refine ⟨by rw [lastStart?_concat, if_neg hnot, hlatest], fun s hs f hf => ?_⟩
      exact hclaims s hs f ((hothers f i (Ne.symm hne)).1 hf)

/-- A step of the shift that a queue has come to is justified if that claims the slots that the
vehicle holds afterwards. -/
theorem Justified.go (h : Justified log d) (hv : d.vehicles.find? v.id = some v)
    (hin : Vehicle.InOrder v.shifts) (hcome : Vehicle.ComesTo v.shifts before s after)
    (hu : u.shifts = before ++ t :: after) (hgoes : s.Goes t) (hsame : u.id = v.id)
    (hvehicle : e.vehicle = v.id) (hkind : e.kind ≠ .started)
    (hothers : ∀ f i, i ≠ v.id → (facilities.holdsAt f i ↔ d.facilities.holdsAt f i))
    (hclaims : (∀ f, d.facilities.holdsAt f v.id → s.Claims f) →
      ∀ f, facilities.holdsAt f v.id → t.Claims f) :
    Justified (log ++ [e]) (d.amend facilities u e) := by
  obtain ⟨hbefore, hafter⟩ := hcome.latestShift?_eq hin hu hgoes
  obtain ⟨hlatest, hold⟩ := h.vehicles v.id v hv
  have hid : t.id = s.id := congrArg ShiftPlan.id hgoes.plan
  rw [← hsame] at hv hvehicle hothers hclaims hlatest hold
  refine h.amend hv hvehicle hothers ⟨?_, fun x hx f hf => ?_⟩
  · rw [lastStart?_concat, if_neg fun he => hkind he.1, ← hlatest, hafter, hbefore]
    exact congrArg some hid
  · obtain rfl := Option.some.inj (hafter.symm.trans hx)
    exact hclaims (hold s hbefore) f hf

/-- After a decision each slot is still justified by the log. -/
theorem Decision.justified {i : Option Instruction} (h : d.Decision now d' i) (hd : d.Sound)
    (hin : d.InOrder) (hlog : Justified (taken ++ d.events) d) :
    Justified (taken ++ d'.events) d' := by
  cases h with
  | tick | expire => exact ⟨hlog.fleet, hlog.vehicles⟩
  | assign before s after horizon v hopen hlasts hhorizon hstart hv =>
    have hwait : s.state = .waiting := (hd.fresh s (by simp [hopen])).state_eq
    have hlog' : Justified (taken ++ d.events) { d with unassigned := before ++ after } :=
      ⟨hlog.fleet, hlog.vehicles⟩
    rw [amend_events, ← List.append_assoc]
    refine hlog'.amend (u := v.assign s) hv rfl (fun _ _ _ => Iff.rfl) ?_
    obtain ⟨hlatest, hclaims⟩ := hlog.vehicles v.id v hv
    have hsame := v.latestShift?_assign hwait
    refine ⟨?_, fun x hx => hclaims x (hsame ▸ hx)⟩
    rw [lastStart?_concat, if_neg (by simp), hsame]
    exact hlatest
  | start v before s after hv hrunning hsplit hbefore hwait hdue =>
    have hidle : ∀ t ∈ v.shifts, ¬ t.isRunning := List.find?_eq_none.1 hrunning
    have hfront : ∀ a ∈ before, ¬ a.isRunning := fun a ha => hidle a (by simp [hsplit, ha])
    have hlatest := Vehicle.latestShift?_of_running
      (v := { v with shifts := before ++ { s with state := .started } :: after }) rfl rfl hfront
    rw [amend_events, ← List.append_assoc]
    refine hlog.amend (u := { v with shifts := before ++ { s with state := .started } :: after }) hv
      rfl (fun f i hi => ?_) ⟨?_, fun x hx f hf => ?_⟩
    · rw [Facilities.holdsAt_deregisterEverywhere]
      exact and_iff_left hi
    · rw [lastStart?_concat, if_pos ⟨rfl, rfl⟩, hlatest]
      rfl
    · exact absurd rfl ((Facilities.holdsAt_deregisterEverywhere _ _ _ _).1 hf).2
  | planBreak v before s after w task facilities facility hv hcome hnow hdecide hw hregister =>
    obtain ⟨hstate, hplan, htaken, -⟩ := decideOnBreak_eq_ok_some hdecide
    have hrun := Shift.isRunning_iff.2 (.inl hstate)
    rw [amend_events, ← List.append_assoc]
    refine hlog.go hv (hin v.id v hv) hcome rfl ⟨rfl, hrun, .inl hrun⟩ rfl rfl (by simp)
      (fun f i hi => ?_) fun hclaims f hf => ?_
    · simp [Facilities.holdsAt_of_register hregister, hi]
    · rcases (Facilities.holdsAt_of_register hregister f v.id).1 hf with ⟨rfl, -⟩ | hold
      · exact .inl ⟨rfl, htaken⟩
      · exact .inr ((hclaims f hold).resolve_left fun hb => by simp [hplan] at hb)
  | planEnd v before s after horizon facility facilities hv hcome hstate hend hpending hhorizon
      hsoon hfacility hregister =>
    have hrun := Shift.isRunning_iff.2 (.inl hstate)
    rw [amend_events, ← List.append_assoc]
    refine hlog.go hv (hin v.id v hv) hcome rfl ⟨rfl, hrun, .inl hrun⟩ rfl rfl (by simp)
      (fun f i hi => ?_) fun hclaims f hf => ?_
    · simp [Facilities.holdsAt_of_register hregister, hi]
    · rcases (Facilities.holdsAt_of_register hregister f v.id).1 hf with ⟨rfl, -⟩ | hold
      · exact .inr rfl
      · exact .inl ((hclaims f hold).resolve_right fun he => by simp [hend] at he)

/-- If a vehicle stands still for a break that was reserved, it was reserved at the facility. -/
def TakesBreakAt (d : Dispatcher) (id : VehicleId) (facility : FacilityId) : Prop :=
  ∀ v ∈ d.vehicles.find? id, ∀ s ∈ v.currentShift?, s.state = .onBreak →
    ∀ f ∈ s.breakFacility, f = facility

instance (d : Dispatcher) (id : VehicleId) (facility : FacilityId) :
    Decidable (d.TakesBreakAt id facility) :=
  inferInstanceAs (Decidable (∀ v ∈ d.vehicles.find? id, ∀ s ∈ v.currentShift?,
    s.state = .onBreak → ∀ f ∈ s.breakFacility, f = facility))

/-- After a report each slot is still justified by the log. The slot that is given up at the end of
a break is the one that was reserved for it. -/
theorem Report.justified (h : d.Report now d') (hin : d.InOrder)
    (hevents : d'.events = d.events ++ [e])
    (hnames : ∀ f, e.kind = .breakEnded → e.facility = some f → d.TakesBreakAt e.vehicle f)
    (hlog : Justified (taken ++ d.events) d) :
    Justified (taken ++ d'.events) d' := by
  cases h with
  | breakStarted v before s after link hv hcome hstate =>
    have hrun := Shift.isRunning_iff.2 (.inl hstate)
    rw [amend_events, ← List.append_assoc]
    exact hlog.go hv (hin v.id v hv) hcome rfl ⟨rfl, hrun, .inl rfl⟩ rfl rfl (by simp)
      (fun _ _ _ => Iff.rfl) fun hclaims => hclaims
  | breakEnded v before s after task had facilities hv hcome hstate hslot =>
    have hrun := Shift.isRunning_iff.2 (.inr hstate)
    obtain rfl := List.singleton_inj.1 (List.append_cancel_left hevents)
    rw [amend_events, ← List.append_assoc]
    refine hlog.go hv (hin v.id v hv) hcome rfl ⟨rfl, hrun, .inl rfl⟩ rfl rfl (by simp)
      (fun f i hi => ?_) fun hclaims f hf => ?_
    · simp [Facilities.holdsAt_of_deregister hslot, hi]
    · obtain ⟨hold, hother⟩ := (Facilities.holdsAt_of_deregister hslot f v.id).1 hf
      refine .inr ((hclaims f hold).resolve_left fun hb => hother ⟨?_, rfl⟩)
      exact hnames task.facility rfl rfl v hv s hcome.currentShift?_eq hstate f hb.1
  | shiftEnded v before s after link facilities hv hcome hstate hslot =>
    have hrun := Shift.isRunning_iff.2 (.inl hstate)
    rw [amend_events, ← List.append_assoc]
    refine hlog.go hv (hin v.id v hv) hcome rfl ⟨rfl, hrun, .inr rfl⟩ rfl rfl (by simp)
      (fun f i hi => ?_) fun hclaims f hf => ?_
    · simp [hslot.holdsAt_iff, hi]
    · obtain ⟨hold, hkept⟩ := hslot.holdsAt_iff.1 hf
      exact .inr ((hclaims f hold).resolve_left fun hb => hkept ⟨hb, rfl⟩)

/-! ## Runs -/

/-- The end of a break is reported from the facility at which the break was reserved. -/
def Step.NamesBreak (s : Step) : Prop :=
  match s.operation with
  | .endBreak id task _ => s.before.TakesBreakAt id task.facility
  | _ => True

instance : (s : Step) → Decidable s.NamesBreak
  | ⟨d, .endBreak id task _, _⟩ => inferInstanceAs (Decidable (d.TakesBreakAt id task.facility))
  | ⟨_, .addVehicle _, _⟩ | ⟨_, .addShift _, _⟩ | ⟨_, .updateVehicle .., _⟩ | ⟨_, .dispatch _, _⟩
  | ⟨_, .startBreak .., _⟩ | ⟨_, .endShift .., _⟩ | ⟨_, .drain, _⟩ => .isTrue trivial

/-- A vehicle that is new has started no shift, and nobody else is given a slot when it joins. -/
theorem Justified.join {entry : VehicleEntry} (h : Justified log d)
    (hnew : d.vehicles.find? entry.id = none) (htold : Attributed log d)
    (hgiven : ∀ f i, facilities.holdsAt f i → i = entry.id ∨ d.facilities.holdsAt f i) :
    Justified log { d with
      facilities, vehicles := d.vehicles.insert entry.id { toVehicleEntry := entry } } := by
  refine ⟨fun f i hheld => ?_, fun i w hw => ?_⟩
  · rw [Table.contains_insert_iff]
    exact (hgiven f i hheld).imp Eq.symm (h.fleet f i)
  · rcases Table.find?_insert_eq_some_iff.1 hw with ⟨rfl, rfl⟩ | ⟨hi, hold⟩
    · have hnone : lastStart? log entry.id = none := by
        refine List.getLast?_eq_none_iff.2 (List.filter_eq_nil_iff.2 fun e he hstart => ?_)
        obtain ⟨v, hv, -⟩ := htold e he
        simp [(of_decide_eq_true hstart).2, hnew] at hv
      refine ⟨by rw [hnone]; rfl, fun s hs => ?_⟩
      simp [Vehicle.latestShift?, Vehicle.runningShift?] at hs
    · obtain ⟨hlatest, hclaims⟩ := h.vehicles i w hold
      exact ⟨hlatest, fun s hs f hf =>
        hclaims s hs f ((hgiven f i hf).resolve_left (Ne.symm hi))⟩

/-- After an operation each slot is still justified by the log. -/
theorem Performed.justified (h : d.Performed o d') (hd : d.Sound) (hin : d.InOrder)
    (hnew : ∀ id, o.vehicle? = some id → d.vehicles.find? id = none)
    (hnames : Step.NamesBreak ⟨d, o, d'⟩) (ho : o ≠ .drain)
    (htold : Attributed (taken ++ d.events) d) (hlog : Justified (taken ++ d.events) d) :
    Justified (taken ++ d'.events) d' := by
  cases h with
  | refused | offered => exact ⟨hlog.fleet, hlog.vehicles⟩
  | joined entry facilities hpark =>
    refine hlog.join (hnew entry.id rfl) htold fun f i hheld => ?_
    rcases hpark with rfl | ⟨hub, had, -, hregister⟩
    · exact .inr hheld
    · exact Facilities.holdsAt_register_imp hregister hheld
  | moved v link available hv =>
    refine ⟨fun f i hheld => Table.contains_insert_iff.2 (.inr (hlog.fleet f i hheld)),
      fun i w hw => ?_⟩
    rcases Table.find?_insert_eq_some_iff.1 hw with ⟨rfl, rfl⟩ | ⟨-, hold⟩
    · obtain ⟨hlatest, hclaims⟩ := hlog.vehicles v.id v hv
      exact ⟨hlatest, hclaims⟩
    · exact hlog.vehicles i w hold
  | dispatched now _ out hboundary hdecisions =>
    have hkept := hdecisions.keeps (P := fun d => d.Sound ∧ d.InOrder ∧
      Justified (taken ++ d.events) d) ?_ ⟨hd, hin, hlog⟩
    · exact hkept.2.2
    · rintro d d' i hdecision ⟨hd, hin, hlog⟩
      have hact : d.Act d' := .decided hdecision
      exact ⟨hact.sound hd, hact.inOrder hd hin, hdecision.justified hd hin hlog⟩
  | reported _ now _ e hreport hevents hreports =>
    refine hreport.justified hin hevents (fun f hkind hfacility => ?_) hlog
    cases o with
    | endBreak id task now =>
      obtain ⟨-, hvehicle, hf⟩ := hreports
      obtain rfl := Option.some.inj (hf.symm.trans hfacility)
      exact hvehicle ▸ hnames
    | startBreak | endShift => simp [hreports.1] at hkind
    | _ => exact hreports.elim
  | drained => exact absurd rfl ho

section Runs

variable {policy : ShiftPolicy} {network : Network} {sites : List FacilitySite}

/-- In every run each slot is justified by the log, if breaks end where they were reserved. -/
theorem justified_history (h : (opened policy network sites).run os = .ok d)
    (hfleet : (enlisted os).Nodup)
    (hnames : ∀ step ∈ (opened policy network sites).steps os, step.NamesBreak) :
    Justified ((opened policy network sites).history os d) d := by
  refine (history_induction (P := fun os d log => (enlisted os).Nodup →
      (∀ step ∈ (opened policy network sites).steps os, step.NamesBreak) →
      Attributed log d ∧ Justified log d)
    (sound_opened policy network sites) (fun _ _ => ⟨fun _ he => absurd he List.not_mem_nil, ?_⟩)
    ?_ ?_ h hfleet hnames).2
  · exact ⟨fun f i hheld => absurd hheld (Facilities.not_holdsAt_ofSites sites f i),
      fun _ _ hv => absurd hv (by simp [opened])⟩
  · intro os o d d' taken hrun hperform hd hperformed ho hP hfleet hnames
    rw [steps_concat hrun hperform] at hnames
    obtain ⟨htold, hlog⟩ := hP (nodup_enlisted_of_concat hfleet) fun step hstep =>
      hnames step (by simp [hstep])
    have hnew := find?_eq_none_of_joins hrun hfleet
    exact ⟨hperformed.attributed hnew ho htold,
      hperformed.justified hd (inOrder_run hrun) hnew (hnames _ (by simp)) ho htold hlog⟩
  · intro os d log hrun hP hfleet hnames
    rw [steps_concat hrun rfl] at hnames
    obtain ⟨htold, hlog⟩ := hP (nodup_enlisted_of_concat hfleet) fun step hstep =>
      hnames step (by simp [hstep])
    exact ⟨htold, hlog.fleet, hlog.vehicles⟩

/-- Whatever is asked of a dispatcher, no more slots of a facility are held than there are. A
vehicle holds a slot because it was parked there and never started a shift, or because the shift
that it started last has its break reserved there and not taken, or is to end there. -/
theorem every_slot_claimed (h : (opened policy network sites).run os = .ok d)
    (hfleet : (enlisted os).Nodup)
    (hnames : ∀ step ∈ (opened policy network sites).steps os, step.NamesBreak) :
    (∀ f ∈ d.facilities.all, f.occupancy ≤ f.capacity) ∧
      ∀ f id, d.facilities.holdsAt f id → ∃ v, d.vehicles.find? id = some v ∧
        (lastStart? ((opened policy network sites).history os d) id = none ∨
          ∃ start s, lastStart? ((opened policy network sites).history os d) id = some start ∧
            v.latestShift? = some s ∧ s ∈ v.shifts ∧ s.id = start.shift ∧
            ((s.breakFacility = some f ∧ s.breakTaken = false) ∨ s.endFacility = some f)) := by
  obtain ⟨-, hfit⟩ := keeps_run (P := fun d => d.facilities.Fit)
    (fun _ _ _ hact hd => hact.every_facility Facilities.lasting_fits hd)
    (sound_opened policy network sites) (Facilities.fit_ofSites sites) h
  have hlog := justified_history h hfleet hnames
  refine ⟨fun f hf => ?_, fun f id hheld => ?_⟩
  · obtain ⟨id, hid⟩ := Table.mem_values_iff.1 hf
    exact hfit id f hid
  · obtain ⟨v, hv⟩ := Option.isSome_iff_exists.1 (hlog.fleet f id hheld)
    obtain ⟨hlatest, hclaims⟩ := hlog.vehicles id v hv
    refine ⟨v, hv, ?_⟩
    cases hs : v.latestShift? with
    | none =>
      refine .inl (Option.map_eq_none_iff.1 (hlatest.symm.trans ?_))
      rw [hs, Option.map_none]
    | some s =>
      rw [hs, Option.map_some] at hlatest
      obtain ⟨start, hstart, hshift⟩ := Option.map_eq_some_iff.1 hlatest.symm
      exact .inr ⟨start, s, hstart, rfl, Vehicle.mem_of_latestShift? hs, hshift.symm,
        hclaims s hs f hheld⟩

/-- After the break the slot for the end of the shift is held, and the one for the break is not. -/
theorem end_slot_claimed_after_break :
    let sites : List FacilitySite := [⟨⟨"hub"⟩, .hub, ⟨"yard"⟩, ⟨0, 5⟩, 1⟩,
      ⟨⟨"rest"⟩, .inField, ⟨"yard"⟩, ⟨0, 9⟩, 1⟩]
    let plan : ShiftPlan :=
      { id := ⟨"day"⟩, start := 0, finish := 3600, breakWindow := some ⟨1800, 3600, 600⟩,
        home := some ⟨"hub"⟩ }
    let os : List Operation := [.addVehicle { id := ⟨"bus"⟩, link := ⟨"yard"⟩ }, .addShift plan,
      .dispatch 0, .dispatch 1200, .startBreak ⟨"bus"⟩ ⟨"yard"⟩ 1800,
      .endBreak ⟨"bus"⟩ ⟨⟨"rest"⟩, 1800, 2400⟩ 2400]
    let office := opened {} depot.network sites
    ∃ d v start s, office.run os = .ok d ∧ (enlisted os).Nodup ∧
      (∀ step ∈ office.steps os, step.NamesBreak) ∧ d.facilities.holdsAt ⟨"hub"⟩ ⟨"bus"⟩ ∧
      d.facilities.holdsAt ⟨"rest"⟩ ⟨"bus"⟩ = false ∧ d.vehicles.find? ⟨"bus"⟩ = some v ∧
      lastStart? (office.history os d) ⟨"bus"⟩ = some start ∧ v.latestShift? = some s ∧
      s.id = start.shift ∧
      ((s.breakFacility = some ⟨"hub"⟩ ∧ s.breakTaken = false) ∨ s.endFacility = some ⟨"hub"⟩) := by
  intro sites plan os office
  have hslots : (office.run os).toOption.map (fun d => (d.facilities.holdsAt ⟨"hub"⟩ ⟨"bus"⟩,
      d.facilities.holdsAt ⟨"rest"⟩ ⟨"bus"⟩,
      (lastStart? (office.history os d) ⟨"bus"⟩).isSome)) = some (true, false, true) := by
    decide +kernel
  have hfleet : (enlisted os).Nodup := by decide
  have hnames : ∀ step ∈ office.steps os, step.NamesBreak := by decide +kernel
  cases hrun : office.run os with
  | error halt => simp [hrun, Except.toOption] at hslots
  | ok d =>
    simp only [hrun, Except.toOption, Option.map_some, Option.some.injEq, Prod.mk.injEq] at hslots
    obtain ⟨hhub, hrest, hbegun⟩ := hslots
    obtain ⟨v, hv, hnone | ⟨start, s, hstart, hs, -, hid, hclaims⟩⟩ :=
      (every_slot_claimed hrun hfleet hnames).2 ⟨"hub"⟩ ⟨"bus"⟩ hhub
    · simp [office, hnone] at hbegun
    · exact ⟨d, v, start, s, rfl, hfleet, hnames, hhub, hrest, hv, hstart, hs, hid, hclaims⟩

end Runs

end Dispatcher

end DialARide
