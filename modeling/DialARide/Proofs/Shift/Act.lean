import DialARide.Proofs.Shift.Decision

/-!
# What a dispatcher can do

A report of a vehicle is one change of its current shift. Reports are written out here in full,
and together with the decisions of dispatch, the additions to the fleet and to the open shifts,
and the removal of the log they are all that ever changes a dispatcher. Of the queues an act
changes one at most, by one step.
-/

namespace DialARide

/-- The shift when it has ended. A break that was not taken is no longer planned. -/
def Shift.over (s : Shift) : Shift :=
  { s with state := .ended, breakFacility := if s.breakTaken then s.breakFacility else none }

namespace Dispatcher

variable {d d' : Dispatcher} {now : Time}

/-! ## Reports -/

/-- The facilities after a shift has ended: the slot for a break that was not taken is given
up. -/
def Released (d : Dispatcher) (id : VehicleId) (s : Shift) (facilities : Facilities) : Prop :=
  if s.breakPending then
    ∃ f had, s.breakFacility = some f ∧ d.facilities.deregister f id = .ok (had, facilities)
  else facilities = d.facilities

/-- With the end of a shift its vehicle gives up the slot for a break that was not taken, and no
other slot changes hands. -/
theorem Released.holdsAt_iff {id u : VehicleId} {s : Shift} {facilities : Facilities}
    {f : FacilityId} (h : d.Released id s facilities) : facilities.holdsAt f u ↔
      d.facilities.holdsAt f u ∧
        ¬ ((s.breakFacility = some f ∧ s.breakTaken = false) ∧ u = id) := by
  unfold Released at h
  split at h
  · next hpending =>
    simp only [Shift.breakPending, Bool.and_eq_true, Bool.not_eq_eq_eq_not,
      Bool.not_true] at hpending
    obtain ⟨g, had, hg, hslot⟩ := h
    have hsame : f = g ↔ s.breakFacility = some f := by rw [hg, Option.some.injEq, eq_comm]
    rw [Facilities.holdsAt_of_deregister hslot, hsame, and_iff_left hpending.2]
  · next hsettled =>
    have hnone : ¬ (s.breakFacility = some f ∧ s.breakTaken = false) := fun hb => by
      simp [Shift.breakPending, hb.1, hb.2] at hsettled
    rw [h]
    simp [hnone]

/-- A shift can leave its slot if the facility reserved for a pending break is known. -/
theorem exists_released {s : Shift}
    (h : s.breakTaken = false → ∀ f ∈ s.breakFacility, d.facilities.knows f) (id : VehicleId) :
    ∃ facilities, d.Released id s facilities := by
  unfold Released
  split
  · next hpending =>
    simp only [Shift.breakPending, Bool.and_eq_true, Bool.not_eq_eq_eq_not,
      Bool.not_true] at hpending
    obtain ⟨f, hf⟩ := Option.isSome_iff_exists.1 hpending.1
    obtain ⟨had, facilities, hslot⟩ := Facilities.exists_deregister (h hpending.2 f hf) id
    exact ⟨facilities, f, had, hf, hslot⟩
  · exact ⟨_, rfl⟩

/-- The same facilities are known when a slot was given up. -/
theorem Released.knows_eq {id : VehicleId} {s : Shift} {facilities : Facilities}
    (h : d.Released id s facilities) (f : FacilityId) :
    facilities.knows f = d.facilities.knows f := by
  unfold Released at h
  split at h
  · obtain ⟨g, had, -, hslot⟩ := h
    exact Facilities.knows_of_deregister hslot f
  · rw [h]

/-- One report of a vehicle. -/
inductive Report (now : Time) (d : Dispatcher) : Dispatcher → Prop
  /-- The break starts on a link. -/
  | breakStarted (v : Vehicle) (before : List Shift) (s : Shift) (after : List Shift)
      (link : LinkId) : d.vehicles.find? v.id = some v → Vehicle.ComesTo v.shifts before s after →
      s.state = .started →
      Report now d
        (d.amend d.facilities
          { v with link, shifts := before ++ { s with state := .onBreak } :: after }
          { time := now, kind := .breakStarted, vehicle := v.id, shift := s.id,
            facility := s.breakFacility })
  /-- The break is over, and its slot is given up. -/
  | breakEnded (v : Vehicle) (before : List Shift) (s : Shift) (after : List Shift)
      (task : BreakTask) (had : Bool) (facilities : Facilities) :
      d.vehicles.find? v.id = some v → Vehicle.ComesTo v.shifts before s after →
      s.state = .onBreak → d.facilities.deregister task.facility v.id = .ok (had, facilities) →
      Report now d
        (d.amend facilities
          { v with shifts := before ++ { s with state := .started, breakTaken := true } :: after }
          { time := now, kind := .breakEnded, vehicle := v.id, shift := s.id,
            facility := some task.facility })
  /-- The shift ends on a link. -/
  | shiftEnded (v : Vehicle) (before : List Shift) (s : Shift) (after : List Shift)
      (link : LinkId) (facilities : Facilities) : d.vehicles.find? v.id = some v →
      Vehicle.ComesTo v.shifts before s after → s.state = .started →
      d.Released v.id s facilities →
      Report now d
        (d.amend facilities { v with link, shifts := before ++ s.over :: after }
          { time := now, kind := .ended, vehicle := v.id, shift := s.id,
            facility := s.endFacility })

variable {id : VehicleId} {link : LinkId} {task : BreakTask}

/-- A report needs a vehicle with a current shift. -/
theorem requireShift_eq_ok_iff {v : Vehicle} {s : Shift} : d.requireShift id = .ok (v, s) ↔
    d.vehicles.find? id = some v ∧ v.currentShift? = some s := by
  unfold requireShift requireVehicle
  cases hv : d.vehicles.find? id with
  | none => simp [Bind.bind, Except.bind]
  | some u =>
    cases hs : u.currentShift? with
    | none =>
      simp only [hs, Bind.bind, Except.bind, throw, throwThe, MonadExceptOf.throw, reduceCtorEq,
        Option.some.injEq, false_iff, not_and]
      rintro rfl
      simp [hs]
    | some t =>
      simp only [hs, Bind.bind, Except.bind, Pure.pure, Except.pure, Except.ok.injEq,
        Prod.mk.injEq, Option.some.injEq]
      exact and_congr_right fun h => by rw [← h, hs, Option.some.injEq]

/-- A started shift can always stand still for its break. -/
theorem startBreak_eq {v : Vehicle} {before after : List Shift} {s : Shift}
    (hv : d.vehicles.find? v.id = some v) (hcome : Vehicle.ComesTo v.shifts before s after)
    (hstate : s.state = .started) (link : LinkId) (now : Time) :
    d.startBreak v.id link now = .ok (d.amend d.facilities
      { v with link, shifts := before ++ { s with state := .onBreak } :: after }
      { time := now, kind := .breakStarted, vehicle := v.id, shift := s.id,
        facility := s.breakFacility }) := by
  have hrequire := requireShift_eq_ok_iff.2 ⟨hv, hcome.currentShift?_eq⟩
  have hbreak : s.startBreak = .ok { s with state := .onBreak } :=
    Shift.transition_eq_ok_iff.2 ⟨hstate, rfl, rfl⟩
  simp only [startBreak, hrequire, hbreak, hcome.setCurrentShift_eq, Bind.bind, Except.bind,
    Pure.pure, Except.pure]
  rfl

/-- A shift that stands still goes on, if the facility of its break is known. -/
theorem endBreak_eq {v : Vehicle} {before after : List Shift} {s : Shift} {had : Bool}
    {facilities : Facilities} (hv : d.vehicles.find? v.id = some v)
    (hcome : Vehicle.ComesTo v.shifts before s after) (hstate : s.state = .onBreak)
    (hslot : d.facilities.deregister task.facility v.id = .ok (had, facilities)) (now : Time) :
    d.endBreak v.id task now = .ok (d.amend facilities
      { v with shifts := before ++ { s with state := .started, breakTaken := true } :: after }
      { time := now, kind := .breakEnded, vehicle := v.id, shift := s.id,
        facility := some task.facility }) := by
  have hrequire := requireShift_eq_ok_iff.2 ⟨hv, hcome.currentShift?_eq⟩
  obtain ⟨f, hf, -, -⟩ := Facilities.deregister_eq_ok_iff.1 hslot
  have hknown := Facilities.require_eq_ok_iff.2 hf
  have hbreak : s.endBreak = .ok { s with state := .started, breakTaken := true } := by
    have hback : s.transition .onBreak .started = .ok { s with state := .started } :=
      Shift.transition_eq_ok_iff.2 ⟨hstate, rfl, rfl⟩
    simp only [Shift.endBreak, hback, Bind.bind, Except.bind, Pure.pure, Except.pure]
  simp only [endBreak, hrequire, hknown, hbreak, hslot, hcome.setCurrentShift_eq, Bind.bind,
    Except.bind, Pure.pure, Except.pure]
  rfl

/-- A started shift can end, if a slot that it leaves is given up at a known facility. -/
theorem endShift_eq {v : Vehicle} {before after : List Shift} {s : Shift}
    {facilities : Facilities} (hv : d.vehicles.find? v.id = some v)
    (hcome : Vehicle.ComesTo v.shifts before s after) (hstate : s.state = .started)
    (hslot : d.Released v.id s facilities) (link : LinkId) (now : Time) :
    d.endShift v.id link now = .ok (d.amend facilities
      { v with link, shifts := before ++ s.over :: after }
      { time := now, kind := .ended, vehicle := v.id, shift := s.id,
        facility := s.endFacility }) := by
  have hrequire := requireShift_eq_ok_iff.2 ⟨hv, hcome.currentShift?_eq⟩
  have hfinish : s.finishWork = .ok { s with state := .ended } :=
    Shift.transition_eq_ok_iff.2 ⟨hstate, rfl, rfl⟩
  simp only [endShift, hrequire, hfinish, hcome.setCurrentShift_eq, Shift.cancelBreak, Shift.over,
    Bind.bind, Except.bind, Pure.pure, Except.pure, amend, setVehicle]
  cases htaken : s.breakTaken with
  | true =>
    have hkept : facilities = d.facilities := by
      simpa [Released, Shift.breakPending, htaken] using hslot
    cases hplan : s.breakFacility <;> simp [hkept]
  | false =>
    cases hplan : s.breakFacility with
    | none =>
      have hkept : facilities = d.facilities := by
        simpa [Released, Shift.breakPending, htaken, hplan] using hslot
      simp [hkept]
    | some f =>
      obtain ⟨had, hgiven⟩ : ∃ had, d.facilities.deregister f v.id = .ok (had, facilities) := by
        simpa [Released, Shift.breakPending, htaken, hplan] using hslot
      obtain ⟨facility, hf, -, -⟩ := Facilities.deregister_eq_ok_iff.1 hgiven
      have hknown := Facilities.require_eq_ok_iff.2 hf
      simp [hgiven, hknown, Functor.map, Except.map]

/-- Only a vehicle whose current shift was started can report that its break starts. -/
theorem comesTo_of_startBreak (hd : d.Named) (h : d.startBreak id link now = .ok d') :
    ∃ v before s after, v.id = id ∧ d.vehicles.find? v.id = some v ∧
      Vehicle.ComesTo v.shifts before s after ∧ s.state = .started := by
  cases hrequire : d.requireShift id with
  | error fault => simp [startBreak, hrequire, Bind.bind, Except.bind] at h
  | ok found =>
    obtain ⟨v, s⟩ := found
    obtain ⟨hv, hs⟩ := requireShift_eq_ok_iff.1 hrequire
    obtain rfl := hd id v hv
    cases hbreak : s.startBreak with
    | error fault => simp [startBreak, hrequire, hbreak, Bind.bind, Except.bind] at h
    | ok t =>
      obtain ⟨hstate, -, -⟩ := Shift.transition_eq_ok_iff.1 hbreak
      obtain ⟨before, after, hcome⟩ := Vehicle.exists_comesTo hs (by simp [hstate])
      exact ⟨v, before, s, after, rfl, hv, hcome, hstate⟩

/-- The start of a break is a report. -/
theorem report_of_startBreak (hd : d.Named) (h : d.startBreak id link now = .ok d') :
    d.Report now d' := by
  obtain ⟨v, before, s, after, rfl, hv, hcome, hstate⟩ := comesTo_of_startBreak hd h
  rw [startBreak_eq hv hcome hstate] at h
  cases h
  exact .breakStarted v before s after link hv hcome hstate

/-- Only a vehicle whose current shift is on break can report that its break is over, and that at
a known facility. -/
theorem comesTo_of_endBreak (hd : d.Named) (h : d.endBreak id task now = .ok d') :
    ∃ v before s after had facilities, v.id = id ∧ d.vehicles.find? v.id = some v ∧
      Vehicle.ComesTo v.shifts before s after ∧ s.state = .onBreak ∧
      d.facilities.deregister task.facility v.id = .ok (had, facilities) := by
  cases hknown : d.facilities.require task.facility with
  | error fault => simp [endBreak, hknown, Bind.bind, Except.bind] at h
  | ok f =>
    cases hrequire : d.requireShift id with
    | error fault => simp [endBreak, hknown, hrequire, Bind.bind, Except.bind] at h
    | ok found =>
      obtain ⟨v, s⟩ := found
      obtain ⟨hv, hs⟩ := requireShift_eq_ok_iff.1 hrequire
      obtain rfl := hd id v hv
      cases hback : s.transition .onBreak .started with
      | error fault =>
        simp [endBreak, Shift.endBreak, hknown, hrequire, hback, Bind.bind, Except.bind] at h
      | ok t =>
        obtain ⟨hstate, -, -⟩ := Shift.transition_eq_ok_iff.1 hback
        obtain ⟨before, after, hcome⟩ := Vehicle.exists_comesTo hs (by simp [hstate])
        obtain ⟨had, facilities, hslot⟩ :=
          Facilities.exists_deregister (Facilities.knows_of_require hknown) v.id
        exact ⟨v, before, s, after, had, facilities, rfl, hv, hcome, hstate, hslot⟩

/-- The end of a break is a report. -/
theorem report_of_endBreak (hd : d.Named) (h : d.endBreak id task now = .ok d') :
    d.Report now d' := by
  obtain ⟨v, before, s, after, had, facilities, rfl, hv, hcome, hstate, hslot⟩ :=
    comesTo_of_endBreak hd h
  rw [endBreak_eq hv hcome hstate hslot] at h
  cases h
  exact .breakEnded v before s after task had facilities hv hcome hstate hslot

/-- Only a vehicle whose current shift was started, and can leave its slot, can report that its
shift ends. -/
theorem comesTo_of_endShift (hd : d.Named) (h : d.endShift id link now = .ok d') :
    ∃ v before s after facilities, v.id = id ∧ d.vehicles.find? v.id = some v ∧
      Vehicle.ComesTo v.shifts before s after ∧ s.state = .started ∧
      d.Released v.id s facilities := by
  cases hrequire : d.requireShift id with
  | error fault => simp [endShift, hrequire, Bind.bind, Except.bind] at h
  | ok found =>
    obtain ⟨v, s⟩ := found
    obtain ⟨hv, hs⟩ := requireShift_eq_ok_iff.1 hrequire
    obtain rfl := hd id v hv
    obtain ⟨facilities, hslot⟩ : ∃ facilities, d.Released v.id s facilities := by
      refine exists_released (fun hleft f hf => ?_) v.id
      have hf : s.breakFacility = some f := hf
      cases hknown : d.facilities.require f with
      | error fault => simp [endShift, hrequire, hf, hleft, hknown, Bind.bind, Except.bind] at h
      | ok facility => exact Facilities.knows_of_require hknown
    have hstate : s.state = .started := by
      cases hfinish : s.finishWork with
      | ok t => exact (Shift.transition_eq_ok_iff.1 hfinish).1
      | error fault =>
        cases hf : s.breakFacility <;> cases htaken : s.breakTaken <;>
          simp [endShift, hrequire, hf, htaken, hfinish, Bind.bind, Except.bind] at h
        split at h <;> cases h
    obtain ⟨before, after, hcome⟩ := Vehicle.exists_comesTo hs (by simp [hstate])
    exact ⟨v, before, s, after, facilities, rfl, hv, hcome, hstate, hslot⟩

/-- The end of a shift is a report. -/
theorem report_of_endShift (hd : d.Named) (h : d.endShift id link now = .ok d') :
    d.Report now d' := by
  obtain ⟨v, before, s, after, facilities, rfl, hv, hcome, hstate, hslot⟩ :=
    comesTo_of_endShift hd h
  rw [endShift_eq hv hcome hstate hslot] at h
  cases h
  exact .shiftEnded v before s after link facilities hv hcome hstate hslot

/-! ## All changes -/

/-- One change of a dispatcher. -/
inductive Act (d : Dispatcher) : Dispatcher → Prop
  /-- A dispatch decides on a shift. -/
  | decided {now : Time} {d' : Dispatcher} {i : Option Instruction} : d.Decision now d' i →
      Act d d'
  /-- A vehicle reports on its shift. -/
  | reported {now : Time} {d' : Dispatcher} : d.Report now d' → Act d d'
  /-- A vehicle joins the fleet, and is parked if a hub on its link admits it. -/
  | joined (entry : VehicleEntry) (facilities : Facilities) :
      facilities = d.facilities ∨ (∃ hub had, d.facilities.hubAt? entry.link = some hub ∧
        d.facilities.register hub.id entry.id = .ok (had, facilities)) →
      Act d { d with
        facilities, vehicles := d.vehicles.insert entry.id { toVehicleEntry := entry } }
  /-- A shift comes for which a vehicle is to be found. -/
  | offered (plan : ShiftPlan) :
      Act d { d with unassigned := insertUnassigned { toShiftPlan := plan } d.unassigned }
  /-- A vehicle reports its link and whether it is available. -/
  | moved (v : Vehicle) (link : LinkId) (available : Bool) : d.vehicles.find? v.id = some v →
      Act d (d.setVehicle { v with link, available })
  /-- The log is taken away. -/
  | drained : Act d { d with events := [] }

/-- A vehicle that joins the fleet is registered at a hub on its link or nowhere. -/
theorem facilities_addVehicle (d : Dispatcher) (entry : VehicleEntry) :
    (d.addVehicle entry).facilities = d.facilities ∨
      ∃ hub had, d.facilities.hubAt? entry.link = some hub ∧
        d.facilities.register hub.id entry.id = .ok (had, (d.addVehicle entry).facilities) := by
  unfold addVehicle
  cases hhub : d.facilities.hubAt? entry.link with
  | none => exact .inl rfl
  | some hub =>
    cases hregister : d.facilities.register hub.id entry.id with
    | error fault => exact .inl (by simp [hregister, Except.toOption])
    | ok outcome =>
      refine .inr ⟨hub, outcome.1, rfl, ?_⟩
      simp [hregister, Except.toOption]

/-- A vehicle that joins the fleet is a change. -/
theorem act_addVehicle (d : Dispatcher) (entry : VehicleEntry) : d.Act (d.addVehicle entry) :=
  .joined entry _ (d.facilities_addVehicle entry)

/-- A vehicle reports where it is if it is known. -/
theorem updateVehicle_eq_ok {available : Bool} (hd : d.Named)
    (h : d.updateVehicle id link available = .ok d') :
    ∃ v, v.id = id ∧ d.vehicles.find? v.id = some v ∧
      d' = d.setVehicle { v with link, available } := by
  unfold updateVehicle requireVehicle at h
  cases hv : d.vehicles.find? id with
  | none => simp [hv, Bind.bind, Except.bind] at h
  | some v =>
    simp only [hv, Bind.bind, Except.bind, Pure.pure, Except.pure, Except.ok.injEq] at h
    exact ⟨v, hd id v hv, hd.find?_id hv, h.symm⟩

/-- The update of a vehicle is a change. -/
theorem act_updateVehicle {available : Bool} (hd : d.Named)
    (h : d.updateVehicle id link available = .ok d') : d.Act d' := by
  obtain ⟨v, -, hv, rfl⟩ := updateVehicle_eq_ok hd h
  exact .moved v link available hv

/-- An open shift is inserted before the first that it stands before. -/
theorem insertUnassigned_eq_orderedInsert (s : Shift) (l : List Shift) :
    insertUnassigned s l = l.orderedInsert (fun a b => ¬ startsBy b a) s := by
  induction l with
  | nil => rfl
  | cons a rest ih =>
    rw [insertUnassigned, ih, List.orderedInsert_cons]
    by_cases hstarts : startsBy a s
    · rw [if_pos hstarts, if_neg (not_not_intro hstarts)]
    · rw [if_neg hstarts, if_pos hstarts]

/-- The open shifts are those there were and the one that is put in. -/
theorem mem_insertUnassigned {s t : Shift} {l : List Shift} :
    t ∈ insertUnassigned s l ↔ t = s ∨ t ∈ l := by
  rw [insertUnassigned_eq_orderedInsert, List.mem_orderedInsert]

/-- Vehicles are kept under their own names, and nothing has become of an open shift. -/
structure Sound (d : Dispatcher) : Prop where
  named : d.Named
  fresh : ∀ s ∈ d.unassigned, s.Fresh

/-- Every change leaves a dispatcher sound. -/
theorem Act.sound (h : d.Act d') (hd : d.Sound) : d'.Sound := by
  cases h with
  | decided hdecision =>
    refine ⟨hdecision.named hd.named, ?_⟩
    cases hdecision with
    | tick | start | planBreak | planEnd => exact hd.fresh
    | expire before s after hopen | assign before s after horizon v hopen =>
      intro t ht
      have hsub : (before ++ after).Sublist d.unassigned := by
        rw [hopen]
        exact (List.sublist_cons_self s after).append_left before
      exact hd.fresh t (hsub.subset ht)
  | reported hreport => cases hreport <;> exact ⟨hd.named.amend _ _ _, hd.fresh⟩
  | joined entry facilities => exact ⟨hd.named.setVehicle { toVehicleEntry := entry }, hd.fresh⟩
  | offered plan =>
    refine ⟨hd.named, fun t ht => ?_⟩
    rcases mem_insertUnassigned.1 ht with rfl | ht
    · rfl
    · exact hd.fresh t ht
  | moved v link available hv => exact ⟨hd.named.setVehicle _, hd.fresh⟩
  | drained => exact ⟨hd.named, hd.fresh⟩

/-- Whatever is done to a dispatcher, its facilities lose nothing that neither a registration nor a
slot given up takes from them. -/
theorem Act.every_facility {P : FacilityId → Facility → Prop} (h : d.Act d')
    (hP : Facilities.Lasting P) (hd : d.facilities.Every P) : d'.facilities.Every P := by
  cases h with
  | decided hdecision =>
    cases hdecision with
    | tick | expire | assign => exact hd
    | start v => exact hd.deregisterEverywhere hP v.id
    | planBreak v before s after w task facilities facility hv hcome hnow hdecide hw hregister =>
      exact hd.register hP hregister
    | planEnd v before s after horizon facility facilities hv hcome hstate hend hpending hhorizon
        hsoon hfacility hregister =>
      exact hd.register hP hregister
  | reported hreport =>
    cases hreport with
    | breakStarted => exact hd
    | breakEnded v before s after task had facilities hv hcome hstate hslot =>
      exact hd.deregister hP hslot
    | shiftEnded v before s after link facilities hv hcome hstate hslot =>
      unfold Released at hslot
      split at hslot
      · obtain ⟨f, had, -, hslot⟩ := hslot
        exact hd.deregister hP hslot
      · exact hslot ▸ hd
  | joined entry facilities hpark =>
    rcases hpark with rfl | ⟨hub, had, -, hregister⟩
    · exact hd
    · exact hd.register hP hregister
  | offered | moved | drained => exact hd

/-- A vehicle has just joined the fleet, or it keeps its queue, or the queue takes one step. Of all
records an act changes one at most. -/
theorem Act.queue (h : d.Act d') (hd : d.Sound) {v' : Vehicle}
    (hv' : d'.vehicles.find? id = some v') :
    v'.shifts = [] ∨ ∃ v, d.vehicles.find? id = some v ∧
      (v'.shifts = v.shifts ∨ Vehicle.Moves v.shifts v'.shifts) := by
  have hone {u v : Vehicle} (hv : d.vehicles.find? v.id = some v)
      (hset : d'.vehicles = d.vehicles.insert v.id u)
      (hmoves : u.shifts = v.shifts ∨ Vehicle.Moves v.shifts u.shifts) : v'.shifts = [] ∨
        ∃ v, d.vehicles.find? id = some v ∧
          (v'.shifts = v.shifts ∨ Vehicle.Moves v.shifts v'.shifts) := by
    rw [hset, Table.find?_insert] at hv'
    split at hv'
    · next hid =>
      obtain rfl := Option.some.inj hv'
      exact .inr ⟨v, hid ▸ hv, hmoves⟩
    · exact .inr ⟨v', hv', .inl rfl⟩
  cases h with
  | decided hdecision =>
    cases hdecision with
    | tick | expire => exact .inr ⟨v', hv', .inl rfl⟩
    | assign before s after horizon v hopen hlasts hhorizon hstart hv =>
      have hfresh : s.Fresh := hd.fresh s (by simp [hopen])
      exact hone hv rfl (.inr (.joined s hfresh))
    | start v before s after hv hrunning hsplit hbefore hwait hdue =>
      have hnone : ∀ t ∈ v.shifts, ¬ t.isRunning := List.find?_eq_none.1 hrunning
      exact hone hv rfl (.inr (.begun before s after hsplit hbefore hwait hnone))
    | planBreak v before s after w task facilities facility hv hcome hnow hdecide =>
      have hstate := (decideOnBreak_eq_ok_some hdecide).1
      have hgoes : s.Goes (s.planBreak task.facility) :=
        ⟨rfl, Shift.isRunning_iff.2 (.inl hstate), .inl (Shift.isRunning_iff.2 (.inl hstate))⟩
      exact hone hv rfl (.inr (.went before s _ after hcome hgoes))
    | planEnd v before s after horizon facility facilities hv hcome hstate =>
      have hgoes : s.Goes (s.planEnd facility.id) :=
        ⟨rfl, Shift.isRunning_iff.2 (.inl hstate), .inl (Shift.isRunning_iff.2 (.inl hstate))⟩
      exact hone hv rfl (.inr (.went before s _ after hcome hgoes))
  | reported hreport =>
    cases hreport with
    | breakStarted v before s after link hv hcome hstate =>
      have hgoes : s.Goes { s with state := .onBreak } :=
        ⟨rfl, Shift.isRunning_iff.2 (.inl hstate), .inl rfl⟩
      exact hone hv rfl (.inr (.went before s _ after hcome hgoes))
    | breakEnded v before s after task had facilities hv hcome hstate =>
      have hgoes : s.Goes { s with state := .started, breakTaken := true } :=
        ⟨rfl, Shift.isRunning_iff.2 (.inr hstate), .inl rfl⟩
      exact hone hv rfl (.inr (.went before s _ after hcome hgoes))
    | shiftEnded v before s after link facilities hv hcome hstate =>
      have hgoes : s.Goes s.over := ⟨rfl, Shift.isRunning_iff.2 (.inl hstate), .inr rfl⟩
      exact hone hv rfl (.inr (.went before s _ after hcome hgoes))
  | joined entry facilities =>
    rw [Table.find?_insert] at hv'
    split at hv'
    · obtain rfl := Option.some.inj hv'
      exact .inl rfl
    · exact .inr ⟨v', hv', .inl rfl⟩
  | moved v link available hv => exact hone hv rfl (.inl rfl)
  | offered | drained => exact .inr ⟨v', hv', .inl rfl⟩

end Dispatcher

end DialARide
