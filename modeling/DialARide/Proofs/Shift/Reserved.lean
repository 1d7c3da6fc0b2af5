import DialARide.Proofs.Shift.Assignment

/-!
# What is decided on is reserved

A dispatch decides on a facility while it only looks at the vehicle, and takes the slot afterwards.
By then the vehicles whose turn came earlier have taken theirs. The decision and the registration
agree all the same: at its turn a vehicle is given the slot that was decided on, and is told so.
-/

namespace DialARide

namespace Dispatcher

variable {d d' d₁ : Dispatcher} {now horizon : Time} {id : VehicleId} {v : Vehicle} {s : Shift}
  {f : FacilityId} {g : Facility} {out : List Instruction}

/-! ## Turns -/

section Turn

variable {step : Dispatcher → VehicleId → Except Halt (Option (Dispatcher × Instruction))}

/-- A phase has made a dispatcher what it is when the turn of a vehicle comes. -/
def IsTurn (step : Dispatcher → VehicleId → Except Halt (Option (Dispatcher × Instruction)))
    (d : Dispatcher) (id : VehicleId) (d₁ : Dispatcher) : Prop :=
  ∃ before after out, d.vehicles.keys = before ++ id :: after ∧
    sweep step d before = .ok (d₁, out)

/-- Several vehicles are taken up, and then those behind them. -/
theorem sweep_append_eq_ok {l m : List VehicleId} (h : sweep step d (l ++ m) = .ok (d', out)) :
    ∃ d₁ before after, sweep step d l = .ok (d₁, before) ∧ sweep step d₁ m = .ok (d', after) ∧
      out = before ++ after := by
  induction l generalizing d out with
  | nil => exact ⟨d, [], out, rfl, h, rfl⟩
  | cons id rest ih =>
    rw [List.cons_append, sweep] at h
    rw [sweep]
    cases hone : step d id with
    | error halt => simp [hone, Bind.bind, Except.bind] at h
    | ok outcome =>
      simp only [hone, Bind.bind, Except.bind] at h ⊢
      cases outcome with
      | none => exact ih h
      | some change =>
        simp only at h ⊢
        split at h
        · cases h
        · next outcome hrest =>
          simp only [Pure.pure, Except.pure, Except.ok.injEq, Prod.mk.injEq] at h
          obtain ⟨rfl, rfl⟩ := h
          obtain ⟨d₁, before, after, hbefore, hafter, hout⟩ := ih hrest
          exact ⟨d₁, change.2 :: before, after, by simp [hbefore, Pure.pure, Except.pure], hafter,
            by simp [hout]⟩

/-- Whatever is done for a vehicle at its turn, the instruction is among those of the phase. -/
theorem exists_of_isTurn (hturn : IsTurn step d id d₁)
    (h : sweep step d d.vehicles.keys = .ok (d', out)) :
    ∃ outcome, step d₁ id = .ok outcome ∧ ∀ d₂ i, outcome = some (d₂, i) → i ∈ out := by
  obtain ⟨before, after, earlier, hkeys, hbefore⟩ := hturn
  rw [hkeys] at h
  obtain ⟨d₂, _, later, hagain, hlater, rfl⟩ := sweep_append_eq_ok h
  obtain ⟨rfl, rfl⟩ := Prod.mk.inj (Except.ok.inj (hbefore.symm.trans hagain))
  rw [sweep] at hlater
  cases hone : step d₁ id with
  | error halt => simp [hone, Bind.bind, Except.bind] at hlater
  | ok outcome =>
    refine ⟨outcome, rfl, ?_⟩
    rintro d₂ i rfl
    simp only [hone, Bind.bind, Except.bind] at hlater
    split at hlater
    · cases hlater
    · simp only [Pure.pure, Except.pure, Except.ok.injEq, Prod.mk.injEq] at hlater
      simp [← hlater.2]

end Turn

/-- In a dispatch it is the turn of a vehicle to have its break reserved. -/
def AtBreak (d : Dispatcher) (now : Time) (id : VehicleId) (d₁ : Dispatcher) : Prop :=
  ∃ a b assigned started, assignShifts { d with now } now = .ok (a, assigned) ∧
    a.startShifts now = .ok (b, started) ∧ IsTurn (fun d id => d.scheduleBreak now id) b id d₁

/-- In a dispatch it is the turn of a vehicle to have the end of its shift reserved. -/
def AtEnd (d : Dispatcher) (now horizon : Time) (id : VehicleId) (d₁ : Dispatcher) : Prop :=
  ∃ a b c assigned started breaks, assignShifts { d with now } now = .ok (a, assigned) ∧
    a.startShifts now = .ok (b, started) ∧ b.scheduleBreaks now = .ok (c, breaks) ∧
    IsTurn (fun d id => .ok (d.scheduleEnd now horizon id)) c id d₁

/-- A dispatcher while a dispatch by some policy is under way. -/
structure UnderPolicy (now : Time) (policy : ShiftPolicy) (d : Dispatcher) : Prop
    extends Underway now d where
  policy_eq : d.policy = policy

variable {policy : ShiftPolicy}

theorem Decision.underPolicy {i : Option Instruction} (h : d.Decision now d' i)
    (hd : d.UnderPolicy now policy) : d'.UnderPolicy now policy :=
  ⟨h.underway hd.toUnderway, h.policy_eq.trans hd.policy_eq⟩

/-- A dispatch stays under way in a phase in which every turn of a vehicle is a decision. -/
theorem UnderPolicy.sweep
    {step : Dispatcher → VehicleId → Except Halt (Option (Dispatcher × Instruction))}
    {ids : List VehicleId} (hd : d.UnderPolicy now policy) (h : sweep step d ids = .ok (d', out))
    (hstep : ∀ e id e' i, e.UnderPolicy now policy → step e id = .ok (some (e', i)) →
      e.Decision now e' (some i)) : d'.UnderPolicy now policy :=
  ((sweeps_of_sweep h).keeps (R := fun _ => True)
    (fun e id e' i he hi => ⟨(hstep e id e' i he hi).underPolicy he, trivial⟩) hd).1

/-- The dispatch is under way when the breaks are taken up. -/
theorem underPolicy_of_startShifts {a b : Dispatcher} {started : List Instruction}
    (hd : d.UnderPolicy now policy) (hassign : d.assignShifts now = .ok (a, out))
    (hstart : a.startShifts now = .ok (b, started)) : b.UnderPolicy now policy := by
  have ha : a.UnderPolicy now policy :=
    (decisions_assignShifts hd.sound.named hassign).keeps (fun _ _ _ h => h.underPolicy) hd
  apply ha.sweep hstart
  intro e id e' i he hi
  obtain ⟨_, -, hdecision⟩ := decision_startShift he.sound.named (Except.ok.inj hi)
  exact hdecision

/-- The dispatch is under way while the breaks are taken up. -/
theorem underPolicy_of_breaks {ids : List VehicleId} (hd : d.UnderPolicy now policy)
    (h : sweep (fun d id => d.scheduleBreak now id) d ids = .ok (d', out)) :
    d'.UnderPolicy now policy := by
  apply hd.sweep h
  intro e id e' i he hi
  obtain ⟨_, _, _, -, hdecision⟩ := decision_scheduleBreak he.sound.named he.now_eq hi
  exact hdecision

/-- A slot that is kept for a vehicle: the vehicle holds it, and its current shift says so. -/
structure SlotKept (d : Dispatcher) (id : VehicleId) (f : FacilityId) (s : Shift) : Prop where
  held : d.facilities.holdsAt f id
  noted : ∃ v, d.vehicles.find? id = some v ∧ v.currentShift? = some s

/-- A slot that is registered while the current shift of its vehicle is made to say so is kept. -/
theorem slotKept_amend {before after : List Shift} {t : Shift} {facilities : Facilities}
    (hcome : Vehicle.ComesTo v.shifts before s after)
    (hregister : d.facilities.register f v.id = .ok (true, facilities)) (ht : t.state ≠ .waiting)
    (e : ShiftEvent) :
    (d.amend facilities { v with shifts := before ++ t :: after } e).SlotKept v.id f t := by
  constructor
  · exact (Facilities.holdsAt_of_register hregister f v.id).2 (.inl ⟨rfl, rfl⟩)
  · let u : Vehicle := { v with shifts := before ++ t :: after }
    have hu : Vehicle.ComesTo u.shifts before t after := hcome.replace ht
    exact ⟨u, find?_amend_self d facilities u e, hu.currentShift?_eq⟩

/-! ## Breaks -/

/-- A break that is decided on is to be at the nearest facility with a slot free, and there the
vehicle is given a slot. -/
private theorem exists_register_of_decideOnBreak (hfs : d.facilities.Named)
    (hdecide : d.decideOnBreak v s = .ok (some f)) (id : VehicleId) : ∃ place g fs,
      d.network.coord? v.link = some place ∧ g.id = f ∧
      d.facilities.NearestFree place (fun _ => true) g ∧
      d.facilities.register f id = .ok (true, fs) := by
  obtain ⟨-, _, _, place, g, -, -, -, -, hplace, hnearest, rfl⟩ :=
    decideOnBreak_eq_ok_some_iff.1 hdecide
  have hnear := hfs.nearestFree hnearest
  have hadmits : g.admits id := by simp [Facility.admits, hnear.free]
  obtain ⟨fs, hregister⟩ := hfs.exists_register hnear.known hadmits
  exact ⟨place, g, fs, hplace, rfl, hnear, hregister⟩

/-- A slot is kept for the break that is decided on for a vehicle, and the vehicle is told so. -/
private theorem told_of_decideOnBreak (hd : d.Underway now) (hv : d.vehicles.find? id = some v)
    (hs : v.currentShift? = some s) (hdecide : d.decideOnBreak v s = .ok (some g.id))
    (hg : d.facilities.find? g.id = some g) {outcome : Option (Dispatcher × Instruction)}
    (h : d.scheduleBreak now id = .ok outcome) :
    ∃ d₁ task, task.facility = g.id ∧ d₁.SlotKept id g.id (s.planBreak g.id) ∧
      outcome = some (d₁, .takeBreak id s.id g.link task) := by
  cases outcome with
  | none => exact absurd h (scheduleBreak_ne_none hd.facilities hv hs hdecide)
  | some change =>
    obtain ⟨d₁, i⟩ := change
    obtain ⟨_, _, task, rfl, hdecision⟩ := decision_scheduleBreak hd.sound.named hd.now_eq h
    cases hdecision with
    | planBreak u before t after w _ facilities facility hu hcome hnow hagain hw hregister
        hfacility =>
      obtain rfl := Option.some.inj (hu.symm.trans hv)
      obtain rfl := Option.some.inj (hcome.currentShift?_eq.symm.trans hs)
      have htask : task.facility = g.id :=
        Option.some.inj (Except.ok.inj (hagain.symm.trans hdecide))
      obtain ⟨old, hold, hnarrows⟩ := Facilities.narrows_of_register hregister hfacility
      obtain rfl := Option.some.inj (hold.symm.trans (htask ▸ hg))
      rw [htask] at hregister
      refine ⟨_, task, htask, ?_, by rw [congrArg FacilitySite.link hnarrows.site]⟩
      rw [htask]
      have hbegun : (t.planBreak old.id).state ≠ .waiting := hcome.begun
      exact slotKept_amend hcome hregister hbegun _

/-! ## Ends of shifts -/

/-- A facility is the place for the end of a shift: the one that the shift belongs to if that admits
the vehicle, and else the nearest hub with a slot free. -/
inductive EndsAt (d : Dispatcher) (v : Vehicle) (s : Shift) (g : Facility) : Prop
  | home (i : FacilityId) : s.home = some i → d.facilities.find? i = some g → g.admits v.id →
      EndsAt d v s g
  | hub (place : Coord) :
      (∀ i h, s.home = some i → d.facilities.find? i = some h → ¬ h.admits v.id) →
      d.network.coord? v.link = some place →
      d.facilities.NearestFree place (fun f => f.kind = .hub) g → EndsAt d v s g

/-- The facility that is chosen for the end of a shift is the place for it. -/
private theorem endsAt_of_endFacility? (hfs : d.facilities.Named)
    (h : d.endFacility? v s = some g) :
    d.EndsAt v s g := by
  unfold endFacility? at h
  split at h
  · next home hhome =>
    obtain rfl := Option.some.inj h
    obtain ⟨hhome, hadmits⟩ := Option.filter_eq_some_iff.1 hhome
    obtain ⟨i, hi, hknown⟩ := Option.bind_eq_some_iff.1 hhome
    exact .home i hi hknown hadmits
  · next hnone =>
    obtain ⟨place, hplace, hnearest⟩ := Option.bind_eq_some_iff.1 h
    refine .hub place (fun i home hi hknown hadmits => ?_) hplace (hfs.nearestFree hnearest)
    simp [hi, hknown, hadmits] at hnone

/-- A slot is kept at the place that is chosen for the end of a shift, and the vehicle is told so.
-/
private theorem told_of_endFacility? (hd : d.UnderPolicy now policy)
    (hhorizon : Time.plus now policy.endLookAhead = .ok horizon)
    (hv : d.vehicles.find? id = some v) (hs : v.currentShift? = some s) (hdue : s.EndDue horizon)
    (hg : d.endFacility? v s = some g) :
    ∃ d₁, d₁.SlotKept id g.id (s.planEnd g.id) ∧
      d.scheduleEnd now horizon id = some (d₁, .endShift id s.id g.id g.link s.finish) := by
  have hne : d.scheduleEnd now horizon id ≠ none :=
    scheduleEnd_ne_none hd.sound.named hd.facilities hv hs hdue hg
  obtain ⟨⟨d₁, i⟩, hsome⟩ := Option.ne_none_iff_exists'.1 hne
  obtain ⟨_, _, _, _, rfl, hdecision⟩ :=
    decision_scheduleEnd hd.sound.named (hd.policy_eq ▸ hhorizon) hsome
  cases hdecision with
  | planEnd u before t after _ facility facilities hu hcome hstate hend hpending _ hsoon hagain
      hregister =>
    obtain rfl := Option.some.inj (hu.symm.trans hv)
    obtain rfl := Option.some.inj (hcome.currentShift?_eq.symm.trans hs)
    obtain rfl := Option.some.inj (hagain.symm.trans hg)
    have hbegun : (t.planEnd facility.id).state ≠ .waiting := hcome.begun
    exact ⟨_, slotKept_amend hcome hregister hbegun _, hsome⟩

/-! ## A whole dispatch -/

/-- Whatever was asked of a dispatcher before, at its turn in a dispatch a vehicle is given a slot
of the facility that is decided on. After its turn it holds the slot, its shift names the facility,
and it is told so. For a break that is the nearest facility with a slot free, and for the end of a
shift the one that the shift belongs to, or the nearest hub with a slot free where that does not
admit the vehicle. -/
theorem slots_reserved_as_decided {network : Network} {sites : List FacilitySite}
    {os : List Operation} (hrun : (opened policy network sites).run os = .ok d)
    (hboundary : d.isBoundary now) :
    (∀ id d₁ v s f, d.AtBreak now id d₁ → d₁.vehicles.find? id = some v →
      v.currentShift? = some s → d₁.decideOnBreak v s = .ok (some f) →
      ∃ place g fs, d₁.network.coord? v.link = some place ∧ g.id = f ∧
        d₁.facilities.NearestFree place (fun _ => true) g ∧
        d₁.facilities.register f id = .ok (true, fs) ∧
        ∀ d' out, d.dispatch now = .ok (d', out) →
          ∃ d₂ task, d₁.scheduleBreak now id = .ok (some (d₂, .takeBreak id s.id g.link task)) ∧
            d₂.SlotKept id f (s.planBreak f) ∧ task.facility = f ∧
            .takeBreak id s.id g.link task ∈ out) ∧
    (∀ id horizon d₁ v s g, Time.plus now policy.endLookAhead = .ok horizon →
      d.AtEnd now horizon id d₁ → d₁.vehicles.find? id = some v → v.currentShift? = some s →
      s.EndDue horizon → d₁.endFacility? v s = some g →
      d₁.EndsAt v s g ∧ (∃ fs, d₁.facilities.register g.id id = .ok (true, fs)) ∧
        (∃ d₂, d₁.scheduleEnd now horizon id =
            some (d₂, .endShift id s.id g.id g.link s.finish) ∧
          d₂.SlotKept id g.id (s.planEnd g.id)) ∧
        ∀ d' out, d.dispatch now = .ok (d', out) →
          .endShift id s.id g.id g.link s.finish ∈ out) := by
  obtain ⟨hsound, hin, hfacilities, hpolicy⟩ := regular_run hrun
  have hd : UnderPolicy now policy { d with now } :=
    ⟨⟨⟨hsound.named, hsound.fresh⟩, hin, hfacilities, rfl⟩, hpolicy⟩
  refine ⟨fun id d₁ v s f hturn hv hs hdecide => ?_,
    fun id horizon d₁ v s g hhorizon hturn hv hs hdue hg => ?_⟩
  · obtain ⟨a, b, assigned, started, hassign, hstart, hturn⟩ := hturn
    have hd₁ : d₁.UnderPolicy now policy := by
      obtain ⟨_, _, _, -, hbefore⟩ := hturn
      exact underPolicy_of_breaks (underPolicy_of_startShifts hd hassign hstart) hbefore
    obtain ⟨place, g, fs, hplace, rfl, hnear, hregister⟩ :=
      exists_register_of_decideOnBreak hd₁.facilities hdecide id
    refine ⟨place, g, fs, hplace, rfl, hnear, hregister, fun d' out hdispatch => ?_⟩
    rcases phases_of_dispatch hdispatch with ⟨hoff, -⟩ | ⟨a', b', c, assigned, started, breaks,
      ends, -, hassign', hstart', hbreaks, -, rfl⟩
    · simp [hoff] at hboundary
    · obtain ⟨rfl, rfl⟩ := Prod.mk.inj (Except.ok.inj (hassign.symm.trans hassign'))
      obtain ⟨rfl, rfl⟩ := Prod.mk.inj (Except.ok.inj (hstart.symm.trans hstart'))
      obtain ⟨outcome, houtcome, hmem⟩ := exists_of_isTurn hturn hbreaks
      obtain ⟨d₂, task, htask, hkept, rfl⟩ :=
        told_of_decideOnBreak hd₁.toUnderway hv hs hdecide hnear.known houtcome
      exact ⟨d₂, task, houtcome, hkept, htask, by simp [hmem d₂ _ rfl]⟩
  · obtain ⟨a, b, c, assigned, started, breaks, hassign, hstart, hbreaks, hturn⟩ := hturn
    have hd₁ : d₁.UnderPolicy now policy := by
      obtain ⟨_, _, _, -, hbefore⟩ := hturn
      have hb := underPolicy_of_startShifts hd hassign hstart
      apply (underPolicy_of_breaks hb hbreaks).sweep hbefore
      intro e id e' i he hi
      obtain ⟨_, _, _, _, -, hdecision⟩ :=
        decision_scheduleEnd he.sound.named (he.policy_eq ▸ hhorizon) (Except.ok.inj hi)
      exact hdecision
    obtain ⟨d₂, hkept, hsome⟩ := told_of_endFacility? hd₁ hhorizon hv hs hdue hg
    refine ⟨endsAt_of_endFacility? hd₁.facilities hg, ?_, ⟨d₂, hsome, hkept⟩,
      fun d' out hdispatch => ?_⟩
    · obtain ⟨⟨i, hi⟩, hadmits⟩ := admits_of_endFacility? hg
      rw [hd₁.sound.named id v hv] at hadmits
      exact hd₁.facilities.exists_register hi hadmits
    · rcases phases_of_dispatch hdispatch with ⟨hoff, -⟩ | ⟨a', b', c', assigned, started, breaks,
        ends, -, hassign', hstart', hbreaks', hends, rfl⟩
      · simp [hoff] at hboundary
      · obtain ⟨rfl, rfl⟩ := Prod.mk.inj (Except.ok.inj (hassign.symm.trans hassign'))
        obtain ⟨rfl, rfl⟩ := Prod.mk.inj (Except.ok.inj (hstart.symm.trans hstart'))
        obtain ⟨rfl, rfl⟩ := Prod.mk.inj (Except.ok.inj (hbreaks.symm.trans hbreaks'))
        have hc : c.policy = policy :=
          (underPolicy_of_breaks (underPolicy_of_startShifts hd hassign hstart) hbreaks).policy_eq
        have hsweep : sweep (fun d id => .ok (d.scheduleEnd now horizon id)) c c.vehicles.keys =
            .ok (d', ends) := by
          simpa [scheduleEnds, hc, hhorizon, Bind.bind, Except.bind] using hends
        obtain ⟨outcome, houtcome, hmem⟩ := exists_of_isTurn hturn hsweep
        have hi := hmem d₂ _ ((Except.ok.inj houtcome).symm.trans hsome)
        simp [hi]

/-- A bus has its break reserved at the hub, and a van, whose turn comes behind it, gets the one
slot that is left for the end of its shift. -/
theorem last_slot_reserved_for_van :
    let network : Network := .ofLinks [{ id := ⟨"yard"⟩, source := ⟨0, 0⟩, target := ⟨0, 10⟩ }]
    let sites : List FacilitySite := [⟨⟨"hub"⟩, .hub, ⟨"yard"⟩, ⟨0, 5⟩, 2⟩]
    let os : List Operation := [.addVehicle { id := ⟨"bus"⟩, link := ⟨"yard"⟩ },
      .addVehicle { id := ⟨"van"⟩, link := ⟨"yard"⟩ },
      .addShift { id := ⟨"day"⟩, start := 0, finish := 7200, breakWindow := some ⟨600, 3600, 600⟩ },
      .addShift { id := ⟨"short"⟩, start := 0, finish := 3600, home := some ⟨"hub"⟩ }]
    ∃ d d' d₁ d₂ out, (opened {} network sites).run os = .ok d ∧ d.dispatch 0 = .ok (d', out) ∧
      d.AtBreak 0 ⟨"bus"⟩ d₁ ∧ d.AtEnd 0 3600 ⟨"van"⟩ d₂ ∧
      (∃ fs, d₁.facilities.register ⟨"hub"⟩ ⟨"bus"⟩ = .ok (true, fs)) ∧
      (∃ (d₃ : Dispatcher) (s : Shift) (link : LinkId) (task : BreakTask),
        d₁.scheduleBreak 0 ⟨"bus"⟩ =
          .ok (some (d₃, .takeBreak ⟨"bus"⟩ ⟨"day"⟩ link task)) ∧
        d₃.SlotKept ⟨"bus"⟩ ⟨"hub"⟩ (s.planBreak ⟨"hub"⟩) ∧ task.facility = ⟨"hub"⟩ ∧
        .takeBreak ⟨"bus"⟩ ⟨"day"⟩ link task ∈ out) ∧
      (∃ fs, d₂.facilities.register ⟨"hub"⟩ ⟨"van"⟩ = .ok (true, fs)) ∧
      (∃ (d₄ : Dispatcher) (t : Shift) (link : LinkId), d₂.scheduleEnd 0 3600 ⟨"van"⟩ =
          some (d₄, .endShift ⟨"van"⟩ ⟨"short"⟩ ⟨"hub"⟩ link 3600) ∧
        d₄.SlotKept ⟨"van"⟩ ⟨"hub"⟩ (t.planEnd ⟨"hub"⟩) ∧
        .endShift ⟨"van"⟩ ⟨"short"⟩ ⟨"hub"⟩ link 3600 ∈ out) := by
  intro network sites os
  have hout : ((opened {} network sites).run os).toOption.bind (fun d =>
      (d.dispatch 0).toOption.bind fun r => (assignShifts { d with now := 0 } 0).toOption.bind
      fun a => (a.1.startShifts 0).toOption.bind fun b => (b.1.scheduleBreaks 0).toOption.bind
      fun c => (sweep (fun d id => .ok (d.scheduleEnd 0 3600 id)) c.1 [⟨"bus"⟩]).toOption.bind
      fun e => (b.1.vehicles.find? ⟨"bus"⟩).bind fun v => v.currentShift?.bind
      fun s => (e.1.vehicles.find? ⟨"van"⟩).bind fun w => w.currentShift?.bind
      fun t => (e.1.endFacility? w t).map fun g =>
        decide ((d.isBoundary 0 ∧ b.1.vehicles.keys = [⟨"bus"⟩, ⟨"van"⟩] ∧
          c.1.vehicles.keys = [⟨"bus"⟩, ⟨"van"⟩]) ∧
          (s.id = ⟨"day"⟩ ∧ (b.1.decideOnBreak v s).toOption = some (some ⟨"hub"⟩)) ∧
          t.id = ⟨"short"⟩ ∧ t.finish = 3600 ∧ t.state = .started ∧ t.endFacility = none ∧
          t.breakPending = false ∧ g.id = ⟨"hub"⟩)) = some true := by
    decide +kernel
  simp only [Option.bind_eq_some_iff, Option.map_eq_some_iff, toOption_eq_some_iff,
    decide_eq_true_eq] at hout
  obtain ⟨d, hrun, ⟨d', out⟩, hdispatch, ⟨a, assigned⟩, hassign, ⟨b, started⟩, hstart, ⟨c, breaks⟩,
    hbreaks, ⟨e, ends⟩, hends, v, hv, s, hs, w, hw, t, ht, g, hg, ⟨hboundary, hkeys, hkeys'⟩,
    ⟨hday, hdecide⟩, hshort, hfinish, hstate, hplanned, hpending, hhub⟩ := hout
  obtain ⟨hbreak, hend⟩ := slots_reserved_as_decided hrun hboundary
  have hturn : d.AtBreak 0 ⟨"bus"⟩ b :=
    ⟨a, b, assigned, started, hassign, hstart, [], [⟨"van"⟩], [], hkeys, rfl⟩
  have hturn' : d.AtEnd 0 3600 ⟨"van"⟩ e :=
    ⟨a, b, c, assigned, started, breaks, hassign, hstart, hbreaks, [⟨"bus"⟩], [], ends, hkeys',
      hends⟩
  obtain ⟨place, hub, fs, -, -, -, hregister, htold⟩ := hbreak _ b v s _ hturn hv hs hdecide
  have hdue : t.EndDue 3600 := ⟨hstate, hplanned, hpending, hfinish ▸ UInt64.le_refl _⟩
  obtain ⟨-, hregister', ⟨d₄, hplan', hkept'⟩, htold'⟩ :=
    hend _ 3600 e w t g rfl hturn' hw ht hdue hg
  obtain ⟨d₃, task, hplan, hkept, htask, hmem⟩ := htold d' out hdispatch
  have hmem' := htold' d' out hdispatch
  rw [hday] at hplan hmem
  rw [hshort, hfinish, hhub] at hplan' hmem'
  rw [hhub] at hkept' hregister'
  exact ⟨d, d', b, e, out, hrun, hdispatch, hturn, hturn', ⟨fs, hregister⟩,
    ⟨d₃, s, hub.link, task, hplan, hkept, htask, hmem⟩, hregister',
    d₄, t, g.link, hplan', hkept', hmem'⟩

end Dispatcher

end DialARide
