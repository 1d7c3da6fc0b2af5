import DialARide.Proofs.Shift.Omission
import DialARide.Proofs.Shift.Selection

/-!
# A dispatch leaves nothing to be done

After a dispatch at a boundary every open shift is to start later or has nobody to drive it, every
waiting shift that is due was started, and every break and every end that is due was reserved
unless there is no room. In the rest of a dispatch vehicles only get busier and facilities only
get fuller, so what one phase leaves undone is not to be done at its end either. Another dispatch
at the same time therefore changes nothing.
-/

namespace DialARide

/-- A vehicle that is eligible with one of its shifts changed was so before, if the shift goes on
and ends when it was to end. -/
theorem Vehicle.Eligible.of_change {u v : Vehicle} {before after : List Shift} {a b s : Shift}
    {changeover : Time} (h : u.Eligible changeover s) (havailable : u.available = v.available)
    (hv : v.shifts = before ++ a :: after) (hu : u.shifts = before ++ b :: after)
    (hplan : b.toShiftPlan = a.toShiftPlan) (hb : b.state ≠ .ended) :
    v.Eligible changeover s := by
  refine ⟨havailable ▸ h.1, fun x hx hopen => ?_⟩
  rw [hv, List.mem_append, List.mem_cons] at hx
  rcases hx with hx | rfl | hx
  · exact h.2 x (by simp [hu, hx]) hopen
  · have hway := h.2 b (by simp [hu]) hb
    unfold Shift.MakesWay at hway ⊢
    rwa [congrArg ShiftPlan.finish hplan] at hway
  · exact h.2 x (by simp [hu, hx]) hopen

namespace Dispatcher

variable {d d' : Dispatcher} {now horizon : Time} {id : VehicleId} {s : Shift} {u v : Vehicle}
  {e : ShiftEvent} {facilities : Facilities} {f : FacilityId} {out : List Instruction}

/-! ## Vehicles only get busier -/

/-- Nobody becomes eligible for a shift by a change that leaves a vehicle no freer. -/
theorem NobodyFor.amend (h : d.NobodyFor s) (hv : d.vehicles.find? u.id = some v)
    (hbusier : u.Eligible d.policy.changeover s → v.Eligible d.policy.changeover s) :
    (d.amend facilities u e).NobodyFor s := by
  intro id w hw hfree
  rcases find?_amend hw with ⟨rfl, rfl⟩ | ⟨-, hold⟩
  · exact h w.id v hv (hbusier hfree)
  · exact h id w hold hfree

/-- Nobody becomes eligible for a shift by the assignment of another. -/
theorem NobodyFor.assign {t : Shift} (h : d.NobodyFor s) (hv : d.vehicles.find? v.id = some v) :
    (d.amend d.facilities (v.assign t) e).NobodyFor s := by
  refine NobodyFor.amend (u := v.assign t) h hv fun hfree => ⟨hfree.1, fun a ha => ?_⟩
  exact hfree.2 a (Vehicle.mem_insertByStart.2 (.inr ha))

/-- If there is nobody for a shift, no decision makes somebody eligible. -/
theorem Decision.nobodyFor {i : Option Instruction} (h : d.Decision now d' i)
    (hd : d.NobodyFor s) : d'.NobodyFor s := by
  cases h with
  | tick | expire => exact hd
  | assign before t after horizon v hopen hlasts hhorizon hstart hv =>
    have hd' : NobodyFor { d with unassigned := before ++ after } s := hd
    exact hd'.assign hv
  | start v before t after hv hrunning hsplit =>
    let u : Vehicle := { v with shifts := before ++ { t with state := .started } :: after }
    exact NobodyFor.amend (u := u) hd hv fun hfree =>
      hfree.of_change rfl hsplit rfl rfl (by simp)
  | planBreak v before t after w task facilities facility hv hcome hnow hdecide =>
    have hstate := (decideOnBreak_eq_ok_some hdecide).1
    let u : Vehicle := { v with shifts := before ++ t.planBreak task.facility :: after }
    exact NobodyFor.amend (u := u) hd hv fun hfree =>
      hfree.of_change rfl hcome.split rfl rfl (by simp [Shift.planBreak, hstate])
  | planEnd v before t after horizon facility facilities hv hcome hstate =>
    let u : Vehicle := { v with shifts := before ++ t.planEnd facility.id :: after }
    exact NobodyFor.amend (u := u) hd hv fun hfree =>
      hfree.of_change rfl hcome.split rfl rfl (by simp [Shift.planEnd, hstate])

/-- An open shift is not over, and it starts beyond the look-ahead or there is nobody for it. -/
def Exhausted (now : Time) (d : Dispatcher) : Prop :=
  ∀ s ∈ d.unassigned, now < s.finish ∧
    (now.toNat + d.policy.assignLookAhead.toNat < s.start.toNat ∨ d.NobodyFor s)

/-- Where the open shifts are exhausted, they are so after every decision. -/
theorem Decision.exhausted {i : Option Instruction} (h : d.Decision now d' i)
    (hd : d.Exhausted now) : d'.Exhausted now := by
  intro s hs
  obtain ⟨hlasts, hcause⟩ := hd s (h.effect.unassigned_sublist.subset hs)
  rw [h.policy_eq]
  exact ⟨hlasts, hcause.imp_right h.nobodyFor⟩

/-- Where there is nobody for a shift, there is nobody after others were taken up. -/
theorem Assigns.nobodyFor {rest : List Shift} (h : Assigns now horizon d rest d' out)
    (hd : d.Named) (hs : d.NobodyFor s) : d'.NobodyFor s := by
  induction h with
  | nil => exact hs
  | expire _ _ ih => exact ih hd hs
  | leave _ _ _ ih => exact ih hd hs
  | assign v hlasts hsoon hselect _ ih =>
    have hbest := (selectVehicle_eq_ok hd hselect).2 v rfl
    exact ih (hd.amend _ _ _) (hs.assign hbest.known)

/-- The shifts that the assignment leaves open start beyond the horizon, or there is nobody for
them. -/
theorem Assigns.exhausted {rest : List Shift} (h : Assigns now horizon d rest d' out)
    (hd : d.Named) (hopen : d.unassigned = []) :
    ∀ s ∈ d'.unassigned, now < s.finish ∧ (horizon < s.start ∨ d'.NobodyFor s) := by
  induction h with
  | nil d => simp [hopen]
  | expire _ _ ih => exact ih hd hopen
  | @leave d d' s rest out hlasts hnone hrest ih =>
    intro t ht
    rcases List.mem_cons.1 ht with rfl | ht
    · refine ⟨hlasts, ?_⟩
      by_cases hsoon : t.start ≤ horizon
      · exact .inr (hrest.nobodyFor hd ((selectVehicle_eq_ok hd (hnone hsoon)).1 rfl))
      · exact .inl (UInt64.not_le.1 hsoon)
    · exact ih hd hopen t ht
  | assign v _ _ _ _ ih => exact ih (hd.amend _ _ _) hopen

/-- If every given shift is to stay open, they all stay open and nothing else happens. -/
theorem Assigns.idle {rest : List Shift} (h : Assigns now horizon d rest d' out) (hd : d.Named)
    (hopen : d.unassigned = [])
    (hrest : ∀ s ∈ rest, now < s.finish ∧ (horizon < s.start ∨ d.NobodyFor s)) :
    d' = { d with unassigned := rest } ∧ out = [] := by
  induction h with
  | nil d => exact ⟨by rw [← hopen], rfl⟩
  | expire hover =>
    exact absurd (hrest _ List.mem_cons_self).1 (UInt64.not_lt.2 hover)
  | leave _ _ _ ih =>
    obtain ⟨rfl, rfl⟩ := ih hd hopen fun t ht => hrest t (List.mem_cons_of_mem _ ht)
    exact ⟨rfl, rfl⟩
  | @assign d d' s rest out v _ hsoon hselect =>
    have hbest := (selectVehicle_eq_ok hd hselect).2 v rfl
    rcases (hrest s List.mem_cons_self).2 with hbeyond | hnobody
    · exact absurd hbeyond (UInt64.not_lt.2 hsoon)
    · exact absurd hbest.eligible (hnobody v.id v hbest.known)

/-! ## What is attended to stays so -/

/-- The shifts of a vehicle that are due were started. -/
def NoneDue (now : Time) (id : VehicleId) (d : Dispatcher) : Prop :=
  ∀ v, d.vehicles.find? id = some v → v.Prompt now

/-- No break is decided on for a vehicle. -/
def NoBreak (id : VehicleId) (d : Dispatcher) : Prop :=
  ∀ v s f, d.vehicles.find? id = some v → v.currentShift? = some s →
    d.decideOnBreak v s ≠ .ok (some f)

/-- The shift of a vehicle does not end within the horizon, or there is no facility for its end. -/
def NoEnd (horizon : Time) (id : VehicleId) (d : Dispatcher) : Prop :=
  ∀ v s, d.vehicles.find? id = some v → v.currentShift? = some s → s.EndDue horizon →
    d.endFacility? v s = none

/-- A vehicle with a running shift has none that is due. -/
theorem NoneDue.amend (h : d.NoneDue now id) (hs : s ∈ u.shifts) (hrun : s.isRunning) :
    (d.amend facilities u e).NoneDue now id := by
  intro w hw hidle
  rcases find?_amend hw with ⟨rfl, rfl⟩ | ⟨-, hold⟩
  · exact absurd hrun (List.find?_eq_none.1 hidle s hs)
  · exact h w hold hidle

variable {had : Bool}

/-- What can be decided on after a slot was given away could be decided on before. -/
theorem exists_decideOnBreak {g : FacilityId}
    (hregister : d.facilities.register g id = .ok (had, facilities))
    (h : (d.amend facilities u e).decideOnBreak v s = .ok (some f)) :
    ∃ f, d.decideOnBreak v s = .ok (some f) := by
  obtain ⟨hfree, w, sum, place, nearest, hw, hsum, hsoon, hlate, hplace, hnearest, -⟩ :=
    decideOnBreak_eq_ok_some_iff.1 h
  obtain ⟨⟨i, hi⟩, hroom, -⟩ := Facilities.mem_of_nearest? hnearest
  obtain ⟨old, hold, hnarrows⟩ := Facilities.narrows_of_register hregister hi
  have hnear : ∃ g, d.facilities.nearest? place (fun _ => true) = some g :=
    Facilities.exists_nearest? hold (hnarrows.free hroom) rfl
  obtain ⟨g, hg⟩ := hnear
  exact ⟨g.id, decideOnBreak_eq_ok_some_iff.2
    ⟨hfree, w, sum, place, g, hw, hsum, hsoon, hlate, hplace, hg, rfl⟩⟩

/-- A slot given away leaves all other vehicles without a break to be decided on. -/
theorem NoBreak.amend_of_ne {g : FacilityId} (h : d.NoBreak id) (hne : id ≠ u.id)
    (hregister : d.facilities.register g u.id = .ok (had, facilities)) :
    (d.amend facilities u e).NoBreak id := by
  intro w s f hw hs hdecide
  obtain ⟨f', hf'⟩ := exists_decideOnBreak hregister hdecide
  rcases find?_amend hw with ⟨hid, -⟩ | ⟨-, hold⟩
  · exact hne hid.symm
  · exact h w s f' hold hs hf'

/-- A slot given away leaves all other vehicles without a facility for an end. -/
theorem NoEnd.amend_of_ne {g : FacilityId} (h : d.NoEnd horizon id) (hd : d.Named)
    (hne : id ≠ u.id) (hregister : d.facilities.register g u.id = .ok (had, facilities)) :
    (d.amend facilities u e).NoEnd horizon id := by
  intro w s hw hs hdue
  rcases find?_amend hw with ⟨hid, -⟩ | ⟨-, hold⟩
  · exact absurd hid.symm hne
  · have hother : w.id ≠ u.id := hd id w hold ▸ hne
    by_contra hsome
    have hnone := h w s hold hs hdue
    have hthen := exists_endFacility?_iff.1 (Option.ne_none_iff_exists'.1 hsome)
    suffices hnow : ∃ f, d.endFacility? w s = some f by simp [hnone] at hnow
    refine exists_endFacility?_iff.2 ?_
    rcases hthen with ⟨i, f, hi, hf, hadmits⟩ | ⟨place, i, f, hplace, hf, hroom, hhub⟩
    · obtain ⟨old, hold, hnarrows⟩ := Facilities.narrows_of_register hregister hf
      refine .inl ⟨i, old, hi, hold, ?_⟩
      simp only [Facility.admits, Bool.or_eq_true] at hadmits ⊢
      exact hadmits.imp (hnarrows.others w.id hother) hnarrows.free
    · obtain ⟨old, hold, hnarrows⟩ := Facilities.narrows_of_register hregister hf
      refine .inr ⟨place, i, old, hplace, hold, hnarrows.free hroom, ?_⟩
      exact (congrArg FacilitySite.kind hnarrows.site).symm.trans hhub

/-! ## The phases -/

/-- A dispatcher while a dispatch is under way. -/
structure Underway (now : Time) (d : Dispatcher) : Prop where
  sound : d.Sound
  inOrder : d.InOrder
  facilities : d.facilities.Named
  now_eq : d.now = now

/-- A dispatcher after the first phase. -/
structure AllAssigned (now : Time) (d : Dispatcher) : Prop extends Underway now d where
  exhausted : d.Exhausted now

/-- A dispatcher after the second phase. -/
structure AllStarted (now : Time) (d : Dispatcher) : Prop extends AllAssigned now d where
  noneDue : ∀ id, d.NoneDue now id

/-- A dispatcher after the third phase. -/
structure BreaksPlanned (now : Time) (d : Dispatcher) : Prop extends AllStarted now d where
  noBreak : ∀ id, d.NoBreak id

/-- A dispatcher for which there is nothing to be done at the present time. -/
structure Settled (now : Time) (d : Dispatcher) : Prop extends BreaksPlanned now d where
  noEnd : ∀ horizon, Time.plus now d.policy.endLookAhead = .ok horizon →
    ∀ id, d.NoEnd horizon id

/-- A dispatch is still under way after a decision. -/
theorem Decision.underway {i : Option Instruction} (h : d.Decision now d' i)
    (hd : d.Underway now) : d'.Underway now :=
  have hact : d.Act d' := .decided h
  ⟨hact.sound hd.sound, hact.inOrder hd.sound hd.inOrder,
    hact.every_facility Facilities.lasting_named hd.facilities, h.now_eq hd.now_eq⟩

/-- What the first phase leaves stays so after every decision. -/
theorem Decision.allAssigned {i : Option Instruction} (h : d.Decision now d' i)
    (hd : d.AllAssigned now) : d'.AllAssigned now :=
  ⟨h.underway hd.toUnderway, h.exhausted hd.exhausted⟩

/-- The first phase leaves no shift open for which there is somebody in time. -/
theorem allAssigned_of_assignShifts (hd : d.Underway now)
    (h : d.assignShifts now = .ok (d', out)) : d'.AllAssigned now := by
  have hdecisions := decisions_assignShifts hd.sound.named h
  have hpolicy : d'.policy = d.policy :=
    hdecisions.keeps (P := fun d' => d'.policy = d.policy)
      (fun _ _ _ hdecision hd => hdecision.policy_eq.trans hd) rfl
  refine ⟨hdecisions.keeps (fun _ _ _ hdecision => hdecision.underway) hd, fun s hs => ?_⟩
  obtain ⟨horizon, hhorizon, hassigns⟩ := assigns_of_assignShifts h
  obtain ⟨hlasts, hcause⟩ := hassigns.exhausted hd.sound.named rfl s hs
  refine ⟨hlasts, hcause.imp_left fun hbeyond => ?_⟩
  rw [hpolicy, Time.plus_eq_ok_iff.1 hhorizon]
  exact UInt64.lt_iff_toNat_lt.1 hbeyond

/-- The second phase leaves no waiting shift that is due. -/
theorem allStarted_of_startShifts (hd : d.AllAssigned now)
    (h : d.startShifts now = .ok (d', out)) : d'.AllStarted now := by
  obtain ⟨hd', hall⟩ := (sweeps_of_startShifts h).attends_fleet
    (P := AllAssigned now) (Q := NoneDue now)
    (fun d id hd hnone v hv => prompt_of_startShift hd.inOrder hv (Except.ok.inj hnone))
    (fun d id d' i hd hsome => by
      obtain ⟨shift, rfl, hdecision⟩ := decision_startShift hd.sound.named (Except.ok.inj hsome)
      refine ⟨hdecision.allAssigned hd, ?_⟩
      cases hdecision with
      | start v before s after hv =>
        let u : Vehicle := { v with shifts := before ++ { s with state := .started } :: after }
        have hmem : { s with state := .started } ∈ u.shifts := by simp [u]
        have hrun : Shift.isRunning { s with state := .started } := rfl
        refine ⟨fun w hw hidle => ?_, fun j _ hj => NoneDue.amend (u := u) hj hmem hrun⟩
        obtain rfl := Option.some.inj ((find?_amend_self d _ u _).symm.trans hw)
        exact absurd hrun (List.find?_eq_none.1 hidle _ hmem))
    (fun id hunknown v hv => by simp [hunknown] at hv) hd
  exact ⟨hd', hall⟩

/-- The third phase leaves no break to be decided on. -/
theorem breaksPlanned_of_scheduleBreaks (hd : d.AllStarted now)
    (h : d.scheduleBreaks now = .ok (d', out)) : d'.BreaksPlanned now := by
  obtain ⟨hd', hall⟩ := (sweeps_of_scheduleBreaks h).attends_fleet
    (P := AllStarted now) (Q := NoBreak)
    (fun d id hd hnone v s f hv hs hdecide =>
      scheduleBreak_ne_none hd.facilities hv hs hdecide hnone)
    (fun d id d' i hd hsome => by
      obtain ⟨shift, link, task, rfl, hdecision⟩ :=
        decision_scheduleBreak hd.sound.named hd.now_eq hsome
      have hassigned := hdecision.allAssigned hd.toAllAssigned
      cases hdecision with
      | planBreak v before s after w _ facilities facility hv hcome hnow hdecide hw hregister =>
        let t := s.planBreak task.facility
        let u : Vehicle := { v with shifts := before ++ t :: after }
        have hstate : t.state = .started := (decideOnBreak_eq_ok_some hdecide).1
        have hmem : t ∈ u.shifts := by simp [u]
        have hcurrent : u.currentShift? = some t :=
          (hcome.replace (by simp [hstate])).currentShift?_eq
        refine ⟨⟨hassigned, fun j => NoneDue.amend (u := u) (hd.noneDue j) hmem
          (Shift.isRunning_iff.2 (.inl hstate))⟩, fun w' x f hw' hx hagain => ?_,
          fun j hj hj' => NoBreak.amend_of_ne (u := u) hj' hj hregister⟩
        obtain rfl := Option.some.inj ((find?_amend_self d _ u _).symm.trans hw')
        obtain rfl := Option.some.inj (hcurrent.symm.trans hx)
        obtain ⟨-, hunplanned, -⟩ := decideOnBreak_eq_ok_some hagain
        cases hunplanned)
    (fun id hunknown v s f hv => by simp [hunknown] at hv) hd
  exact ⟨hd', hall⟩

/-- The fourth phase leaves no end to be reserved for which there is a facility. The break of a
shift does not depend on its end. -/
theorem settled_of_scheduleEnds (hd : d.BreaksPlanned now)
    (h : d.scheduleEnds now = .ok (d', out)) : d'.Settled now := by
  obtain ⟨horizon, hhorizon, h⟩ := sweeps_of_scheduleEnds h
  obtain ⟨⟨hd', hpolicy⟩, hall⟩ := h.attends_fleet
    (P := fun d' => d'.BreaksPlanned now ∧ d'.policy = d.policy) (Q := NoEnd horizon)
    (fun d id hd hnone v s hv hs hdue => by
      by_contra hsome
      obtain ⟨f, hf⟩ := Option.ne_none_iff_exists'.1 hsome
      exact scheduleEnd_ne_none hd.1.sound.named hd.1.facilities hv hs hdue hf
        (Except.ok.inj hnone))
    (fun d₁ id d₂ i hd₁ hsome => by
      obtain ⟨hd₁, hpolicy⟩ := hd₁
      obtain ⟨shift, place, link, time, rfl, hdecision⟩ :=
        decision_scheduleEnd hd₁.sound.named (hpolicy ▸ hhorizon) (Except.ok.inj hsome)
      have hassigned := hdecision.allAssigned hd₁.toAllAssigned
      have hpolicy' := hdecision.policy_eq.trans hpolicy
      cases hdecision with
      | planEnd v before s after _ facility facilities hv hcome hstate hend hpending hhorizon
          hsoon hfacility hregister =>
        let t := s.planEnd facility.id
        let u : Vehicle := { v with shifts := before ++ t :: after }
        have hmem : t ∈ u.shifts := by simp [u]
        have hcurrent : u.currentShift? = some t :=
          (hcome.replace (by simp [t, Shift.planEnd, hstate])).currentShift?_eq
        refine ⟨⟨⟨⟨hassigned, fun j => NoneDue.amend (u := u) (hd₁.noneDue j) hmem
          (Shift.isRunning_iff.2 (.inl hstate))⟩, fun j => ?_⟩, hpolicy'⟩,
          fun w x hw hx hdue => ?_,
          fun j hj hj' => NoEnd.amend_of_ne (u := u) hj' hd₁.sound.named hj hregister⟩
        · by_cases hj : j = v.id
          · intro w x f hw hx hdecide
            obtain rfl := Option.some.inj ((find?_amend_self d₁ _ u _).symm.trans (hj ▸ hw))
            obtain rfl := Option.some.inj (hcurrent.symm.trans hx)
            obtain ⟨f', hf'⟩ := exists_decideOnBreak hregister hdecide
            exact hd₁.noBreak v.id v s f' hv hcome.currentShift?_eq hf'
          · exact NoBreak.amend_of_ne (u := u) (hd₁.noBreak j) hj hregister
        · obtain rfl := Option.some.inj ((find?_amend_self d₁ _ u _).symm.trans hw)
          obtain rfl := Option.some.inj (hcurrent.symm.trans hx)
          cases hdue.unplanned)
    (fun id hunknown v s hv => by simp [hunknown] at hv) ⟨hd, rfl⟩
  refine ⟨hd', fun horizon' hhorizon' => ?_⟩
  rw [hpolicy, hhorizon] at hhorizon'
  exact Except.ok.inj hhorizon' ▸ hall

/-- A dispatch at a boundary leaves nothing to be done. -/
theorem settled_of_dispatch (hsound : d.Sound) (hin : d.InOrder) (hfacilities : d.facilities.Named)
    (hboundary : d.isBoundary now) (h : d.dispatch now = .ok (d', out)) : d'.Settled now := by
  rcases phases_of_dispatch h with ⟨hoff, -⟩ | ⟨d₁, d₂, d₃, assigned, started, breaks, ends, -,
    hassign, hstart, hbreaks, hends, -⟩
  · simp [hoff] at hboundary
  · have hunder : Underway now { d with now } :=
      ⟨⟨hsound.named, hsound.fresh⟩, hin, hfacilities, rfl⟩
    have hassigned := allAssigned_of_assignShifts hunder hassign
    have hstarted := allStarted_of_startShifts hassigned hstart
    exact settled_of_scheduleEnds (breaksPlanned_of_scheduleBreaks hstarted hbreaks) hends

/-! ## Another dispatch -/

/-- If there is nothing to be done, a dispatch changes nothing. -/
theorem Settled.dispatch_eq (hd : d.Settled now) (h : d.dispatch now = .ok (d', out)) :
    d' = d ∧ out = [] := by
  rcases phases_of_dispatch h with ⟨-, rfl, rfl⟩ | ⟨d₁, d₂, d₃, assigned, started, breaks, ends, -,
    hassign, hstart, hbreaks, hends, rfl⟩
  · exact ⟨rfl, rfl⟩
  · have hsame : { d with now } = d := by rw [← hd.now_eq]
    rw [hsame] at hassign
    obtain ⟨rfl, rfl⟩ : d₁ = d ∧ assigned = [] := by
      obtain ⟨horizon, hhorizon, hassigns⟩ := assigns_of_assignShifts hassign
      refine hassigns.idle hd.sound.named rfl fun s hs => ?_
      obtain ⟨hlasts, hcause⟩ := hd.exhausted s hs
      refine ⟨hlasts, hcause.imp_left fun hbeyond => ?_⟩
      rw [Time.plus_eq_ok_iff.1 hhorizon] at hbeyond
      exact UInt64.lt_iff_toNat_lt.2 hbeyond
    obtain ⟨rfl, rfl⟩ : d₂ = d₁ ∧ started = [] := by
      refine (sweeps_of_startShifts hstart).idle fun id d' i hsome => ?_
      obtain ⟨shift, rfl, hdecision⟩ := decision_startShift hd.sound.named (Except.ok.inj hsome)
      cases hdecision with
      | start v before s after hv hrunning hsplit hbefore hwait hdue =>
        have hlater := hd.noneDue v.id v hv hrunning s (by simp [hsplit]) hwait
        exact UInt64.not_lt.2 hdue hlater
    obtain ⟨rfl, rfl⟩ : d₃ = d₂ ∧ breaks = [] := by
      refine (sweeps_of_scheduleBreaks hbreaks).idle fun id d' i hsome => ?_
      obtain ⟨shift, link, task, rfl, hdecision⟩ :=
        decision_scheduleBreak hd.sound.named hd.now_eq hsome
      cases hdecision with
      | planBreak v before s after w _ facilities facility hv hcome hnow hdecide =>
        exact hd.noBreak v.id v s _ hv hcome.currentShift?_eq hdecide
    obtain ⟨rfl, rfl⟩ : d' = d₃ ∧ ends = [] := by
      obtain ⟨horizon, hhorizon, hends⟩ := sweeps_of_scheduleEnds hends
      refine hends.idle fun id d' i hsome => ?_
      obtain ⟨shift, place, link, time, rfl, hdecision⟩ :=
        decision_scheduleEnd hd.sound.named hhorizon (Except.ok.inj hsome)
      cases hdecision with
      | planEnd v before s after _ facility facilities hv hcome hstate hend hpending hhorizon'
          hsoon hfacility =>
        obtain rfl := Except.ok.inj (hhorizon.symm.trans hhorizon')
        have hnone := hd.noEnd horizon hhorizon v.id v s hv hcome.currentShift?_eq
          ⟨hstate, hend, hpending, hsoon⟩
        simp [hnone] at hfacility
    exact ⟨rfl, rfl⟩

/-! ## Runs -/

/-- Whatever is asked of a dispatcher, its queues stand in order, its facilities are kept under
their names, and its policy stays. -/
theorem regular_run {policy : ShiftPolicy} {network : Network} {sites : List FacilitySite}
    {os : List Operation} (h : (opened policy network sites).run os = .ok d) :
    d.Sound ∧ d.InOrder ∧ d.facilities.Named ∧ d.policy = policy :=
  keeps_run (P := fun d => d.InOrder ∧ d.facilities.Named ∧ d.policy = policy)
    (fun _ _ hd hact hP => ⟨hact.inOrder hd hP.1,
      hact.every_facility Facilities.lasting_named hP.2.1, hact.policy_eq.trans hP.2.2⟩)
    (sound_opened policy network sites)
    ⟨fun _ _ hv => (nomatch hv), Facilities.named_ofSites sites, rfl⟩ h

/-- Whatever was asked of a dispatcher before, if it is made to dispatch twice at one time, the
second dispatch gives no instructions and changes nothing. -/
theorem dispatch_again_idle {policy : ShiftPolicy} {network : Network} {sites : List FacilitySite}
    {os : List Operation} {d₁ d₂ : Dispatcher} {again : List Instruction}
    (hrun : (opened policy network sites).run os = .ok d) (hfirst : d.dispatch now = .ok (d₁, out))
    (hagain : d₁.dispatch now = .ok (d₂, again)) : d₂ = d₁ ∧ again = [] := by
  obtain ⟨hsound, hin, hfacilities, -⟩ := regular_run hrun
  cases hboundary : d.isBoundary now with
  | true => exact (settled_of_dispatch hsound hin hfacilities hboundary hfirst).dispatch_eq hagain
  | false =>
    simp only [dispatch, hboundary, Bool.not_false, if_true, Except.ok.injEq,
      Prod.mk.injEq] at hfirst
    obtain ⟨rfl, -⟩ := hfirst
    simp only [dispatch, hboundary, Bool.not_false, if_true, Except.ok.injEq,
      Prod.mk.injEq] at hagain
    exact ⟨hagain.1.symm, hagain.2.symm⟩

/-- Two vehicles get a shift each, one of which starts and has its break reserved; a third shift has
nobody and a fourth one comes later. -/
theorem busy_morning_dispatched_twice :
    let network : Network := .ofLinks [{ id := ⟨"yard"⟩, source := ⟨0, 0⟩, target := ⟨0, 10⟩ }]
    let sites : List FacilitySite := [⟨⟨"hub"⟩, .hub, ⟨"yard"⟩, ⟨0, 5⟩, 1⟩]
    let os : List Operation := [.addVehicle { id := ⟨"bus"⟩, link := ⟨"yard"⟩ },
      .addVehicle { id := ⟨"van"⟩, link := ⟨"yard"⟩ },
      .addShift { id := ⟨"day"⟩, start := 0, finish := 7200, breakWindow := some ⟨600, 3600, 600⟩ },
      .addShift { id := ⟨"late"⟩, start := 600, finish := 3600 },
      .addShift { id := ⟨"later"⟩, start := 1200, finish := 3600 },
      .addShift { id := ⟨"night"⟩, start := 72000, finish := 75600 }]
    ∃ d d₁ d₂ again, (opened {} network sites).run os = .ok d ∧
      d.dispatch 0 = .ok (d₁, [.assigned ⟨"bus"⟩ ⟨"day"⟩, .assigned ⟨"van"⟩ ⟨"late"⟩,
        .started ⟨"bus"⟩ ⟨"day"⟩, .takeBreak ⟨"bus"⟩ ⟨"day"⟩ ⟨"yard"⟩ ⟨⟨"hub"⟩, 600, 1200⟩]) ∧
      d₁.unassigned.map (·.id) = [⟨"later"⟩, ⟨"night"⟩] ∧
      d₁.dispatch 0 = .ok (d₂, again) ∧ d₂ = d₁ ∧ again = [] := by
  intro network sites os
  have hout : ((opened {} network sites).run os).toOption.bind (fun d =>
      (d.dispatch 0).toOption.bind fun r => (r.1.dispatch 0).toOption.map fun _ =>
        (r.2, r.1.unassigned.map (·.id))) =
      some ([.assigned ⟨"bus"⟩ ⟨"day"⟩, .assigned ⟨"van"⟩ ⟨"late"⟩, .started ⟨"bus"⟩ ⟨"day"⟩,
        .takeBreak ⟨"bus"⟩ ⟨"day"⟩ ⟨"yard"⟩ ⟨⟨"hub"⟩, 600, 1200⟩], [⟨"later"⟩, ⟨"night"⟩]) := by
    decide +kernel
  cases hrun : (opened {} network sites).run os with
  | error halt => simp [hrun, Except.toOption] at hout
  | ok d =>
    cases hfirst : d.dispatch 0 with
    | error halt => simp [hrun, hfirst, Except.toOption] at hout
    | ok r =>
      obtain ⟨d₁, out⟩ := r
      cases hagain : d₁.dispatch 0 with
      | error halt => simp [hrun, hfirst, hagain, Except.toOption] at hout
      | ok r' =>
        obtain ⟨d₂, again⟩ := r'
        simp only [hrun, hfirst, hagain, Except.toOption, Option.bind_some, Option.map_some,
          Option.some.injEq, Prod.mk.injEq] at hout
        obtain ⟨rfl, hopen⟩ := hout
        obtain ⟨hsame, hnone⟩ := dispatch_again_idle hrun hfirst hagain
        exact ⟨d, d₁, d₂, again, rfl, hfirst, hopen, hagain, hsame, hnone⟩

end Dispatcher

end DialARide
