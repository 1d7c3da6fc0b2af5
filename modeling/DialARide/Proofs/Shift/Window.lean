import DialARide.Proofs.Shift.Effect
import DialARide.Proofs.Shift.Operation

/-!
# The window of a break

A break is reserved only while it can still be over in time if it starts at once. It does not
start before its window opens, however, so what is tested is not what is planned: a break is over
by the end of its window exactly if the window is long enough for it. One that is to last longer
than its window, or longer than the time up to the end of it, is reserved all the same.
-/

namespace DialARide

/-- A break of its full length lies between the earliest start and the latest end. -/
def BreakWindow.Fits (w : BreakWindow) : Prop :=
  w.earliestStart.toNat + w.duration.toNat ≤ w.latestEnd.toNat

/-- A break that is planned before its latest start is over by the end of its window exactly if it
fits into that. A break that is longer than the time up to the end of its window has zero as its
latest start. -/
theorem BreakWindow.finish_le_iff {w : BreakWindow} {now start finish : Time}
    (hnow : now ≤ w.latestStart) (hstart : start = max w.earliestStart now)
    (hfinish : Time.plus start w.duration = .ok finish) : finish ≤ w.latestEnd ↔ w.Fits := by
  rw [Time.plus_eq_ok_iff] at hfinish
  rw [latestStart, UInt64.le_iff_toNat_le, Time.toNat_minus] at hnow
  rw [UInt64.le_iff_toNat_le, Fits]
  have hcases : start = if w.earliestStart ≤ now then now else w.earliestStart := hstart
  split at hcases
  · next hopen =>
    rw [UInt64.le_iff_toNat_le] at hopen
    subst hcases
    omega
  · subst hcases
    omega

namespace Dispatcher

variable {d d' : Dispatcher} {now : Time} {out : List Instruction} {id : VehicleId}
  {shift : ShiftId} {w : BreakWindow} {f : FacilityId}

/-- A shift of a vehicle that was started has the break of its window reserved at a facility. -/
def HasBreak (d : Dispatcher) (id : VehicleId) (shift : ShiftId) (w : BreakWindow)
    (f : FacilityId) : Prop :=
  ∃ v s, d.vehicles.find? id = some v ∧ s ∈ v.shifts ∧ s.id = shift ∧ s.state = .started ∧
    s.breakWindow = some w ∧ s.breakFacility = some f

/-- A break stays reserved when a vehicle is changed and its started shifts with breaks are not. -/
theorem HasBreak.amend {u v : Vehicle} (h : d.HasBreak id shift w f)
    (hv : d.vehicles.find? u.id = some v)
    (hkeep : ∀ s ∈ v.shifts, s.state = .started → s.breakFacility = some f → ∃ t ∈ u.shifts,
      t.toShiftPlan = s.toShiftPlan ∧ t.state = .started ∧ t.breakFacility = some f)
    (facilities : Facilities) (e : ShiftEvent) :
    (d.amend facilities u e).HasBreak id shift w f := by
  obtain ⟨x, s, hx, hs, hid, hstate, hw, hf⟩ := h
  by_cases hu : u.id = id
  · subst hu
    obtain rfl := Option.some.inj (hv.symm.trans hx)
    obtain ⟨t, ht, hplan, hstate', hf'⟩ := hkeep s hs hstate hf
    refine ⟨u, t, by simp, ht, ?_, hstate', ?_, hf'⟩
    · exact (congrArg ShiftPlan.id hplan).trans hid
    · exact (congrArg ShiftPlan.breakWindow hplan).trans hw
  · exact ⟨x, s, by simpa [hu] using hx, hs, hid, hstate, hw, hf⟩

/-- A break that was reserved is still reserved after any other decision. A shift other than the one
that is replaced stays in its queue. -/
theorem Decision.hasBreak {i : Option Instruction} (h : d.Decision now d' i)
    (hb : d.HasBreak id shift w f) : d'.HasBreak id shift w f := by
  have hother {before after : List Shift} {s t x : Shift} (hx : x ∈ before ++ s :: after)
      (hne : x ≠ s) : x ∈ before ++ t :: after := by
    simp only [List.mem_append, List.mem_cons, hne, false_or] at hx ⊢
    exact hx.imp_right .inr
  cases h with
  | tick | expire => exact hb
  | assign before s after horizon v hopen hlasts hhorizon hstart hv =>
    have hb' : HasBreak { d with unassigned := before ++ after } id shift w f := hb
    refine hb'.amend (u := v.assign s) hv (fun x hx hstate hf => ?_) d.facilities _
    exact ⟨x, Vehicle.mem_insertByStart.2 (.inr hx), rfl, hstate, hf⟩
  | start v before s after hv hrunning hsplit hbefore hwait =>
    refine hb.amend (u := { v with shifts := before ++ { s with state := .started } :: after }) hv
      (fun x hx hstate hf => ⟨x, hother (hsplit ▸ hx) ?_, rfl, hstate, hf⟩) _ _
    rintro rfl
    simp [hwait] at hstate
  | planBreak v before s after window task facilities facility hv hcome hnow hdecide =>
    obtain ⟨-, hnone, -⟩ := decideOnBreak_eq_ok_some hdecide
    refine hb.amend (u := { v with shifts := before ++ s.planBreak task.facility :: after }) hv
      (fun x hx hstate hf => ⟨x, hother (hcome.split ▸ hx) ?_, rfl, hstate, hf⟩) _ _
    rintro rfl
    simp [hnone] at hf
  | planEnd v before s after horizon facility facilities hv hcome =>
    refine hb.amend (u := { v with shifts := before ++ s.planEnd facility.id :: after }) hv
      (fun x hx hstate hf => ?_) _ _
    by_cases hxs : x = s
    · subst hxs
      exact ⟨x.planEnd facility.id, by simp, rfl, hstate, hf⟩
    · exact ⟨x, hother (hcome.split ▸ hx) hxs, rfl, hstate, hf⟩

/-- Every instruction of a dispatch comes from one decision, with others before and after it. -/
theorem Decisions.exists_of_mem {i : Instruction} (h : Decisions now d d' out) (hd : d.Named)
    (hi : i ∈ out) : ∃ (d₁ d₂ : Dispatcher) (rest : List Instruction), d₁.Named ∧
      d₁.Decision now d₂ (some i) ∧ Decisions now d₂ d' rest := by
  induction h with
  | nil => cases hi
  | @cons d d₁ d₂ j out hfirst hrest ih =>
    rcases List.mem_append.1 hi with hhead | htail
    · obtain rfl := Option.mem_toList.1 hhead
      exact ⟨d, d₁, out, hd, hfirst, hrest⟩
    · exact ih (hfirst.named hd) htail

/-- A break that a dispatch reserves starts as soon as the present and its window allow, and lasts
as long as it is to last. It is over by the end of its window exactly if it fits into that. -/
theorem reserved_break_in_window_iff {link : LinkId} {task : BreakTask} (hd : d.Named)
    (h : d.dispatch now = .ok (d', out)) (hbreak : .takeBreak id shift link task ∈ out) :
    ∃ w, d'.HasBreak id shift w task.facility ∧ task.start = max w.earliestStart now ∧
      task.start.toNat + w.duration.toNat = task.finish.toNat ∧
      (task.finish ≤ w.latestEnd ↔ w.Fits) := by
  obtain ⟨d₁, d₂, rest, -, hdecision, hrest⟩ :=
    (decisions_dispatch hd h).exists_of_mem hd hbreak
  cases hdecision with
  | planBreak v before s after w _ facilities facility hv hcome hnow hdecide hw hregister hfacility
      hstart hfinish =>
    obtain ⟨hstate, -, -, w', hw', hlate⟩ := decideOnBreak_eq_ok_some hdecide
    obtain rfl := Option.some.inj (hw.symm.trans hw')
    refine ⟨w, ?_, hstart, Time.plus_eq_ok_iff.1 hfinish, ?_⟩
    · refine hrest.keeps (fun _ _ _ hdecision hb => hdecision.hasBreak hb) ?_
      let u : Vehicle := { v with shifts := before ++ s.planBreak task.facility :: after }
      exact ⟨u, s.planBreak task.facility, d₁.find?_amend_self facilities u _, by simp [u], rfl,
        hstate, hw, rfl⟩
    · exact w.finish_le_iff (hnow ▸ hlate) hstart hfinish

/-- The windows of the breaks of a vehicle's shifts. -/
def windowsOf (d : Dispatcher) (id : VehicleId) : List (Option BreakWindow) :=
  ((d.vehicles.find? id).map fun v => v.shifts.map (·.breakWindow)).getD []

theorem HasBreak.mem_windowsOf (h : d.HasBreak id shift w f) : some w ∈ d.windowsOf id := by
  obtain ⟨v, s, hv, hs, -, -, hw, -⟩ := h
  rw [windowsOf, hv, ← hw]
  exact List.mem_map_of_mem hs

/-- Two breaks are reserved that end late: one is longer than its window, and one is longer than the
time up to the end of it. -/
theorem long_breaks_reserved :
    let network : Network := .ofLinks [{ id := ⟨"yard"⟩, source := ⟨0, 0⟩, target := ⟨0, 10⟩ }]
    let sites : List FacilitySite := [⟨⟨"hub"⟩, .hub, ⟨"yard"⟩, ⟨0, 5⟩, 4⟩]
    let plan (id : ShiftId) (w : BreakWindow) : ShiftPlan :=
      { id, start := 0, finish := 28800, breakWindow := some w }
    let os : List Operation := [.addVehicle { id := ⟨"bus"⟩, link := ⟨"yard"⟩ },
      .addVehicle { id := ⟨"van"⟩, link := ⟨"yard"⟩ },
      .addShift (plan ⟨"day"⟩ ⟨300, 600, 400⟩), .addShift (plan ⟨"early"⟩ ⟨0, 100, 200⟩)]
    ∃ d d' out, (opened {} network sites).run os = .ok d ∧ d.Named ∧
      d.dispatch 0 = .ok (d', out) ∧
      .takeBreak ⟨"bus"⟩ ⟨"day"⟩ ⟨"yard"⟩ ⟨⟨"hub"⟩, 300, 700⟩ ∈ out ∧
      d'.HasBreak ⟨"bus"⟩ ⟨"day"⟩ ⟨300, 600, 400⟩ ⟨"hub"⟩ ∧ ¬ BreakWindow.Fits ⟨300, 600, 400⟩ ∧
      .takeBreak ⟨"van"⟩ ⟨"early"⟩ ⟨"yard"⟩ ⟨⟨"hub"⟩, 0, 200⟩ ∈ out ∧
      d'.HasBreak ⟨"van"⟩ ⟨"early"⟩ ⟨0, 100, 200⟩ ⟨"hub"⟩ ∧ ¬ BreakWindow.Fits ⟨0, 100, 200⟩ := by
  intro network sites plan os
  have hout : ((opened {} network sites).run os).toOption.bind (fun d =>
      (d.dispatch 0).toOption.map fun r => (
        decide (.takeBreak ⟨"bus"⟩ ⟨"day"⟩ ⟨"yard"⟩ ⟨⟨"hub"⟩, 300, 700⟩ ∈ r.2),
        decide (.takeBreak ⟨"van"⟩ ⟨"early"⟩ ⟨"yard"⟩ ⟨⟨"hub"⟩, 0, 200⟩ ∈ r.2),
        r.1.windowsOf ⟨"bus"⟩, r.1.windowsOf ⟨"van"⟩)) =
      some (true, true, [some ⟨300, 600, 400⟩], [some ⟨0, 100, 200⟩]) := by
    decide +kernel
  cases hrun : (opened {} network sites).run os with
  | error halt => simp [hrun, Except.toOption] at hout
  | ok d =>
    cases hdispatch : d.dispatch 0 with
    | error halt => simp [hrun, hdispatch, Except.toOption] at hout
    | ok r =>
      obtain ⟨d', out⟩ := r
      simp only [hrun, hdispatch, Except.toOption, Option.bind_some, Option.map_some,
        Option.some.injEq, Prod.mk.injEq, decide_eq_true_eq] at hout
      obtain ⟨hbus, hvan, hbusWindow, hvanWindow⟩ := hout
      have hnamed : d.Named := (sound_run (sound_opened {} network sites) hrun).named
      obtain ⟨w, hw, -, -, hfits⟩ := reserved_break_in_window_iff hnamed hdispatch hbus
      obtain ⟨w', hw', -, -, hfits'⟩ := reserved_break_in_window_iff hnamed hdispatch hvan
      obtain rfl : w = ⟨300, 600, 400⟩ := by simpa [hbusWindow] using hw.mem_windowsOf
      obtain rfl : w' = ⟨0, 100, 200⟩ := by simpa [hvanWindow] using hw'.mem_windowsOf
      exact ⟨d, d', out, rfl, hnamed, hdispatch, hbus, hw, fun h => absurd (hfits.2 h) (by decide),
        hvan, hw', fun h => absurd (hfits'.2 h) (by decide)⟩

end Dispatcher

end DialARide
