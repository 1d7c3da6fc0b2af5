import DialARide.Proofs.Shift.Conservation
import DialARide.Proofs.Shift.Separation
import DialARide.World.Setup

/-!
# Which look-aheads are too long

A dispatch adds its look-aheads and the changeover to times, and a sum that does not fit halts it.
A configuration is accepted with look-aheads of any length. Where shifts and operations keep to the
first 2³² seconds no dispatch is ever halted just if the look-aheads fit behind the last boundary of
that time, and the changeover behind its end. The sum of a break's begin and duration always fits.
-/

namespace DialARide

/-- The end of the time within which shifts are planned and operations are carried out. -/
def Time.latest : Time := 4294967296

/-- A shift is planned with early times only. -/
structure ShiftPlan.Early (p : ShiftPlan) : Prop where
  start : p.start ≤ .latest
  finish : p.finish ≤ .latest
  window : ∀ w ∈ p.breakWindow,
    w.earliestStart ≤ .latest ∧ w.latestEnd ≤ .latest ∧ w.duration ≤ .latest

/-- The last early time at which a dispatch does something. -/
def ShiftPolicy.lastBoundary (p : ShiftPolicy) : Nat :=
  Time.latest.toNat / p.dispatchInterval.toNat * p.dispatchInterval.toNat

/-- All sums of early times and the durations of a policy fit. -/
structure ShiftPolicy.SumsFit (p : ShiftPolicy) : Prop where
  assign : p.lastBoundary + p.assignLookAhead.toNat < UInt64.size
  endShift : p.lastBoundary + p.endLookAhead.toNat < UInt64.size
  takeBreak : p.lastBoundary + p.breakLookAhead.toNat < UInt64.size
  changeover : Time.latest.toNat + p.changeover.toNat < UInt64.size

namespace Dispatcher

/-- An operation is carried out early, or adds a shift that is planned early. -/
def Operation.Early : Operation → Prop
  | .addShift plan => plan.Early
  | .dispatch now | .startBreak _ _ now | .endBreak _ _ now | .endShift _ _ now => now ≤ .latest
  | .addVehicle _ | .updateVehicle .. | .drain => True

variable {d d' : Dispatcher} {now start horizon : Time} {id : VehicleId} {v : Vehicle} {s : Shift}
  {policy : ShiftPolicy} {vs : List Vehicle} {os : List Operation} {o : Operation}
  {out : List Instruction}

/-! ## Selection -/

/-- The changeover behind the end of a shift fits. -/
def MakesRoom (changeover : Time) (s : Shift) : Prop :=
  s.finish.toNat + changeover.toNat < UInt64.size

/-- Shifts whose changeovers fit can be compared with a start. -/
private theorem exists_allEndBefore {changeover : Time} {l : List Shift}
    (h : ∀ s ∈ l, MakesRoom changeover s) :
    ∃ b, Vehicle.allEndBefore start changeover l = .ok b := by
  induction l with
  | nil => exact ⟨true, rfl⟩
  | cons s rest ih =>
    obtain ⟨sum, hsum⟩ := Time.exists_plus_iff.2 (h s List.mem_cons_self)
    obtain ⟨b, hb⟩ := ih fun t ht => h t (List.mem_cons_of_mem s ht)
    unfold Vehicle.allEndBefore
    by_cases hle : sum ≤ start <;>
      simp [hsum, hle, hb, Bind.bind, Except.bind, Pure.pure, Except.pure]

/-- A vehicle whose changeovers fit is a candidate or is not. -/
private theorem exists_isCandidate (h : ∀ s ∈ v.shifts, MakesRoom d.policy.changeover s)
    (start : Time) :
    ∃ b, d.isCandidate start v = .ok b := by
  unfold isCandidate
  split
  · exact exists_allEndBefore fun s hs => h s (List.mem_filter.1 hs).1
  · exact ⟨false, rfl⟩

/-- Candidates can be told among vehicles whose changeovers fit. -/
private theorem exists_candidates (h : ∀ v ∈ vs, ∀ s ∈ v.shifts, MakesRoom d.policy.changeover s)
    (start : Time) : ∃ cs, d.candidates start vs = .ok cs := by
  induction vs with
  | nil => exact ⟨[], rfl⟩
  | cons v rest ih =>
    obtain ⟨b, hb⟩ := exists_isCandidate (h v List.mem_cons_self) start
    obtain ⟨cs, hcs⟩ := ih fun u hu => h u (List.mem_cons_of_mem v hu)
    unfold candidates
    cases b <;> simp [hb, hcs, Bind.bind, Except.bind, Pure.pure, Except.pure]

/-- A vehicle can be selected among those whose changeovers fit. -/
private theorem exists_firstCandidate
    (h : ∀ v ∈ vs, ∀ s ∈ v.shifts, MakesRoom d.policy.changeover s)
    (start : Time) : ∃ selected, d.firstCandidate start vs = .ok selected := by
  induction vs with
  | nil => exact ⟨none, rfl⟩
  | cons v rest ih =>
    obtain ⟨b, hb⟩ := exists_isCandidate (h v List.mem_cons_self) start
    obtain ⟨selected, hselected⟩ := ih fun u hu => h u (List.mem_cons_of_mem v hu)
    unfold firstCandidate
    cases b <;> simp [hb, hselected, Bind.bind, Except.bind, Pure.pure, Except.pure]

/-- A vehicle can be looked for where the changeover behind every shift fits. -/
theorem exists_selectVehicle (h : ∀ t ∈ d.queued, MakesRoom d.policy.changeover t) :
    ∃ selected, d.selectVehicle s = .ok selected := by
  have hvs : ∀ v ∈ d.vehicles.values, ∀ t ∈ v.shifts, MakesRoom d.policy.changeover t :=
    fun v hv t ht => h t (List.mem_flatMap.2 ⟨v, hv, ht⟩)
  unfold selectVehicle
  split
  · obtain ⟨cs, hcs⟩ := exists_candidates hvs s.start
    exact ⟨_, by simp only [hcs, Bind.bind, Except.bind]; rfl⟩
  · exact exists_firstCandidate hvs s.start

/-! ## One phase -/

/-- A vehicle that a shift is assigned to adds that shift to the queues. -/
theorem queued_assign {facilities : Facilities} {e : ShiftEvent} {t : Shift}
    (hv : v ∈ d.vehicles.values) (ht : t ∈ (d.amend facilities (v.assign s) e).queued) :
    t = s ∨ t ∈ d.queued := by
  obtain ⟨id, w, hw, ht⟩ := mem_queued_iff.1 ht
  rcases find?_amend hw with ⟨-, rfl⟩ | ⟨-, hold⟩
  · exact (Vehicle.mem_insertByStart.1 ht).imp_right fun ht => List.mem_flatMap.2 ⟨v, hv, ht⟩
  · exact .inr (mem_queued_iff.2 ⟨id, w, hold, ht⟩)

/-- Shifts can be assigned where the changeover behind every shift fits. -/
theorem exists_assignEach {rest : List Shift}
    (hqueued : ∀ t ∈ d.queued, MakesRoom d.policy.changeover t)
    (hrest : ∀ t ∈ rest, MakesRoom d.policy.changeover t) (now horizon : Time) :
    ∃ outcome, d.assignEach now horizon rest = .ok outcome := by
  induction rest generalizing d with
  | nil => exact ⟨_, rfl⟩
  | cons s rest ih =>
    have hrest' : ∀ t ∈ rest, MakesRoom d.policy.changeover t :=
      fun t ht => hrest t (List.mem_cons_of_mem s ht)
    obtain ⟨left, hleft⟩ := ih hqueued hrest'
    obtain ⟨selected, hselected⟩ := exists_selectVehicle (s := s) hqueued
    unfold assignEach
    split
    · exact ⟨left, hleft⟩
    · by_cases hbeyond : horizon < s.start
      · simp [hbeyond, hleft, Bind.bind, Except.bind, Pure.pure, Except.pure]
      · cases selected with
        | none => simp [hbeyond, hselected, hleft, Bind.bind, Except.bind, Pure.pure, Except.pure]
        | some v =>
          have hv := (mem_of_selectVehicle hselected).1
          let e : ShiftEvent := { time := now, kind := .assigned, vehicle := v.id, shift := s.id }
          have hqueued' : ∀ t ∈ (d.amend d.facilities (v.assign s) e).queued,
              MakesRoom d.policy.changeover t := fun t ht => by
            rcases queued_assign hv ht with rfl | ht
            · exact hrest t List.mem_cons_self
            · exact hqueued t ht
          obtain ⟨outcome, houtcome⟩ :=
            ih (d := d.amend d.facilities (v.assign s) e) hqueued' hrest'
          have houtcome' : ((d.setVehicle (v.assign s)).log e).assignEach now horizon rest =
              .ok outcome := houtcome
          simp [hbeyond, hselected, houtcome', e, Bind.bind, Except.bind, Pure.pure, Except.pure]

/-- A phase is not halted where none of its steps is. -/
theorem exists_sweep {P : Dispatcher → Prop} {ids : List VehicleId}
    {step : Dispatcher → VehicleId → Except Halt (Option (Dispatcher × Instruction))}
    (hstep : ∀ d id, P d → ∃ outcome, step d id = .ok outcome ∧
      ∀ d' i, outcome = some (d', i) → P d') (hd : P d) :
    ∃ d' out, sweep step d ids = .ok (d', out) ∧ P d' := by
  induction ids generalizing d with
  | nil => exact ⟨d, [], rfl, hd⟩
  | cons id rest ih =>
    obtain ⟨outcome, hone, hkeep⟩ := hstep d id hd
    unfold sweep
    cases outcome with
    | none =>
      obtain ⟨d', out, hrest, hd'⟩ := ih hd
      exact ⟨d', out, by simp [hone, hrest, Bind.bind, Except.bind], hd'⟩
    | some change =>
      obtain ⟨d', out, hrest, hd'⟩ := ih (hkeep change.1 change.2 rfl)
      exact ⟨d', change.2 :: out,
        by simp [hone, hrest, Bind.bind, Except.bind, Pure.pure, Except.pure], hd'⟩

/-- A break can be decided on where the look-ahead fits behind the last dispatch. -/
theorem exists_breakDecision (h : d.now.toNat + d.policy.breakLookAhead.toNat < UInt64.size)
    (v : Vehicle) (s : Shift) : ∃ decision, d.decideOnBreak v s = .ok decision := by
  obtain ⟨sum, hsum⟩ := Time.exists_plus_iff.2 h
  unfold decideOnBreak
  split
  · exact ⟨none, rfl⟩
  · split
    · exact ⟨none, rfl⟩
    · simp only [hsum, Bind.bind, Except.bind]
      split
      · exact ⟨_, rfl⟩
      · split <;> exact ⟨_, rfl⟩

/-! ## A whole dispatch -/

/-- A dispatcher goes by a policy, and all its shifts are planned early. -/
structure Modest (policy : ShiftPolicy) (d : Dispatcher) : Prop where
  sound : d.Sound
  policy_eq : d.policy = policy
  early : ∀ p ∈ d.kept, p.Early

/-- A shift that was assigned is planned early. -/
theorem Modest.early_of_mem_queued (hd : d.Modest policy) (hs : s ∈ d.queued) : s.Early :=
  hd.early s.toShiftPlan (List.mem_map_of_mem (List.mem_append_right d.unassigned hs))

/-- Every decision leaves a dispatcher modest. -/
theorem Decision.modest {i : Option Instruction} (h : d.Decision now d' i)
    (hd : d.Modest policy) : d'.Modest policy := by
  refine ⟨(Act.decided h).sound hd.sound, h.policy_eq.trans hd.policy_eq, fun p hp => hd.early p ?_⟩
  rcases h.effect.kept_or_dropped with hkept | ⟨-, t, -, -, hdropped⟩
  · exact hkept.mem_iff.2 hp
  · exact hdropped.mem_iff.2 (List.mem_cons_of_mem _ hp)

/-- The break of a vehicle can be reserved early where the look-ahead fits. Its begin and its
duration are early, so their sum fits. -/
theorem exists_scheduleBreak (hd : d.Modest policy) (hnow : d.now = now) (hearly : now ≤ .latest)
    (hsum : now.toNat + policy.breakLookAhead.toNat < UInt64.size) (id : VehicleId) :
    ∃ outcome, d.scheduleBreak now id = .ok outcome := by
  unfold scheduleBreak
  cases hv : d.vehicles.find? id with
  | none => exact ⟨none, rfl⟩
  | some v =>
    cases hs : v.currentShift? with
    | none => exact ⟨none, by simp [hs, Pure.pure, Except.pure]⟩
    | some s =>
      obtain ⟨decision, hdecision⟩ : ∃ decision, d.decideOnBreak v s = .ok decision :=
        exists_breakDecision (by rw [hnow, hd.policy_eq]; exact hsum) v s
      have hplanned : s.Early := hd.early_of_mem_queued
        (mem_queued_iff.2 ⟨id, v, hv, Vehicle.mem_of_currentShift? hs⟩)
      simp only [hs, hdecision, Bind.bind, Except.bind]
      split
      · split
        · next w hw =>
          obtain ⟨hopen, -, hduration⟩ := hplanned.window w hw
          have hbegin : max w.earliestStart now ≤ .latest := by
            show (if w.earliestStart ≤ now then now else w.earliestStart) ≤ .latest
            split
            · exact hearly
            · exact hopen
          have hfits : (max w.earliestStart now).toNat + w.duration.toNat < UInt64.size := by
            rw [UInt64.le_iff_toNat_le] at hbegin hduration
            exact Nat.lt_of_le_of_lt (Nat.add_le_add hbegin hduration) (by decide)
          obtain ⟨finish, hfinish⟩ := Time.exists_plus_iff.2 hfits
          simp only [hfinish]
          split
          · split <;> exact ⟨_, rfl⟩
          · exact ⟨_, rfl⟩
        · exact ⟨_, rfl⟩
      · exact ⟨_, rfl⟩

/-- A dispatch at an early time is not halted where its sums fit. While it is under way the
dispatcher stays modest, and goes by the time. -/
theorem exists_dispatch (hd : d.Modest policy) (hearly : now ≤ .latest)
    (hassign : now.toNat + policy.assignLookAhead.toNat < UInt64.size)
    (hbreak : now.toNat + policy.breakLookAhead.toNat < UInt64.size)
    (hend : now.toNat + policy.endLookAhead.toNat < UInt64.size)
    (hchangeover : Time.latest.toNat + policy.changeover.toNat < UInt64.size) :
    ∃ outcome, d.dispatch now = .ok outcome := by
  let P (e : Dispatcher) : Prop := e.Modest policy ∧ e.now = now
  have hkeep {e e' : Dispatcher} {i : Option Instruction} (h : e.Decision now e' i) (he : P e) :
      P e' := ⟨h.modest he.1, h.now_eq he.2⟩
  have hstart : P { d with now } :=
    ⟨⟨⟨hd.sound.named, hd.sound.fresh⟩, hd.policy_eq, hd.early⟩, rfl⟩
  have hroom : ∀ t, t.toShiftPlan ∈ d.kept → MakesRoom d.policy.changeover t := fun t ht => by
    have hfinish := UInt64.le_iff_toNat_le.1 (hd.early _ ht).finish
    rw [MakesRoom, hd.policy_eq]
    exact Nat.lt_of_le_of_lt (Nat.add_le_add_right hfinish _) hchangeover
  obtain ⟨horizon, hhorizon⟩ := Time.exists_plus_iff.2 hassign
  have hqueued : ∀ t ∈ d.queued, MakesRoom d.policy.changeover t :=
    fun t ht => hroom t (List.mem_map_of_mem (List.mem_append_right d.unassigned ht))
  have hopen : ∀ t ∈ d.unassigned, MakesRoom d.policy.changeover t :=
    fun t ht => hroom t (List.mem_map_of_mem (List.mem_append_left d.queued ht))
  obtain ⟨⟨a, assigned⟩, ha⟩ :=
    exists_assignEach (d := { d with now, unassigned := [] }) hqueued hopen now horizon
  have ha : assignShifts { d with now } now = .ok (a, assigned) := by
    simpa [assignShifts, hd.policy_eq, hhorizon, Bind.bind, Except.bind] using ha
  have hPa : P a := (decisions_assignShifts hstart.1.sound.named ha).keeps
    (fun _ _ _ h => hkeep h) hstart
  obtain ⟨b, started, hb, hPb⟩ : ∃ b out, a.startShifts now = .ok (b, out) ∧ P b := by
    refine exists_sweep (fun e id he => ⟨_, rfl, fun e' i hi => ?_⟩) hPa
    obtain ⟨_, -, hdecision⟩ := decision_startShift he.1.sound.named hi
    exact hkeep hdecision he
  obtain ⟨c, breaks, hc, hPc⟩ : ∃ c out, b.scheduleBreaks now = .ok (c, out) ∧ P c := by
    refine exists_sweep (fun e id he => ?_) hPb
    obtain ⟨outcome, houtcome⟩ := exists_scheduleBreak he.1 he.2 hearly hbreak id
    refine ⟨outcome, houtcome, fun e' i hi => ?_⟩
    obtain ⟨_, _, _, -, hdecision⟩ :=
      decision_scheduleBreak he.1.sound.named he.2 (hi ▸ houtcome)
    exact hkeep hdecision he
  obtain ⟨last, hlast⟩ := Time.exists_plus_iff.2 hend
  obtain ⟨d', ends, hd', -⟩ : ∃ d' out,
      sweep (fun e id => .ok (e.scheduleEnd now last id)) c c.vehicles.keys = .ok (d', out) ∧
        P d' := by
    refine exists_sweep (fun e id he => ⟨_, rfl, fun e' i hi => ?_⟩) hPc
    obtain ⟨_, _, _, _, -, hdecision⟩ :=
      decision_scheduleEnd he.1.sound.named (he.1.policy_eq ▸ hlast) hi
    exact hkeep hdecision he
  have hends : c.scheduleEnds now = .ok (d', ends) := by
    simpa [scheduleEnds, hPc.1.policy_eq, hlast, Bind.bind, Except.bind] using hd'
  unfold dispatch
  split
  · exact ⟨_, rfl⟩
  · simp [ha, hb, hc, hends, Bind.bind, Except.bind, Pure.pure, Except.pure]

/-! ## Runs -/

/-- An operation keeps no shift but those that were kept and the one that it brings. -/
theorem Performed.plan_or_mem_kept (h : d.Performed o d') {p : ShiftPlan} (hp : p ∈ d'.kept) :
    o.plan? = some p ∨ p ∈ d.kept := by
  by_cases hvehicle : o.vehicle? = none
  · obtain ⟨lost, hperm, -⟩ := h.perm_kept (by simp [hvehicle])
    simpa using hperm.mem_iff.2 (List.mem_append_right lost hp)
  · cases h with
    | joined entry facilities =>
      obtain ⟨t, ht, rfl⟩ := List.mem_map.1 hp
      refine .inr (List.mem_map_of_mem ((List.mem_append.1 ht).elim (List.mem_append_left _) ?_))
      refine fun ht => List.mem_append_right _ (mem_queued_iff.2 ?_)
      obtain ⟨id, w, hw, ht⟩ := mem_queued_iff.1 ht
      rcases Table.find?_insert_eq_some_iff.1 hw with ⟨-, rfl⟩ | ⟨-, hold⟩
      · cases ht
      · exact ⟨id, w, hold, ht⟩
    | refused _ hnone => exact absurd hnone hvehicle
    | reported _ _ _ _ _ _ hreports => exact absurd hreports.adds_nothing.1 hvehicle
    | offered | moved | dispatched | drained => exact absurd rfl hvehicle

/-- The time of the last dispatch changes with a dispatch at a boundary only. -/
theorem Performed.now_eq (h : d.Performed o d') :
    d'.now = d.now ∨ ∃ now, o = .dispatch now ∧ d.isBoundary now ∧ d'.now = now := by
  cases h with
  | dispatched now _ out hboundary hdecisions =>
    have hnow : d'.now = d.now ∨ d'.now = now :=
      hdecisions.keeps (P := fun e => e.now = d.now ∨ e.now = now)
        (fun e e' i hdecision he => by
          cases hdecision with
          | tick => exact .inr rfl
          | _ => exact he) (.inl rfl)
    exact hnow.imp_right fun hnow => ⟨now, rfl, hboundary, hnow⟩
  | reported _ _ _ _ hreport => cases hreport <;> exact .inl rfl
  | refused | joined | offered | moved | drained => exact .inl rfl

/-- An early boundary is none behind the last one. -/
theorem le_lastBoundary (hd : d.policy = policy) (hinterval : policy.dispatchInterval ≠ 0)
    (hearly : now ≤ .latest) (h : d.isBoundary now) : now.toNat ≤ policy.lastBoundary := by
  have hmod : now % policy.dispatchInterval = 0 := by
    simpa [isBoundary, hd, Time.max_one_eq_self hinterval] using h
  have hdvd : policy.dispatchInterval.toNat ∣ now.toNat := by
    apply Nat.dvd_of_mod_eq_zero
    rw [← UInt64.toNat_mod, hmod, UInt64.toNat_zero]
  calc now.toNat = now.toNat / policy.dispatchInterval.toNat * policy.dispatchInterval.toNat :=
      (Nat.div_mul_cancel hdvd).symm
    _ ≤ policy.lastBoundary := Nat.mul_le_mul_right _
      (Nat.div_le_div_right (UInt64.le_iff_toNat_le.1 hearly))

/-- An early operation is not halted, and leaves a modest dispatcher so. -/
theorem exists_perform (hfit : policy.SumsFit) (hinterval : policy.dispatchInterval ≠ 0)
    (hd : d.Modest policy) (hnow : d.now.toNat ≤ policy.lastBoundary) (ho : o.Early) :
    ∃ d', d.perform o = .ok d' ∧ d'.Modest policy ∧ d'.now.toNat ≤ policy.lastBoundary := by
  obtain ⟨d', hd'⟩ : ∃ d', d.perform o = .ok d' := by
    cases o with
    | dispatch now =>
      by_cases hboundary : d.isBoundary now
      · have hle := le_lastBoundary hd.policy_eq hinterval ho hboundary
        obtain ⟨outcome, houtcome⟩ := exists_dispatch hd ho
          (Nat.lt_of_le_of_lt (Nat.add_le_add_right hle _) hfit.assign)
          (Nat.lt_of_le_of_lt (Nat.add_le_add_right hle _) hfit.takeBreak)
          (Nat.lt_of_le_of_lt (Nat.add_le_add_right hle _) hfit.endShift) hfit.changeover
        exact ⟨outcome.1, by
          simp [perform, houtcome, Bind.bind, Except.bind, Pure.pure, Except.pure]⟩
      · exact ⟨d, by simp [perform, dispatch, hboundary, Bind.bind, Except.bind, Pure.pure,
          Except.pure]⟩
    | _ => exact ⟨_, rfl⟩
  obtain ⟨hsound, hpolicy⟩ := keeps_perform (P := fun d => d.policy = policy)
    (fun _ _ _ hact hd => hact.policy_eq.trans hd) hd.sound hd.policy_eq hd'
  have hperformed := performed_of_perform hd.sound.named hd'
  refine ⟨d', hd', ⟨hsound, hpolicy, fun p hp => ?_⟩, ?_⟩
  · rcases hperformed.plan_or_mem_kept hp with hplan | hp
    · cases o with
      | addShift plan => exact Option.some.inj hplan ▸ ho
      | _ => cases hplan
    · exact hd.early p hp
  · rcases hperformed.now_eq with hsame | ⟨now, rfl, hboundary, hlater⟩
    · exact hsame ▸ hnow
    · exact hlater ▸ le_lastBoundary hd.policy_eq hinterval ho hboundary

/-- No run of early operations is halted. -/
theorem exists_run (hfit : policy.SumsFit) (hinterval : policy.dispatchInterval ≠ 0)
    (hd : d.Modest policy) (hnow : d.now.toNat ≤ policy.lastBoundary) (hos : ∀ o ∈ os, o.Early) :
    ∃ d', d.run os = .ok d' ∧ d'.Modest policy ∧ d'.now.toNat ≤ policy.lastBoundary := by
  induction os generalizing d with
  | nil => exact ⟨d, rfl, hd, hnow⟩
  | cons o rest ih =>
    obtain ⟨d₁, hone, hd₁, hnow₁⟩ :=
      exists_perform hfit hinterval hd hnow (hos o List.mem_cons_self)
    obtain ⟨d', hrest, hd', hnow'⟩ := ih hd₁ hnow₁ fun o ho => hos o (List.mem_cons_of_mem _ ho)
    exact ⟨d', by simp [run, hone, hrest, Bind.bind, Except.bind], hd', hnow'⟩

/-! ## Times that are too long -/

namespace OneBus

/-- A shift that lasts as long as is early, with a break at any time. -/
def allDay (id : ShiftId) : ShiftPlan :=
  { id, start := 0, finish := .latest, breakWindow := some ⟨0, .latest, 0⟩ }

/-- One bus, which is nowhere, and the given shifts. -/
def setup (c : Config) (shifts : List ShiftPlan) : Setup :=
  { config := c, network := {}, vehicles := [{ id := ⟨"bus"⟩, link := ⟨"moor"⟩ }], shifts }

/-- The bus with a shift that it is still to start. -/
def waiting : Vehicle :=
  { id := ⟨"bus"⟩, link := ⟨"moor"⟩, shifts := [{ toShiftPlan := allDay ⟨"day"⟩ }] }

/-- The shift of the bus when it has started. -/
def driven : Shift := { allDay ⟨"day"⟩ with state := .started }

/-- The bus with the shift that it has started. -/
def busy : Vehicle := { waiting with shifts := [driven] }

/-- The bus is driven, and there is nothing else. -/
structure Drives (d : Dispatcher) : Prop where
  network : d.network = {}
  vehicles : d.vehicles = Table.empty.insert ⟨"bus"⟩ busy
  unassigned : d.unassigned = []

/-- The bus is nowhere, so no break is reserved for it, if the horizon can be told. -/
theorem Drives.decideOnBreak_eq (h : Drives d) : d.decideOnBreak busy driven = do
    let _ ← Time.plus d.now d.policy.breakLookAhead
    return none := by
  have hnowhere : d.network.coord? busy.link = none := by rw [h.network]; rfl
  unfold decideOnBreak
  rw [hnowhere]
  cases Time.plus d.now d.policy.breakLookAhead with
  | error halt => rfl
  | ok sum =>
    simp [driven, allDay, Bind.bind, Except.bind, Pure.pure, Except.pure]

/-- The bus is the whole fleet. -/
theorem Drives.keys_eq (h : Drives d) : d.vehicles.keys = [⟨"bus"⟩] := by
  rw [h.vehicles]
  rfl

/-- The bus is found with the shift that it has started. -/
theorem Drives.find?_eq (h : Drives d) : d.vehicles.find? ⟨"bus"⟩ = some busy := by
  rw [h.vehicles]
  rfl

/-- There is nothing to be assigned up to the horizon, if that can be told. -/
theorem Drives.assignShifts_eq (h : Drives d) : d.assignShifts now = do
    let _ ← Time.plus now d.policy.assignLookAhead
    return (d, []) := by
  unfold assignShifts
  rw [h.unassigned]
  have hsame : { d with unassigned := [] } = d := by rw [← h.unassigned]
  rw [hsame]
  rfl

/-- There is nothing to be started. -/
theorem Drives.startShifts_eq (h : Drives d) : d.startShifts now = .ok (d, []) := by
  have hnone : d.startShift now ⟨"bus"⟩ = none := by
    simp only [startShift, h.find?_eq]
    rfl
  simp [startShifts, h.keys_eq, sweep, hnone, Bind.bind, Except.bind]

/-- There is no break to be scheduled up to the horizon, if that can be told. -/
theorem Drives.scheduleBreaks_eq (h : Drives d) : d.scheduleBreaks now = do
    let _ ← Time.plus d.now d.policy.breakLookAhead
    return (d, []) := by
  have hstep : d.scheduleBreak now ⟨"bus"⟩ = do
      let _ ← Time.plus d.now d.policy.breakLookAhead
      return none := by
    have hcurrent : busy.currentShift? = some driven := rfl
    simp only [scheduleBreak, h.find?_eq, hcurrent, h.decideOnBreak_eq]
    cases Time.plus d.now d.policy.breakLookAhead <;> rfl
  simp only [scheduleBreaks, h.keys_eq, sweep, hstep]
  cases Time.plus d.now d.policy.breakLookAhead <;> rfl

/-- There is no shift end to be scheduled up to the horizon, if that can be told. -/
theorem Drives.scheduleEnds_eq (h : Drives d) : d.scheduleEnds now = do
    let _ ← Time.plus now d.policy.endLookAhead
    return (d, []) := by
  unfold scheduleEnds
  cases Time.plus now d.policy.endLookAhead with
  | error halt => rfl
  | ok horizon =>
    have hnowhere : d.endFacility? busy driven = none := by
      simp only [endFacility?, h.network]
      rfl
    have hnone : d.scheduleEnd now horizon ⟨"bus"⟩ = none := by
      have hcurrent : busy.currentShift? = some driven := rfl
      simp [scheduleEnd, h.find?_eq, hcurrent, hnowhere]
    simp [h.keys_eq, sweep, hnone, Bind.bind, Except.bind, Pure.pure, Except.pure]

/-- A dispatch leaves the bus as it is driven, and just adds up times. -/
theorem Drives.dispatch_eq (h : Drives d) (hboundary : d.isBoundary now) : d.dispatch now = do
    let _ ← Time.plus now d.policy.assignLookAhead
    let _ ← Time.plus now d.policy.breakLookAhead
    let _ ← Time.plus now d.policy.endLookAhead
    return ({ d with now }, []) := by
  have hnow : Drives { d with now } := ⟨h.network, h.vehicles, h.unassigned⟩
  unfold dispatch
  rw [hboundary, hnow.assignShifts_eq]
  cases hassign : Time.plus now d.policy.assignLookAhead with
  | error halt => simp [Bind.bind, Except.bind]
  | ok horizon =>
    cases hbreak : Time.plus now d.policy.breakLookAhead <;>
      cases hend : Time.plus now d.policy.endLookAhead <;>
      simp [hbreak, hend, hnow.startShifts_eq, hnow.scheduleBreaks_eq, hnow.scheduleEnds_eq,
        Bind.bind, Except.bind, Pure.pure, Except.pure]

/-- At time zero the shift is given to the bus, and the bus starts it. -/
private theorem exists_drives (c : Config) (policy : ShiftPolicy) : ∃ d out,
    ((setup c [allDay ⟨"day"⟩]).dispatcher policy).dispatch 0 = .ok (d, out) ∧
      d.policy = policy ∧ Drives d := by
  let d₀ := (setup c [allDay ⟨"day"⟩]).dispatcher policy
  let d₁ : Dispatcher := { d₀.setVehicle waiting with
    unassigned := []
    events := [{ time := 0, kind := .assigned, vehicle := ⟨"bus"⟩, shift := ⟨"day"⟩ }] }
  let d₂ : Dispatcher := (d₁.setVehicle busy).log
    { time := 0, kind := .started, vehicle := ⟨"bus"⟩, shift := ⟨"day"⟩ }
  have hassign : assignShifts { d₀ with now := 0 } 0 = .ok (d₁, [.assigned ⟨"bus"⟩ ⟨"day"⟩]) := by
    unfold assignShifts
    rw [Time.zero_plus]
    rfl
  have hfleet : d₁.vehicles = Table.empty.insert ⟨"bus"⟩ waiting := Table.insert_insert _ _ _ _
  have hone : d₁.startShift 0 ⟨"bus"⟩ = some (d₂, .started ⟨"bus"⟩ ⟨"day"⟩) := by
    have hv : d₁.vehicles.find? ⟨"bus"⟩ = some waiting := by
      rw [hfleet]
      rfl
    simp only [startShift, hv]
    rfl
  have hstart : d₁.startShifts 0 = .ok (d₂, [.started ⟨"bus"⟩ ⟨"day"⟩]) := by
    have hkeys : d₁.vehicles.keys = [⟨"bus"⟩] := by
      rw [hfleet]
      rfl
    simp [startShifts, hkeys, sweep, hone, Bind.bind, Except.bind, Pure.pure, Except.pure]
  have hdrives : Drives d₂ :=
    ⟨rfl, (congrArg (·.insert ⟨"bus"⟩ busy) hfleet).trans (Table.insert_insert _ _ _ _), rfl⟩
  have hbreaks : d₂.scheduleBreaks 0 = .ok (d₂, []) := by
    have hnow : d₂.now = 0 := rfl
    rw [hdrives.scheduleBreaks_eq, hnow, Time.zero_plus]
    rfl
  have hends : d₂.scheduleEnds 0 = .ok (d₂, []) := by
    rw [hdrives.scheduleEnds_eq, Time.zero_plus]
    rfl
  have hboundary : d₀.isBoundary 0 = true := by simp [isBoundary]
  refine ⟨d₂, [.assigned ⟨"bus"⟩ ⟨"day"⟩] ++ [.started ⟨"bus"⟩ ⟨"day"⟩] ++ [] ++ [], ?_, rfl,
    hdrives⟩
  show d₀.dispatch 0 = _
  unfold dispatch
  rw [hboundary, hassign]
  simp only [Bool.not_true, Bool.false_eq_true, if_false, Bind.bind, Except.bind, hstart, hbreaks,
    hends, Pure.pure, Except.pure]

/-- To find a vehicle for a second shift, the changeover is added to the end of the first one. -/
private theorem selectVehicle_late {halt : Halt}
    (hsum : Time.plus .latest d.policy.changeover = .error halt)
    (hfleet : d.vehicles = Table.empty.insert ⟨"bus"⟩ waiting) :
    d.selectVehicle { toShiftPlan := allDay ⟨"late"⟩ } = .error halt := by
  have hfree : d.isCandidate 0 waiting = .error halt := by
    show Vehicle.allEndBefore 0 d.policy.changeover [{ toShiftPlan := allDay ⟨"day"⟩ }] = _
    simp [Vehicle.allEndBefore, allDay, hsum, Bind.bind, Except.bind]
  have hvalues : d.vehicles.values = [waiting] := by
    rw [hfleet]
    rfl
  show d.firstCandidate 0 d.vehicles.values = _
  simp [hvalues, firstCandidate, hfree, Bind.bind, Except.bind]

/-- Two shifts are dispatched for the bus only if the changeover fits. -/
private theorem changeover_fits {c : Config}
    (h : ((setup c [allDay ⟨"day"⟩, allDay ⟨"late"⟩]).dispatcher policy).dispatch 0 =
      .ok (d, out)) :
    Time.latest.toNat + policy.changeover.toNat < UInt64.size := by
  rcases phases_of_dispatch h with ⟨hoff, -⟩ | ⟨d₁, d₂, d₃, assigned, started, breaks, ends, -,
    hassign, -⟩
  · simp [isBoundary] at hoff
  · rw [← Time.exists_plus_iff]
    cases hsum : Time.plus .latest policy.changeover with
    | ok sum => exact ⟨sum, rfl⟩
    | error halt =>
      exfalso
      obtain ⟨horizon, -, hassigns⟩ := assigns_of_assignShifts hassign
      have hsoon (t : Time) : 0 ≤ t := UInt64.zero_le
      cases hassigns with
      | expire hover => exact absurd hover (by decide)
      | leave _ hnone => cases hnone (hsoon horizon)
      | assign v _ _ hselect hrest =>
        cases hselect
        generalize he : amend _ _ _ _ = e at hrest
        have hpolicy : e.policy = policy := by
          subst he
          rfl
        have hfleet : e.vehicles = Table.empty.insert ⟨"bus"⟩ waiting := by
          subst he
          exact Table.insert_insert _ _ _ _
        have hhalt := selectVehicle_late (hpolicy ▸ hsum) hfleet
        cases hrest with
        | expire hover => exact absurd hover (by decide)
        | leave _ hnone => cases hhalt.symm.trans (hnone (hsoon horizon))
        | assign w _ _ hselect => cases hhalt.symm.trans hselect

/-- What is dispatched for one bus at an early boundary is halted unless all sums fit. -/
theorem Drives.sums_fit (h : Drives d) (hboundary : d.isBoundary now)
    (hd : d.dispatch now = .ok (d', out)) :
    now.toNat + d.policy.assignLookAhead.toNat < UInt64.size ∧
      now.toNat + d.policy.breakLookAhead.toNat < UInt64.size ∧
      now.toNat + d.policy.endLookAhead.toNat < UInt64.size := by
  rw [h.dispatch_eq hboundary] at hd
  simp only [← Time.exists_plus_iff]
  cases hassign : Time.plus now d.policy.assignLookAhead with
  | error halt => simp [hassign, Bind.bind, Except.bind] at hd
  | ok a =>
    cases hbreak : Time.plus now d.policy.breakLookAhead with
    | error halt => simp [hassign, hbreak, Bind.bind, Except.bind] at hd
    | ok b =>
      cases hend : Time.plus now d.policy.endLookAhead with
      | error halt => simp [hassign, hbreak, hend, Bind.bind, Except.bind] at hd
      | ok e => exact ⟨⟨a, rfl⟩, ⟨b, rfl⟩, ⟨e, rfl⟩⟩

end OneBus

/-! ## Configurations -/

/-- Vehicles join the fleet without a halt. -/
theorem run_addVehicles (d : Dispatcher) (entries : List VehicleEntry) (os : List Operation) :
    d.run (entries.map .addVehicle ++ os) = (entries.foldl addVehicle d).run os := by
  induction entries generalizing d with
  | nil => rfl
  | cons entry rest ih => exact ih (d.addVehicle entry)

/-- Shifts are added without a halt. -/
theorem run_addShifts (d : Dispatcher) (plans : List ShiftPlan) (os : List Operation) :
    d.run (plans.map .addShift ++ os) = (plans.foldl addShift d).run os := by
  induction plans generalizing d with
  | nil => rfl
  | cons plan rest ih => exact ih (d.addShift plan)

/-- The dispatcher of a scenario is one that was opened, to which the fleet and the shifts were
added. -/
theorem run_dispatcher (s : Setup) (policy : ShiftPolicy) (os : List Operation) :
    (opened policy s.network s.facilities).run
      (s.vehicles.map .addVehicle ++ (s.shifts.map .addShift ++ os)) =
        (s.dispatcher policy).run os := by
  rw [run_addVehicles, run_addShifts]
  rfl

/-- A run that starts with a dispatch goes on with what that has left. -/
theorem exists_dispatch_of_run (h : d.run (.dispatch now :: os) = .ok d') :
    ∃ d₁ out, d.dispatch now = .ok (d₁, out) ∧ d₁.run os = .ok d' := by
  cases hdispatch : d.dispatch now with
  | error halt => simp [run, perform, hdispatch, Bind.bind, Except.bind] at h
  | ok outcome =>
    exact ⟨outcome.1, outcome.2, rfl, by
      simpa [run, perform, hdispatch, Bind.bind, Except.bind, Pure.pure, Except.pure] using h⟩

/-- A dispatcher is modest when it is opened. -/
theorem modest_opened (policy : ShiftPolicy) (network : Network) (sites : List FacilitySite) :
    (opened policy network sites).Modest policy :=
  ⟨sound_opened policy network sites, rfl, fun _ hp => by cases hp⟩

end Dispatcher

namespace Config

open Dispatcher

/-- Whatever is set up with a configuration, and whatever is asked of the dispatcher early, it is
not halted, and it can decide on a break. -/
def NeverHalts (c : Config) (policy : ShiftPolicy) : Prop :=
  ∀ (s : Setup) (w : World) (os : List Dispatcher.Operation), s.config = c → s.build = .ok w →
    (∀ plan ∈ s.shifts, plan.Early) → (∀ o ∈ os, o.Early) →
      ∃ d, (s.dispatcher policy).run os = .ok d ∧
        ∀ v t, ∃ decision, d.decideOnBreak v t = .ok decision

/-- A configuration that is accepted never halts the dispatcher just if its look-aheads fit behind
the last early boundary, and its changeover behind the last early time. -/
theorem neverHalts_iff {c : Config} {policy : ShiftPolicy} (hc : c.fault? = none)
    (hpolicy : c.shifts = some policy) : c.NeverHalts policy ↔ policy.SumsFit := by
  have hinterval : policy.dispatchInterval ≠ 0 :=
    (c.fault?_eq_none_iff.1 hc).2.2.2 policy (by simp [hpolicy])
  constructor
  · intro hnever
    have hday (id : ShiftId) : (OneBus.allDay id).Early :=
      ⟨UInt64.zero_le, UInt64.le_refl _, fun w hw => by
        obtain rfl := Option.some.inj hw
        exact ⟨UInt64.zero_le, UInt64.le_refl _, UInt64.zero_le⟩⟩
    have hrun (plans : List ShiftPlan) (hplans : ∀ plan ∈ plans, plan.Early)
        (os : List Dispatcher.Operation) (hos : ∀ o ∈ os, o.Early) :
        ∃ d, ((OneBus.setup c plans).dispatcher policy).run os = .ok d := by
      obtain ⟨w, hw⟩ : ∃ w, (OneBus.setup c plans).build = .ok w := by
        simp [OneBus.setup, Setup.build, Setup.fault?, hc, hpolicy]
      obtain ⟨d, hd, -⟩ := hnever (OneBus.setup c plans) w os rfl hw hplans hos
      exact ⟨d, hd⟩
    have hlast : policy.lastBoundary ≤ Time.latest.toNat := Nat.div_mul_le_self _ _
    let last : Time := .ofNat policy.lastBoundary
    have htoNat : last.toNat = policy.lastBoundary :=
      UInt64.toNat_ofNat_of_lt' (Nat.lt_of_le_of_lt hlast Time.latest.toNat_lt)
    have hstart : Dispatcher.Operation.Early (.dispatch 0) := (UInt64.zero_le : 0 ≤ Time.latest)
    have hend : Dispatcher.Operation.Early (.dispatch last) := by
      show last ≤ Time.latest
      rw [UInt64.le_iff_toNat_le, htoNat]
      exact hlast
    obtain ⟨_, hcrowded⟩ :=
      hrun [OneBus.allDay ⟨"day"⟩, OneBus.allDay ⟨"late"⟩] (by simp [hday]) [.dispatch 0]
      (by simp [hstart])
    obtain ⟨_, _, hcrowded, -⟩ := exists_dispatch_of_run hcrowded
    obtain ⟨_, hdriven⟩ :=
      hrun [OneBus.allDay ⟨"day"⟩] (by simp [hday]) [.dispatch 0, .dispatch last]
      (by simp [hstart, hend])
    obtain ⟨d₁, _, hdispatch, hdriven⟩ := exists_dispatch_of_run hdriven
    obtain ⟨_, _, hagain, -⟩ := exists_dispatch_of_run hdriven
    obtain ⟨d, out, hdrives, rfl, hd⟩ := OneBus.exists_drives c policy
    obtain ⟨rfl, -⟩ := Prod.mk.inj (Except.ok.inj (hdrives.symm.trans hdispatch))
    have hboundary : d.isBoundary last := by
      have hmod : last % d.policy.dispatchInterval = 0 := by
        rw [← UInt64.toNat_inj, UInt64.toNat_mod, htoNat]
        exact Nat.mul_mod_left _ _
      simp [isBoundary, Time.max_one_eq_self hinterval, hmod]
    obtain ⟨hassign, hbreak, hends⟩ := hd.sums_fit hboundary hagain
    rw [htoNat] at hassign hbreak hends
    exact ⟨hassign, hends, hbreak, OneBus.changeover_fits hcrowded⟩
  · intro hfit s w os _ _ hplans hos
    have hearly : ∀ o ∈ s.vehicles.map Dispatcher.Operation.addVehicle ++
        (s.shifts.map Dispatcher.Operation.addShift ++ os), o.Early := by
      intro o ho
      simp only [List.mem_append, List.mem_map] at ho
      rcases ho with ⟨entry, -, rfl⟩ | ⟨plan, hplan, rfl⟩ | ho
      · trivial
      · exact hplans plan hplan
      · exact hos o ho
    obtain ⟨d, hd, hmodest, hnow⟩ := exists_run hfit hinterval
      (modest_opened policy s.network s.facilities) (Nat.zero_le _) hearly
    refine ⟨d, (run_dispatcher s policy os).symm.trans hd, exists_breakDecision ?_⟩
    rw [hmodest.policy_eq]
    exact Nat.lt_of_le_of_lt (Nat.add_le_add_right hnow _) hfit.takeBreak

/-- A configuration with the usual durations never halts the dispatcher; one that looks ahead as far
as a time can tell is accepted all the same, and does. -/
theorem accepted_lookAhead_halts :
    let plain : ShiftPolicy := {}
    let farsighted : ShiftPolicy := { assignLookAhead := 18446744073709551615 }
    let config (policy : ShiftPolicy) : Config := { Config.standard with shifts := some policy }
    (config plain).fault? = none ∧ (config plain).NeverHalts plain ∧
      (config farsighted).fault? = none ∧ ¬ (config farsighted).NeverHalts farsighted := by
  intro plain farsighted config
  have hplain : (config plain).fault? = none := by decide
  have hfarsighted : (config farsighted).fault? = none := by decide
  have hfit : plain.SumsFit := ⟨by decide, by decide, by decide, by decide⟩
  have hmisfit : ¬ farsighted.SumsFit := fun h => absurd h.assign (by decide)
  refine ⟨hplain, (neverHalts_iff hplain rfl).2 hfit, hfarsighted, fun hnever => ?_⟩
  exact hmisfit ((neverHalts_iff hfarsighted rfl).1 hnever)

end Config

end DialARide
