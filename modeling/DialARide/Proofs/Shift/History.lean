import DialARide.Proofs.Shift.Effect
import DialARide.Proofs.Shift.Operation
import Mathlib.Data.List.Induction

/-!
# The history of a run

A run is known by its steps, each with the dispatcher before and after it. Its history is all
that was put down in it, be it taken away since or not. What is to be shown of a run and its
history is shown for one operation, which is refused or does one of six things.
-/

namespace DialARide

namespace Dispatcher

/-! ## Steps -/

/-- One operation of a run, with the dispatcher before and after it. -/
structure Step where
  before : Dispatcher
  operation : Operation
  after : Dispatcher

/-- The steps of a run, as far as it gets. -/
def steps : Dispatcher → List Operation → List Step
  | _, [] => []
  | d, o :: rest =>
    match d.perform o with
    | .ok d' => ⟨d, o, d'⟩ :: d'.steps rest
    | .error _ => []

/-- What a step takes away of the log. -/
def Step.taken (s : Step) : List ShiftEvent :=
  match s.operation with
  | .drain => s.before.drainEvents.1
  | _ => []

/-- All that was put down in a run that has come to a dispatcher, oldest first. -/
def history (d₀ : Dispatcher) (os : List Operation) (d : Dispatcher) : List ShiftEvent :=
  (d₀.steps os).flatMap Step.taken ++ d.events

/-- The vehicle that an operation adds to the fleet. -/
def Operation.vehicle? : Operation → Option VehicleId
  | .addVehicle entry => some entry.id
  | _ => none

/-- The shift that an operation adds. -/
def Operation.plan? : Operation → Option ShiftPlan
  | .addShift plan => some plan
  | _ => none

/-- The vehicles that were added to the fleet, oldest first. -/
def enlisted (os : List Operation) : List VehicleId := os.filterMap Operation.vehicle?

/-- The shifts that were added, oldest first. -/
def offered (os : List Operation) : List ShiftPlan := os.filterMap Operation.plan?

@[simp] theorem enlisted_concat (os : List Operation) (o : Operation) :
    enlisted (os ++ [o]) = enlisted os ++ o.vehicle?.toList := by
  cases h : o.vehicle? <;> simp [enlisted, h]

@[simp] theorem offered_concat (os : List Operation) (o : Operation) :
    offered (os ++ [o]) = offered os ++ o.plan?.toList := by
  cases h : o.plan? <;> simp [offered, h]

variable {d₀ d d' d'' : Dispatcher} {os : List Operation} {o : Operation} {now : Time}

/-- A run with one more operation is a run and that operation. -/
theorem run_concat_eq_ok_iff : d₀.run (os ++ [o]) = .ok d' ↔
    ∃ d, d₀.run os = .ok d ∧ d.perform o = .ok d' := by
  induction os generalizing d₀ with
  | nil =>
    cases ho : d₀.perform o <;> simp [run, ho, Bind.bind, Except.bind]
  | cons first rest ih =>
    cases hfirst : d₀.perform first with
    | error halt => simp [run, hfirst, Bind.bind, Except.bind]
    | ok d₁ => simpa [run, hfirst, Bind.bind, Except.bind] using ih

/-- A run that takes one more operation takes one more step. -/
theorem steps_concat (h : d₀.run os = .ok d) (ho : d.perform o = .ok d') :
    d₀.steps (os ++ [o]) = d₀.steps os ++ [⟨d, o, d'⟩] := by
  induction os generalizing d₀ with
  | nil =>
    cases h
    simp [steps, ho]
  | cons first rest ih =>
    cases hfirst : d₀.perform first with
    | error halt => simp [run, hfirst, Bind.bind, Except.bind] at h
    | ok d₁ =>
      simp only [run, hfirst, Bind.bind, Except.bind] at h
      simp [steps, hfirst, ih h]

/-! ## What an operation does -/

/-- An operation is the report that an event puts down. -/
def Operation.Reports (o : Operation) (e : ShiftEvent) : Prop :=
  match o with
  | .startBreak id _ _ => e.kind = .breakStarted ∧ e.vehicle = id
  | .endBreak id task _ =>
    e.kind = .breakEnded ∧ e.vehicle = id ∧ e.facility = some task.facility
  | .endShift id _ _ => e.kind = .ended ∧ e.vehicle = id
  | _ => False

/-- What an operation does to a dispatcher. -/
inductive Performed (d : Dispatcher) : Operation → Dispatcher → Prop
  /-- Nothing: what is reported cannot be true, or it is not the time for a dispatch. -/
  | refused (o : Operation) : o.vehicle? = none → o.plan? = none → Performed d o d
  /-- A vehicle joins the fleet, and is parked if a hub on its link admits it. -/
  | joined (entry : VehicleEntry) (facilities : Facilities) :
      facilities = d.facilities ∨ (∃ hub had, d.facilities.hubAt? entry.link = some hub ∧
        d.facilities.register hub.id entry.id = .ok (had, facilities)) →
      Performed d (.addVehicle entry) { d with
        facilities, vehicles := d.vehicles.insert entry.id { toVehicleEntry := entry } }
  /-- A shift comes for which a vehicle is to be found. -/
  | offered (plan : ShiftPlan) : Performed d (.addShift plan)
      { d with unassigned := insertUnassigned { toShiftPlan := plan } d.unassigned }
  /-- A vehicle reports its link and whether it is available. -/
  | moved (v : Vehicle) (link : LinkId) (available : Bool) : d.vehicles.find? v.id = some v →
      Performed d (.updateVehicle v.id link available) (d.setVehicle { v with link, available })
  /-- A dispatch makes its decisions. -/
  | dispatched (now : Time) (d' : Dispatcher) (out : List Instruction) : d.isBoundary now →
      Decisions now d d' out → Performed d (.dispatch now) d'
  /-- A vehicle reports on its shift. -/
  | reported (o : Operation) (now : Time) (d' : Dispatcher) (e : ShiftEvent) : d.Report now d' →
      d'.events = d.events ++ [e] → o.Reports e → Performed d o d'
  /-- The log is taken away. -/
  | drained : Performed d .drain { d with events := [] }

/-- The start of a break puts down itself and nothing else. -/
theorem events_startBreak {id : VehicleId} {link : LinkId} (hd : d.Named)
    (h : d.startBreak id link now = .ok d') :
    ∃ e, d'.events = d.events ++ [e] ∧ (Operation.startBreak id link now).Reports e := by
  obtain ⟨v, before, s, after, rfl, hv, hcome, hstate⟩ := comesTo_of_startBreak hd h
  rw [startBreak_eq hv hcome hstate] at h
  cases h
  exact ⟨_, rfl, rfl, rfl⟩

/-- The end of a break puts down itself and nothing else. -/
theorem events_endBreak {id : VehicleId} {task : BreakTask} (hd : d.Named)
    (h : d.endBreak id task now = .ok d') :
    ∃ e, d'.events = d.events ++ [e] ∧ (Operation.endBreak id task now).Reports e := by
  obtain ⟨v, before, s, after, had, facilities, rfl, hv, hcome, hstate, hslot⟩ :=
    comesTo_of_endBreak hd h
  rw [endBreak_eq hv hcome hstate hslot] at h
  cases h
  exact ⟨_, rfl, rfl, rfl, rfl⟩

/-- The end of a shift puts down itself and nothing else. -/
theorem events_endShift {id : VehicleId} {link : LinkId} (hd : d.Named)
    (h : d.endShift id link now = .ok d') :
    ∃ e, d'.events = d.events ++ [e] ∧ (Operation.endShift id link now).Reports e := by
  obtain ⟨v, before, s, after, facilities, rfl, hv, hcome, hstate, hslot⟩ :=
    comesTo_of_endShift hd h
  rw [endShift_eq hv hcome hstate hslot] at h
  cases h
  exact ⟨_, rfl, rfl, rfl⟩

/-- A report that meets a fault is refused, and any other one is made. -/
theorem performed_of_report {outcome : Except Fault Dispatcher} (hvehicle : o.vehicle? = none)
    (hplan : o.plan? = none) (hok : ∀ d', outcome = .ok d' → d.Performed o d') :
    d.Performed o (outcome.toOption.getD d) := by
  cases outcome with
  | error fault => exact .refused o hvehicle hplan
  | ok d' => exact hok d' rfl

/-- Every operation that is performed does one of these. -/
theorem performed_of_perform (hd : d.Named) (h : d.perform o = .ok d') : d.Performed o d' := by
  cases o with
  | addVehicle entry =>
    cases h
    exact .joined entry _ (d.facilities_addVehicle entry)
  | addShift plan =>
    cases h
    exact .offered plan
  | updateVehicle id link available =>
    cases h
    refine performed_of_report rfl rfl fun d' h' => ?_
    obtain ⟨v, rfl, hv, rfl⟩ := updateVehicle_eq_ok hd h'
    exact .moved v link available hv
  | dispatch now =>
    cases hdispatch : d.dispatch now with
    | error halt => simp [perform, hdispatch, Bind.bind, Except.bind] at h
    | ok outcome =>
      simp only [perform, hdispatch, Bind.bind, Except.bind, Pure.pure, Except.pure,
        Except.ok.injEq] at h
      subst h
      by_cases hboundary : d.isBoundary now
      · exact .dispatched now _ outcome.2 hboundary (decisions_dispatch hd hdispatch)
      · simp only [dispatch, hboundary, Bool.not_false, if_true, Except.ok.injEq] at hdispatch
        subst hdispatch
        exact .refused _ rfl rfl
  | startBreak id link now =>
    cases h
    refine performed_of_report rfl rfl fun d' h' => ?_
    obtain ⟨e, hevents, hreports⟩ := events_startBreak hd h'
    exact .reported _ now d' e (report_of_startBreak hd h') hevents hreports
  | endBreak id task now =>
    cases h
    refine performed_of_report rfl rfl fun d' h' => ?_
    obtain ⟨e, hevents, hreports⟩ := events_endBreak hd h'
    exact .reported _ now d' e (report_of_endBreak hd h') hevents hreports
  | endShift id link now =>
    cases h
    refine performed_of_report rfl rfl fun d' h' => ?_
    obtain ⟨e, hevents, hreports⟩ := events_endShift hd h'
    exact .reported _ now d' e (report_of_endShift hd h') hevents hreports
  | drain =>
    cases h
    exact .drained

/-! ## Runs -/

/-- What holds at the start of a run and is kept by every operation holds after the run. -/
theorem run_induction {P : List Operation → Dispatcher → Prop} (hd₀ : d₀.Sound)
    (hstart : P [] d₀)
    (hstep : ∀ os o d d', d₀.run os = .ok d → d.perform o = .ok d' → d.Sound →
      d.Performed o d' → P os d → P (os ++ [o]) d')
    (h : d₀.run os = .ok d) : P os d := by
  induction os using List.reverseRecOn generalizing d with
  | nil =>
    cases h
    exact hstart
  | append_singleton os o ih =>
    obtain ⟨d₁, hrun, ho⟩ := run_concat_eq_ok_iff.1 h
    have hd₁ : d₁.Sound := sound_run hd₀ hrun
    exact hstep os o d₁ d hrun ho hd₁ (performed_of_perform hd₁.named ho) (ih hrun)

/-- What holds of the log at the start of a run, and is kept of a log to which an operation adds
what it puts down, holds of the history of the run. -/
theorem history_induction {P : List Operation → Dispatcher → List ShiftEvent → Prop}
    (hd₀ : d₀.Sound) (hstart : P [] d₀ d₀.events)
    (hstep : ∀ os o d d' taken, d₀.run os = .ok d → d.perform o = .ok d' → d.Sound →
      d.Performed o d' → o ≠ .drain → P os d (taken ++ d.events) →
      P (os ++ [o]) d' (taken ++ d'.events))
    (hdrain : ∀ os d log, d₀.run os = .ok d → P os d log →
      P (os ++ [.drain]) { d with events := [] } log)
    (h : d₀.run os = .ok d) : P os d (d₀.history os d) := by
  refine run_induction (P := fun os d => P os d (d₀.history os d)) hd₀ hstart ?_ h
  intro os o d d' hrun ho hd hperformed hP
  have hhistory : d₀.history (os ++ [o]) d' =
      (d₀.steps os).flatMap Step.taken ++ (Step.taken ⟨d, o, d'⟩ ++ d'.events) := by
    simp [history, steps_concat hrun ho]
  rw [hhistory]
  by_cases hdrained : o = .drain
  · subst hdrained
    cases ho
    simpa [Step.taken, drainEvents, history] using hdrain os d _ hrun hP
  · have hnone : Step.taken ⟨d, o, d'⟩ = [] := by
      cases o <;> first | rfl | exact absurd rfl hdrained
    rw [hnone]
    exact hstep os o d d' _ hrun ho hd hperformed hdrained hP

/-! ## The fleet -/

/-- A report adds neither a vehicle nor a shift. -/
theorem Operation.Reports.adds_nothing {e : ShiftEvent} (h : o.Reports e) :
    o.vehicle? = none ∧ o.plan? = none := by
  cases o <;> first | exact ⟨rfl, rfl⟩ | cases h

/-- The fleet grows by the vehicle that an operation adds, and nobody leaves it. -/
theorem Performed.contains_iff (h : d.Performed o d') (id : VehicleId) :
    d'.vehicles.contains id ↔ d.vehicles.contains id ∨ o.vehicle? = some id := by
  cases h with
  | refused _ hvehicle => simp [hvehicle]
  | joined entry facilities =>
    rw [Table.contains_insert_iff, Operation.vehicle?, Option.some.injEq, or_comm]
  | offered | drained => simp [Operation.vehicle?]
  | moved v link available hv =>
    have hold : v.id = id → d.vehicles.contains id := by
      rintro rfl
      simp [Table.contains, hv]
    rw [setVehicle, Table.contains_insert_iff, or_iff_right_of_imp hold]
    simp [Operation.vehicle?]
  | dispatched now _ out hboundary hdecisions =>
    have hsame : d'.vehicles.contains id = d.vehicles.contains id :=
      hdecisions.keeps (P := fun d₁ => d₁.vehicles.contains id = d.vehicles.contains id)
        (fun _ _ _ hdecision heq => (hdecision.effect.contains_eq id).trans heq) rfl
    simp [hsame, Operation.vehicle?]
  | reported _ now _ e hreport hevents hreports =>
    simp [hreport.effect.contains_eq id, hreports.adds_nothing.1]

/-- The fleet of a run consists of the vehicles that were added to it. -/
theorem contains_iff_of_run {policy : ShiftPolicy} {network : Network} {sites : List FacilitySite}
    (h : (opened policy network sites).run os = .ok d) (id : VehicleId) :
    d.vehicles.contains id ↔ id ∈ enlisted os := by
  refine run_induction (P := fun os d => d.vehicles.contains id ↔ id ∈ enlisted os)
    (sound_opened policy network sites) (by simp [opened, Table.contains, enlisted]) ?_ h
  intro os o d d' _ _ _ hperformed hP
  rw [hperformed.contains_iff, hP, enlisted_concat, List.mem_append, Option.mem_toList]

/-- A fleet that is enlisted without repetition was so before. -/
theorem nodup_enlisted_of_concat (h : (enlisted (os ++ [o])).Nodup) : (enlisted os).Nodup := by
  rw [enlisted_concat] at h
  exact h.of_append_left

/-- Where no vehicle is added twice, one that joins is new. -/
theorem find?_eq_none_of_joins {policy : ShiftPolicy} {network : Network}
    {sites : List FacilitySite} (h : (opened policy network sites).run os = .ok d)
    (hfleet : (enlisted (os ++ [o])).Nodup) (id : VehicleId) (hid : o.vehicle? = some id) :
    d.vehicles.find? id = none := by
  rw [enlisted_concat, hid] at hfleet
  have hnew : id ∉ enlisted os := fun hold =>
    List.disjoint_of_nodup_append hfleet hold (by simp)
  rw [← contains_iff_of_run h] at hnew
  simpa [Table.contains] using hnew

/-! ## What is put down of whom -/

/-- All that a log tells is told of a shift of the vehicle that it names. -/
def Attributed (log : List ShiftEvent) (d : Dispatcher) : Prop :=
  ∀ e ∈ log, ∃ v, d.vehicles.find? e.vehicle = some v ∧ e.shift ∈ v.shifts.map (·.id)

section Attributed

variable {log taken : List ShiftEvent} {e : ShiftEvent} {u v : Vehicle}

/-- A vehicle that loses no shift can be put in place of what it was. -/
theorem Attributed.setVehicle (h : Attributed log d) (hv : d.vehicles.find? u.id = some v)
    (hids : ∀ x ∈ v.shifts, x.id ∈ u.shifts.map (·.id)) : Attributed log (d.setVehicle u) := by
  intro e he
  obtain ⟨w, hw, hshift⟩ := h e he
  by_cases hid : u.id = e.vehicle
  · obtain rfl := Option.some.inj (hv.symm.trans (hid ▸ hw))
    obtain ⟨x, hx, hxid⟩ := List.mem_map.1 hshift
    exact ⟨u, by simp [Dispatcher.setVehicle, hid], hxid ▸ hids x hx⟩
  · exact ⟨w, by simpa [Dispatcher.setVehicle, hid] using hw, hshift⟩

/-- What is told anew of a vehicle is told of a shift in its queue. -/
theorem Attributed.amend (h : Attributed log d) (hv : d.vehicles.find? u.id = some v)
    (hids : ∀ x ∈ v.shifts, x.id ∈ u.shifts.map (·.id)) (hvehicle : e.vehicle = u.id)
    (hshift : e.shift ∈ u.shifts.map (·.id)) (facilities : Facilities) :
    Attributed (log ++ [e]) (d.amend facilities u e) := by
  intro e' he'
  rcases List.mem_append.1 he' with he' | he'
  · exact h.setVehicle hv hids e' he'
  · obtain rfl := List.mem_singleton.1 he'
    exact ⟨u, by simp [hvehicle], hshift⟩

/-- What is done to the shifts of a vehicle is told of them. -/
theorem Effect.attributed (h : d.Effect now d') (hlog : Attributed (taken ++ d.events) d) :
    Attributed (taken ++ d'.events) d' := by
  cases h with
  | tick | expire => exact hlog
  | assign before s after v hopen hv =>
    have hids : ∀ x ∈ v.shifts, x.id ∈ (v.assign s).shifts.map (·.id) := fun x hx =>
      List.mem_map_of_mem (Vehicle.mem_insertByStart.2 (.inr hx))
    have hs : s.id ∈ (v.assign s).shifts.map (·.id) :=
      List.mem_map_of_mem (Vehicle.mem_insertByStart.2 (.inl rfl))
    have hlog' : Attributed (taken ++ d.events) { d with unassigned := before ++ after } := hlog
    rw [amend_events, ← List.append_assoc]
    exact hlog'.amend (u := v.assign s) hv hids rfl hs d.facilities
  | change v u before s t after facilities e hv hid hsplit hsplit' hvehicle hshift hchange =>
    have hsame : t.id = s.id := congrArg ShiftPlan.id hchange.plan_eq
    have hids : u.shifts.map (·.id) = v.shifts.map (·.id) := by simp [hsplit, hsplit', hsame]
    rw [amend_events, ← List.append_assoc]
    refine hlog.amend (hid ▸ hv) (fun x hx => hids ▸ List.mem_map_of_mem hx)
      (hvehicle.trans hid.symm) ?_ facilities
    simp [hids, hsplit, hshift]

/-- An operation puts something down of a shift of the vehicle that it names only. -/
theorem Performed.attributed (h : d.Performed o d')
    (hnew : ∀ id, o.vehicle? = some id → d.vehicles.find? id = none) (ho : o ≠ .drain)
    (hlog : Attributed (taken ++ d.events) d) : Attributed (taken ++ d'.events) d' := by
  cases h with
  | refused | offered => exact hlog
  | joined entry facilities =>
    intro e he
    obtain ⟨w, hw, hshift⟩ := hlog e he
    have hne : entry.id ≠ e.vehicle := fun hid => by simp [hnew entry.id rfl, ← hid] at hw
    exact ⟨w, by simpa [hne] using hw, hshift⟩
  | moved v link available hv =>
    exact hlog.setVehicle hv fun x hx => List.mem_map_of_mem hx
  | dispatched now _ out hboundary hdecisions =>
    exact hdecisions.keeps (P := fun d => Attributed (taken ++ d.events) d)
      (fun _ _ _ hdecision hlog => hdecision.effect.attributed hlog) hlog
  | reported _ now _ e hreport => exact hreport.effect.attributed hlog
  | drained => exact absurd rfl ho

/-- All that is put down in a run is put down of a shift of the vehicle that is named. -/
theorem attributed_history {policy : ShiftPolicy} {network : Network} {sites : List FacilitySite}
    (h : (opened policy network sites).run os = .ok d) (hfleet : (enlisted os).Nodup) :
    Attributed ((opened policy network sites).history os d) d := by
  refine history_induction (P := fun os d log => (enlisted os).Nodup → Attributed log d)
    (sound_opened policy network sites) (fun _ _ he => (nomatch he)) ?_ ?_ h hfleet
  · intro os o d d' taken hrun _ _ hperformed ho hP hfleet
    exact hperformed.attributed (find?_eq_none_of_joins hrun hfleet) ho
      (hP (nodup_enlisted_of_concat hfleet))
  · intro os d log _ hP hfleet
    exact hP (nodup_enlisted_of_concat hfleet)

end Attributed

/-- No vehicle and no shift is added twice. -/
structure AddsAnew (os : List Operation) : Prop where
  vehicles : (enlisted os).Nodup
  shifts : ((offered os).map (·.id)).Nodup

/-- Where nothing is added twice, nothing was before. -/
theorem AddsAnew.of_concat (h : AddsAnew (os ++ [o])) : AddsAnew os := by
  obtain ⟨hvehicles, hshifts⟩ := h
  rw [offered_concat, List.map_append] at hshifts
  exact ⟨nodup_enlisted_of_concat hvehicles, hshifts.of_append_left⟩

end Dispatcher

end DialARide
