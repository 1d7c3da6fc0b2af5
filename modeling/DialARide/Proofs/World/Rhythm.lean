import DialARide.Proofs.World.Rota
import DialARide.Proofs.World.Unbound

/-!
# No wake-up is lost

Whatever is done at intervals looks, when it is done, whether it will be needed again, and comes to
rest if not. Yet nothing that makes it necessary is overlooked: departures, arrivals and rejections
come only of events for which a step of the services is pending already, and only a dispatch gives
the office something to do. So both go on as long as they are needed, and never twice at a time. The
optimizer may reject what it wants and when it wants, as long as it does so while a request is
submitted to it.
-/

namespace DialARide

/-- The number of pending events that are of a kind or lead to one of it. The start leads to both
kinds of what is done at intervals. -/
def Clock.prospects (c : Clock) (kind : EventKind) : Nat :=
  c.count .simulationStarted + c.count kind

namespace World

variable {w w' : World} {e : Event} {clock : Clock}

/-- Steps and dispatches are pending as long as they are needed, one of each at most. -/
structure Rhythm (w : World) : Prop where
  timely : w.clock.Timely
  onset : ∀ e ∈ w.clock.pending, e.kind = .simulationStarted → e.time = 0
  steps : w.clock.prospects .passengerStep ≤ 1
  dispatches : w.clock.prospects .shiftDispatch ≤ 1
  needed : w.needsStep = true → w.clock.prospects .passengerStep = 1
  busy : ∀ office, w.shifts = some office → office.isBusy = true →
    w.clock.prospects .shiftDispatch = 1
  soon : ∀ e ∈ w.clock.pending, e.kind = .passengerStep →
    e.time.toNat ≤ w.clock.now.toNat + (max w.stepInterval 1).toNat

/-- The office keeps to a policy, and dispatches are due at multiples of its interval only. -/
structure Staffed (w : World) (policy : ShiftPolicy) : Prop where
  office : ∃ office, w.shifts = some office ∧ office.dispatcher.Named ∧
    office.dispatcher.policy = policy
  regular : ∀ e ∈ w.clock.pending, e.kind = .shiftDispatch →
    (max policy.dispatchInterval 1).toNat ∣ e.time.toNat

/-! ## What an event changes -/

/-- Scheduling an event counts for its kind only. -/
theorem count_schedule {time : Time} {added : EventKind} {subject : Option Subject}
    (h : w.schedule time added subject = .ok w') (kind : EventKind) :
    w'.clock.count kind = w.clock.count kind + if added = kind then 1 else 0 := by
  obtain ⟨clock, hc, rfl⟩ := schedule_eq_ok h
  exact Clock.count_scheduleAt hc kind

/-- Where nothing but traffic is scheduled, nothing else is counted anew. -/
theorem Quiet.count_eq {kind : EventKind} (h : Quiet w w') (hkind : ¬ kind.IsTraffic) :
    w'.clock.count kind = w.clock.count kind :=
  h.clock.count_eq fun _ htraffic hdkind => hkind (hdkind ▸ htraffic)

/-- The start is never scheduled again. -/
theorem Beat.count_start (hb : Beat w e w') :
    w'.clock.count .simulationStarted = w.clock.count .simulationStarted := by
  apply hb.grown.count_eq
  rintro d (htraffic | ⟨-, hkind, -⟩ | ⟨-, hkind, -⟩ | ⟨-, hkind, -⟩) hstart
  · simp [EventKind.IsTraffic, hstart] at htraffic
  · simp [hstart] at hkind
  · simp [hstart] at hkind
  · simp [hstart] at hkind

/-- The start leads to a step, and a step to another one unless none is needed. -/
theorem Beat.count_step (hb : Beat w e w') :
    w'.clock.count .passengerStep = w.clock.count .passengerStep +
        (if e.kind = .simulationStarted ∨ e.kind = .passengerStep then 1 else 0) ∨
      e.kind = .passengerStep ∧ w'.clock.count .passengerStep = w.clock.count .passengerStep ∧
        w'.needsStep = false := by
  cases hb with
  | started hkind hstep hafter =>
    left
    rw [if_pos (.inl hkind)]
    rcases hafter with ⟨-, rfl⟩ | ⟨-, hdispatch⟩
    · exact count_schedule hstep .passengerStep
    · exact (count_schedule hdispatch .passengerStep).trans (count_schedule hstep .passengerStep)
  | dispatched hkind _ _ _ _ _ _ hclock =>
    left
    rcases hclock with ⟨-, hsame⟩ | ⟨time, -, hscheduled⟩
    · simp [hkind, hsame]
    · simp [hkind, Clock.count_scheduleAt hscheduled]
  | @stepped w₁ _ hkind hquiet hafter =>
    have hsame : w₁.clock.count .passengerStep = w.clock.count .passengerStep :=
      hquiet.count_eq (by simp [EventKind.IsTraffic])
    rcases hafter with ⟨hnone, rfl⟩ | ⟨time, -, hschedule⟩
    · exact .inr ⟨hkind, hsame, hnone⟩
    · left
      rw [if_pos (.inr hkind), ← hsame]
      exact count_schedule hschedule .passengerStep
  | quiet hkind hquiet =>
    left
    have hsame : w'.clock.count .passengerStep = w.clock.count .passengerStep :=
      hquiet.count_eq (by simp [EventKind.IsTraffic])
    rcases hkind with hkind | hkind <;> simp [hkind, hsame]

/-- The start leads to a dispatch if shifts are dispatched, and a dispatch to another one unless
nothing is left to do. -/
theorem Beat.count_dispatch (hb : Beat w e w') :
    w'.clock.count .shiftDispatch = w.clock.count .shiftDispatch +
        (if e.kind = .simulationStarted ∨ e.kind = .shiftDispatch then 1 else 0) ∨
      (e.kind = .simulationStarted ∨ e.kind = .shiftDispatch) ∧
        w'.clock.count .shiftDispatch = w.clock.count .shiftDispatch ∧
        ∀ office, w'.shifts = some office → office.isBusy = false := by
  cases hb with
  | started hkind hstep hafter =>
    have hfirst := count_schedule hstep .shiftDispatch
    obtain ⟨clock, -, rfl⟩ := schedule_eq_ok hstep
    rcases hafter with ⟨hnone, rfl⟩ | ⟨-, hdispatch⟩
    · refine .inr ⟨.inl hkind, hfirst, fun office hoffice => ?_⟩
      have hoffice : w.shifts = some office := hoffice
      simp [hnone] at hoffice
    · left
      rw [if_pos (.inl hkind), count_schedule hdispatch .shiftDispatch, hfirst]
      rfl
  | dispatched hkind _ hafter _ _ _ _ hclock =>
    rcases hclock with ⟨hidle, hsame⟩ | ⟨time, -, hscheduled⟩
    · refine .inr ⟨.inr hkind, by rw [hsame], fun office hoffice => ?_⟩
      obtain rfl := Option.some.inj (hafter.symm.trans hoffice)
      exact hidle
    · left
      rw [if_pos (.inr hkind), Clock.count_scheduleAt hscheduled .shiftDispatch, if_pos rfl]
  | @stepped w₁ _ hkind hquiet hafter =>
    left
    have hsame : w₁.clock.count .shiftDispatch = w.clock.count .shiftDispatch :=
      hquiet.count_eq (by simp [EventKind.IsTraffic])
    rcases hafter with ⟨-, rfl⟩ | ⟨time, -, hschedule⟩
    · simp [hkind, hsame]
    · simp [hkind, hsame, count_schedule hschedule]
  | quiet hkind hquiet =>
    left
    have hsame : w'.clock.count .shiftDispatch = w.clock.count .shiftDispatch :=
      hquiet.count_eq (by simp [EventKind.IsTraffic])
    rcases hkind with hkind | hkind <;> simp [hkind, hsame]

/-- Besides the start and a step, only an event for which a step was needed makes one necessary. -/
theorem Beat.needsStep (hb : Beat { w with clock, current := some e } e w')
    (hnext : w.clock.next? = some (e, clock)) (hneeds : w'.needsStep = true) :
    w.needsStep = true ∨ e.kind = .simulationStarted ∨ e.kind = .passengerStep := by
  by_contra hnot
  rw [not_or, Bool.not_eq_true, needsStep_eq_false_iff] at hnot
  obtain ⟨⟨hpending, hrejections⟩, hkind⟩ := hnot
  have hpending' := (Clock.next?_eq_some hnext).1
  have hdispatch : e.kind = .shiftDispatch := by
    have hnone := hpending e (hpending' ▸ List.mem_cons_self)
    cases he : e.kind <;> simp [he] at hkind hnone
    rfl
  obtain ⟨-, after, -, -, -, hservices, -, -, hclock⟩ := hb.of_dispatch hdispatch
  have hnone : w'.needsStep = false := by
    rw [needsStep_eq_false_iff, hservices]
    refine ⟨fun d hd => ?_, hrejections⟩
    have hold : d.kind = .shiftDispatch ∨ d ∈ clock.pending := by
      rcases hclock with ⟨-, hsame⟩ | ⟨time, -, hscheduled⟩
      · rw [hsame] at hd
        exact .inr hd
      · exact ((Clock.grown_scheduleAt hscheduled).mem_or hd).imp_left fun h => h.2.1
    rcases hold with hdkind | hold
    · simp [hdkind]
    · exact hpending d (hpending' ▸ List.mem_cons_of_mem e hold)
  rw [hnone] at hneeds
  cases hneeds

/-- Of the prospects of a step all are kept, unless a step was taken and no other is needed. -/
theorem Beat.prospects_step (hb : Beat { w with clock, current := some e } e w')
    (hnext : w.clock.next? = some (e, clock)) :
    w'.clock.prospects .passengerStep = w.clock.prospects .passengerStep ∨
      e.kind = .passengerStep ∧ w'.needsStep = false ∧
        w'.clock.prospects .passengerStep < w.clock.prospects .passengerStep := by
  have hstart := hb.count_start
  have hstart' := Clock.count_next hnext .simulationStarted
  have hstep' := Clock.count_next hnext .passengerStep
  unfold Clock.prospects
  rcases hb.count_step with hstep | ⟨hkind, hstep, hnone⟩
  · left
    cases hkind : e.kind <;> simp [hkind] at hstart hstart' hstep hstep' <;> omega
  · right
    simp [hkind] at hstart hstart' hstep hstep'
    exact ⟨hkind, hnone, by omega⟩

/-- Of the prospects of a dispatch all are kept, unless nothing is left to do. -/
theorem Beat.prospects_dispatch (hb : Beat { w with clock, current := some e } e w')
    (hnext : w.clock.next? = some (e, clock)) :
    w'.clock.prospects .shiftDispatch = w.clock.prospects .shiftDispatch ∨
      w'.clock.prospects .shiftDispatch < w.clock.prospects .shiftDispatch ∧
        ∀ office, w'.shifts = some office → office.isBusy = false := by
  have hstart := hb.count_start
  have hstart' := Clock.count_next hnext .simulationStarted
  have hdispatch' := Clock.count_next hnext .shiftDispatch
  unfold Clock.prospects
  rcases hb.count_dispatch with hdispatch | ⟨hkind, hdispatch, hidle⟩
  · left
    cases hkind : e.kind <;> simp [hkind] at hstart hstart' hdispatch hdispatch' <;> omega
  · right
    refine ⟨?_, hidle⟩
    rcases hkind with hkind | hkind <;>
      simp [hkind] at hstart hstart' hdispatch hdispatch' <;> omega

/-- An event that is taken leads to what its kind has prospects of. -/
theorem prospects_pos {kind : EventKind} (hnext : w.clock.next? = some (e, clock))
    (hkind : e.kind = .simulationStarted ∨ e.kind = kind) : 0 < w.clock.prospects kind := by
  have hstart := Clock.count_next hnext .simulationStarted
  have hthis := Clock.count_next hnext kind
  unfold Clock.prospects
  rcases hkind with hkind | hkind <;> simp [hkind] at hstart hthis <;> omega

/-! ## Submissions -/

/-- Only the services change when rejections are published. -/
theorem publishAll_eq (w : World) (rejections : List Rejection) :
    ∃ services, w.publishAll rejections = { w with services } := by
  induction rejections generalizing w with
  | nil => exact ⟨w.services, rfl⟩
  | cons r rest ih =>
    obtain ⟨services, heq⟩ := ih (w.publish r)
    exact ⟨services, heq⟩

/-- A step of the services submits nothing. -/
private theorem submitted_of_step {v : World} (h : v.handle e = .ok w')
    (hkind : e.kind = .passengerStep) :
    w'.services.submitted = v.services.submitted := by
  simp only [handle, hkind] at h
  obtain ⟨ns, services, calls, w₁, hstep, hp, hafter⟩ := onPassengerStep_eq_ok h
  have hservices : w₁.services = services := (kept_performAll hp).services
  have hsame : services.submitted = v.services.submitted := by
    have hsubmitted := v.services.submitted_stepEach
      ((v.services.members.zipIdx.filter (!·.1.closed)).map (·.2)) e.time
    unfold Services.stepAll at hstep
    rw [hstep] at hsubmitted
    exact hsubmitted
  rcases hafter with ⟨-, rfl⟩ | ⟨time, -, hschedule⟩
  · rw [hservices, hsame]
  · obtain ⟨clock, -, rfl⟩ := schedule_eq_ok hschedule
    exact (congrArg Services.submitted hservices).trans hsame

/-- A step is still to come after an event that submits a request: it was needed for the event. -/
theorem Rhythm.prospects_of_submission (h : w.Rhythm)
    (hhandle : World.handle { w with clock, current := some e } e = .ok w')
    (hnext : w.clock.next? = some (e, clock))
    (hsubmits : w'.services.submitted ≠ w.services.submitted) :
    w'.clock.prospects .passengerStep = 1 := by
  have hb := beat_handle hhandle
  have hkind : e.kind ≠ .passengerStep := by
    intro hkind
    have hsame := submitted_of_step hhandle hkind
    exact hsubmits hsame
  have hone : w.clock.prospects .passengerStep = 1 := by
    by_cases hneeds : w.needsStep = true
    · exact h.needed hneeds
    · have he : e ∈ w.clock.pending := by
        rw [(Clock.next?_eq_some hnext).1]
        exact List.mem_cons_self
      rw [Bool.not_eq_true, needsStep_eq_false_iff] at hneeds
      obtain ⟨hdeparture, harrival⟩ := hneeds.1 e he
      apply Nat.le_antisymm h.steps
      apply prospects_pos hnext
      left
      cases hk : e.kind with
      | simulationStarted => rfl
      | shiftDispatch =>
        obtain ⟨-, -, -, -, -, hservices, -⟩ := hb.of_dispatch hk
        exact absurd (congrArg Services.submitted hservices) hsubmits
      | passengerStep => exact absurd hk hkind
      | departure => exact absurd hk hdeparture
      | stopReached => exact absurd hk harrival
  rcases hb.prospects_step hnext with hsame | ⟨hstep, -⟩
  · exact hsame.trans hone
  · exact absurd hstep hkind

/-! ## A whole run -/

/-- An event that is handled keeps the rhythm: what is needed is scheduled once more when it was
taken. -/
theorem Rhythm.event (h : w.Rhythm) (hb : Beat { w with clock, current := some e } e w')
    (hnext : w.clock.next? = some (e, clock)) : w'.Rhythm := by
  obtain ⟨hpending, hnow⟩ := Clock.next?_eq_some hnext
  have htimely := h.timely.next hnext
  have hgrown := hb.grown
  have hmem : e ∈ w.clock.pending := hpending ▸ List.mem_cons_self
  have hrest {d : Event} (hd : d ∈ clock.pending) : d ∈ w.clock.pending :=
    hpending ▸ List.mem_cons_of_mem e hd
  constructor
  · exact hgrown.timely htimely
  · intro d hd hdkind
    rcases hgrown.mem_or hd with (htraffic | ⟨-, hkind, -⟩ | ⟨-, hkind, -⟩ | ⟨-, hkind, -⟩) | hold
    · simp [EventKind.IsTraffic, hdkind] at htraffic
    · simp [hdkind] at hkind
    · simp [hdkind] at hkind
    · simp [hdkind] at hkind
    · exact h.onset d (hrest hold) hdkind
  · have hsteps := h.steps
    rcases hb.prospects_step hnext with hsame | ⟨-, -, hless⟩ <;> omega
  · have hdispatches := h.dispatches
    rcases hb.prospects_dispatch hnext with hsame | ⟨hless, -⟩ <;> omega
  · intro hneeds
    rcases hb.prospects_step hnext with hsame | ⟨-, hnone, -⟩
    · rw [hsame]
      rcases hb.needsStep hnext hneeds with hbefore | hkind
      · exact h.needed hbefore
      · exact Nat.le_antisymm h.steps (prospects_pos hnext hkind)
    · rw [hnone] at hneeds
      cases hneeds
  · intro office hoffice hbusy
    rcases hb.prospects_dispatch hnext with hsame | ⟨-, hidle⟩
    · rw [hsame]
      by_cases hkind : e.kind = .shiftDispatch
      · exact Nat.le_antisymm h.dispatches (prospects_pos hnext (.inr hkind))
      · exact h.busy office ((hb.schedules hkind).shifts ▸ hoffice) hbusy
    · rw [hidle office hoffice] at hbusy
      cases hbusy
  · intro d hd hdkind
    have hpast : w.clock.now.toNat ≤ e.time.toNat :=
      UInt64.le_iff_toNat_le.1 (h.timely.ahead e hmem)
    have hnow' : w'.clock.now = e.time := hgrown.now.trans hnow
    rw [hnow', hb.terms.1]
    show d.time.toNat ≤ e.time.toNat + (max w.stepInterval 1).toNat
    rcases hgrown.mem_or hd with (htraffic | ⟨-, -, htime⟩ | ⟨-, -, htime⟩ | ⟨-, hkind, -⟩) | hold
    · simp [EventKind.IsTraffic, hdkind] at htraffic
    · rw [htime]
      omega
    · exact Nat.le_of_eq htime.symm
    · simp [hdkind] at hkind
    · have hsoon := h.soon d (hrest hold) hdkind
      omega

/-- An event that is handled keeps the dispatches at the multiples of the interval. -/
theorem Staffed.event {policy : ShiftPolicy} (h : w.Staffed policy) (hw : w.Rhythm)
    (hb : Beat { w with clock, current := some e } e w')
    (hnext : w.clock.next? = some (e, clock)) : w'.Staffed policy := by
  obtain ⟨hpending, -⟩ := Clock.next?_eq_some hnext
  have hmem : e ∈ w.clock.pending := hpending ▸ List.mem_cons_self
  have hoffice : ∃ office, w'.shifts = some office ∧ office.dispatcher.Named ∧
      office.dispatcher.policy = policy := by
    obtain ⟨office, hoffice, hnamed, hpolicy⟩ := h.office
    by_cases hkind : e.kind = .shiftDispatch
    · obtain ⟨before, after, hbefore, hafter, hkept, -⟩ := hb.of_dispatch hkind
      obtain rfl := Option.some.inj (hbefore.symm.trans hoffice)
      obtain ⟨hnamed', hpolicy'⟩ := hkept hnamed
      exact ⟨after, hafter, hnamed', hpolicy'.trans hpolicy⟩
    · exact ⟨office, (hb.schedules hkind).shifts.trans hoffice, hnamed, hpolicy⟩
  refine ⟨hoffice, fun d hd hdkind => ?_⟩
  rcases hb.grown.mem_or hd with (htraffic | ⟨hkind, -, htime⟩ | ⟨-, hkind, -⟩ |
    ⟨hkind, -, hafter, htime⟩) | hold
  · simp [EventKind.IsTraffic, hdkind] at htraffic
  · rw [htime, hw.onset e hmem hkind]
    exact Nat.dvd_zero _
  · simp [hdkind] at hkind
  · obtain ⟨office, hoffice, -, rfl⟩ := hoffice
    obtain rfl := Option.some.inj (hoffice.symm.trans hafter)
    rw [← htime]
    exact Nat.dvd_add (h.regular e hmem hkind) (Nat.dvd_refl _)
  · exact h.regular d (hpending ▸ List.mem_cons_of_mem e hold) hdkind

/-- Whatever is published while a step is to come, the rhythm is kept. -/
theorem Rhythm.publishAll (h : w.Rhythm) (hone : w.clock.prospects .passengerStep = 1)
    (rejections : List Rejection) : (w.publishAll rejections).Rhythm := by
  obtain ⟨services, heq⟩ := w.publishAll_eq rejections
  rw [heq]
  exact { h with needed := fun _ => hone }

/-- The rhythm is kept by an event and by what the optimizer publishes when a request is
submitted. -/
theorem Rhythm.consult (h : w.Rhythm)
    (hhandle : World.handle { w with clock, current := some e } e = .ok w')
    (hnext : w.clock.next? = some (e, clock)) {answers : List Rejection}
    (hanswers : answers ≠ [] → w'.services.submitted ≠ w.services.submitted) :
    (w'.publishAll answers).Rhythm := by
  have hw' := h.event (beat_handle hhandle) hnext
  by_cases hnone : answers = []
  · rw [hnone]
    exact hw'
  · exact hw'.publishAll (h.prospects_of_submission hhandle hnext (hanswers hnone)) answers

/-- The start is not pending any more once it was taken. -/
theorem Beat.no_start (hb : Beat { w with clock, current := some e } e w') (h : w.Rhythm)
    (hnext : w.clock.next? = some (e, clock))
    (hstart : e.kind = .simulationStarted ∨ w.clock.count .simulationStarted = 0) :
    w'.clock.count .simulationStarted = 0 := by
  have hsame : w'.clock.count .simulationStarted = clock.count .simulationStarted := hb.count_start
  have hcount := Clock.count_next hnext .simulationStarted
  have honce := h.steps
  unfold Clock.prospects at honce
  rw [hsame]
  rcases hstart with hkind | hnone
  · rw [if_pos hkind] at hcount
    omega
  · omega

/-- Through a run the rhythm is kept, and the start is not pending any more once it was taken. -/
theorem Consults.rhythm {taken : List Event} (h : w.Consults taken w') (hw : w.Rhythm) :
    w'.Rhythm ∧
      ((∃ e ∈ taken, e.kind = .simulationStarted) → w'.clock.count .simulationStarted = 0) := by
  induction h with
  | here => exact ⟨hw, fun ⟨e, he, _⟩ => (nomatch he)⟩
  | @event taken v v' e answers _ hnext hanswers ih =>
    obtain ⟨hv, hstarted⟩ := ih
    obtain ⟨-, clock, hclock, hhandle⟩ := next?_eq_ok_some hnext
    refine ⟨hv.consult hhandle hclock hanswers, ?_⟩
    rintro ⟨d, hd, hdkind⟩
    obtain ⟨services, heq⟩ := v'.publishAll_eq answers
    rw [heq]
    apply (beat_handle hhandle).no_start hv hclock
    rcases List.mem_append.1 hd with hd | hd
    · exact .inr (hstarted ⟨d, hd, hdkind⟩)
    · exact .inl (List.mem_singleton.1 hd ▸ hdkind)

/-- The dispatches stay at the multiples of the interval, whatever the optimizer answers. -/
theorem Consults.staffed {taken : List Event} {policy : ShiftPolicy} (h : w.Consults taken w')
    (hw : w.Rhythm) (hstaffed : w.Staffed policy) : w'.Staffed policy := by
  induction h with
  | here => exact hstaffed
  | @event taken v v' e answers hbefore hnext _ ih =>
    obtain ⟨-, clock, hclock, hhandle⟩ := next?_eq_ok_some hnext
    have hv' := ih.event (hbefore.rhythm hw).1 (beat_handle hhandle) hclock
    obtain ⟨services, heq⟩ := v'.publishAll_eq answers
    rw [heq]
    exact ⟨hv'.office, hv'.regular⟩

end World

namespace Setup

variable {s : Setup} {provisions : List Provision} {built ready started w : World}

/-- The dispatcher of a scenario has the policy of the configuration. -/
theorem policy_dispatcher (s : Setup) (policy : ShiftPolicy) :
    (s.dispatcher policy).policy = policy := by
  have hfleet (vs : List VehicleEntry) (d : Dispatcher) :
      (vs.foldl Dispatcher.addVehicle d).policy = d.policy := by
    induction vs generalizing d with
    | nil => rfl
    | cons entry rest ih => exact (ih _).trans (d.act_addVehicle entry).policy_eq
  have hshifts (plans : List ShiftPlan) (d : Dispatcher) :
      (plans.foldl Dispatcher.addShift d).policy = d.policy := by
    induction plans generalizing d with
    | nil => rfl
    | cons plan rest ih => exact ih _
  exact (hshifts _ _).trans (hfleet _ _)

/-- The rhythm holds from the start on, which leads to the first step and the first dispatch. -/
theorem rhythm_start (hbuilt : s.build = .ok built)
    (hready : built.provideAll provisions = .ok ready) (hstarted : ready.start = .ok started) :
    started.Rhythm := by
  obtain ⟨htimely, -, hpending, hcount⟩ := pending_start hbuilt hready hstarted
  have hnone {kind : EventKind} (hkind : kind ≠ .simulationStarted) (htraffic : ¬ kind.IsTraffic)
      {e : Event} (he : e ∈ started.clock.pending) : e.kind ≠ kind := by
    rintro rfl
    rcases hpending e he with ⟨-, hstart⟩ | hother
    · exact hkind hstart
    · exact htraffic hother
  have hone {kind : EventKind} (hkind : kind ≠ .simulationStarted) (htraffic : ¬ kind.IsTraffic) :
      started.clock.prospects kind = 1 := by
    unfold Clock.prospects
    rw [hcount, Clock.count_eq_zero fun _ => hnone hkind htraffic]
  have hsteps : started.clock.prospects .passengerStep = 1 :=
    hone (by simp) (by simp [EventKind.IsTraffic])
  have hdispatches : started.clock.prospects .shiftDispatch = 1 :=
    hone (by simp) (by simp [EventKind.IsTraffic])
  refine ⟨htimely, fun e he hkind => ?_, hsteps.le, hdispatches.le, fun _ => hsteps,
    fun _ _ _ => hdispatches, fun e he hkind => ?_⟩
  · rcases hpending e he with ⟨htime, -⟩ | hother
    · exact htime
    · simp [EventKind.IsTraffic, hkind] at hother
  · exact absurd hkind (hnone (by simp) (by simp [EventKind.IsTraffic]) he)

/-- The office of a scenario with shifts keeps to the policy from the start on. -/
theorem staffed_start {policy : ShiftPolicy} (hpolicy : s.config.shifts = some policy)
    (hbuilt : s.build = .ok built) (hready : built.provideAll provisions = .ok ready)
    (hstarted : ready.start = .ok started) : started.Staffed policy := by
  obtain ⟨-, -, hpending, -⟩ := pending_start hbuilt hready hstarted
  constructor
  · obtain ⟨clock, -, rfl⟩ := World.schedule_eq_ok hstarted
    refine ⟨{ dispatcher := s.dispatcher policy }, ?_,
      (s.untouched_dispatcher policy).sound.named, s.policy_dispatcher policy⟩
    have hshifts := (World.quiet_provideAll hready).shifts.trans (shifts_build hbuilt)
    rw [hpolicy, Option.map_some] at hshifts
    exact hshifts
  · intro e he hkind
    rcases hpending e he with ⟨-, hstart⟩ | hother
    · simp [hkind] at hstart
    · simp [EventKind.IsTraffic, hkind] at hother

/-- Once the simulation has started, no wake-up is lost, whatever the optimizer rejects while
requests are submitted to it. One step of the services and one dispatch are pending at most. As long
as traffic is to come or a rejection lies in a mailbox, a step is pending, an interval from now at
the latest; as long as the office has an open shift or a task, a dispatch is pending at a multiple
of its interval. -/
theorem Consults.no_lost_wakeup {taken : List Event} (h : s.Consults provisions taken w)
    (hstart : ∃ e ∈ taken, e.kind = .simulationStarted) :
    w.clock.count .passengerStep ≤ 1 ∧ w.clock.count .shiftDispatch ≤ 1 ∧
      ((∃ e ∈ w.clock.pending, e.kind.IsTraffic) ∨
          (∃ service ∈ w.services.members, service.mailbox ≠ []) →
        w.clock.count .passengerStep = 1 ∧ ∃ e ∈ w.clock.pending, e.kind = .passengerStep ∧
          e.time.toNat ≤ w.clock.now.toNat + (max s.config.stepInterval 1).toNat) ∧
      ∀ policy, s.config.shifts = some policy → ∃ office, w.shifts = some office ∧
        (office.dispatcher.hasOpenShifts = true ∨ office.tasks.isEmpty = false →
          w.clock.count .shiftDispatch = 1 ∧ ∃ e ∈ w.clock.pending, e.kind = .shiftDispatch ∧
            policy.dispatchInterval.toNat ∣ e.time.toNat) := by
  have hopen := h.runs.reaches.chronicled.allOpen
  have hstep := h.runs.terms.1
  obtain ⟨built, ready, started, hbuilt, hready, hstarted, hconsults⟩ := h
  have hfirst := rhythm_start hbuilt hready hstarted
  obtain ⟨hw, hnone⟩ := hconsults.rhythm hfirst
  have hprospects (kind : EventKind) : w.clock.prospects kind = w.clock.count kind := by
    unfold Clock.prospects
    rw [hnone hstart, Nat.zero_add]
  refine ⟨hprospects _ ▸ hw.steps, hprospects _ ▸ hw.dispatches, fun hneeds => ?_,
    fun policy hpolicy => ?_⟩
  · have hneeds : w.needsStep = true := by
      rw [← Bool.not_eq_false]
      rcases hneeds with ⟨e, he, htraffic⟩ | ⟨service, hs, hmailbox⟩
      · intro hnot
        obtain ⟨hdeparture, harrival⟩ := (World.needsStep_eq_false_iff.1 hnot).1 e he
        exact htraffic.elim hdeparture harrival
      · obtain ⟨r, hr⟩ := List.exists_mem_of_ne_nil _ hmailbox
        exact World.needsStep_of_mem hs (hopen service hs) hr
    have hone : w.clock.count .passengerStep = 1 := hprospects _ ▸ hw.needed hneeds
    obtain ⟨e, he, hkind⟩ := Clock.exists_of_count_pos (hone ▸ Nat.one_pos)
    exact ⟨hone, e, he, hkind, hstep ▸ hw.soon e he hkind⟩
  · have hstaffed := hconsults.staffed hfirst (staffed_start hpolicy hbuilt hready hstarted)
    obtain ⟨office, hoffice, -, -⟩ := hstaffed.office
    refine ⟨office, hoffice, fun hbusy => ?_⟩
    have hbusy : office.isBusy = true := by
      unfold ShiftOffice.isBusy
      rcases hbusy with hbusy | hbusy <;> simp [hbusy]
    have hone : w.clock.count .shiftDispatch = 1 := hprospects _ ▸ hw.busy office hoffice hbusy
    obtain ⟨e, he, hkind⟩ := Clock.exists_of_count_pos (hone ▸ Nat.one_pos)
    have hregular := hstaffed.regular e he hkind
    have hpositive : policy.dispatchInterval ≠ 0 :=
      (s.config.fault?_eq_none_iff.1 (build_eq_ok hbuilt).1).2.2.2 policy hpolicy
    rw [Time.max_one_eq_self hpositive] at hregular
    exact ⟨hone, e, he, hkind, hregular⟩

/-- A shift is still to come on a morning on which somebody goes to work. -/
def openMorning : Setup :=
  { commute with
    config := { commute.config with shifts := some { dispatchInterval := 300 } }
    shifts := [{ id := ⟨"day"⟩, start := 600, finish := 1200 }] }

/-- The optimizer rejects the first ride, but only for a later time, and one that nobody asked for.
-/
def lateAnswers : List Rejection :=
  [⟨500, ⟨"drt"⟩, ⟨"drt_0"⟩, "no_vehicle"⟩, ⟨0, ⟨"drt"⟩, ⟨"drt_7"⟩, "unknown"⟩]

/-- When the traveler has departed, the vehicle is to come, both rejections lie in the mailbox and
the shift is open. -/
theorem open_morning_goes_on : ∃ taken w office,
    openMorning.Consults (commuters 100 110) taken w ∧
    (∃ e ∈ taken, e.kind = .simulationStarted) ∧
    (∃ service ∈ w.services.members, service.mailbox = lateAnswers) ∧ w.shifts = some office ∧
    office.dispatcher.hasOpenShifts = true ∧ w.clock.count .passengerStep = 1 ∧
    (∃ e ∈ w.clock.pending, e.kind = .passengerStep ∧ e.time.toNat ≤ w.clock.now.toNat + 60) ∧
    w.clock.count .shiftDispatch = 1 ∧
    ∃ e ∈ w.clock.pending, e.kind = .shiftDispatch ∧ 300 ∣ e.time.toNat := by
  have hplay : ((openMorning.record (commuters 100 110) 4).bind fun run =>
      run.2.next?.toOption.bind fun next => next.bind fun taken =>
        (taken.2.publishAll lateAnswers).shifts.bind fun office =>
          if (∃ e ∈ run.1, e.kind = .simulationStarted) ∧
            taken.2.services.submitted ≠ run.2.services.submitted ∧
            (∃ service ∈ (taken.2.publishAll lateAnswers).services.members,
              service.mailbox = lateAnswers) ∧
            office.dispatcher.hasOpenShifts = true then some () else none) = some () := by
    decide +kernel
  obtain ⟨⟨before, v⟩, hrecord, hrest⟩ := Option.bind_eq_some_iff.1 hplay
  obtain ⟨next, hnext, hafter⟩ := Option.bind_eq_some_iff.1 hrest
  obtain ⟨⟨e, v'⟩, htaken, hshifts⟩ := Option.bind_eq_some_iff.1 hafter
  obtain ⟨office, hoffice, hif⟩ := Option.bind_eq_some_iff.1 hshifts
  rw [htaken] at hnext
  split at hif
  · next hall =>
    obtain ⟨⟨d, hd, hdkind⟩, hsubmitted, hmailbox, hopen⟩ := hall
    have hruns : openMorning.Runs (fun _ => False) (commuters 100 110) before v :=
      runs_of_record (by simp [commuters]) hrecord
    have hconsults : openMorning.Consults (commuters 100 110) (before ++ [e])
        (v'.publishAll lateAnswers) :=
      hruns.consults.event (toOption_eq_some_iff.1 hnext) fun _ => hsubmitted
    have hstart : ∃ e' ∈ before ++ [e], e'.kind = .simulationStarted :=
      ⟨d, List.mem_append_left [e] hd, hdkind⟩
    obtain ⟨-, -, hsteps, hdispatches⟩ := Consults.no_lost_wakeup hconsults hstart
    obtain ⟨service, hs, hheard⟩ := hmailbox
    have hnonempty : service.mailbox ≠ [] := by
      rw [hheard]
      exact List.cons_ne_nil _ _
    obtain ⟨hone, hsoon⟩ := hsteps (.inr ⟨service, hs, hnonempty⟩)
    obtain ⟨office', hoffice', hbusy⟩ := hdispatches { dispatchInterval := 300 } rfl
    obtain rfl := Option.some.inj (hoffice.symm.trans hoffice')
    obtain ⟨hone', hregular⟩ := hbusy (.inl hopen)
    exact ⟨before ++ [e], _, office, hconsults, hstart, ⟨service, hs, hheard⟩, hoffice, hopen, hone,
      hsoon, hone', hregular⟩
  · cases hif

end Setup

end DialARide
