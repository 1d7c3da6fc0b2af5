import DialARide.Proofs.Shift.Office
import DialARide.Proofs.Shift.Separation
import DialARide.Proofs.World.Reach

/-!
# What is done at intervals

The services step and shifts are dispatched at intervals. Whatever travelers and vehicles do puts
departures and arrivals on the clock and leaves these two as they are, so an event has one of four
outcomes for them: the start sets both off, each goes on by itself while it is needed, and the
rest is quiet. This is so whether or not a fault is met.
-/

namespace DialARide

/-- A traveler departs, or a vehicle is at a stop. -/
def EventKind.IsTraffic (kind : EventKind) : Prop := kind = .departure ∨ kind = .stopReached

/-- The number of pending events of a kind. -/
def Clock.count (c : Clock) (kind : EventKind) : Nat := c.pending.countP (·.kind = kind)

namespace Clock

variable {c c' : Clock} {p : Event → Prop} {kind : EventKind}

/-- Events of a kind that is not scheduled are as many as before. -/
theorem Grown.count_eq (h : Grown p c c') (hp : ∀ e, p e → e.kind ≠ kind) :
    c'.count kind = c.count kind :=
  h.countP_eq fun e he => by simp [hp e he]

/-- Scheduling an event counts for its kind only. -/
theorem count_scheduleAt {time : Time} {added : EventKind} {subject : Option Subject}
    (h : c.scheduleAt time added subject = .ok c') (kind : EventKind) :
    c'.count kind = c.count kind + if added = kind then 1 else 0 := by
  obtain ⟨-, -, hpending⟩ := scheduleAt_eq_ok h
  unfold count
  rw [hpending, (Event.perm_insertIn _ _).countP_eq, List.countP_cons]
  by_cases hkind : added = kind <;> simp [hkind]

/-- The event that is taken no longer counts for its kind. -/
theorem count_next {e : Event} (h : c.next? = some (e, c')) (kind : EventKind) :
    c.count kind = c'.count kind + if e.kind = kind then 1 else 0 := by
  unfold count
  rw [(next?_eq_some h).1, List.countP_cons]
  by_cases hkind : e.kind = kind <;> simp [hkind]

theorem count_eq_zero (h : ∀ e ∈ c.pending, e.kind ≠ kind) : c.count kind = 0 :=
  List.countP_eq_zero.2 fun e he => by simp [h e he]

/-- What is counted is pending. -/
theorem exists_of_count_pos (h : 0 < c.count kind) : ∃ e ∈ c.pending, e.kind = kind := by
  obtain ⟨e, he, hkind⟩ := List.countP_pos_iff.1 h
  exact ⟨e, he, by simpa using hkind⟩

end Clock

namespace World

variable {w w' w'' : World} {e : Event} {now : Time}

/-! ## What is quiet -/

/-- Events of a sort are scheduled, and what is done at intervals is left as it is. -/
structure Schedules (p : Event → Prop) (w w' : World) : Prop where
  clock : w.clock.Grown p w'.clock
  arranged : w.clock.Arranged → w'.clock.Arranged
  shifts : w'.shifts = w.shifts
  stepInterval : w'.stepInterval = w.stepInterval
  endTime : w'.endTime = w.endTime

/-- Nothing but traffic is scheduled. -/
abbrev Quiet (w w' : World) : Prop := Schedules (·.kind.IsTraffic) w w'

variable {p q : Event → Prop}

theorem Schedules.refl (p : Event → Prop) (w : World) : Schedules p w w :=
  ⟨.refl _ _, id, rfl, rfl, rfl⟩

theorem Schedules.trans (h : Schedules p w w') (h' : Schedules p w' w'') : Schedules p w w'' :=
  ⟨h.clock.trans h'.clock, fun hw => h'.arranged (h.arranged hw), h'.shifts.trans h.shifts,
    h'.stepInterval.trans h.stepInterval, h'.endTime.trans h.endTime⟩

/-- What is scheduled has every property that follows from the one that is known. -/
theorem Schedules.mono (hpq : ∀ e, p e → q e) (h : Schedules p w w') : Schedules q w w' :=
  ⟨h.clock.mono hpq, h.arranged, h.shifts, h.stepInterval, h.endTime⟩

/-- The one event that is scheduled is the one that was asked for. -/
theorem schedules_schedule {time : Time} {kind : EventKind} {subject : Option Subject}
    (h : w.schedule time kind subject = .ok w') :
    Schedules (fun e => e.time = time ∧ e.kind = kind ∧ e.subject = subject) w w' := by
  obtain ⟨clock, hc, rfl⟩ := schedule_eq_ok h
  exact ⟨Clock.grown_scheduleAt hc, fun hw => hw.scheduleAt hc, rfl, rfl, rfl⟩

/-- Traffic may be scheduled unnoticed. -/
theorem quiet_schedule {time : Time} {kind : EventKind} {subject : Option Subject}
    (hkind : kind.IsTraffic) (h : w.schedule time kind subject = .ok w') : Quiet w w' := by
  refine (schedules_schedule h).mono ?_
  rintro e ⟨-, rfl, -⟩
  exact hkind

theorem quiet_changeTraveler (w : World) (id : EntityId) (f : Traveler → Traveler) :
    Quiet w (w.changeTraveler id f) :=
  ⟨.refl _ _, fun hw => hw, rfl, rfl, rfl⟩

theorem quiet_setStopState (w : World) (id : EntityId) (state : StopState) :
    Quiet w (w.setStopState id state) :=
  ⟨.refl _ _, fun hw => hw, rfl, rfl, rfl⟩

/-- A call that is put into effect schedules nothing but traffic. -/
theorem quiet_perform {c : Call} (h : w.perform c = .ok w') : Quiet w w' := by
  cases c with
  | observe o =>
    cases h
    exact ⟨.refl _ _, fun hw => hw, rfl, rfl, rfl⟩
  | ready stop traveler now => exact quiet_schedule (.inr rfl) h
  | board vehicle id now | abort id now =>
    cases h
    exact w.quiet_changeTraveler id _
  | alight vehicle id link now =>
    have h : w.alight id link now = .ok w' := h
    cases ht : w.traveler? id with
    | none =>
      simp only [alight, ht, Except.ok.injEq] at h
      exact h ▸ .refl _ w
    | some t =>
      rcases alight_eq_ok ht h with ⟨-, rfl⟩ | ⟨next, -, hs⟩
      · exact w.quiet_changeTraveler id _
      · exact (w.quiet_changeTraveler id _).trans (quiet_schedule (.inl rfl) hs)

/-- All that services call for is traffic. -/
theorem quiet_performAll {calls : List Call} (h : w.performAll calls = .ok w') : Quiet w w' := by
  induction calls generalizing w with
  | nil =>
    cases h
    exact .refl _ _
  | cons c calls ih =>
    obtain ⟨w₁, hc, hrest⟩ := performAll_cons_eq_ok h
    exact (quiet_perform hc).trans (ih hrest)

/-- The services have no part in what is done at intervals. -/
theorem quiet_of_services {services : Services} {calls : List Call}
    (h : { w with services }.performAll calls = .ok w') : Quiet w w' :=
  have hquiet := quiet_performAll h
  ⟨hquiet.clock, hquiet.arranged, hquiet.shifts, hquiet.stepInterval, hquiet.endTime⟩

/-- A departure leads to traffic only. -/
private theorem quiet_onDeparture {id : EntityId} (h : w.onDeparture now id = .ok w') :
    Quiet w w' := by
  rcases onDeparture_eq_ok h with ⟨rfl, -⟩ | ⟨t, planned, -, -, ⟨fault, -, rfl⟩ |
    ⟨taken, services, calls, w₁, -, hperform, rfl⟩⟩
  · exact .refl _ w'
  · exact ⟨.refl _ _, fun hw => hw, rfl, rfl, rfl⟩
  · have hquiet := (w.quiet_changeTraveler id _).trans (quiet_of_services hperform)
    split
    · exact hquiet
    · exact ⟨hquiet.clock, hquiet.arranged, hquiet.shifts, hquiet.stepInterval, hquiet.endTime⟩

/-- A pickup leads to traffic only. -/
private theorem quiet_onPickup {id : EntityId} {st : Stop} {i : Nat} {s : Service}
    (hstate : st.state = .scheduled ∨ st.state = .waitingForPassenger)
    (hs : w.services.members[i]? = some s) (h : w.onPickup now id st i = .ok w') :
    Quiet w w' := by
  rcases onPickup_eq_ok hstate hs h with ⟨-, -, rfl⟩ | ⟨-, -, rfl⟩ | ⟨turn, w₁, -, hperform, rfl⟩
  · exact ⟨.refl _ _, fun hw => hw, rfl, rfl, rfl⟩
  · exact w.quiet_setStopState id _
  · exact (quiet_of_services hperform).trans (w₁.quiet_setStopState id _)

/-- A dropoff leads to traffic only. -/
private theorem quiet_onDropoff {id pickup : EntityId} {st : Stop} {i : Nat} {s : Service}
    (hs : w.services.members[i]? = some s) (h : w.onDropoff now id st pickup i = .ok w') :
    Quiet w w' := by
  rcases onDropoff_eq_ok hs h with ⟨-, rfl⟩ | ⟨-, ⟨fault, -, rfl⟩ |
    ⟨traveler, turn, w₁, -, hperform, rfl⟩⟩
  · exact w.quiet_setStopState id _
  · exact ⟨.refl _ _, fun hw => hw, rfl, rfl, rfl⟩
  · exact (quiet_of_services hperform).trans (w₁.quiet_setStopState id _)

/-- Whatever happens at a stop leads to traffic only. -/
private theorem quiet_onStop {id : EntityId} (h : w.onStop now id = .ok w') : Quiet w w' := by
  rcases onStop_eq_ok h with ⟨rfl, -⟩ | ⟨st, i, s, -, hs, -, ⟨-, hstate, h⟩ | ⟨pickup, -, -, h⟩⟩
  · exact .refl _ w'
  · exact quiet_onPickup hstate hs h
  · exact quiet_onDropoff hs h

/-! ## What an event comes to -/

/-- The office after a dispatch keeps its policy, and its vehicles under their names. -/
theorem policy_of_dispatch {office : ShiftOffice} {dispatcher d : Dispatcher}
    {instructions : List Instruction} {tasks : TaskQueue} {fault : Option Fault}
    (hd : office.dispatcher.Named)
    (hdispatch : office.dispatcher.dispatch now = .ok (dispatcher, instructions))
    (hexecute : (instructions.foldl TaskQueue.accept office.tasks).executeDue dispatcher now =
      (tasks, d, fault)) :
    d.Named ∧ d.policy = office.dispatcher.policy := by
  have hdecisions := Dispatcher.decisions_dispatch hd hdispatch
  have hnamed : dispatcher.Named := hdecisions.keeps (fun _ _ _ h => h.named) hd
  have hreports := TaskQueue.reports_executeDue hnamed
    (instructions.foldl TaskQueue.accept office.tasks) now
  rw [hexecute] at hreports
  refine ⟨hreports.keeps (fun _ _ h => h.named) hnamed, ?_⟩
  have hdecided : dispatcher.policy = office.dispatcher.policy :=
    hdecisions.keeps (P := fun d => d.policy = office.dispatcher.policy)
      (fun _ _ _ h hP => h.policy_eq.trans hP) rfl
  exact hreports.keeps (P := fun d => d.policy = office.dispatcher.policy)
    (fun _ _ h hP => (Dispatcher.Act.reported h).policy_eq.trans hP) hdecided

/-- What the handling of an event comes to for what is done at intervals. -/
inductive Beat (w : World) (e : Event) : World → Prop
  /-- The first step of the services is due at once, and so is the first dispatch of shifts. -/
  | started {w₁ w' : World} : e.kind = .simulationStarted →
      w.schedule e.time .passengerStep none = .ok w₁ →
      (w.shifts = none ∧ w' = w₁ ∨
        w.shifts ≠ none ∧ w₁.schedule e.time .shiftDispatch none = .ok w') →
      Beat w e w'
  /-- Shifts are dispatched, and again an interval later while anything is left to do. -/
  | dispatched {before after : ShiftOffice} {w' : World} : e.kind = .shiftDispatch →
      w.shifts = some before → w'.shifts = some after →
      (before.dispatcher.Named → after.dispatcher.Named ∧
        after.dispatcher.policy = before.dispatcher.policy) →
      w'.services = w.services → w'.stepInterval = w.stepInterval → w'.endTime = w.endTime →
      (after.isBusy = false ∧ w'.clock = w.clock ∨
        ∃ time, Time.plus e.time (max after.dispatcher.policy.dispatchInterval 1) = .ok time ∧
          w.clock.scheduleAt time .shiftDispatch none = .ok w'.clock) →
      Beat w e w'
  /-- The services step, and again an interval later while they are needed. -/
  | stepped {w₁ w' : World} : e.kind = .passengerStep → Quiet w w₁ →
      (w₁.needsStep = false ∧ w' = w₁ ∨
        ∃ time, Time.plus e.time (max w.stepInterval 1) = .ok time ∧
          w₁.schedule time .passengerStep none = .ok w') →
      Beat w e w'
  /-- Traffic has no part in what is done at intervals. -/
  | quiet {w' : World} : e.kind.IsTraffic → Quiet w w' → Beat w e w'

/-- Every event that is handled comes to one of these. -/
theorem beat_handle (h : w.handle e = .ok w') : Beat w e w' := by
  unfold handle at h
  split at h
  · next hkind =>
    obtain ⟨w₁, hstep, hafter⟩ := onStart_eq_ok h
    exact .started hkind hstep hafter
  · next hkind =>
    obtain ⟨office, dispatcher, instructions, tasks, d, fault, hoffice, hdispatch, hexecute,
      hshifts, -, hservices, -, -, hstep, hend, hclock⟩ := onShiftDispatch_eq_ok h
    refine .dispatched hkind hoffice hshifts (fun hd => ?_) hservices hstep hend hclock
    obtain ⟨hnamed, hpolicy⟩ := policy_of_dispatch hd hdispatch hexecute
    exact ⟨hnamed, hpolicy⟩
  · next hkind =>
    obtain ⟨ns, services, calls, w₁, -, hperform, hafter⟩ := onPassengerStep_eq_ok h
    have hquiet := quiet_of_services hperform
    rw [hquiet.stepInterval] at hafter
    exact .stepped hkind hquiet hafter
  · next hkind _ => exact .quiet (.inl hkind) (quiet_onDeparture h)
  · next hkind _ => exact .quiet (.inr hkind) (quiet_onStop h)
  · next hstart hshift hstep _ _ =>
    cases h
    refine .quiet ?_ (.refl _ w)
    cases hkind : e.kind with
    | simulationStarted => exact (hstart hkind).elim
    | shiftDispatch => exact (hshift hkind).elim
    | passengerStep => exact (hstep hkind).elim
    | departure => exact .inl rfl
    | stopReached => exact .inr rfl

/-- What the handling of an event can put on the clock. -/
inductive FollowUp (w w' : World) (e d : Event) : Prop
  | traffic : d.kind.IsTraffic → FollowUp w w' e d
  | first : e.kind = .simulationStarted → d.kind = .passengerStep ∨ d.kind = .shiftDispatch →
      d.time = e.time → FollowUp w w' e d
  | step : e.kind = .passengerStep → d.kind = .passengerStep →
      e.time.toNat + (max w.stepInterval 1).toNat = d.time.toNat → FollowUp w w' e d
  | dispatch {office : ShiftOffice} : e.kind = .shiftDispatch → d.kind = .shiftDispatch →
      w'.shifts = some office →
      e.time.toNat + (max office.dispatcher.policy.dispatchInterval 1).toNat = d.time.toNat →
      FollowUp w w' e d

/-- Only a dispatch of shifts does more than to schedule something. -/
theorem Beat.schedules (hb : Beat w e w') (hkind : e.kind ≠ .shiftDispatch) :
    Schedules (FollowUp w w' e) w w' := by
  cases hb with
  | started hstart hstep hafter =>
    have hfirst := (schedules_schedule hstep).mono (q := FollowUp w w' e)
      fun d hd => .first hstart (.inl hd.2.1) hd.1
    rcases hafter with ⟨-, rfl⟩ | ⟨-, hdispatch⟩
    · exact hfirst
    · exact hfirst.trans ((schedules_schedule hdispatch).mono
        fun d hd => .first hstart (.inr hd.2.1) hd.1)
  | dispatched hdispatch => exact absurd hdispatch hkind
  | stepped hstepped hquiet hafter =>
    have hgrown := hquiet.mono (q := FollowUp w w' e) fun d hd => .traffic hd
    rcases hafter with ⟨-, rfl⟩ | ⟨time, htime, hschedule⟩
    · exact hgrown
    · refine hgrown.trans ((schedules_schedule hschedule).mono ?_)
      rintro d ⟨rfl, hdkind, -⟩
      exact .step hstepped hdkind (Time.plus_eq_ok_iff.1 htime)
  | quiet _ hquiet => exact hquiet.mono fun d hd => .traffic hd

/-- A dispatch of shifts changes the office and nothing else that is done at intervals. -/
theorem Beat.of_dispatch (hb : Beat w e w') (hkind : e.kind = .shiftDispatch) :
    ∃ before after, w.shifts = some before ∧ w'.shifts = some after ∧
      (before.dispatcher.Named → after.dispatcher.Named ∧
        after.dispatcher.policy = before.dispatcher.policy) ∧
      w'.services = w.services ∧ w'.stepInterval = w.stepInterval ∧ w'.endTime = w.endTime ∧
      (after.isBusy = false ∧ w'.clock = w.clock ∨
        ∃ time, Time.plus e.time (max after.dispatcher.policy.dispatchInterval 1) = .ok time ∧
          w.clock.scheduleAt time .shiftDispatch none = .ok w'.clock) := by
  cases hb with
  | dispatched _ hbefore hafter hpolicy hservices hstep hend hclock =>
    exact ⟨_, _, hbefore, hafter, hpolicy, hservices, hstep, hend, hclock⟩
  | started hother | stepped hother => simp [hkind] at hother
  | quiet hother => simp [hkind, EventKind.IsTraffic] at hother

/-- An event that is handled puts nothing on the clock but what follows up on it. -/
theorem Beat.grown (hb : Beat w e w') : w.clock.Grown (FollowUp w w' e) w'.clock := by
  by_cases hkind : e.kind = .shiftDispatch
  · obtain ⟨-, after, -, hafter, -, -, -, -, hclock⟩ := hb.of_dispatch hkind
    rcases hclock with ⟨-, hsame⟩ | ⟨time, htime, hscheduled⟩
    · rw [hsame]
      exact .refl _ _
    · refine (Clock.grown_scheduleAt hscheduled).mono ?_
      rintro d ⟨rfl, hdkind, -⟩
      exact .dispatch hkind hdkind hafter (Time.plus_eq_ok_iff.1 htime)
  · exact (hb.schedules hkind).clock

/-- An event that is handled leaves the clock arranged. -/
theorem Beat.arranged (hb : Beat w e w') (hw : w.clock.Arranged) : w'.clock.Arranged := by
  by_cases hkind : e.kind = .shiftDispatch
  · obtain ⟨-, after, -, -, -, -, -, -, hclock⟩ := hb.of_dispatch hkind
    rcases hclock with ⟨-, hsame⟩ | ⟨time, -, hscheduled⟩
    · rw [hsame]
      exact hw
    · exact hw.scheduleAt hscheduled
  · exact (hb.schedules hkind).arranged hw

/-- The intervals and the end of the run never change. -/
theorem Beat.terms (hb : Beat w e w') :
    w'.stepInterval = w.stepInterval ∧ w'.endTime = w.endTime := by
  by_cases hkind : e.kind = .shiftDispatch
  · obtain ⟨-, -, -, -, -, -, hstep, hend, -⟩ := hb.of_dispatch hkind
    exact ⟨hstep, hend⟩
  · exact ⟨(hb.schedules hkind).stepInterval, (hb.schedules hkind).endTime⟩

/-- The interval and the end time are settled for a whole run. -/
theorem Takes.terms {allowed : Rejection → Prop} {taken : List Event}
    (h : w.Takes allowed taken w') :
    w'.stepInterval = w.stepInterval ∧ w'.endTime = w.endTime := by
  induction h with
  | here => exact ⟨rfl, rfl⟩
  | event _ hnext ih =>
    obtain ⟨-, clock, -, hhandle⟩ := next?_eq_ok_some hnext
    obtain ⟨hstep, hend⟩ := (beat_handle hhandle).terms
    exact ⟨hstep.trans ih.1, hend.trans ih.2⟩
  | publish r _ _ ih => exact ih

/-! ## Filling a scenario -/

theorem quiet_publish (w : World) (r : Rejection) : Quiet w (w.publish r) :=
  ⟨.refl _ _, fun hw => hw, rfl, rfl, rfl⟩

/-- What is filled in puts nothing but traffic on the clock. -/
theorem quiet_provide {p : Provision} (h : w.provide p = .ok w') : Quiet w w' := by
  have hadd (entity : Entity) : Quiet w { w with entities := w.entities ++ [entity] } :=
    ⟨.refl _ _, fun hw => hw, rfl, rfl, rfl⟩
  cases p with
  | traveler person link legs =>
    cases legs with
    | nil =>
      cases h
      exact hadd _
    | cons leg rest =>
      rw [provide_traveler] at h
      exact (hadd _).trans (quiet_schedule (.inl rfl) h)
  | stop s time =>
    rw [provide_stop] at h
    exact (hadd _).trans (quiet_schedule (.inr rfl) h)
  | booking now person planned =>
    obtain ⟨services, calls, rfl, -⟩ := provide_booking_eq_ok h
    exact ⟨.refl _ _, fun hw => hw, rfl, rfl, rfl⟩
  | rejection r =>
    cases h
    exact w.quiet_publish r

/-- A world that is filled waits for traffic only. -/
theorem quiet_provideAll {provisions : List Provision} (h : w.provideAll provisions = .ok w') :
    Quiet w w' := by
  induction provisions generalizing w with
  | nil =>
    cases h
    exact .refl _ _
  | cons p rest ih =>
    unfold provideAll at h
    cases hp : w.provide p with
    | error halt => simp [hp, Bind.bind, Except.bind] at h
    | ok w₁ =>
      simp only [hp, Bind.bind, Except.bind] at h
      exact (quiet_provide hp).trans (ih h)

end World

namespace Setup

variable {s : Setup} {provisions : List Provision} {built ready started w : World}

/-- The interval of the steps and the end of the run are those of the set-up. -/
theorem Runs.terms {allowed : Rejection → Prop} {taken : List Event}
    (h : s.Runs allowed provisions taken w) :
    w.stepInterval = s.config.stepInterval ∧ w.endTime = s.endTime := by
  obtain ⟨-, built, ready, started, hbuilt, hready, hstarted, htakes⟩ := h
  have hset : built.stepInterval = s.config.stepInterval ∧ built.endTime = s.endTime := by
    unfold build at hbuilt
    split at hbuilt
    · cases hbuilt
    · cases hbuilt
      exact ⟨rfl, rfl⟩
  have hquiet := World.quiet_provideAll hready
  obtain ⟨clock, -, rfl⟩ := World.schedule_eq_ok hstarted
  obtain ⟨hstep, hend⟩ := htakes.terms
  exact ⟨hstep.trans (hquiet.stepInterval.trans hset.1), hend.trans (hquiet.endTime.trans hset.2)⟩

/-- What is pending when a scenario starts is the start, at once, and traffic. -/
theorem pending_start (hbuilt : s.build = .ok built)
    (hready : built.provideAll provisions = .ok ready) (hstarted : ready.start = .ok started) :
    started.clock.Timely ∧ started.clock.Arranged ∧
      (∀ e ∈ started.clock.pending, e.time = 0 ∧ e.kind = .simulationStarted ∨ e.kind.IsTraffic) ∧
      started.clock.count .simulationStarted = 1 := by
  obtain ⟨-, -, -, hclock⟩ := build_eq_ok hbuilt
  have hquiet := World.quiet_provideAll hready
  have hfilled := hquiet.clock
  have harranged := hquiet.arranged
  rw [hclock] at hfilled harranged
  obtain ⟨clock, hscheduled, rfl⟩ := World.schedule_eq_ok hstarted
  have hgrown := Clock.grown_scheduleAt hscheduled
  refine ⟨hgrown.timely (hfilled.timely ⟨.nil, by simp⟩), (harranged .nil).scheduleAt hscheduled,
    ?_, ?_⟩
  · intro e he
    rcases hgrown.mem_or he with ⟨htime, hkind, -⟩ | he
    · exact .inl ⟨htime, hkind⟩
    · exact .inr ((hfilled.mem_or he).resolve_right (by simp))
  · have hnone : ready.clock.count .simulationStarted = 0 := by
      refine hfilled.count_eq fun e htraffic hkind => ?_
      simp [EventKind.IsTraffic, hkind] at htraffic
    rw [Clock.count_scheduleAt hscheduled .simulationStarted, hnone, if_pos rfl]

end Setup

end DialARide
