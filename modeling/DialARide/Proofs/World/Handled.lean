import DialARide.Proofs.Ride.Course
import DialARide.Proofs.World.Change

/-!
# How an event is handled

The handling of an event that meets no fault has one of nine outcomes, which are written out here:
what becomes of the services, of the traveler or the stop concerned, and of the clock. What is
shown of a run is shown by these cases, and the handlers themselves are opened here only.
-/

namespace DialARide

namespace World

/-- What the handling of an event comes to where no fault is met. -/
inductive Handled (w : World) (e : Event) : World → Prop
  /-- The simulation starts, or shifts are dispatched. -/
  | aside {w' : World} : e.kind = .simulationStarted ∨ e.kind = .shiftDispatch →
      w'.services = w.services → w'.entities = w.entities →
      w.clock.Grown (fun d => d.kind = .passengerStep ∨ d.kind = .shiftDispatch) w'.clock →
      (e.kind = .simulationStarted → w'.clock.hasPending .passengerStep = true) →
      Handled w e w'
  /-- A traveler without a leg to travel, or a stop where nothing is left to do. -/
  | ignored : e.kind = .departure ∨ e.kind = .stopReached →
      (∀ id t, e.subject = some (.traveler id) → w.traveler? id = some t →
        e.kind = .departure → t.plan.current? = none) →
      (∀ id st, e.subject = some (.stop id) → w.stop? id = some st → e.kind = .stopReached →
        st.kind = .pickup → st.state = .waitingForPassenger →
        w.services.position? st.mode = none) →
      Handled w e w
  /-- The services apply what was rejected. -/
  | stepped {services : Services} {calls : List Call} {w₁ w' : World} :
      e.kind = .passengerStep → Services.Turns e.time .other w.services services calls →
      { w with services }.performAll calls = .ok w₁ →
      (w₁.needsStep = false ∧ w' = w₁ ∨ ∃ time, w₁.schedule time .passengerStep none = .ok w') →
      Handled w e w'
  /-- A traveler departs whom no service takes. -/
  | unserved {id : EntityId} {t : Traveler} : e.kind = .departure →
      e.subject = some (.traveler id) → w.traveler? id = some t →
      Handled w e ((w.changeTraveler id ({ · with state := .waiting })).abortUntracked id)
  /-- A traveler departs whom a service takes. -/
  | departed {id : EntityId} {t : Traveler} {i : Nat} {s : Service} {turn : Turn}
      {o : Observation} {w₁ : World} : e.kind = .departure →
      e.subject = some (.traveler id) → w.traveler? id = some t →
      w.services.members[i]? = some s → s.closed = false →
      s.Act e.time (.departure id) turn →
      turn.calls.head? = some (.observe o) → o.kind = .waiting →
      { w.changeTraveler id ({ · with state := .waiting }) with
        services := w.services.commit i turn }.performAll turn.calls = .ok w₁ →
      Handled w e (if (w.services.commit i turn).isBound id then w₁ else w₁.abortUntracked id)
  /-- A vehicle is at a stop before its passenger. -/
  | waits {id : EntityId} {st : Stop} {i : Nat} {s : Service} : e.kind = .stopReached →
      e.subject = some (.stop id) → w.stop? id = some st → st.kind = .pickup →
      st.state = .scheduled → w.services.members[i]? = some s → s.mode = st.mode →
      s.bound.find? st.request = none →
      Handled w e ({ w with
        services := w.services.commit i
          { service := { s with waitingStops := s.waitingStops.insert st.request id } }
        }.setStopState id .waitingForPassenger)
  /-- Nobody boards at a stop, though somebody may be on board under its request. -/
  | stays {id : EntityId} {st : Stop} {i : Nat} {s : Service} : e.kind = .stopReached →
      e.subject = some (.stop id) → w.stop? id = some st → st.kind = .pickup →
      w.services.members[i]? = some s → s.mode = st.mode →
      (∀ b, s.bound.find? st.request = some b → b.status = .pickedUp) →
      (st.state = .waitingForPassenger ∨ s.bound.contains st.request = true) →
      Handled w e (w.setStopState id .waitingForPassenger)
  /-- A passenger boards or alights. -/
  | served {id : EntityId} {st : Stop} {i : Nat} {s : Service} {turn : Turn} {w₁ : World} :
      e.kind = .stopReached → e.subject = some (.stop id) → w.stop? id = some st →
      w.services.members[i]? = some s → s.Act e.time .other turn →
      { w with services := w.services.commit i turn }.performAll turn.calls = .ok w₁ →
      Handled w e (w₁.setStopState id .completed)
  /-- Nobody boarded who could alight. -/
  | cancelled {id : EntityId} {st : Stop} {pickup : EntityId} : e.kind = .stopReached →
      e.subject = some (.stop id) → w.stop? id = some st → st.kind = .dropoff pickup →
      Handled w e (w.setStopState id .cancelled)

variable {w w' : World} {e : Event}

/-! ## The handlers -/

/-- The first step of the services is due at once, and so is the first dispatch if shifts are
dispatched at all. -/
theorem onStart_eq_ok {now : Time} (h : w.onStart now = .ok w') :
    ∃ w₁, w.schedule now .passengerStep none = .ok w₁ ∧
      (w.shifts = none ∧ w' = w₁ ∨
        w.shifts ≠ none ∧ w₁.schedule now .shiftDispatch none = .ok w') := by
  unfold onStart at h
  cases hstep : w.schedule now .passengerStep none with
  | error halt => simp [hstep, Bind.bind, Except.bind] at h
  | ok w₁ =>
    obtain ⟨clock, -, rfl⟩ := schedule_eq_ok hstep
    simp only [hstep, Bind.bind, Except.bind] at h
    refine ⟨_, rfl, ?_⟩
    split at h
    · next hshifts => exact .inr ⟨Option.isSome_iff_ne_none.1 hshifts, h⟩
    · next hshifts =>
      cases h
      exact .inl ⟨by simpa using hshifts, rfl⟩

/-- The steps of the services are followed by a next one, an interval later, if it is needed. -/
theorem onPassengerStep_eq_ok {now : Time} (h : w.onPassengerStep now = .ok w') :
    ∃ ns services calls w₁, w.services.stepAll now = (ns, services, calls) ∧
      { w with services }.performAll calls = .ok w₁ ∧
      (w₁.needsStep = false ∧ w' = w₁ ∨
        ∃ time, Time.plus now (max w₁.stepInterval 1) = .ok time ∧
          w₁.schedule time .passengerStep none = .ok w') := by
  unfold onPassengerStep at h
  rcases hstep : w.services.stepAll now with ⟨ns, services, calls⟩
  simp only [hstep] at h
  cases hperform : { w with services }.performAll calls with
  | error halt => simp [hperform, Bind.bind, Except.bind] at h
  | ok w₁ =>
    refine ⟨ns, services, calls, w₁, rfl, hperform, ?_⟩
    simp only [hperform, Bind.bind, Except.bind] at h
    split at h
    · cases htime : Time.plus now (max w₁.stepInterval 1) with
      | error halt => simp [htime] at h
      | ok time =>
        simp only [htime] at h
        exact .inr ⟨time, rfl, h⟩
    · next hneeds =>
      cases h
      exact .inl ⟨by simpa using hneeds, rfl⟩

/-- An office dispatches, accepts what it is told and carries out what is due. The fault that this
meets is kept unless one is kept already, and nothing that concerns passengers changes. While
anything is left to do the next dispatch is due an interval later. -/
theorem onShiftDispatch_eq_ok {now : Time} (h : w.onShiftDispatch now = .ok w') :
    ∃ office dispatcher instructions tasks d fault, w.shifts = some office ∧
      office.dispatcher.dispatch now = .ok (dispatcher, instructions) ∧
      (instructions.foldl TaskQueue.accept office.tasks).executeDue dispatcher now =
        (tasks, d, fault) ∧
      w'.shifts = some { dispatcher := d.drainEvents.2, tasks } ∧ w'.fault = w.fault.or fault ∧
      w'.services = w.services ∧ w'.entities = w.entities ∧
      w'.telemetry.observations = w.telemetry.observations ∧
      w'.stepInterval = w.stepInterval ∧ w'.endTime = w.endTime ∧
      (ShiftOffice.isBusy { dispatcher := d.drainEvents.2, tasks } = false ∧ w'.clock = w.clock ∨
        ∃ time, Time.plus now (max d.policy.dispatchInterval 1) = .ok time ∧
          w.clock.scheduleAt time .shiftDispatch none = .ok w'.clock) := by
  unfold onShiftDispatch at h
  cases hshifts : w.shifts with
  | none => simp [hshifts, throw, throwThe, MonadExceptOf.throw] at h
  | some office =>
    simp only [hshifts, Bind.bind, Except.bind, Pure.pure, Except.pure] at h
    cases hdispatch : office.dispatcher.dispatch now with
    | error halt => simp [hdispatch] at h
    | ok outcome =>
      obtain ⟨dispatcher, instructions⟩ := outcome
      simp only [hdispatch] at h
      rcases hexecute : (instructions.foldl TaskQueue.accept office.tasks).executeDue dispatcher now
        with ⟨tasks, d, fault⟩
      simp only [hexecute] at h
      refine ⟨office, dispatcher, instructions, tasks, d, fault, rfl, hdispatch, hexecute, ?_⟩
      have hdone :
          let w₁ := { w with
            shifts := some ⟨d.drainEvents.2, tasks⟩
            telemetry := w.telemetry.recordShiftEvents d.drainEvents.1 }
          let w₂ := (fault.map w₁.recordFault).getD w₁
          w₂.shifts = some ⟨d.drainEvents.2, tasks⟩ ∧ w₂.fault = w.fault.or fault ∧
            w₂.services = w.services ∧ w₂.entities = w.entities ∧
            w₂.telemetry.observations = w.telemetry.observations ∧
            w₂.stepInterval = w.stepInterval ∧ w₂.endTime = w.endTime ∧ w₂.clock = w.clock := by
        cases fault with
        | none => simp [Telemetry.recordShiftEvents]
        | some fault => cases w.fault <;> simp [recordFault, Telemetry.recordShiftEvents]
      obtain ⟨hoffice, hfault, hservices, hentities, hlog, hstep, hend, hclock⟩ := hdone
      split at h
      · split at h
        · cases h
        · next time htime =>
          obtain ⟨clock, hscheduled, rfl⟩ := schedule_eq_ok h
          rw [hclock] at hscheduled
          exact ⟨hoffice, hfault, hservices, hentities, hlog, hstep, hend,
            .inr ⟨time, htime, hscheduled⟩⟩
      · next hbusy =>
        cases h
        exact ⟨hoffice, hfault, hservices, hentities, hlog, hstep, hend,
          .inl ⟨by simpa using hbusy, hclock⟩⟩

/-- A dispatch puts down changes of shifts and nothing else. -/
theorem telemetry_onShiftDispatch {now : Time} (h : w.onShiftDispatch now = .ok w') :
    ∃ events, w'.telemetry = w.telemetry.recordShiftEvents events := by
  have hfault (v : World) (fault : Option Fault) :
      ((fault.map v.recordFault).getD v).telemetry = v.telemetry := by cases fault <;> rfl
  unfold onShiftDispatch at h
  cases hshifts : w.shifts with
  | none => simp [hshifts, throw, throwThe, MonadExceptOf.throw] at h
  | some office =>
    simp only [hshifts, Bind.bind, Except.bind, Pure.pure, Except.pure] at h
    split at h
    · cases h
    · next outcome hdispatch =>
      split at h
      · split at h
        · cases h
        · obtain ⟨clock, -, rfl⟩ := schedule_eq_ok h
          exact ⟨_, hfault _ _⟩
      · cases h
        exact ⟨_, hfault _ _⟩

/-- A traveler with a leg to travel waits, and a service takes the traveler, none does, or the
departure is faulty. -/
theorem onDeparture_eq_ok {now : Time} {id : EntityId} (h : w.onDeparture now id = .ok w') :
    (w' = w ∧ ∀ t, w.traveler? id = some t → t.plan.current? = none) ∨
      ∃ t planned, w.traveler? id = some t ∧ t.plan.current? = some planned ∧
        ((∃ fault, w.services.depart now ⟨id, t.person, planned.leg.mode, some planned⟩ t.link =
            .error fault ∧
            w' = (w.changeTraveler id ({ · with state := .waiting })).recordFault fault) ∨
          ∃ taken services calls w₁,
            w.services.depart now ⟨id, t.person, planned.leg.mode, some planned⟩ t.link =
              .ok (taken, services, calls) ∧
            { w.changeTraveler id ({ · with state := .waiting }) with services }.performAll calls =
              .ok w₁ ∧
            w' = if taken && w₁.services.isBound id then w₁ else w₁.abortUntracked id) := by
  unfold onDeparture at h
  cases ht : w.traveler? id with
  | none =>
    simp only [ht, Pure.pure, Except.pure, Except.ok.injEq] at h
    exact .inl ⟨h.symm, by simp⟩
  | some t =>
    simp only [ht] at h
    cases hp : t.plan.current? with
    | none =>
      simp only [hp, Pure.pure, Except.pure, Except.ok.injEq] at h
      refine .inl ⟨h.symm, fun t' ht' => ?_⟩
      cases ht'
      exact hp
    | some planned =>
      simp only [hp] at h
      refine .inr ⟨t, planned, rfl, hp, ?_⟩
      split at h
      · next fault hdepart =>
        simp only [Pure.pure, Except.pure, Except.ok.injEq] at h
        exact .inl ⟨fault, hdepart, h.symm⟩
      · next taken services calls hdepart =>
        cases hperform : { w.changeTraveler id ({ · with state := .waiting }) with
            services }.performAll calls with
        | error halt => simp [hperform, Bind.bind, Except.bind] at h
        | ok w₁ =>
          simp only [hperform, Bind.bind, Except.bind, Pure.pure, Except.pure,
            Except.ok.injEq] at h
          exact .inr ⟨taken, services, calls, w₁, hdepart, hperform, h.symm⟩

/-- At a pickup that is not over the vehicle waits for a passenger who is not there, nobody boards,
or the passenger boards. -/
theorem onPickup_eq_ok {now : Time} {id : EntityId} {st : Stop} {i : Nat} {s : Service}
    (hstate : st.state = .scheduled ∨ st.state = .waitingForPassenger)
    (hs : w.services.members[i]? = some s) (h : w.onPickup now id st i = .ok w') :
    (st.state = .scheduled ∧ s.bound.find? st.request = none ∧
        w' = { w with
          services := w.services.commit i
            { service := { s with waitingStops := s.waitingStops.insert st.request id } }
          }.setStopState id .waitingForPassenger) ∨
      (s.pickUp st.vehicle st.request now = none ∧
        (st.state = .waitingForPassenger ∨ s.bound.contains st.request = true) ∧
        w' = w.setStopState id .waitingForPassenger) ∨
      ∃ turn w₁, s.pickUp st.vehicle st.request now = some turn ∧
        { w with services := w.services.commit i turn }.performAll turn.calls = .ok w₁ ∧
        w' = w₁.setStopState id .completed := by
  have hcases : (st.state = .scheduled ∧ s.bound.contains st.request = false) ∨
      (st.state = .waitingForPassenger ∨ s.bound.contains st.request = true) := by
    cases hb : s.bound.contains st.request <;> rcases hstate with hstate | hstate <;> simp [hstate]
  unfold onPickup at h
  rcases hcases with ⟨hscheduled, hb⟩ | hthere
  · have hawait := Services.awaitPassenger_eq hs id st.request
    rw [if_neg (by simp [hb])] at hawait
    simp only [hscheduled, if_true, hawait, Bool.false_eq_true, if_false] at h
    cases h
    have hunbound : s.bound.find? st.request = none := by simpa [Table.contains] using hb
    exact .inl ⟨hscheduled, hunbound, rfl⟩
  · have hpresent : (if st.state = .scheduled then w.services.awaitPassenger i id st.request
        else (true, w.services)) = (true, w.services) := by
      split
      · next hscheduled =>
        have hb : s.bound.contains st.request = true := by simpa [hscheduled] using hthere
        rw [Services.awaitPassenger_eq hs, if_pos hb]
      · rfl
    rw [hpresent] at h
    simp only [if_true, Services.pickUp_eq hs] at h
    cases hturn : s.pickUp st.vehicle st.request now with
    | none =>
      simp only [hturn] at h
      cases h
      exact .inr (.inl ⟨rfl, hthere, rfl⟩)
    | some turn =>
      simp only [hturn] at h
      cases hperform : { w with services := w.services.commit i turn }.performAll turn.calls with
      | error halt => simp [hperform, Bind.bind, Except.bind] at h
      | ok w₁ =>
        simp only [hperform, Bind.bind, Except.bind, Pure.pure, Except.pure, if_true,
          Except.ok.injEq] at h
        exact .inr (.inr ⟨turn, w₁, rfl, hperform, h.symm⟩)

/-- At a dropoff nobody can alight if nobody boarded; otherwise the passenger alights, or nobody is
bound to the request, which is a fault. -/
theorem onDropoff_eq_ok {now : Time} {id pickup : EntityId} {st : Stop} {i : Nat} {s : Service}
    (hs : w.services.members[i]? = some s) (h : w.onDropoff now id st pickup i = .ok w') :
    (¬ (w.stop? pickup).any (·.state = .completed) ∧ w' = w.setStopState id .cancelled) ∨
      (w.stop? pickup).any (·.state = .completed) ∧
        ((∃ fault, s.dropOff st.vehicle st.request now = .error fault ∧ w' = w.recordFault fault) ∨
          ∃ traveler turn w₁, s.dropOff st.vehicle st.request now = .ok (traveler, turn) ∧
            { w with services := w.services.commit i turn }.performAll turn.calls = .ok w₁ ∧
            w' = w₁.setStopState id .completed) := by
  unfold onDropoff at h
  split at h
  · next hboarded =>
    refine .inr ⟨hboarded, ?_⟩
    simp only [Services.act, hs, Bind.bind, Except.bind, Pure.pure, Except.pure] at h
    cases hturn : s.dropOff st.vehicle st.request now with
    | error fault =>
      simp only [hturn, Except.ok.injEq] at h
      exact .inl ⟨fault, rfl, h.symm⟩
    | ok outcome =>
      obtain ⟨traveler, turn⟩ := outcome
      simp only [hturn] at h
      cases hperform : { w with services := w.services.commit i turn }.performAll turn.calls with
      | error halt => simp [hperform] at h
      | ok w₁ =>
        simp only [hperform, Except.ok.injEq] at h
        exact .inr ⟨traveler, turn, w₁, rfl, hperform, h.symm⟩
  · next hnobody =>
    cases h
    exact .inl ⟨hnobody, rfl⟩

/-- A stop is made at the service of its mode, unless it is over or the mode has none. -/
theorem onStop_eq_ok {now : Time} {id : EntityId} (h : w.onStop now id = .ok w') :
    (w' = w ∧ ∀ st, w.stop? id = some st → w.services.position? st.mode = none ∨
        (st.kind = .pickup → st.state ≠ .scheduled ∧ st.state ≠ .waitingForPassenger) ∧
        (∀ pickup, st.kind = .dropoff pickup → st.state ≠ .scheduled)) ∨
      ∃ st i s, w.stop? id = some st ∧ w.services.members[i]? = some s ∧ s.mode = st.mode ∧
        ((st.kind = .pickup ∧ (st.state = .scheduled ∨ st.state = .waitingForPassenger) ∧
            w.onPickup now id st i = .ok w') ∨
          ∃ pickup, st.kind = .dropoff pickup ∧ st.state = .scheduled ∧
            w.onDropoff now id st pickup i = .ok w') := by
  unfold onStop at h
  split at h
  · next hst =>
    cases h
    exact .inl ⟨rfl, by simp [hst]⟩
  · next st hst =>
    split at h
    · next hposition =>
      cases h
      refine .inl ⟨rfl, fun st' hst' => .inl ?_⟩
      obtain rfl := Option.some.inj (hst.symm.trans hst')
      exact hposition
    · next i hi =>
      obtain ⟨s, hs, -, hmode⟩ := Services.position?_eq_some hi
      split at h
      · next hpickup hstate =>
        exact .inr ⟨st, i, s, hst, hs, hmode, .inl ⟨hpickup, .inl hstate, h⟩⟩
      · next hpickup hstate =>
        exact .inr ⟨st, i, s, hst, hs, hmode, .inl ⟨hpickup, .inr hstate, h⟩⟩
      · next pickup hdropoff hstate =>
        exact .inr ⟨st, i, s, hst, hs, hmode, .inr ⟨pickup, hdropoff, hstate, h⟩⟩
      · next hscheduled hwaits hdropoff =>
        cases h
        refine .inl ⟨rfl, fun st' hst' => .inr ?_⟩
        obtain rfl := Option.some.inj (hst.symm.trans hst')
        exact ⟨fun hkind => ⟨hscheduled hkind, hwaits hkind⟩, hdropoff⟩

/-! ## The outcomes -/

/-- The start is an event that concerns no service. -/
private theorem handled_onStart (hkind : e.kind = .simulationStarted)
    (h : w.onStart e.time = .ok w') :
    Handled w e w' := by
  obtain ⟨w₁, hstep, hafter⟩ := onStart_eq_ok h
  obtain ⟨clock, hclock, rfl⟩ := schedule_eq_ok hstep
  obtain ⟨d, hd, -, hdkind, -⟩ := Clock.exists_mem_of_scheduleAt hclock
  have hgrown := (Clock.grown_scheduleAt hclock).mono
    (q := fun d => d.kind = .passengerStep ∨ d.kind = .shiftDispatch) fun d hd => .inl hd.2.1
  rcases hafter with ⟨-, rfl⟩ | ⟨-, hdispatch⟩
  · refine .aside (.inl hkind) rfl rfl hgrown fun _ => ?_
    exact List.any_eq_true.2 ⟨d, hd, by simpa using hdkind⟩
  · obtain ⟨clock', hclock', rfl⟩ := schedule_eq_ok hdispatch
    have hgrown' := (Clock.grown_scheduleAt hclock').mono
      (q := fun d => d.kind = .passengerStep ∨ d.kind = .shiftDispatch) fun d hd => .inr hd.2.1
    refine .aside (.inl hkind) rfl rfl (hgrown.trans hgrown') fun _ => ?_
    exact List.any_eq_true.2 ⟨d, hgrown'.mem hd, by simpa using hdkind⟩

/-- A step is a turn of all services. -/
private theorem handled_onPassengerStep (hkind : e.kind = .passengerStep)
    (h : w.onPassengerStep e.time = .ok w') : Handled w e w' := by
  obtain ⟨ns, services, calls, w₁, hstep, hperform, hafter⟩ := onPassengerStep_eq_ok h
  refine .stepped hkind (Services.turns_stepEach hstep) hperform (hafter.imp_right ?_)
  rintro ⟨time, -, hschedule⟩
  exact ⟨time, hschedule⟩

/-- A dispatch is an event that concerns no service. -/
private theorem handled_onShiftDispatch (hkind : e.kind = .shiftDispatch)
    (h : w.onShiftDispatch e.time = .ok w') : Handled w e w' := by
  obtain ⟨_, _, _, _, _, _, -, -, -, -, -, hservices, hentities, -, -, -, hclock⟩ :=
    onShiftDispatch_eq_ok h
  refine .aside (.inr hkind) hservices hentities ?_ fun hstart => ?_
  · rcases hclock with ⟨-, hsame⟩ | ⟨time, -, hscheduled⟩
    · rw [hsame]
      exact .refl _ _
    · exact (Clock.grown_scheduleAt hscheduled).mono fun d hd => .inr hd.2.1
  · rw [hkind] at hstart
    cases hstart

/-- A departure without fault is ignored, or the traveler is taken or gives up. -/
private theorem handled_onDeparture {id : EntityId} (hkind : e.kind = .departure)
    (hsubject : e.subject = some (.traveler id)) (hfault : w'.fault = none)
    (h : w.onDeparture e.time id = .ok w') : Handled w e w' := by
  rcases onDeparture_eq_ok h with ⟨rfl, hnone⟩ | ⟨t, planned, ht, -, ⟨fault, -, rfl⟩ |
    ⟨taken, services, calls, w₁, hdepart, hperform, rfl⟩⟩
  · refine .ignored (.inl hkind) (fun id' t hid ht _ => ?_) fun id' _ hid => ?_
    · rw [hsubject] at hid
      cases hid
      exact hnone t ht
    · simp [hsubject] at hid
  · simp [recordFault] at hfault
  · rcases Services.depart_eq_ok hdepart with ⟨rfl, rfl, rfl⟩ | ⟨rfl, i, s, turn, hs, hopen,
      hturn, rfl, rfl⟩
    · cases hperform
      exact .unserved hkind hsubject ht
    · obtain ⟨o, ready, hcalls, ho, -⟩ := Service.calls_depart hturn
      have hhead : turn.calls.head? = some (.observe o) := by rw [hcalls, List.head?_cons]
      have hservices : w₁.services = w.services.commit i turn :=
        (kept_performAll hperform).services
      rw [hservices, Bool.true_and]
      exact .departed hkind hsubject ht hs hopen (Service.act_depart hturn) hhead ho hperform

/-- At a pickup the passenger boards, or the vehicle waits or stays. -/
private theorem handled_onPickup {id : EntityId} {st : Stop} {i : Nat} {s : Service}
    (hkind : e.kind = .stopReached) (hsubject : e.subject = some (.stop id))
    (hst : w.stop? id = some st) (hpickup : st.kind = .pickup)
    (hstate : st.state = .scheduled ∨ st.state = .waitingForPassenger)
    (hs : w.services.members[i]? = some s) (hmode : s.mode = st.mode)
    (h : w.onPickup e.time id st i = .ok w') : Handled w e w' := by
  rcases onPickup_eq_ok hstate hs h with ⟨hscheduled, hunbound, rfl⟩ | ⟨hturn, hthere, rfl⟩ |
    ⟨turn, w₁, hturn, hperform, rfl⟩
  · exact .waits hkind hsubject hst hpickup hscheduled hs hmode hunbound
  · refine .stays hkind hsubject hst hpickup hs hmode (fun b hb => ?_) hthere
    by_contra hstatus
    simp [Service.pickUp, hb, hstatus] at hturn
  · exact .served hkind hsubject hst hs (Service.act_pickUp hturn) hperform

/-- At a dropoff without fault the passenger alights, or the stop is cancelled. -/
private theorem handled_onDropoff {id pickup : EntityId} {st : Stop} {i : Nat} {s : Service}
    (hkind : e.kind = .stopReached) (hsubject : e.subject = some (.stop id))
    (hst : w.stop? id = some st) (hdropoff : st.kind = .dropoff pickup)
    (hs : w.services.members[i]? = some s) (hfault : w'.fault = none)
    (h : w.onDropoff e.time id st pickup i = .ok w') : Handled w e w' := by
  rcases onDropoff_eq_ok hs h with ⟨-, rfl⟩ | ⟨-, ⟨fault, -, rfl⟩ |
    ⟨traveler, turn, w₁, hturn, hperform, rfl⟩⟩
  · exact .cancelled hkind hsubject hst hdropoff
  · simp [recordFault] at hfault
  · exact .served hkind hsubject hst hs (Service.act_dropOff hturn) hperform

/-- An arrival without fault is ignored, or it is a pickup or a dropoff. -/
private theorem handled_onStop {id : EntityId} (hkind : e.kind = .stopReached)
    (hsubject : e.subject = some (.stop id)) (hfault : w'.fault = none)
    (h : w.onStop e.time id = .ok w') : Handled w e w' := by
  rcases onStop_eq_ok h with ⟨rfl, hover⟩ | ⟨st, i, s, hst, hs, hmode, ⟨hpickup, hstate, h⟩ |
    ⟨pickup, hdropoff, -, h⟩⟩
  · refine .ignored (.inr hkind) (fun _ _ hid => ?_) fun id' st hid hst _ hpickup hstate => ?_
    · simp [hsubject] at hid
    · rw [hsubject] at hid
      cases hid
      rcases hover st hst with hposition | ⟨hnot, -⟩
      · exact hposition
      · exact absurd hstate (hnot hpickup).2
  · exact handled_onPickup hkind hsubject hst hpickup hstate hs hmode h
  · exact handled_onDropoff hkind hsubject hst hdropoff hs hfault h

/-- An event that is handled without fault has one of the nine outcomes. -/
theorem handled_of_handle (hfault : w'.fault = none) (h : w.handle e = .ok w') :
    Handled w e w' := by
  unfold handle at h
  split at h
  · next hkind => exact handled_onStart hkind h
  · next hkind => exact handled_onShiftDispatch hkind h
  · next hkind => exact handled_onPassengerStep hkind h
  · next id hkind hsubject => exact handled_onDeparture hkind hsubject hfault h
  · next id hkind hsubject => exact handled_onStop hkind hsubject hfault h
  · next hstart hshift hstep hdeparture hstop =>
    cases h
    refine .ignored ?_ (fun id _ hid _ hkind => ?_) fun id _ hid _ hkind => ?_
    · cases hkind : e.kind with
      | simulationStarted => exact (hstart hkind).elim
      | shiftDispatch => exact (hshift hkind).elim
      | passengerStep => exact (hstep hkind).elim
      | departure => exact .inl rfl
      | stopReached => exact .inr rfl
    · exact (hdeparture id hkind hid).elim
    · exact (hstop id hkind hid).elim

/-- The next event is taken from the clock and handled, unless a fault is kept. -/
theorem next?_eq_ok_some (h : w.next? = .ok (some (e, w'))) :
    w.fault = none ∧ ∃ clock, w.clock.next? = some (e, clock) ∧
      { w with clock, current := some e }.handle e = .ok w' := by
  unfold next? at h
  split at h
  · cases h
  · next hstopped =>
    split at h
    · cases h
    · next d clock hnext =>
      cases hhandle : { w with clock, current := some d }.handle d with
      | error halt => simp [hhandle, Bind.bind, Except.bind] at h
      | ok w₁ =>
        simp only [hhandle, Bind.bind, Except.bind, Pure.pure, Except.pure, Except.ok.injEq,
          Option.some.injEq, Prod.mk.injEq] at h
        obtain ⟨rfl, rfl⟩ := h
        refine ⟨?_, clock, hnext, hhandle⟩
        simp only [isStopped, Bool.or_eq_true, not_or] at hstopped
        simpa using hstopped.1

end World

end DialARide
