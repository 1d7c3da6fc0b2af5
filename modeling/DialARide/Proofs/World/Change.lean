import DialARide.Proofs.Clock
import DialARide.World.Run

/-!
# Changes of a world

What is done to one traveler or one stop leaves all others alone, and what a service calls for
touches neither the services nor the stops. Calls add departures and arrivals at stops to the
clock, and take nothing from it.
-/

namespace DialARide

namespace World

variable {w w' : World}

/-- The number of departures of a traveler that are pending. -/
def departures (w : World) (id : EntityId) : Nat :=
  w.clock.pending.countP fun e => e.kind = .departure ∧ e.subject = some (.traveler id)

/-- The arrival at a stop is due at the present time. -/
def IsDue (w : World) (stop : EntityId) : Prop :=
  ∃ e ∈ w.clock.pending, e.time = w.clock.now ∧ e.kind = .stopReached ∧
    e.subject = some (.stop stop)

@[simp] theorem traveler?_changeTraveler (w : World) (id j : EntityId) (f : Traveler → Traveler) :
    (w.changeTraveler id f).traveler? j =
      if id = j then (w.traveler? j).map f else w.traveler? j := by
  unfold traveler? changeTraveler
  rw [List.getElem?_modify]
  cases w.entities[j]? with
  | none => simp
  | some entity => cases entity <;> by_cases hid : id = j <;> simp [hid]

@[simp] theorem stop?_changeTraveler (w : World) (id j : EntityId) (f : Traveler → Traveler) :
    (w.changeTraveler id f).stop? j = w.stop? j := by
  unfold stop? changeTraveler
  rw [List.getElem?_modify]
  cases w.entities[j]? with
  | none => simp
  | some entity => cases entity <;> by_cases hid : id = j <;> simp [hid]

@[simp] theorem traveler?_setStopState (w : World) (id j : EntityId) (state : StopState) :
    (w.setStopState id state).traveler? j = w.traveler? j := by
  unfold traveler? setStopState
  rw [List.getElem?_modify]
  cases w.entities[j]? with
  | none => simp
  | some entity => cases entity <;> by_cases hid : id = j <;> simp [hid]

@[simp] theorem stop?_setStopState (w : World) (id j : EntityId) (state : StopState) :
    (w.setStopState id state).stop? j =
      if id = j then (w.stop? j).map ({ · with state }) else w.stop? j := by
  unfold stop? setStopState
  rw [List.getElem?_modify]
  cases w.entities[j]? with
  | none => simp
  | some entity => cases entity <;> by_cases hid : id = j <;> simp [hid]

/-- Scheduling changes nothing but the clock. -/
theorem schedule_eq_ok {time : Time} {kind : EventKind} {subject : Option Subject}
    (h : w.schedule time kind subject = .ok w') :
    ∃ clock, w.clock.scheduleAt time kind subject = .ok clock ∧ w' = { w with clock } := by
  unfold schedule at h
  cases hc : w.clock.scheduleAt time kind subject with
  | error halt => simp [hc, Bind.bind, Except.bind] at h
  | ok clock =>
    simp only [hc, Bind.bind, Except.bind, Pure.pure, Except.pure, Except.ok.injEq] at h
    exact ⟨clock, rfl, h.symm⟩

/-- Scheduling something else than a departure leaves the departures as they are. -/
theorem departures_eq_of_grown {p : Event → Prop} (h : w.clock.Grown p w'.clock)
    (hp : ∀ e, p e → e.kind ≠ .departure) (id : EntityId) : w'.departures id = w.departures id :=
  h.countP_eq fun e he => by simp [hp e he]

/-- One more departure is pending once it is scheduled. -/
theorem departures_schedule {time : Time} {id : EntityId}
    (h : w.schedule time .departure (some (.traveler id)) = .ok w') (j : EntityId) :
    w'.departures j = w.departures j + if id = j then 1 else 0 := by
  obtain ⟨clock, hc, rfl⟩ := schedule_eq_ok h
  obtain ⟨-, -, hpending⟩ := Clock.scheduleAt_eq_ok hc
  unfold departures
  rw [hpending, (Event.perm_insertIn _ _).countP_eq, List.countP_cons]
  by_cases hid : id = j <;> simp [hid]

/-! ## What services call for -/

/-- What a call of a service leaves as it is, and what it schedules. -/
structure Kept (w w' : World) : Prop where
  services : w'.services = w.services
  fault : w'.fault = w.fault
  stop : ∀ id, w'.stop? id = w.stop? id
  clock : w.clock.Grown (fun e => e.kind = .departure ∨ e.kind = .stopReached) w'.clock

theorem Kept.refl (w : World) : Kept w w := ⟨rfl, rfl, fun _ => rfl, .refl _ _⟩

theorem Kept.trans {w'' : World} (h : Kept w w') (h' : Kept w' w'') : Kept w w'' :=
  ⟨h'.services.trans h.services, h'.fault.trans h.fault,
    fun id => (h'.stop id).trans (h.stop id), h.clock.trans h'.clock⟩

/-- A change of a traveler is none of the services, the stops or the clock. -/
theorem kept_changeTraveler (w : World) (id : EntityId) (f : Traveler → Traveler) :
    Kept w (w.changeTraveler id f) :=
  ⟨rfl, rfl, fun j => w.stop?_changeTraveler id j f, .refl _ _⟩

/-- Scheduling traffic is a change of the clock only. -/
theorem kept_schedule {time : Time} {kind : EventKind} {subject : Option Subject}
    (hkind : kind = .departure ∨ kind = .stopReached)
    (h : w.schedule time kind subject = .ok w') : Kept w w' := by
  obtain ⟨clock, hc, rfl⟩ := schedule_eq_ok h
  refine ⟨rfl, rfl, fun _ => rfl, (Clock.grown_scheduleAt hc).mono ?_⟩
  rintro e ⟨-, rfl, -⟩
  exact hkind

/-- A traveler who alights has arrived or departs again later. -/
theorem alight_eq_ok {id : EntityId} {link : LinkId} {now : Time} {t : Traveler}
    (ht : w.traveler? id = some t) (h : w.alight id link now = .ok w') :
    (t.plan.advance.current? = none ∧ w' = w.changeTraveler id
        ({ · with link, plan := t.plan.advance, state := .arrived, vehicle := none })) ∨
      (∃ next, t.plan.advance.current? = some next ∧ (w.changeTraveler id
          ({ · with link, plan := t.plan.advance, state := .activity, vehicle := none })).schedule
        (max next.leg.departure now) .departure (some (.traveler id)) = .ok w') := by
  unfold alight at h
  simp only [ht] at h
  split at h
  · next next hnext => exact .inr ⟨next, hnext, h⟩
  · next hlast =>
    cases h
    exact .inl ⟨hlast, rfl⟩

/-- A call of a service changes neither services nor stops. -/
theorem kept_perform {c : Call} (h : w.perform c = .ok w') : Kept w w' := by
  cases c with
  | observe o =>
    cases h
    exact ⟨rfl, rfl, fun _ => rfl, .refl _ _⟩
  | ready stop traveler now => exact kept_schedule (.inr rfl) h
  | board vehicle id now =>
    cases h
    exact w.kept_changeTraveler id _
  | abort id now =>
    cases h
    exact w.kept_changeTraveler id _
  | alight vehicle id link now =>
    have h : w.alight id link now = .ok w' := h
    cases ht : w.traveler? id with
    | none =>
      simp only [alight, ht, Except.ok.injEq] at h
      exact h ▸ .refl w
    | some t =>
      rcases alight_eq_ok ht h with ⟨-, rfl⟩ | ⟨next, -, hs⟩
      · exact w.kept_changeTraveler id _
      · exact (w.kept_changeTraveler id _).trans (kept_schedule (.inl rfl) hs)

/-- The first call is put into effect before all others. -/
theorem performAll_cons_eq_ok {c : Call} {calls : List Call}
    (h : w.performAll (c :: calls) = .ok w') :
    ∃ w₁, w.perform c = .ok w₁ ∧ w₁.performAll calls = .ok w' := by
  unfold performAll at h
  rw [List.foldlM_cons] at h
  cases hc : w.perform c with
  | error halt => simp [hc, Bind.bind, Except.bind] at h
  | ok w₁ =>
    rw [hc] at h
    exact ⟨w₁, rfl, h⟩

/-- Calls are put into effect stretch by stretch. -/
theorem performAll_append_eq_ok {calls more : List Call}
    (h : w.performAll (calls ++ more) = .ok w') :
    ∃ w₁, w.performAll calls = .ok w₁ ∧ w₁.performAll more = .ok w' := by
  induction calls generalizing w with
  | nil => exact ⟨w, rfl, h⟩
  | cons c calls ih =>
    obtain ⟨w₁, hc, hrest⟩ := performAll_cons_eq_ok h
    obtain ⟨w₂, hcalls, hmore⟩ := ih hrest
    refine ⟨w₂, ?_, hmore⟩
    unfold performAll
    rw [List.foldlM_cons, hc]
    exact hcalls

/-- Calls of services change neither services nor stops. -/
theorem kept_performAll {calls : List Call} (h : w.performAll calls = .ok w') : Kept w w' := by
  induction calls generalizing w with
  | nil =>
    cases h
    exact .refl _
  | cons c calls ih =>
    obtain ⟨w₁, hc, hrest⟩ := performAll_cons_eq_ok h
    exact (kept_perform hc).trans (ih hrest)

/-- A stop that is told that its passenger is there is reached once more. -/
theorem exists_due_of_ready {calls : List Call} (h : w.performAll calls = .ok w')
    {stop traveler : EntityId} {now : Time} (hc : .ready stop traveler now ∈ calls) :
    ∃ e ∈ w'.clock.pending, e.time = now ∧ e.kind = .stopReached ∧
      e.subject = some (.stop stop) := by
  induction calls generalizing w with
  | nil => cases hc
  | cons c calls ih =>
    obtain ⟨w₁, hfirst, hrest⟩ := performAll_cons_eq_ok h
    rcases List.mem_cons.1 hc with rfl | hc
    · obtain ⟨clock, hclock, rfl⟩ := schedule_eq_ok hfirst
      obtain ⟨e, he, hevent⟩ := Clock.exists_mem_of_scheduleAt hclock
      exact ⟨e, (kept_performAll hrest).clock.mem he, hevent⟩
    · exact ih hrest hc

end World

end DialARide
