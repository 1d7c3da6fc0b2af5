import DialARide.Proofs.Ride.Upcoming

/-!
# What an act does to travelers

Of the bindings of a service an act changes one at most. It binds the traveler who departs to a
request that was upcoming, declines that request, lets a bound passenger board, or ends a ride,
and what it tells the simulation is fixed by which of these it does.
-/

namespace DialARide

namespace Service

/-- The change of the bindings by an act, with all that is told about it. -/
inductive Effect (s : Service) (occasion : Occasion) (t : Turn) : Prop
  /-- Every traveler stays bound as before. -/
  | quiet : t.service.bound = s.bound → t.calls = [] → Effect s occasion t
  /-- The traveler who departs is bound to a request. -/
  | bound (o : Observation) (b : Binding) (ready : List Call) : occasion = .departure b.traveler →
      s.Upcoming o.request → o.kind = .waiting → b.status ≠ .pickedUp →
      t.service.bound = s.bound.insert o.request b → t.calls = .observe o :: ready →
      (∀ c ∈ ready, ∃ stop now, c = .ready stop b.traveler now) → Effect s occasion t
  /-- The request of the traveler who departs is declined, and its name used up. -/
  | declined (o : Observation) (traveler : EntityId) : occasion = .departure traveler →
      s.Upcoming o.request → ¬ t.service.Upcoming o.request → o.kind = .waiting →
      t.service.bound = s.bound → t.calls = [.observe o] → Effect s occasion t
  /-- A passenger boards. -/
  | boarded (o : Observation) (b : Binding) (vehicle : VehicleId) :
      s.bound.find? o.request = some b → b.status ≠ .pickedUp → o.kind = .pickedUp →
      o.vehicle = some vehicle →
      t.service.bound = s.bound.insert o.request { b with status := .pickedUp } →
      t.calls = [.board vehicle b.traveler o.time, .observe o] → Effect s occasion t
  /-- A passenger alights. -/
  | alighted (o : Observation) (b : Binding) (vehicle : VehicleId) :
      s.bound.find? o.request = some b → o.kind = .droppedOff → o.vehicle = some vehicle →
      t.service.bound = s.bound.erase o.request →
      t.calls = [.observe o, .alight vehicle b.traveler b.target o.time] → Effect s occasion t
  /-- A journey is aborted. -/
  | aborted (o : Observation) (b : Binding) : s.bound.find? o.request = some b →
      o.kind = .rejected → t.service.bound = s.bound.erase o.request →
      t.calls = [.observe o, .abort b.traveler o.time] → Effect s occasion t

variable {s : Service} {now : Time} {occasion : Occasion}

/-- The passenger of a request is all that a stop is told of. -/
theorem eq_ready_of_mem_readyCalls {id : RequestId} {traveler : EntityId} {c : Call}
    (h : c ∈ s.readyCalls id traveler now) : ∃ stop now, c = .ready stop traveler now := by
  unfold readyCalls at h
  rw [Option.mem_toList, Option.map_eq_some_iff] at h
  obtain ⟨stop, -, rfl⟩ := h
  exact ⟨stop, now, rfl⟩

/-- A departure that begins with the notice that somebody waits binds the traveler, or the request
was declined and nothing else is told. -/
theorem Effect.of_departure {id : EntityId} {t : Turn} {o : Observation}
    (h : s.Effect (.departure id) t) (hhead : t.calls.head? = some (.observe o))
    (hwaiting : o.kind = .waiting) :
    (t.service.bound = s.bound ∧ t.calls = [.observe o]) ∨
      ∃ b ready, b.traveler = id ∧ s.Upcoming o.request ∧ b.status ≠ .pickedUp ∧
        t.service.bound = s.bound.insert o.request b ∧ t.calls = .observe o :: ready ∧
        ∀ c ∈ ready, ∃ stop now, c = .ready stop id now := by
  cases h with
  | quiet hbound hcalls => simp [hcalls] at hhead
  | boarded o' b vehicle hb hstatus hkind hvehicle hbound hcalls => simp [hcalls] at hhead
  | alighted o' b vehicle hb hkind hvehicle hbound hcalls =>
    simp only [hcalls, List.head?_cons, Option.some.injEq, Call.observe.injEq] at hhead
    simp [hhead, hwaiting] at hkind
  | aborted o' b hb hkind hbound hcalls =>
    simp only [hcalls, List.head?_cons, Option.some.injEq, Call.observe.injEq] at hhead
    simp [hhead, hwaiting] at hkind
  | declined o' traveler hwho hup hnot hkind hbound hcalls =>
    simp only [hcalls, List.head?_cons, Option.some.injEq, Call.observe.injEq] at hhead
    subst hhead
    exact .inl ⟨hbound, hcalls⟩
  | bound o' b ready hwho hup hkind hstatus hbound hcalls hready =>
    simp only [hcalls, List.head?_cons, Option.some.injEq, Call.observe.injEq] at hhead
    subst hhead
    obtain rfl : id = b.traveler := by simpa using hwho
    exact .inr ⟨b, ready, rfl, hup, hstatus, hbound, hcalls, hready⟩

/-- In an orderly service every act has one of the six effects. -/
theorem Orderly.effect (h : s.Orderly) {t : Turn} (ha : s.Act now occasion t) :
    s.Effect occasion t := by
  cases ha with
  | hear | await | book | declineBooking | park | discard => exact .quiet rfl rfl
  | departRejected traveler desk key r rejection hwho hd hr hp =>
    have hup : s.Upcoming r.id := .inr ⟨desk, key, r, hd, hr, rfl⟩
    exact .bound (s.observation now .waiting r.id r.passenger) (r.binding traveler .waitingActive)
      [] hwho hup rfl (by simp [Request.binding]) rfl rfl (by simp)
  | departBooked traveler desk key r hwho hd hr hp =>
    have hup : s.Upcoming r.id := .inr ⟨desk, key, r, hd, hr, rfl⟩
    exact .bound (s.observation now .waiting r.id r.passenger) (r.binding traveler .waitingActive)
      _ hwho hup rfl (by simp [Request.binding]) rfl rfl fun c => eq_ready_of_mem_readyCalls
  | departNow traveler r hwho hid hmode hs =>
    have hname : r.id = requestName s.mode s.drawn := hid.trans (h.choose_eq _)
    have hup : s.Upcoming r.id := .inl (hname ▸ s.unissued_requestName)
    exact .bound (s.observation now .waiting r.id r.passenger) (r.binding traveler .submitted)
      _ hwho hup rfl (by simp [Request.binding]) rfl rfl fun c => eq_ready_of_mem_readyCalls
  | departDeclined traveler r hwho hid =>
    have hname : r.id = requestName s.mode s.drawn := hid.trans (h.choose_eq _)
    have hissue : s.Unissued r.id := hname ▸ s.unissued_requestName
    have hunbound : s.bound.find? r.id = none := h.unbound r.id (.inl hissue)
    refine .declined (s.observation now .waiting r.id r.passenger) traveler hwho (.inl hissue) ?_
      rfl (Table.erase_of_find?_eq_none hunbound) rfl
    show ¬ Service.Upcoming _ r.id
    rw [hname]
    exact h.not_upcoming_nextRequest rfl rfl rfl
  | pickUp vehicle id b hb hstatus =>
    exact .boarded { s.observation now .pickedUp id b.person with vehicle := some vehicle } b
      vehicle hb hstatus rfl rfl rfl rfl
  | dropOff vehicle id b hb =>
    exact .alighted { s.observation now .droppedOff id b.person with vehicle := some vehicle } b
      vehicle hb rfl rfl rfl rfl
  | reject r rest b hm ht hb =>
    exact .aborted { s.observation now .rejected r.request b.person with cause := some r.cause } b
      hb rfl rfl rfl

end Service

end DialARide
