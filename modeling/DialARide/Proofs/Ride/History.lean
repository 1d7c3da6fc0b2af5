import DialARide.Proofs.Ride.Effect
import DialARide.Proofs.Ride.Operation

/-!
# The history of a request

Whatever is asked of a service, and in whatever order, the observations of one request are those
of one ride: somebody waits, may be picked up, and is then dropped off or rejected, and nothing
follows. Every observation beyond waiting comes with the one call that moves the traveler, and
that is the traveler who departed for the request.
-/

namespace DialARide

/-- The stage of a request that a call reports. -/
def Call.stage? (id : RequestId) : Call → Option ObservationKind
  | .observe o => if o.request = id then some o.kind else none
  | _ => none

/-- The stages of a request that calls report, in order. -/
def stages (id : RequestId) (calls : List Call) : List ObservationKind :=
  calls.filterMap (·.stage? id)

/-- The ways in which a ride can go to its end. -/
def rideCourses : List (List ObservationKind) :=
  [[.waiting, .pickedUp, .droppedOff], [.waiting, .pickedUp, .rejected], [.waiting, .droppedOff],
    [.waiting, .rejected]]

/-- The stages are those of one ride, be it over or not. -/
def IsRide (l : List ObservationKind) : Prop := ∃ course ∈ rideCourses, l <+: course

instance : DecidablePred IsRide := fun l =>
  inferInstanceAs (Decidable (∃ course ∈ rideCourses, l <+: course))

/-- The traveler who departs, if somebody does. -/
def Occasion.traveler? : Occasion → Option EntityId
  | .departure traveler => some traveler
  | _ => none

/-- The request and the traveler of a departure, if a call reports one. -/
def Call.departure? (occasion : Occasion) : Call → Option (RequestId × EntityId)
  | .observe o => if o.kind = .waiting then occasion.traveler?.map (o.request, ·) else none
  | _ => none

/-- The departures that are reported when a traveler departs. -/
def departures (occasion : Occasion) (calls : List Call) : List (RequestId × EntityId) :=
  calls.filterMap (·.departure? occasion)

/-- Calls in which every observation and the call that belongs to it stand side by side and name
the traveler who departed for the request, and in which nobody else is moved. -/
inductive Accounted (departed : RequestId → EntityId → Prop) : List Call → Prop
  | nil : Accounted departed []
  | waiting (o : Observation) (traveler : EntityId) {rest : List Call} : o.kind = .waiting →
      departed o.request traveler → Accounted departed rest →
      Accounted departed (.observe o :: rest)
  | ready (id : RequestId) (stop traveler : EntityId) (now : Time) {rest : List Call} :
      departed id traveler → Accounted departed rest →
      Accounted departed (.ready stop traveler now :: rest)
  | boarded (o : Observation) (vehicle : VehicleId) (traveler : EntityId) {rest : List Call} :
      o.kind = .pickedUp → o.vehicle = some vehicle → departed o.request traveler →
      Accounted departed rest →
      Accounted departed (.board vehicle traveler o.time :: .observe o :: rest)
  | alighted (o : Observation) (vehicle : VehicleId) (traveler : EntityId) (link : LinkId)
      {rest : List Call} : o.kind = .droppedOff → o.vehicle = some vehicle →
      departed o.request traveler → Accounted departed rest →
      Accounted departed (.observe o :: .alight vehicle traveler link o.time :: rest)
  | aborted (o : Observation) (traveler : EntityId) {rest : List Call} : o.kind = .rejected →
      departed o.request traveler → Accounted departed rest →
      Accounted departed (.observe o :: .abort traveler o.time :: rest)

@[simp] theorem stages_append (id : RequestId) (calls more : List Call) :
    stages id (calls ++ more) = stages id calls ++ stages id more :=
  List.filterMap_append

@[simp] theorem departures_append (occasion : Occasion) (calls more : List Call) :
    departures occasion (calls ++ more) =
      departures occasion calls ++ departures occasion more :=
  List.filterMap_append

/-- Of calls that report nothing but one observation, that is the only stage. -/
theorem stages_observe (o : Observation) {rest : List Call} (hrest : ∀ id, stages id rest = [])
    (id : RequestId) :
    stages id (.observe o :: rest) = if o.request = id then [o.kind] else [] := by
  rw [stages, List.filterMap_cons, ← stages, hrest]
  by_cases hid : o.request = id <;> simp [Call.stage?, hid]

/-- Accounts of two stretches of calls are an account of both. -/
theorem Accounted.append {departed : RequestId → EntityId → Prop} {calls more : List Call}
    (h : Accounted departed calls) (hmore : Accounted departed more) :
    Accounted departed (calls ++ more) := by
  induction h with
  | nil => exact hmore
  | waiting o traveler hkind hgone _ ih => exact .waiting o traveler hkind hgone ih
  | ready id stop traveler now hgone _ ih => exact .ready id stop traveler now hgone ih
  | boarded o vehicle traveler hkind hv hgone _ ih =>
    exact .boarded o vehicle traveler hkind hv hgone ih
  | alighted o vehicle traveler link hkind hv hgone _ ih =>
    exact .alighted o vehicle traveler link hkind hv hgone ih
  | aborted o traveler hkind hgone _ ih => exact .aborted o traveler hkind hgone ih

/-- Later departures do not spoil an account. -/
theorem Accounted.mono {departed departed' : RequestId → EntityId → Prop} {calls : List Call}
    (hle : ∀ id traveler, departed id traveler → departed' id traveler)
    (h : Accounted departed calls) : Accounted departed' calls := by
  induction h with
  | nil => exact .nil
  | waiting o traveler hkind hgone _ ih => exact .waiting o traveler hkind (hle _ _ hgone) ih
  | ready id stop traveler now hgone _ ih =>
    exact .ready id stop traveler now (hle _ _ hgone) ih
  | boarded o vehicle traveler hkind hv hgone _ ih =>
    exact .boarded o vehicle traveler hkind hv (hle _ _ hgone) ih
  | alighted o vehicle traveler link hkind hv hgone _ ih =>
    exact .alighted o vehicle traveler link hkind hv (hle _ _ hgone) ih
  | aborted o traveler hkind hgone _ ih => exact .aborted o traveler hkind (hle _ _ hgone) ih

namespace Service

/-- What is known of a service after departures and calls: upcoming requests were never heard of,
a bound request has come as far as its binding says, and every departure is reported once. -/
structure Recorded (s : Service) (gone : List (RequestId × EntityId)) (told : List Call) :
    Prop where
  orderly : s.Orderly
  upcoming : ∀ id, s.Upcoming id → stages id told = []
  bound : ∀ id b, s.bound.find? id = some b → (id, b.traveler) ∈ gone ∧
    stages id told = if b.status = .pickedUp then [.waiting, .pickedUp] else [.waiting]
  ride : ∀ id, IsRide (stages id told)
  once : (gone.map (·.1)).Nodup
  reported : ∀ id traveler, (id, traveler) ∈ gone → stages id told ≠ []
  accounted : Accounted (fun id traveler => (id, traveler) ∈ gone) told

variable {s : Service} {now : Time} {occasion : Occasion} {gone : List (RequestId × EntityId)}
  {told : List Call}

/-- A turn that reports one stage of one request keeps the record if the stage is a next one. -/
theorem Recorded.report (h : s.Recorded gone told) {t : Turn} (ha : s.Act now occasion t)
    (o : Observation) (hnot : ¬ t.service.Upcoming o.request)
    (hstages : ∀ id, stages id t.calls = if o.request = id then [o.kind] else [])
    (hride : IsRide (stages o.request told ++ [o.kind]))
    (hkept : ∀ id, o.request ≠ id → t.service.bound.find? id = s.bound.find? id)
    (hbound : ∀ b, t.service.bound.find? o.request = some b →
      (o.request, b.traveler) ∈ gone ++ departures occasion t.calls ∧
      stages o.request told ++ [o.kind] =
        if b.status = .pickedUp then [.waiting, .pickedUp] else [.waiting])
    (hgone : departures occasion t.calls = [] ∨ s.Upcoming o.request ∧
      ∃ traveler, departures occasion t.calls = [(o.request, traveler)])
    (hcalls : Accounted (fun id traveler => (id, traveler) ∈ gone ++ departures occasion t.calls)
      t.calls) :
    t.service.Recorded (gone ++ departures occasion t.calls) (told ++ t.calls) := by
  have hother (id : RequestId) (hid : o.request ≠ id) :
      stages id (told ++ t.calls) = stages id told := by
    rw [stages_append, hstages, if_neg hid, List.append_nil]
  have hsame : stages o.request (told ++ t.calls) = stages o.request told ++ [o.kind] := by
    rw [stages_append, hstages, if_pos rfl]
  refine ⟨h.orderly.act ha, ?_, ?_, ?_, ?_, ?_, ?_⟩
  · intro id hup
    have hid : o.request ≠ id := fun he => hnot (he ▸ hup)
    rw [hother id hid]
    exact h.upcoming id (h.orderly.upcoming_of_act ha hup)
  · intro id b hb
    by_cases hid : o.request = id
    · subst hid
      rw [hsame]
      exact hbound b hb
    · rw [hkept id hid] at hb
      rw [hother id hid]
      exact ⟨List.mem_append_left _ (h.bound id b hb).1, (h.bound id b hb).2⟩
  · intro id
    by_cases hid : o.request = id
    · subst hid
      rw [hsame]
      exact hride
    · rw [hother id hid]
      exact h.ride id
  · rcases hgone with hnone | ⟨hup, traveler, hone⟩
    · rw [hnone, List.append_nil]
      exact h.once
    · have hnew : o.request ∉ gone.map (·.1) := fun hmem => by
        obtain ⟨⟨id, traveler'⟩, hp, rfl⟩ := List.mem_map.1 hmem
        exact h.reported _ _ hp (h.upcoming _ hup)
      rw [hone, List.map_append, List.map_cons, List.map_nil]
      exact List.nodup_append_comm.1 (List.nodup_cons.2 ⟨hnew, h.once⟩)
  · intro id traveler hp
    by_cases hid : o.request = id
    · subst hid
      rw [hsame]
      simp
    · rw [hother id hid]
      rcases List.mem_append.1 hp with hp | hp
      · exact h.reported id traveler hp
      · rcases hgone with hnone | ⟨-, traveler', hone⟩
        · simp [hnone] at hp
        · rw [hone, List.mem_singleton, Prod.mk.injEq] at hp
          exact absurd hp.1.symm hid
  · exact (h.accounted.mono fun id traveler => List.mem_append_left _).append hcalls

/-- Notices to stops report no stage and no departure, and are accounted for by the departure of
the passenger. -/
theorem report_ready (occasion : Occasion) {ready : List Call} {traveler : EntityId}
    (h : ∀ c ∈ ready, ∃ stop now, c = .ready stop traveler now) :
    (∀ id, stages id ready = []) ∧ departures occasion ready = [] ∧
      ∀ departed : RequestId → EntityId → Prop, (∃ id, departed id traveler) →
        Accounted departed ready := by
  induction ready with
  | nil => exact ⟨fun id => rfl, rfl, fun departed _ => .nil⟩
  | cons c ready ih =>
    obtain ⟨stop, now, rfl⟩ := h c List.mem_cons_self
    obtain ⟨hstages, hgone, hacc⟩ := ih fun c hc => h c (List.mem_cons_of_mem _ hc)
    refine ⟨hstages, hgone, fun departed hdeparted => ?_⟩
    obtain ⟨id, hid⟩ := hdeparted
    exact .ready id stop traveler now hid (hacc departed ⟨id, hid⟩)

/-- The end of a ride is reported once, and nobody is bound to the request from then on. -/
theorem Recorded.end_ride (h : s.Recorded gone told) {t : Turn} (ha : s.Act now occasion t)
    (o : Observation) {b : Binding} (hb : s.bound.find? o.request = some b)
    (hkind : o.kind = .droppedOff ∨ o.kind = .rejected)
    (hbound : t.service.bound = s.bound.erase o.request)
    (hstages : ∀ id, stages id t.calls = if o.request = id then [o.kind] else [])
    (hgone : departures occasion t.calls = [])
    (hcalls : Accounted (fun id traveler => (id, traveler) ∈ gone ++ departures occasion t.calls)
      t.calls) :
    t.service.Recorded (gone ++ departures occasion t.calls) (told ++ t.calls) := by
  have hcourse := (h.bound o.request b hb).2
  refine h.report ha o (h.orderly.not_upcoming_of_bound ha hb) hstages ?_ ?_ ?_ (.inl hgone) hcalls
  · rw [hcourse]
    rcases hkind with hkind | hkind
    · rw [hkind]
      split <;> decide
    · rw [hkind]
      split <;> decide
  · intro id hid
    rw [hbound, Table.find?_erase, if_neg hid]
  · intro b' hb'
    rw [hbound, Table.find?_erase, if_pos rfl] at hb'
    cases hb'

/-- The departure of a traveler who is bound to a request is the first stage of that request. -/
private theorem Recorded.bound_ride (h : s.Recorded gone told) {t : Turn}
    (ha : s.Act now occasion t)
    (o : Observation) {b : Binding} {ready : List Call} (hwho : occasion = .departure b.traveler)
    (hup : s.Upcoming o.request) (hkind : o.kind = .waiting) (hstatus : b.status ≠ .pickedUp)
    (hbound : t.service.bound = s.bound.insert o.request b)
    (hcalls : t.calls = .observe o :: ready)
    (hready : ∀ c ∈ ready, ∃ stop now, c = .ready stop b.traveler now) :
    t.service.Recorded (gone ++ departures occasion t.calls) (told ++ t.calls) := by
  obtain ⟨hquiet, hnobody, hacc⟩ := report_ready occasion hready
  have hfirst : stages o.request told = [] := h.upcoming o.request hup
  have hgone : departures occasion t.calls = [(o.request, b.traveler)] := by
    rw [hcalls, departures, List.filterMap_cons, ← departures, hnobody]
    simp [Call.departure?, hkind, hwho, Occasion.traveler?]
  have hmem : (o.request, b.traveler) ∈ gone ++ departures occasion t.calls := by
    rw [hgone]
    exact List.mem_append_right _ List.mem_cons_self
  have hself : t.service.bound.find? o.request = some b := by rw [hbound]; simp
  refine h.report ha o ?_ ?_ ?_ ?_ ?_ (.inr ⟨hup, b.traveler, hgone⟩) ?_
  · intro hup'
    rw [(h.orderly.act ha).unbound o.request hup'] at hself
    cases hself
  · rw [hcalls]
    exact stages_observe o hquiet
  · rw [hfirst, hkind]
    decide
  · intro id hid
    rw [hbound, Table.find?_insert, if_neg hid]
  · intro b' hb'
    obtain rfl := Option.some.inj (hself.symm.trans hb')
    rw [hfirst, hkind, if_neg hstatus]
    exact ⟨hmem, rfl⟩
  · rw [hcalls] at hmem ⊢
    exact .waiting o b.traveler hkind hmem (hacc _ ⟨o.request, hmem⟩)

/-- The departure of a traveler whose request is declined is the only stage of that request. -/
private theorem Recorded.declined_ride (h : s.Recorded gone told) {t : Turn}
    (ha : s.Act now occasion t)
    (o : Observation) {traveler : EntityId} (hwho : occasion = .departure traveler)
    (hup : s.Upcoming o.request) (hnot : ¬ t.service.Upcoming o.request)
    (hkind : o.kind = .waiting) (hbound : t.service.bound = s.bound)
    (hcalls : t.calls = [.observe o]) :
    t.service.Recorded (gone ++ departures occasion t.calls) (told ++ t.calls) := by
  have hfirst : stages o.request told = [] := h.upcoming o.request hup
  have hgone : departures occasion t.calls = [(o.request, traveler)] := by
    rw [hcalls]
    simp [departures, Call.departure?, hkind, hwho, Occasion.traveler?]
  refine h.report ha o hnot ?_ ?_ ?_ ?_ (.inr ⟨hup, traveler, hgone⟩) ?_
  · rw [hcalls]
    exact stages_observe o fun _ => rfl
  · rw [hfirst, hkind]
    decide
  · intro id hid
    rw [hbound]
  · intro b' hb'
    rw [hbound, h.orderly.unbound o.request hup] at hb'
    cases hb'
  · rw [hgone, hcalls]
    exact .waiting o traveler hkind (List.mem_append_right _ List.mem_cons_self) .nil

/-- The pickup of a passenger is the next stage of the request. -/
private theorem Recorded.boarded_ride (h : s.Recorded gone told) {t : Turn}
    (ha : s.Act now occasion t)
    (o : Observation) {b : Binding} {vehicle : VehicleId} (hb : s.bound.find? o.request = some b)
    (hstatus : b.status ≠ .pickedUp) (hkind : o.kind = .pickedUp)
    (hvehicle : o.vehicle = some vehicle)
    (hbound : t.service.bound = s.bound.insert o.request { b with status := .pickedUp })
    (hcalls : t.calls = [.board vehicle b.traveler o.time, .observe o]) :
    t.service.Recorded (gone ++ departures occasion t.calls) (told ++ t.calls) := by
  obtain ⟨hmem, hcourse⟩ := h.bound o.request b hb
  rw [if_neg hstatus] at hcourse
  have hgone : departures occasion t.calls = [] := by
    rw [hcalls]
    simp [departures, Call.departure?, hkind]
  refine h.report ha o (h.orderly.not_upcoming_of_bound ha hb) ?_ ?_ ?_ ?_ (.inl hgone) ?_
  · rw [hcalls]
    exact stages_observe o fun _ => rfl
  · rw [hcourse, hkind]
    decide
  · intro id hid
    rw [hbound, Table.find?_insert, if_neg hid]
  · intro b' hb'
    rw [hbound, Table.find?_insert, if_pos rfl] at hb'
    obtain rfl := Option.some.inj hb'
    rw [hcourse, hkind]
    exact ⟨List.mem_append_left _ hmem, rfl⟩
  · rw [hcalls]
    exact .boarded o vehicle b.traveler hkind hvehicle (List.mem_append_left _ hmem) .nil

/-- Every act keeps the record. -/
theorem Recorded.act (h : s.Recorded gone told) {t : Turn} (ha : s.Act now occasion t) :
    t.service.Recorded (gone ++ departures occasion t.calls) (told ++ t.calls) := by
  cases h.orderly.effect ha with
  | quiet hbound hcalls =>
    have hgone : departures occasion t.calls = [] := by rw [hcalls]; rfl
    rw [hgone, hcalls, List.append_nil, List.append_nil]
    exact { h with
      orderly := h.orderly.act ha
      upcoming := fun id hup => h.upcoming id (h.orderly.upcoming_of_act ha hup)
      bound := fun id b hb => h.bound id b (hbound ▸ hb) }
  | bound o b ready hwho hup hkind hstatus hbound hcalls hready =>
    exact h.bound_ride ha o hwho hup hkind hstatus hbound hcalls hready
  | declined o traveler hwho hup hnot hkind hbound hcalls =>
    exact h.declined_ride ha o hwho hup hnot hkind hbound hcalls
  | boarded o b vehicle hb hstatus hkind hvehicle hbound hcalls =>
    exact h.boarded_ride ha o hb hstatus hkind hvehicle hbound hcalls
  | alighted o b vehicle hb hkind hvehicle hbound hcalls =>
    refine h.end_ride ha o hb (.inl hkind) hbound ?_ ?_ ?_
    · rw [hcalls]
      exact stages_observe o fun _ => rfl
    · simp [hcalls, departures, Call.departure?, hkind]
    · rw [hcalls]
      exact .alighted o vehicle b.traveler b.target hkind hvehicle
        (List.mem_append_left _ (h.bound o.request b hb).1) .nil
  | aborted o b hb hkind hbound hcalls =>
    refine h.end_ride ha o hb (.inr hkind) hbound ?_ ?_ ?_
    · rw [hcalls]
      exact stages_observe o fun _ => rfl
    · simp [hcalls, departures, Call.departure?, hkind]
    · rw [hcalls]
      exact .aborted o b.traveler hkind (List.mem_append_left _ (h.bound o.request b hb).1) .nil

/-- Acts one after the other keep the record. -/
theorem Recorded.acts (h : s.Recorded gone told) {t : Turn} (ha : Acts now occasion s t) :
    t.service.Recorded (gone ++ departures occasion t.calls) (told ++ t.calls) := by
  induction ha generalizing gone told with
  | nil s => simpa [departures] using h
  | cons hact hrest ih =>
    have hthen := ih (h.act hact)
    simpa [Turn.andThen, List.append_assoc] using hthen

/-- The departures that the calls on a service lead to, in order. -/
def departures (s : Service) : List Operation → List (RequestId × EntityId)
  | [] => []
  | o :: rest => DialARide.departures o.occasion (s.perform o).calls ++
      (s.perform o).service.departures rest

/-- Whatever is asked of a service keeps the record. -/
theorem Recorded.run (h : s.Recorded gone told) (operations : List Operation) :
    (s.run operations).service.Recorded (gone ++ s.departures operations)
      (told ++ (s.run operations).calls) := by
  induction operations generalizing s gone told with
  | nil => simpa [Service.run, departures] using h
  | cons o rest ih =>
    have hfirst := h.acts (s.acts_perform o)
    have hrest := ih hfirst
    simpa [Service.run, departures, Turn.andThen, List.append_assoc] using hrest

/-- Nothing is on record for an orderly service to which nobody is bound. -/
theorem recorded_of_vacant (h : s.Orderly) (hvacant : ∀ id, s.bound.find? id = none) :
    s.Recorded [] [] := by
  refine ⟨h, fun id _ => rfl, fun id b hb => ?_, fun id => ?_, List.nodup_nil, ?_, .nil⟩
  · rw [hvacant id] at hb
    cases hb
  · show IsRide []
    decide
  · intro id traveler hp
    cases hp

/-- Nothing is on record for a service that was just opened. -/
theorem recorded_opened (mode : ModeId) (network : Network) (screening : Screening)
    (desk : Option Screening) :
    (opened mode network .proposed screening (desk.map ({ screening := · }))).Recorded [] [] := by
  apply recorded_of_vacant
  · refine orderly_of_vacant rfl (fun _ => rfl) fun d key hd => ?_
    obtain ⟨_, -, rfl⟩ := Option.map_eq_some_iff.1 hd
    rfl
  · exact fun _ => rfl

/-- Whatever is asked of a service that was just opened, and in whatever order: the observations
of each request are those of one ride, nobody departs for a request for which somebody departed
before, and every observation comes with the one call that moves the traveler who departed. -/
theorem run_tells_rides (mode : ModeId) (network : Network) (screening : Screening)
    (desk : Option Screening) (operations : List Operation) :
    let s := opened mode network .proposed screening (desk.map ({ screening := · }))
    (∀ id, IsRide (stages id (s.run operations).calls)) ∧
      ((s.departures operations).map (·.1)).Nodup ∧
      Accounted (fun id traveler => (id, traveler) ∈ s.departures operations)
        (s.run operations).calls := by
  intro s
  have h := (recorded_opened mode network screening desk).run operations
  rw [List.nil_append, List.nil_append] at h
  exact ⟨h.ride, h.once, h.accounted⟩

end Service

end DialARide
