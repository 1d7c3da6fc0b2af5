import DialARide.Proofs.Fault
import DialARide.Proofs.World.Situation
import DialARide.Proofs.World.Traces
import DialARide.Proofs.World.Wakeup

/-!
# Dropoffs for nobody

A dropoff is cancelled if nobody boarded at its pickup. It meets a fault if somebody boarded there
who is not bound to the request any more. As each passenger alights at one stop only, that is just
the passenger who was rejected on board: the rejection was published before the passenger boarded
and applied after that.
-/

namespace DialARide

/-- The stop at which the passenger of a pickup alights. -/
def Stop.dropoff (st : Stop) (pickup : EntityId) : Stop where
  vehicle := st.vehicle
  request := st.request
  mode := st.mode
  kind := .dropoff pickup

/-- The pickup to which a dropoff belongs. -/
def Entity.dropoff? : Entity → Option EntityId
  | .stop st =>
    match st.kind with
    | .pickup => none
    | .dropoff pickup => some pickup
  | .traveler _ => none

/-- The pickup to which a dropoff that is filled in belongs. -/
def Provision.dropoff? (p : Provision) : Option EntityId := p.entity?.bind (·.dropoff?)

/-- Pickups and dropoffs belong together: the pickups are for different passengers, and each dropoff
was made from a pickup, of which it is the only one. -/
structure Paired (provisions : List Provision) : Prop where
  pickups : (provisions.filterMap Provision.pickup?).Nodup
  dropoffs : (provisions.filterMap Provision.dropoff?).Nodup
  scheduled : ∀ st time, .stop st time ∈ provisions → st.state = .scheduled
  made : ∀ st time pickup, .stop st time ∈ provisions → st.kind = .dropoff pickup →
    ∃ q, (provisions.filterMap (·.entity?))[pickup]? = some (.stop q) ∧ q.kind = .pickup ∧
      st = q.dropoff pickup

namespace World

variable {w w' : World} {e : Event} {now : Time}

/-- What a stop is for, whatever has become of it. -/
def order? (w : World) (id : EntityId) : Option (StopKind × RequestId × ModeId) :=
  (w.stop? id).map fun st => (st.kind, st.request, st.mode)

/-- The event is the arrival at a stop where the passenger of a request, who boards at a pickup, is
to alight. -/
def Alights (w : World) (e : Event) (pickup : EntityId) (request : RequestId) (mode : ModeId) :
    Prop :=
  e.kind = .stopReached ∧ ∃ id st, e.subject = some (.stop id) ∧ w.stop? id = some st ∧
    st.kind = .dropoff pickup ∧ st.state = .scheduled ∧ st.request = request ∧ st.mode = mode

/-- Each passenger boards at one stop and alights at one stop only, at the dropoff that belongs to
the pickup. -/
structure Ordered (w : World) : Prop where
  boards : ∀ id id' p, w.order? id = some (.pickup, p) → w.order? id' = some (.pickup, p) → id = id'
  belongs : ∀ id pickup p, w.order? id = some (.dropoff pickup, p) →
    w.order? pickup = some (.pickup, p)
  alights : ∀ id id' pickup p p', w.order? id = some (.dropoff pickup, p) →
    w.order? id' = some (.dropoff pickup, p') → id = id'

/-- Everything that became of passengers and stops is put down. -/
structure Tracked (w : World) : Prop where
  services : w.services.Chronicled w.telemetry.observations
  told : ∀ id st, w.stop? id = some st → st.state = .completed →
    st.stage ∈ course st.mode st.request w.telemetry.observations
  stopped : ∀ o ∈ w.telemetry.observations,
    o.kind = .waiting ∨ o.kind = .rejected ∨ w.StoppedFor o

/-! ## Events -/

/-- No event changes what a stop is for. -/
theorem Traced.order? {calls : List Call} (h : Traced w calls w') (id : EntityId) :
    w'.order? id = w.order? id := by
  unfold World.order?
  rcases h.stops id with hsame | ⟨st, state, hst, -, hst', -⟩
  · rw [hsame]
  · rw [hst, hst']
    rfl

/-- Order depends on what the stops are for only. -/
theorem Ordered.congr (h : w.Ordered) (horder : ∀ id, w'.order? id = w.order? id) :
    w'.Ordered := by
  constructor
  · intro id id' p
    rw [horder, horder]
    exact h.boards id id' p
  · intro id pickup p
    rw [horder, horder]
    exact h.belongs id pickup p
  · intro id id' pickup p p'
    rw [horder, horder]
    exact h.alights id id' pickup p p'

theorem order?_of_stop {id : EntityId} {st : Stop} (hst : w.stop? id = some st) :
    w.order? id = some (st.kind, st.request, st.mode) := by
  rw [order?, hst, Option.map_some]

/-- Passengers who alight under one request alight at one stop. -/
theorem Ordered.alights_once (h : w.Ordered) {id id' pickup pickup' : EntityId}
    {p : RequestId × ModeId} (hid : w.order? id = some (.dropoff pickup, p))
    (hid' : w.order? id' = some (.dropoff pickup', p)) : id = id' := by
  obtain rfl := h.boards pickup pickup' p (h.belongs id pickup p hid) (h.belongs id' pickup' p hid')
  exact h.alights id id' pickup p p hid hid'

/-- What is tracked depends on the services, the log and the stops only. -/
theorem Tracked.congr (h : w.Tracked) (hservices : w'.services = w.services)
    (hlog : w'.telemetry.observations = w.telemetry.observations)
    (hstop : ∀ id, w'.stop? id = w.stop? id) : w'.Tracked := by
  refine ⟨?_, fun id st hst => ?_, fun o ho => ?_⟩
  · rw [hservices, hlog]
    exact h.services
  · rw [hlog]
    exact h.told id st ((hstop id).symm.trans hst)
  · rw [hlog] at ho
    refine (h.stopped o ho).imp_right fun hkind => hkind.imp_right ?_
    rintro ⟨id, st, hst, hstopped⟩
    exact ⟨id, st, (hstop id).trans hst, hstopped⟩

/-- Every event is tracked. A stop that was completed stays so. -/
theorem Tracked.traced {calls : List Call} (h : w.Tracked) (ht : Traced w calls w') :
    w'.Tracked := by
  obtain ⟨now, occasion, hturns⟩ := ht.turns
  refine ⟨?_, fun id st hst hstate => ?_, fun o ho => ?_⟩
  · rw [ht.log]
    exact h.services.turns hturns
  · rw [ht.log, course_append, List.mem_append]
    rcases ht.stops id with hsame | ⟨st', state, hst', -, hafter, hcompleted⟩
    · exact .inl (h.told id st (hsame.symm.trans hst) hstate)
    · obtain rfl := Option.some.inj (hst.symm.trans hafter)
      exact .inr (hcompleted hstate)
  · rw [ht.log, List.mem_append] at ho
    rcases ho with ho | ho
    · refine (h.stopped o ho).imp_right fun hkind => hkind.imp_right ?_
      rintro ⟨id, st, hst, hstate, hstop⟩
      rcases ht.stops id with hsame | ⟨st', state, hst', hopen, -⟩
      · exact ⟨id, st, hsame.trans hst, hstate, hstop⟩
      · obtain rfl := Option.some.inj (hst.symm.trans hst')
        exact absurd hstate hopen
    · exact ht.told o ho

/-- A stage that is put down of a request, unless it waits or is rejected, was reached at a stop. -/
theorem Tracked.stop_of_course (h : w.Tracked) {mode : ModeId} {request : RequestId}
    {kind : ObservationKind} (hkind : kind ∈ course mode request w.telemetry.observations)
    (hwaiting : kind ≠ .waiting) (hrejected : kind ≠ .rejected) :
    ∃ id st, w.stop? id = some st ∧ st.state = .completed ∧ st.stage = kind ∧
      w.order? id = some (st.kind, request, mode) := by
  obtain ⟨o, ho, rfl, rfl, rfl⟩ := mem_course_iff.1 hkind
  obtain ⟨id, st, hst, hstate, hstage, hmode, hrequest⟩ :=
    ((h.stopped o ho).resolve_left hwaiting).resolve_left hrejected
  refine ⟨id, st, hst, hstate, hstage, ?_⟩
  rw [order?_of_stop hst, hmode, hrequest]

/-- Publishing a rejection leaves no track. -/
theorem Tracked.publish (h : w.Tracked) (r : Rejection) : (w.publish r).Tracked :=
  ⟨h.services.publish r, h.told, h.stopped⟩

/-! ## Faults -/

/-- The start of the simulation is never at fault. -/
private theorem fault_onStart (h : w.onStart now = .ok w') : w'.fault = w.fault := by
  obtain ⟨w₁, hstep, hafter⟩ := onStart_eq_ok h
  obtain ⟨clock, -, rfl⟩ := schedule_eq_ok hstep
  rcases hafter with ⟨-, rfl⟩ | ⟨-, hdispatch⟩
  · rfl
  · obtain ⟨clock', -, rfl⟩ := schedule_eq_ok hdispatch
    rfl

/-- A step is never at fault. -/
private theorem fault_onPassengerStep (h : w.onPassengerStep now = .ok w') :
    w'.fault = w.fault := by
  obtain ⟨ns, services, calls, w₁, -, hp, hafter⟩ := onPassengerStep_eq_ok h
  have hkept := (kept_performAll hp).fault
  rcases hafter with ⟨-, rfl⟩ | ⟨time, -, hschedule⟩
  · exact hkept
  · obtain ⟨clock, -, rfl⟩ := schedule_eq_ok hschedule
    exact hkept

/-- A fault of a dispatch concerns shifts. -/
private theorem fault_onShiftDispatch (h : w.onShiftDispatch now = .ok w')
    (hbefore : w.fault = none)
    {fault : Fault} (hfault : w'.fault = some fault) : fault.ConcernsShifts := by
  obtain ⟨_, _, _, tasks, d, found, -, -, hexecute, -, hafter, -⟩ := onShiftDispatch_eq_ok h
  rw [hbefore, Option.none_or, hfault] at hafter
  rw [← hafter] at hexecute
  exact TaskQueue.blames_executeDue hexecute

/-- A fault of a departure concerns the leg. -/
private theorem fault_onDeparture {id : EntityId} (h : w.onDeparture now id = .ok w')
    (hbefore : w.fault = none) {fault : Fault} (hfault : w'.fault = some fault) :
    fault.ConcernsDeparture := by
  rcases onDeparture_eq_ok h with ⟨rfl, -⟩ | ⟨t, planned, -, -, ⟨found, hdepart, rfl⟩ |
    ⟨taken, services, calls, w₁, -, hp, rfl⟩⟩
  · rw [hbefore] at hfault
    cases hfault
  · have hfirst : (w.changeTraveler id ({ · with state := .waiting })).fault = none := hbefore
    rw [recordFault, hfirst] at hfault
    cases hfault
    exact w.services.blames_depart now _ _ _ hdepart
  · have hkept : w₁.fault = none := (kept_performAll hp).fault.trans hbefore
    have hsame : (if taken && w₁.services.isBound id then w₁ else w₁.abortUntracked id).fault =
        w₁.fault := by split <;> rfl
    rw [hsame, hkept] at hfault
    cases hfault

/-- A pickup at a stop that is not yet completed is never at fault. -/
private theorem fault_onPickup {id : EntityId} {st : Stop} {i : Nat} {s : Service}
    (hstate : st.state = .scheduled ∨ st.state = .waitingForPassenger)
    (hs : w.services.members[i]? = some s) (h : w.onPickup now id st i = .ok w') :
    w'.fault = w.fault := by
  rcases onPickup_eq_ok hstate hs h with ⟨-, -, rfl⟩ | ⟨-, -, rfl⟩ | ⟨turn, w₁, -, hp, rfl⟩
  · rfl
  · rfl
  · have hkept := (kept_performAll hp).fault
    exact hkept

/-- A dropoff is at fault just if somebody boarded at its pickup and nobody is bound any more. -/
theorem fault_onDropoff_iff {id pickup : EntityId} {st : Stop} {i : Nat} {s : Service}
    (hs : w.services.members[i]? = some s) (h : w.onDropoff now id st pickup i = .ok w')
    (hbefore : w.fault = none) {fault : Fault} :
    w'.fault = some fault ↔ (w.stop? pickup).any (·.state = .completed) ∧
      s.bound.find? st.request = none ∧ fault = .unboundRequest st.request s.mode := by
  rcases onDropoff_eq_ok hs h with ⟨hnobody, rfl⟩ | ⟨hboarded, ⟨found, hturn, rfl⟩ |
    ⟨traveler, turn, w₁, hturn, hp, rfl⟩⟩
  · have hsame : (w.setStopState id .cancelled).fault = none := hbefore
    rw [hsame]
    exact ⟨nofun, fun hall => absurd hall.1 hnobody⟩
  · obtain ⟨hnone, rfl⟩ := Service.dropOff_eq_error_iff.1 hturn
    rw [recordFault, hbefore, Option.getD_none, Option.some.injEq]
    exact ⟨fun heq => ⟨hboarded, hnone, heq.symm⟩, fun hall => hall.2.2.symm⟩
  · have hsame : (w₁.setStopState id .completed).fault = none :=
      (kept_performAll hp).fault.trans hbefore
    have hbound : s.bound.find? st.request ≠ none := fun hnone => by
      simp [Service.dropOff, hnone] at hturn
    rw [hsame]
    exact ⟨nofun, fun hall => absurd hall.2.1 hbound⟩

/-- A vehicle that arrives where a passenger is to alight makes the dropoff at the service of the
mode. -/
theorem onDropoff_of_alights {pickup : EntityId} {request : RequestId} {mode : ModeId}
    (hthis : w.Alights e pickup request mode) (hserved : w.services.position? mode ≠ none)
    (h : w.handle e = .ok w') :
    ∃ id st i s, e.subject = some (.stop id) ∧ w.stop? id = some st ∧ st.request = request ∧
      w.services.members[i]? = some s ∧ s.mode = mode ∧
      w.onDropoff e.time id st pickup i = .ok w' := by
  obtain ⟨hkind, id, st, hsubject, hst, hdropoff, hstate, rfl, rfl⟩ := hthis
  simp only [handle, hkind, hsubject] at h
  rcases onStop_eq_ok h with ⟨-, hover⟩ | ⟨st', i, s, hst', hs, hmode, ⟨hpickup, -⟩ |
    ⟨pickup', hdropoff', -, h⟩⟩
  · rcases hover st hst with hnone | ⟨-, hnot⟩
    · exact absurd hnone hserved
    · exact absurd hstate (hnot pickup hdropoff)
  · obtain rfl := Option.some.inj (hst.symm.trans hst')
    rw [hdropoff] at hpickup
    cases hpickup
  · obtain rfl := Option.some.inj (hst.symm.trans hst')
    rw [hdropoff] at hdropoff'
    cases hdropoff'
    exact ⟨id, st, i, s, hsubject, hst, rfl, hs, hmode, h⟩

/-- An event meets nobody to alight just if it is the arrival at a dropoff at whose pickup somebody
boarded who is not bound any more. -/
theorem unboundRequest_handle_iff {request : RequestId} {mode : ModeId}
    (hmodes : (w.services.members.map Service.mode).Nodup)
    (hopen : ∀ s ∈ w.services.members, s.closed = false) (hbefore : w.fault = none)
    (h : w.handle e = .ok w') :
    w'.fault = some (.unboundRequest request mode) ↔
      ∃ pickup, w.Alights e pickup request mode ∧ (w.stop? pickup).any (·.state = .completed) ∧
        ∃ s ∈ w.services.members, s.mode = mode ∧ s.bound.find? request = none := by
  constructor
  · intro hfault
    have hnone {v : World} (hv : v.fault = w.fault) (hvfault : v.fault =
        some (.unboundRequest request mode)) : False := by
      rw [hv, hbefore] at hvfault
      cases hvfault
    unfold handle at h
    split at h
    · exact (hnone (fault_onStart h) hfault).elim
    · exact (fault_onShiftDispatch h hbefore hfault).elim
    · exact (hnone (fault_onPassengerStep h) hfault).elim
    · exact (fault_onDeparture h hbefore hfault).elim
    · next id hkind hsubject =>
      rcases onStop_eq_ok h with ⟨rfl, -⟩ | ⟨st, i, s, hst, hs, hmode, ⟨-, hstate, h⟩ |
        ⟨pickup, hdropoff, hstate, h⟩⟩
      · exact (hnone rfl hfault).elim
      · exact (hnone (fault_onPickup hstate hs h) hfault).elim
      · obtain ⟨hboarded, hunbound, heq⟩ := (fault_onDropoff_iff hs h hbefore).1 hfault
        obtain ⟨rfl, rfl⟩ : request = st.request ∧ mode = s.mode := by simpa using heq
        exact ⟨pickup, ⟨hkind, id, st, hsubject, hst, hdropoff, hstate, rfl, hmode.symm⟩, hboarded,
          s, List.mem_of_getElem? hs, rfl, hunbound⟩
    · cases h
      exact (hnone rfl hfault).elim
  · rintro ⟨pickup, hthis, hboarded, s, hs, rfl, hunbound⟩
    have hserved : w.services.position? s.mode ≠ none := fun hnone =>
      Services.mode_ne_of_position? hnone hs (hopen s hs) rfl
    obtain ⟨id, st, i, s', -, -, rfl, hs', hmode, h⟩ := onDropoff_of_alights hthis hserved h
    obtain ⟨j, hj⟩ := List.mem_iff_getElem?.1 hs
    obtain rfl := Services.position_eq_of_modes hmodes hs' hj hmode.symm
    obtain rfl := Option.some.inj (hs'.symm.trans hj)
    exact (fault_onDropoff_iff hs' h hbefore).2 ⟨hboarded, hunbound, rfl⟩

/-- A pickup is completed just when its passenger was put down to board. -/
theorem Tracked.boarded_iff {request : RequestId} {mode : ModeId} {pickup : EntityId}
    (hw : w.Tracked) (hordered : w.Ordered)
    (hpickup : w.order? pickup = some (.pickup, request, mode)) :
    (w.stop? pickup).any (·.state = .completed) ↔
      .pickedUp ∈ course mode request w.telemetry.observations := by
  constructor
  · intro hboarded
    obtain ⟨q, hq, hcompleted⟩ : ∃ q, w.stop? pickup = some q ∧ q.state = .completed := by
      simpa [Option.any_eq_true] using hboarded
    have horder := (order?_of_stop hq).symm.trans hpickup
    simp only [Option.some.injEq, Prod.mk.injEq] at horder
    obtain ⟨hkind, rfl, rfl⟩ := horder
    rw [← Stop.stage_eq_pickedUp_iff.2 hkind]
    exact hw.told pickup q hq hcompleted
  · intro hmem
    obtain ⟨id, q, hq, hcompleted, hstage, horder⟩ := hw.stop_of_course hmem (by simp) (by simp)
    rw [Stop.stage_eq_pickedUp_iff.1 hstage] at horder
    obtain rfl := hordered.boards id pickup _ horder hpickup
    simp [hq, hcompleted]

/-- Before the dropoff of a request is made nobody is put down to alight under it. -/
theorem Tracked.not_alighted {request : RequestId} {mode : ModeId} {id pickup : EntityId}
    {st : Stop} (hw : w.Tracked) (hordered : w.Ordered) (hst : w.stop? id = some st)
    (hdropoff : w.order? id = some (.dropoff pickup, request, mode))
    (hstate : st.state = .scheduled) :
    .droppedOff ∉ course mode request w.telemetry.observations := by
  intro hmem
  obtain ⟨id', st', hst', hcompleted, hstage, horder⟩ := hw.stop_of_course hmem (by simp) (by simp)
  obtain ⟨pickup', hkind⟩ := Stop.stage_eq_droppedOff_iff.1 hstage
  rw [hkind] at horder
  obtain rfl := hordered.alights_once hdropoff horder
  obtain rfl := Option.some.inj (hst.symm.trans hst')
  rw [hstate] at hcompleted
  cases hcompleted

/-- An event meets nobody to alight just if it is the arrival at a dropoff whose passenger was
rejected on board. -/
theorem Tracked.unbound_handle_iff {request : RequestId} {mode : ModeId} (hw : w.Tracked)
    (hordered : w.Ordered) (hbefore : w.fault = none) (h : w.handle e = .ok w') :
    w'.fault = some (.unboundRequest request mode) ↔
      (∃ pickup, w.Alights e pickup request mode) ∧
        course mode request w.telemetry.observations = [.waiting, .pickedUp, .rejected] := by
  have hdropoff {pickup : EntityId} (hthis : w.Alights e pickup request mode) :
      ∃ id st, w.stop? id = some st ∧ st.state = .scheduled ∧
        w.order? id = some (.dropoff pickup, request, mode) := by
    obtain ⟨-, id, st, -, hst, hkind, hstate, rfl, rfl⟩ := hthis
    exact ⟨id, st, hst, hstate, hkind ▸ order?_of_stop hst⟩
  rw [unboundRequest_handle_iff hw.services.modes hw.services.allOpen hbefore h]
  constructor
  · rintro ⟨pickup, hthis, hboarded, s, hs, rfl, hunbound⟩
    obtain ⟨id, st, hst, hstate, horder⟩ := hdropoff hthis
    have hmem := (hw.boarded_iff hordered (hordered.belongs id pickup _ horder)).1 hboarded
    have hcourse := (hw.services.members s hs).course_of_unbound hunbound hmem
    refine ⟨⟨pickup, hthis⟩, hcourse.resolve_left fun halighted => ?_⟩
    exact hw.not_alighted hordered hst horder hstate (by simp [halighted])
  · rintro ⟨⟨pickup, hthis⟩, hcourse⟩
    obtain ⟨id, st, hst, hstate, horder⟩ := hdropoff hthis
    have hboarded := hw.boarded_iff hordered (hordered.belongs id pickup _ horder)
    have hrejected : .rejected ∈ course mode request w.telemetry.observations := by
      simp [hcourse]
    obtain ⟨o, ho, hmode, -⟩ := mem_course_iff.1 hrejected
    obtain ⟨s, hs, hsmode⟩ := List.mem_map.1 (hw.services.served o ho)
    obtain rfl : s.mode = mode := hsmode.trans hmode
    exact ⟨pickup, hthis, hboarded.2 (by simp [hcourse]), s, hs, rfl,
      (hw.services.members s hs).unbound_of_rejected hrejected⟩

/-! ## Scenarios -/

/-- What is kept through a run: passengers and stops are tracked. -/
theorem Onward.tracked {allowed : Rejection → Prop} (h : w.Onward allowed w') (hw : w.Tracked)
    (hordered : w.Ordered) : w'.Tracked ∧ w'.Ordered := by
  induction h with
  | here => exact ⟨hw, hordered⟩
  | @event v v' e _ hnext ih =>
    obtain ⟨-, clock, -, hhandle⟩ := next?_eq_ok_some hnext
    obtain ⟨calls, htraced⟩ := traced_handle hhandle
    have htracked : World.Tracked { v with clock, current := some e } :=
      ih.1.congr rfl rfl fun _ => rfl
    exact ⟨htracked.traced htraced, ih.2.congr htraced.order?⟩
  | publish r _ _ ih => exact ⟨ih.1.publish r, ih.2.congr fun _ => rfl⟩

/-- All that the services do in a run is put down. -/
theorem Onward.chronicled {allowed : Rejection → Prop} (h : w.Onward allowed w')
    (hw : w.services.Chronicled w.telemetry.observations) :
    w'.services.Chronicled w'.telemetry.observations := by
  induction h with
  | here => exact hw
  | event _ hnext ih =>
    obtain ⟨-, clock, -, hhandle⟩ := next?_eq_ok_some hnext
    obtain ⟨calls, htraced⟩ := traced_handle hhandle
    obtain ⟨now, occasion, hturns⟩ := htraced.turns
    rw [htraced.log]
    exact ih.turns hturns
  | publish r _ _ ih => exact ih.publish r

/-- Pickups and dropoffs that belong together are ordered. -/
theorem ordered_of_paired {provisions : List Provision} (hpaired : Paired provisions)
    (hentities : w.entities = provisions.filterMap (·.entity?)) : w.Ordered := by
  have hstop {id : EntityId} {kind : StopKind} {p : RequestId × ModeId}
      (h : w.order? id = some (kind, p)) : ∃ st, w.stop? id = some st ∧ st.kind = kind ∧
        (st.request, st.mode) = p := by
    obtain ⟨st, hst, heq⟩ := Option.map_eq_some_iff.1 h
    obtain ⟨hkind, hp⟩ := Prod.mk.inj heq
    exact ⟨st, hst, hkind, hp⟩
  constructor
  · intro id id' p hid hid'
    obtain ⟨st, hst, hkind, rfl⟩ := hstop hid
    obtain ⟨st', hst', hkind', hp⟩ := hstop hid'
    refine pickup?_injective ?_ (pickup?_of_stop hst hkind) (hp ▸ pickup?_of_stop hst' hkind')
    rw [hentities, List.filterMap_filterMap]
    exact hpaired.pickups
  · intro id pickup p hid
    obtain ⟨st, hst, hkind, rfl⟩ := hstop hid
    obtain ⟨time, hmem⟩ := exists_mem_of_stop hentities hst
    obtain ⟨q, hq, hqkind, rfl⟩ := hpaired.made st time pickup hmem hkind
    rw [← hentities] at hq
    simp [order?, stop?, hq, hqkind, Stop.dropoff]
  · intro id id' pickup p p' hid hid'
    obtain ⟨st, hst, hkind, -⟩ := hstop hid
    obtain ⟨st', hst', hkind', -⟩ := hstop hid'
    refine List.index_eq_of_filterMap (f := Entity.dropoff?) ?_ pickup (getElem?_of_stop hst) ?_
      (getElem?_of_stop hst') ?_
    · rw [hentities, List.filterMap_filterMap]
      exact hpaired.dropoffs
    · simp [Entity.dropoff?, hkind]
    · simp [Entity.dropoff?, hkind']

end World

/-- Nothing is put down in the world that is set up. -/
theorem Setup.log_build {s : Setup} {w : World} (hb : s.build = .ok w) :
    w.telemetry.observations = [] := by
  unfold build at hb
  split at hb <;> cases hb
  rfl

/-- Before a scenario starts nobody is on the way, and nothing is put down. -/
theorem Setup.chronicled_provideAll {s : Setup} {provisions : List Provision}
    {built ready : World} (hbuilt : s.build = .ok built)
    (hready : built.provideAll provisions = .ok ready) :
    ready.services.Chronicled ready.telemetry.observations ∧
      ready.telemetry.observations = [] := by
  have hfresh : ready.Fresh :=
    World.provideAll_keeps (fun _ _ _ _ hv hf => hv.filled hf) hready (fresh_build hbuilt)
  obtain ⟨hmodes, hopen, hlog⟩ : (ready.services.members.map Service.mode).Nodup ∧
      (∀ u ∈ ready.services.members, u.closed = false) ∧ ready.telemetry.observations = [] := by
    apply World.provideAll_keeps (P := fun v => (v.services.members.map Service.mode).Nodup ∧
      (∀ u ∈ v.services.members, u.closed = false) ∧ v.telemetry.observations = []) ?_ hready
    · exact ⟨(informed_build hbuilt).modes, (informed_build hbuilt).allOpen, log_build hbuilt⟩
    · intro v v' p _ ⟨hmodes, hopen, hlog⟩ hf
      refine ⟨hf.modes ▸ hmodes, ?_, ?_⟩
      · exact hf.forall_members (fun now u t hu ha => ha.terms.2.2.1.trans hu)
          (fun u l hu => (u.closed_hear l).trans hu) hopen
      · rw [hf.telemetry]
        exact hlog
  rw [hlog]
  exact ⟨Services.chronicled_of_vacant hmodes hopen hfresh.orderly hfresh.unbound, rfl⟩

/-- Before a scenario starts no stop was made. -/
theorem Setup.tracked_provideAll {s : Setup} {provisions : List Provision} {built ready : World}
    (hbuilt : s.build = .ok built) (hready : built.provideAll provisions = .ok ready)
    (hscheduled : ∀ st time, .stop st time ∈ provisions → st.state = .scheduled) :
    ready.Tracked := by
  obtain ⟨hchronicled, hlog⟩ := chronicled_provideAll hbuilt hready
  constructor
  · exact hchronicled
  · intro id st hst hcompleted
    obtain ⟨time, hmem⟩ := World.exists_mem_of_stop (entities_provideAll hbuilt hready) hst
    rw [hscheduled st time hmem] at hcompleted
    cases hcompleted
  · intro o ho
    rw [hlog] at ho
    cases ho

/-- In every world that a scenario reaches the log tells what the services have on record. -/
theorem Setup.Reaches.chronicled {s : Setup} {allowed : Rejection → Prop}
    {provisions : List Provision} {w : World} (h : s.Reaches allowed provisions w) :
    w.services.Chronicled w.telemetry.observations := by
  obtain ⟨-, built, ready, started, hbuilt, hready, hstarted, honward⟩ := h
  obtain ⟨clock, -, rfl⟩ := World.schedule_eq_ok hstarted
  exact honward.chronicled (chronicled_provideAll hbuilt hready).1

/-- In every world that a scenario reaches passengers and stops are tracked. -/
theorem Setup.Reaches.tracked {s : Setup} {allowed : Rejection → Prop}
    {provisions : List Provision} {w : World} (h : s.Reaches allowed provisions w)
    (hpaired : Paired provisions) : w.Tracked ∧ w.Ordered := by
  obtain ⟨-, built, ready, started, hbuilt, hready, hstarted, honward⟩ := h
  have htracked := tracked_provideAll hbuilt hready hpaired.scheduled
  have hordered := World.ordered_of_paired hpaired (entities_provideAll hbuilt hready)
  obtain ⟨clock, -, rfl⟩ := World.schedule_eq_ok hstarted
  exact honward.tracked (htracked.congr rfl rfl fun _ => rfl) (hordered.congr fun _ => rfl)

/-- A dropoff is cancelled if its passenger did not board, be it because of a rejection or not. -/
theorem Setup.Reaches.cancelled_of_not_boarded {s : Setup} {allowed : Rejection → Prop}
    {provisions : List Provision} {w w' : World} {e : Event} (h : s.Reaches allowed provisions w)
    (hpaired : Paired provisions) (hnext : w.next? = .ok (some (e, w'))) {pickup : EntityId}
    {request : RequestId} {mode : ModeId} (hthis : w.Alights e pickup request mode)
    (hserved : w.services.position? mode ≠ none)
    (hnot : .pickedUp ∉ course mode request w.telemetry.observations) :
    ∃ id st, e.subject = some (.stop id) ∧ w'.stop? id = some st ∧ st.state = .cancelled := by
  obtain ⟨hw, hordered⟩ := h.tracked hpaired
  obtain ⟨-, clock, -, hhandle⟩ := World.next?_eq_ok_some hnext
  have hpickup : w.order? pickup = some (.pickup, request, mode) := by
    obtain ⟨-, id, st, -, hst, hdropoff, -, rfl, rfl⟩ := hthis
    exact hordered.belongs id pickup _ (hdropoff ▸ World.order?_of_stop hst)
  have hnobody := mt (hw.boarded_iff hordered hpickup).1 hnot
  obtain ⟨id, st, i, s, hsubject, hst, -, hs, -, h⟩ :=
    World.onDropoff_of_alights (w := { w with clock, current := some e }) hthis hserved hhandle
  rcases World.onDropoff_eq_ok hs h with ⟨-, rfl⟩ | ⟨hboarded, -⟩
  · refine ⟨id, { st with state := .cancelled }, hsubject, ?_, rfl⟩
    rw [World.stop?_setStopState, if_pos rfl, hst, Option.map_some]
  · exact absurd hboarded hnobody

/-- An event of a run meets nobody to alight just when it is the arrival of a vehicle at the dropoff
of a request whose passenger was rejected on board: the rejection was applied after the passenger
boarded, and the pickup counts as completed all the same. -/
theorem Setup.Reaches.unboundRequest_iff {s : Setup} {provisions : List Provision} {w w' : World}
    {e : Event} (h : s.Reaches (fun _ => True) provisions w) (hpaired : Paired provisions)
    (hnext : w.next? = .ok (some (e, w'))) (request : RequestId) (mode : ModeId) :
    w'.fault = some (.unboundRequest request mode) ↔
      (∃ pickup, w.Alights e pickup request mode) ∧
        course mode request w.telemetry.observations = [.waiting, .pickedUp, .rejected] := by
  obtain ⟨hw, hordered⟩ := h.tracked hpaired
  obtain ⟨hbefore, clock, -, hhandle⟩ := World.next?_eq_ok_some hnext
  have hnow : World.Tracked { w with clock, current := some e } := hw.congr rfl rfl fun _ => rfl
  exact hnow.unbound_handle_iff (hordered.congr fun _ => rfl) hbefore hhandle

/-- A ride to work whose request is rejected at once, while the services step every minute. -/
def rejectedCommute : Setup := { commute with verdict := fun _ => some "no_vehicle" }

/-- The stop at home of the vehicle that goes to work. -/
def pickupAtHome : Stop := ⟨⟨"bus"⟩, ⟨"drt_0"⟩, ⟨"drt"⟩, .pickup, .scheduled⟩

/-- A traveler who goes to work, and a vehicle with a stop at home and one at work. -/
def rejectedCommuters : List Provision :=
  commuters 100 110 ++ [.stop (pickupAtHome.dropoff 1) 200]

/-- The stops of the commuters belong together. -/
theorem paired_rejectedCommuters : Paired rejectedCommuters := by
  have hstop {st : Stop} {time : Time} (h : .stop st time ∈ rejectedCommuters) :
      st = pickupAtHome ∨ st = pickupAtHome.dropoff 1 := by
    simp only [rejectedCommuters, commuters, List.cons_append, List.nil_append, List.mem_cons,
      List.not_mem_nil, reduceCtorEq, Provision.stop.injEq, false_or, or_false] at h
    exact h.imp And.left And.left
  refine ⟨by decide, by decide, fun st time hmem => ?_, fun st time pickup hmem hkind => ?_⟩
  · rcases hstop hmem with rfl | rfl <;> rfl
  · rcases hstop hmem with rfl | rfl <;> cases hkind
    exact ⟨pickupAtHome, rfl, rfl, rfl⟩

/-- The traveler boards before the next step of the services, which applies the rejection. -/
theorem rejected_commuter_cannot_alight : ∃ w e w',
    rejectedCommute.play rejectedCommuters 7 = some w ∧ w.next? = .ok (some (e, w')) ∧
    w'.fault = some (.unboundRequest ⟨"drt_0"⟩ ⟨"drt"⟩) ∧
    course ⟨"drt"⟩ ⟨"drt_0"⟩ w.telemetry.observations = [.waiting, .pickedUp, .rejected] := by
  have hplay : ((rejectedCommute.play rejectedCommuters 7).bind fun w =>
      w.next?.toOption.bind fun next => next.bind fun (e, w') =>
        if w'.fault = some (.unboundRequest ⟨"drt_0"⟩ ⟨"drt"⟩) then some () else none) =
      some () := by
    decide +kernel
  obtain ⟨w, hw, hrest⟩ := Option.bind_eq_some_iff.1 hplay
  cases hnext : w.next? with
  | error halt => simp [hnext, Except.toOption] at hrest
  | ok next =>
    simp only [hnext, Except.toOption, Option.bind_some] at hrest
    obtain ⟨⟨e, w'⟩, rfl, hif⟩ := Option.bind_eq_some_iff.1 hrest
    split at hif
    · next hfault =>
      have hreaches : rejectedCommute.Reaches (fun _ => True) rejectedCommuters w :=
        Setup.reaches_of_play (fun _ _ => trivial) hw
      have hiff := Setup.Reaches.unboundRequest_iff hreaches paired_rejectedCommuters hnext
        ⟨"drt_0"⟩ ⟨"drt"⟩
      exact ⟨w, e, w', hw, hnext, hfault, (hiff.1 hfault).2⟩
    · cases hif

end DialARide
