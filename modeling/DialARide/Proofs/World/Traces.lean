import DialARide.Proofs.Ride.Chronicle
import DialARide.Proofs.Telemetry
import DialARide.Proofs.World.Handled

/-!
# What events leave behind

Whatever an event comes to, faults included, the services take turns and all that is observed in
them is put down. A stop is completed just when its passenger boards or alights there, and nobody
boards or alights elsewhere.
-/

namespace DialARide

/-- The stage that the ride reaches when a stop is completed. -/
def Stop.stage (st : Stop) : ObservationKind :=
  match st.kind with
  | .pickup => .pickedUp
  | .dropoff _ => .droppedOff

/-- Passengers are picked up at pickups. -/
theorem Stop.stage_eq_pickedUp_iff {st : Stop} : st.stage = .pickedUp ↔ st.kind = .pickup := by
  unfold stage
  cases st.kind <;> simp

/-- Passengers are dropped off at dropoffs. -/
theorem Stop.stage_eq_droppedOff_iff {st : Stop} :
    st.stage = .droppedOff ↔ ∃ pickup, st.kind = .dropoff pickup := by
  unfold stage
  cases st.kind <;> simp

namespace World

variable {w w' : World} {e : Event} {now : Time}

/-- The stage of a ride is reached by the completion of a stop. -/
def StoppedFor (w : World) (o : Observation) : Prop :=
  ∃ id st, w.stop? id = some st ∧ st.state = .completed ∧ st.stage = o.kind ∧ st.mode = o.mode ∧
    st.request = o.request

/-- What an event leaves behind when the services make the given calls. -/
structure Traced (w : World) (calls : List Call) (w' : World) : Prop where
  turns : ∃ now occasion, Services.Turns now occasion w.services w'.services calls
  log : w'.telemetry.observations = w.telemetry.observations ++ observed calls
  stops : ∀ id, w'.stop? id = w.stop? id ∨
    ∃ st state, w.stop? id = some st ∧ st.state ≠ .completed ∧
      w'.stop? id = some { st with state } ∧
      (state = .completed → st.stage ∈ course st.mode st.request (observed calls))
  told : ∀ o ∈ observed calls, o.kind = .waiting ∨ o.kind = .rejected ∨ w'.StoppedFor o

/-! ## Calls -/

/-- A call puts down what is observed by it, and nothing else. -/
theorem telemetry_perform {c : Call} (h : w.perform c = .ok w') :
    w'.telemetry = (observed [c]).foldl Telemetry.record w.telemetry := by
  have hschedule {v : World} {time : Time} {kind : EventKind} {subject : Option Subject}
      (hv : v.schedule time kind subject = .ok w') : w'.telemetry = v.telemetry := by
    obtain ⟨clock, -, rfl⟩ := schedule_eq_ok hv
    rfl
  cases c with
  | observe o =>
    cases h
    rfl
  | ready stop traveler now => exact hschedule h
  | board vehicle id now | abort id now =>
    cases h
    rfl
  | alight vehicle id link now =>
    cases ht : w.traveler? id with
    | none =>
      simp only [perform, alight, ht, Except.ok.injEq] at h
      rw [h]
      rfl
    | some t =>
      rcases alight_eq_ok ht h with ⟨-, rfl⟩ | ⟨next, -, hs⟩
      · rfl
      · have hsame := hschedule hs
        exact hsame

/-- All that is observed is put down, in order. -/
theorem telemetry_performAll {calls : List Call} (h : w.performAll calls = .ok w') :
    w'.telemetry = (observed calls).foldl Telemetry.record w.telemetry := by
  induction calls generalizing w with
  | nil =>
    cases h
    rfl
  | cons c calls ih =>
    obtain ⟨w₁, hc, hrest⟩ := performAll_cons_eq_ok h
    rw [ih hrest, telemetry_perform hc, ← List.foldl_append, ← observed_append]
    rfl

/-- The log is continued by what the calls observe. -/
theorem observations_performAll {calls : List Call} (h : w.performAll calls = .ok w') :
    w'.telemetry.observations = w.telemetry.observations ++ observed calls := by
  rw [telemetry_performAll h, Telemetry.observations_foldl_record]

/-! ## Handlers -/

/-- An event of which services, log and stops take no notice is one without calls. -/
theorem traced_aside (hservices : w'.services = w.services)
    (hlog : w'.telemetry.observations = w.telemetry.observations)
    (hstop : ∀ id, w'.stop? id = w.stop? id) : Traced w [] w' := by
  refine ⟨⟨0, .other, ?_⟩, ?_, fun id => .inl (hstop id), fun o ho => by cases ho⟩
  · rw [hservices]
    exact .nil w.services
  · rw [hlog]
    simp [observed]

/-- What concerns neither services, stops nor the log leaves no traces. -/
theorem Traced.congr {w'' : World} {calls : List Call} (h : Traced w calls w')
    (hservices : w''.services = w'.services)
    (hlog : w''.telemetry.observations = w'.telemetry.observations)
    (hstop : ∀ id, w''.stop? id = w'.stop? id) : Traced w calls w'' := by
  obtain ⟨now, occasion, hturns⟩ := h.turns
  refine ⟨⟨now, occasion, ?_⟩, hlog.trans h.log, fun id => ?_, fun o ho => ?_⟩
  · rw [hservices]
    exact hturns
  · rw [hstop]
    exact h.stops id
  · refine (h.told o ho).imp_right fun hkind => hkind.imp_right ?_
    rintro ⟨id, st, hst, hstop'⟩
    exact ⟨id, st, (hstop id).trans hst, hstop'⟩

/-- Nobody boards or alights by calls that only tell of waiting travelers or rejections. -/
theorem traced_performAll {w₀ : World} {occasion : Occasion} {services : Services}
    {calls : List Call} (hstop : ∀ id, w₀.stop? id = w.stop? id)
    (hlog : w₀.telemetry.observations = w.telemetry.observations)
    (hturns : Services.Turns now occasion w.services services calls)
    (hp : { w₀ with services }.performAll calls = .ok w')
    (hkind : ∀ o ∈ observed calls, o.kind = .waiting ∨ o.kind = .rejected) :
    Traced w calls w' := by
  have hkept := kept_performAll hp
  have hsame (id : EntityId) := (hkept.stop id).trans (hstop id)
  refine ⟨⟨now, occasion, ?_⟩, ?_, fun id => .inl (hsame id), fun o ho => ?_⟩
  · rw [hkept.services]
    exact hturns
  · rw [observations_performAll hp]
    exact congrArg (· ++ observed calls) hlog
  · exact (hkind o ho).imp_right .inl

/-- A stop that is not completed changes its state, and nobody boards or alights. -/
theorem traced_setStopState {id : EntityId} {st : Stop} {state : StopState} {occasion : Occasion}
    {services : Services} (hst : w.stop? id = some st) (hstate : st.state ≠ .completed)
    (hnext : state ≠ .completed) (hturns : Services.Turns now occasion w.services services []) :
    Traced w [] ({ w with services }.setStopState id state) := by
  refine ⟨⟨now, occasion, hturns⟩, ?_, fun j => ?_, fun o ho => by cases ho⟩
  · simp [observed, setStopState]
  · rw [stop?_setStopState]
    split
    · next hj =>
      subst hj
      refine .inr ⟨st, state, hst, hstate, ?_, fun hcompleted => absurd hcompleted hnext⟩
      exact congrArg (Option.map ({ · with state })) hst
    · exact .inl rfl

/-- A stop is completed when its passenger boards or alights there. -/
theorem traced_served {w₁ : World} {id : EntityId} {st : Stop} {i : Nat} {s : Service} {turn : Turn}
    {o : Observation} (hst : w.stop? id = some st) (hstate : st.state ≠ .completed)
    (hs : w.services.members[i]? = some s) (hmode : s.mode = st.mode)
    (ha : s.Act now .other turn)
    (hp : { w with services := w.services.commit i turn }.performAll turn.calls = .ok w₁)
    (ho : observed turn.calls = [o] ∧ o.kind = st.stage ∧ o.mode = s.mode ∧
      o.request = st.request) :
    Traced w turn.calls (w₁.setStopState id .completed) := by
  obtain ⟨hobserved, hkind, homode, hrequest⟩ := ho
  have hkept := kept_performAll hp
  have hst' : (w₁.setStopState id .completed).stop? id = some { st with state := .completed } := by
    rw [stop?_setStopState, if_pos rfl, hkept.stop]
    exact congrArg (Option.map ({ · with state := .completed })) hst
  have hlog := observations_performAll hp
  refine ⟨⟨now, .other, ?_⟩, hlog, fun j => ?_, fun o' ho' => ?_⟩
  · show Services.Turns now .other w.services w₁.services turn.calls
    rw [hkept.services]
    exact Services.turns_of_act hs ha
  · by_cases hj : id = j
    · subst hj
      refine .inr ⟨st, .completed, hst, hstate, hst', fun _ => ?_⟩
      rw [mem_course_iff, hobserved]
      exact ⟨o, List.mem_singleton.2 rfl, homode.trans hmode, hrequest, hkind⟩
    · rw [stop?_setStopState, if_neg hj]
      exact .inl (hkept.stop j)
  · rw [hobserved, List.mem_singleton] at ho'
    subst ho'
    exact .inr (.inr ⟨id, _, hst', rfl, hkind.symm, hmode.symm.trans homode.symm, hrequest.symm⟩)

/-- At the start of the simulation the services call for nothing. -/
theorem traced_onStart (h : w.onStart now = .ok w') : Traced w [] w' := by
  obtain ⟨w₁, hstep, hafter⟩ := onStart_eq_ok h
  obtain ⟨clock, -, rfl⟩ := schedule_eq_ok hstep
  rcases hafter with ⟨-, rfl⟩ | ⟨-, hdispatch⟩
  · exact traced_aside rfl rfl fun _ => rfl
  · obtain ⟨clock', -, rfl⟩ := schedule_eq_ok hdispatch
    exact traced_aside rfl rfl fun _ => rfl

/-- While shifts are dispatched the services call for nothing. -/
theorem traced_onShiftDispatch (h : w.onShiftDispatch now = .ok w') : Traced w [] w' := by
  obtain ⟨_, _, _, _, _, _, -, -, -, -, -, hservices, hentities, hlog, -⟩ := onShiftDispatch_eq_ok h
  refine traced_aside hservices hlog fun id => ?_
  unfold stop?
  rw [hentities]

/-- A step leaves behind what all services call for. -/
private theorem traced_onPassengerStep (h : w.onPassengerStep now = .ok w') :
    ∃ calls, Traced w calls w' := by
  obtain ⟨ns, services, calls, w₁, hstep, hp, hafter⟩ := onPassengerStep_eq_ok h
  have htraced : Traced w calls w₁ := by
    have hkind : ∀ o ∈ observed calls, o.kind = .waiting ∨ o.kind = .rejected :=
      fun o ho => .inr (Services.kind_of_stepEach hstep ho)
    have hsame (id : EntityId) : w.stop? id = w.stop? id := rfl
    exact traced_performAll hsame rfl (Services.turns_stepEach hstep) hp hkind
  refine ⟨calls, ?_⟩
  rcases hafter with ⟨-, rfl⟩ | ⟨time, -, hschedule⟩
  · exact htraced
  · obtain ⟨clock, -, rfl⟩ := schedule_eq_ok hschedule
    exact htraced.congr rfl rfl fun _ => rfl

/-- A departure leaves behind what the service calls for that takes the traveler. -/
private theorem traced_onDeparture {id : EntityId} (h : w.onDeparture now id = .ok w') :
    ∃ calls, Traced w calls w' := by
  have hstop (j : EntityId) : (w.changeTraveler id ({ · with state := .waiting })).stop? j =
      w.stop? j := w.stop?_changeTraveler id j _
  rcases onDeparture_eq_ok h with ⟨rfl, -⟩ | ⟨t, planned, -, -, ⟨fault, -, rfl⟩ |
    ⟨taken, services, calls, w₁, hdepart, hp, rfl⟩⟩
  · exact ⟨[], traced_aside rfl rfl fun _ => rfl⟩
  · exact ⟨[], traced_aside rfl rfl hstop⟩
  · have htraced : Traced w calls w₁ := by
      rcases Services.depart_eq_ok hdepart with ⟨-, rfl, rfl⟩ |
        ⟨-, i, s, turn, hs, -, hturn, rfl, rfl⟩
      · have hturns : Services.Turns now .other w.services w.services [] := .nil _
        refine traced_performAll hstop rfl hturns hp fun o ho => ?_
        cases ho
      · have hturns := Services.turns_of_act hs (Service.act_depart hturn)
        refine traced_performAll hstop rfl hturns hp fun o ho => ?_
        obtain ⟨o', ready, hcalls, hkind, hready⟩ := Service.calls_depart hturn
        rw [hcalls, observed_cons_observe, hready, List.mem_singleton] at ho
        exact .inl (ho ▸ hkind)
    refine ⟨calls, ?_⟩
    split
    · exact htraced
    · exact htraced.congr rfl rfl fun j => w₁.stop?_changeTraveler id j _

/-- A pickup leaves behind what the service calls for at which the passenger boards. -/
private theorem traced_onPickup {id : EntityId} {st : Stop} {i : Nat} {s : Service}
    (hst : w.stop? id = some st) (hpickup : st.kind = .pickup)
    (hstate : st.state = .scheduled ∨ st.state = .waitingForPassenger)
    (hs : w.services.members[i]? = some s) (hmode : s.mode = st.mode)
    (h : w.onPickup now id st i = .ok w') : ∃ calls, Traced w calls w' := by
  have hopen : st.state ≠ .completed := by rcases hstate with hstate | hstate <;> simp [hstate]
  have hnone : Services.Turns now .other w.services w.services [] := .nil w.services
  rcases onPickup_eq_ok hstate hs h with ⟨-, hunbound, rfl⟩ | ⟨-, -, rfl⟩ |
    ⟨turn, w₁, hturn, hp, rfl⟩
  · have hact : s.Act now (.arrival id) _ := .await id st.request rfl hunbound
    exact ⟨[], traced_setStopState hst hopen (by simp) (Services.turns_of_act hs hact)⟩
  · exact ⟨[], traced_setStopState hst hopen (by simp) hnone⟩
  · obtain ⟨o, hobserved, hkind, ho⟩ := Service.observed_pickUp hturn
    have hstage : o.kind = st.stage := hkind.trans (Stop.stage_eq_pickedUp_iff.2 hpickup).symm
    exact ⟨_, traced_served hst hopen hs hmode (Service.act_pickUp hturn) hp
      ⟨hobserved, hstage, ho⟩⟩

/-- A dropoff leaves behind what the service calls for at which the passenger alights. -/
private theorem traced_onDropoff {id pickup : EntityId} {st : Stop} {i : Nat} {s : Service}
    (hst : w.stop? id = some st) (hdropoff : st.kind = .dropoff pickup)
    (hstate : st.state = .scheduled) (hs : w.services.members[i]? = some s)
    (hmode : s.mode = st.mode) (h : w.onDropoff now id st pickup i = .ok w') :
    ∃ calls, Traced w calls w' := by
  have hopen : st.state ≠ .completed := by simp [hstate]
  have hnone : Services.Turns now .other w.services w.services [] := .nil w.services
  rcases onDropoff_eq_ok hs h with ⟨-, rfl⟩ | ⟨-, ⟨fault, -, rfl⟩ |
    ⟨traveler, turn, w₁, hturn, hp, rfl⟩⟩
  · exact ⟨[], traced_setStopState hst hopen (by simp) hnone⟩
  · exact ⟨[], traced_aside rfl rfl fun _ => rfl⟩
  · obtain ⟨o, hobserved, hkind, ho⟩ := Service.observed_dropOff hturn
    have hstage : o.kind = st.stage :=
      hkind.trans (Stop.stage_eq_droppedOff_iff.2 ⟨pickup, hdropoff⟩).symm
    exact ⟨_, traced_served hst hopen hs hmode (Service.act_dropOff hturn) hp
      ⟨hobserved, hstage, ho⟩⟩

/-- An arrival at a stop leaves behind what is called for there. -/
private theorem traced_onStop {id : EntityId} (h : w.onStop now id = .ok w') :
    ∃ calls, Traced w calls w' := by
  rcases onStop_eq_ok h with ⟨rfl, -⟩ | ⟨st, i, s, hst, hs, hmode, ⟨hpickup, hstate, h⟩ |
    ⟨pickup, hdropoff, hstate, h⟩⟩
  · exact ⟨[], traced_aside rfl rfl fun _ => rfl⟩
  · exact traced_onPickup hst hpickup hstate hs hmode h
  · exact traced_onDropoff hst hdropoff hstate hs hmode h

/-- Every event leaves its traces, whether or not it meets a fault. -/
theorem traced_handle (h : w.handle e = .ok w') : ∃ calls, Traced w calls w' := by
  unfold handle at h
  split at h
  · exact ⟨[], traced_onStart h⟩
  · exact ⟨[], traced_onShiftDispatch h⟩
  · exact traced_onPassengerStep h
  · exact traced_onDeparture h
  · exact traced_onStop h
  · cases h
    exact ⟨[], traced_aside rfl rfl fun _ => rfl⟩

end World

end DialARide
