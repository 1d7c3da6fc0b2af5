import DialARide.Proofs.World.Situation
import DialARide.Proofs.World.Traces
import DialARide.Proofs.World.Wakeup

/-!
# Every departure is accounted for

Whoever sets out on a leg is bound to a request, was dropped off, was rejected, or gave up since no
service took the traveler. Each departure with a leg to travel adds one to the sum of these, and
nothing else changes the sum: a ride that ends only moves its traveler from one term to another. In
the same way each passenger who is counted as picked up or dropped off is the passenger of one
stop that is completed.
-/

namespace DialARide

/-! ## Key figures -/

/-- A ride ends at the stage. -/
def ObservationKind.ends : ObservationKind → Bool
  | .droppedOff | .rejected => true
  | .waiting | .pickedUp => false

/-- The number of rides that ended in a list of observations. -/
def ends (log : List Observation) : Nat := log.countP (·.kind.ends)

namespace Telemetry

/-- The number of journeys that are over. -/
def finished (t : Telemetry) : Nat := t.counts.droppedOff + t.counts.rejected + t.aborted

/-- A journey is finished by the observation with which the ride ends. -/
theorem finished_record (t : Telemetry) (o : Observation) :
    (t.record o).finished = t.finished + if o.kind.ends then 1 else 0 := by
  have haborted : (t.record o).aborted = t.aborted := by
    unfold record follow
    cases o.kind <;> try rfl
    cases t.progress.find? o.request <;> rfl
  unfold finished
  rw [haborted]
  cases ho : o.kind <;> simp [record, Counts.add, ObservationKind.ends, ho] <;> omega

/-- Rides that end are journeys that are over. -/
theorem finished_foldl_record (t : Telemetry) (log : List Observation) :
    (log.foldl record t).finished = t.finished + ends log := by
  induction log generalizing t with
  | nil => rfl
  | cons o log ih =>
    rw [List.foldl_cons, ih, finished_record, ends, ends, List.countP_cons]
    omega

end Telemetry

/-! ## Bindings -/

namespace Service

variable {s : Service} {now : Time} {occasion : Occasion} {t : Turn}

/-- While nobody departs, a service loses a traveler just when a ride ends. -/
theorem Orderly.size_of_act (h : s.Orderly) (hoccasion : ∀ id, occasion ≠ .departure id)
    (ha : s.Act now occasion t) :
    t.service.bound.size + ends (observed t.calls) = s.bound.size := by
  cases h.effect ha with
  | quiet hbound hcalls =>
    rw [hbound, hcalls]
    rfl
  | bound o b ready hwho => exact absurd hwho (hoccasion b.traveler)
  | declined o traveler hwho => exact absurd hwho (hoccasion traveler)
  | boarded o b vehicle hb hstatus hkind hvehicle hbound hcalls =>
    rw [hbound, hcalls, Table.size_insert_of_find?_eq_some hb]
    simp [ends, observed, Call.observation?, hkind, ObservationKind.ends]
  | alighted o b vehicle hb hkind hvehicle hbound hcalls =>
    rw [hbound, hcalls, ← Table.size_erase_of_find?_eq_some hb]
    simp [ends, observed, Call.observation?, hkind, ObservationKind.ends]
  | aborted o b hb hkind hbound hcalls =>
    rw [hbound, hcalls, ← Table.size_erase_of_find?_eq_some hb]
    simp [ends, observed, Call.observation?, hkind, ObservationKind.ends]

end Service

namespace Services

variable {h h' : Services} {now : Time} {occasion : Occasion} {i : Nat} {s : Service} {t : Turn}

/-- The number of travelers who are bound to a request. -/
def boundCount (h : Services) : Nat := (h.members.map (·.bound.size)).sum

/-- What is published binds nobody and releases nobody. -/
theorem boundCount_publish (h : Services) (r : Rejection) :
    (h.publish r).boundCount = h.boundCount := by
  unfold boundCount
  rw [members_publish, List.map_map]
  congr 1
  exact List.map_congr_left fun s _ => congrArg Table.size (s.bound_hear [r])

/-- A turn changes the number of travelers who are bound by the difference at the one service. -/
theorem boundCount_commit (hs : h.members[i]? = some s) (t : Turn) :
    (h.commit i t).boundCount + s.bound.size = h.boundCount + t.service.bound.size := by
  have hhear : (·.bound.size) ∘ (Service.hear · (h.answersTo t)) = (·.bound.size) :=
    funext fun u => congrArg Table.size (u.bound_hear _)
  unfold boundCount
  rw [members_commit, List.map_map, hhear]
  exact List.sum_map_set (fun u : Service => u.bound.size) hs t.service

/-- While nobody departs, travelers are unbound just when rides end. -/
theorem boundCount_of_turns (hoccasion : ∀ id, occasion ≠ .departure id) {calls : List Call}
    (ht : Turns now occasion h h' calls) (horderly : ∀ s ∈ h.members, s.Orderly) :
    h'.boundCount + ends (observed calls) = h.boundCount := by
  induction ht with
  | nil => rfl
  | @cons h h' i s t calls hs ha _ ih =>
    have hfirst := (horderly s (List.mem_of_getElem? hs)).size_of_act hoccasion ha
    have hcommit := boundCount_commit hs t
    have hrest := ih (Turns.forall_members (fun u v hu hv => hu.act hv) (fun u l hu => hu.hear l)
      (turns_of_act hs ha) horderly)
    rw [observed_append, ends, List.countP_append, ← ends, ← ends]
    omega

/-- A departure that a service takes binds the traveler and is found to do so, or leaves the
traveler unbound. No ride ends by it. -/
theorem departed_cases {id : EntityId} {o : Observation}
    (horderly : ∀ s ∈ h.members, s.Orderly) (hunbound : h.Unbound id)
    (hs : h.members[i]? = some s) (hopen : s.closed = false) (ha : s.Act now (.departure id) t)
    (hhead : t.calls.head? = some (.observe o)) (hwaiting : o.kind = .waiting) :
    observed t.calls = [o] ∧
      (((h.commit i t).isBound id = true ∧ t.service.bound.size = s.bound.size + 1) ∨
        ((h.commit i t).isBound id = false ∧ t.service.bound.size = s.bound.size)) := by
  have heffect := (horderly s (List.mem_of_getElem? hs)).effect ha
  rcases heffect.of_departure hhead hwaiting with
    ⟨hbound, hcalls⟩ | ⟨b, ready, rfl, hup, -, hbound, hcalls, hready⟩
  · have hsame := binding?_commit_of_eq hs hbound
    refine ⟨by rw [hcalls]; rfl, .inr ⟨Bool.eq_false_iff.2 fun hisBound => ?_, by rw [hbound]⟩⟩
    refine not_unbound_of_isBound hisBound fun j r b hb => ?_
    exact hunbound j r b ((hsame j r).symm.trans hb)
  · have hfree := (horderly s (List.mem_of_getElem? hs)).unbound o.request hup
    have hquiet : observed ready = [] := List.filterMap_eq_nil_iff.2 fun c hc => by
      obtain ⟨stop, now, rfl⟩ := hready c hc
      rfl
    have hbinding : (h.commit i t).binding? i o.request = some b := by
      rw [binding?_commit hs, if_pos rfl, hbound, Table.find?_insert, if_pos rfl]
    refine ⟨by rw [hcalls, observed_cons_observe, hquiet], .inl ⟨?_, ?_⟩⟩
    · refine isBound_of_binding (getElem?_commit hs t) ?_ hbinding rfl
      rw [Service.closed_hear, ha.terms.2.2.1, hopen]
    · rw [hbound, Table.size_insert_of_find?_eq_none hfree]

end Services

/-- The entity is a stop that is completed, at which passengers reach the stage. -/
def Entity.completedAt (k : ObservationKind) : Entity → Bool
  | .stop st => st.state = .completed ∧ st.stage = k
  | .traveler _ => false

theorem Entity.completedAt_stop (k : ObservationKind) (st : Stop) :
    Entity.completedAt k (.stop st) = true ↔ st.state = .completed ∧ st.stage = k :=
  decide_eq_true_iff

namespace World

variable {w w' : World} {e : Event} {clock : Clock} {id : EntityId}

/-! ## The sum of all terms -/

/-- A traveler sets out on a leg by the event. -/
def setsOut (w : World) (e : Event) : Bool :=
  match e.kind, e.subject with
  | .departure, some (.traveler id) => (w.traveler? id).any (·.plan.current?.isSome)
  | _, _ => false

/-- The number of those who are bound or whose journeys are over. -/
def accounted (w : World) : Nat := w.services.boundCount + w.telemetry.finished

/-- A traveler with a leg to travel sets out by departing. -/
theorem setsOut_eq_true (hkind : e.kind = .departure) (hsubject : e.subject = some (.traveler id))
    {t : Traveler} (ht : w.traveler? id = some t) (hcurrent : t.plan.current? ≠ none) :
    w.setsOut e = true := by
  simpa [setsOut, hkind, hsubject, ht, Option.isSome_iff_ne_none] using hcurrent

/-- Nobody sets out but by a departure. -/
theorem setsOut_eq_false (h : e.kind ≠ .departure) : w.setsOut e = false := by
  unfold setsOut
  split
  · next hkind _ => exact absurd hkind h
  · rfl

/-- Calls count the rides that end. -/
theorem finished_performAll {calls : List Call} (hp : w.performAll calls = .ok w') :
    w'.telemetry.finished = w.telemetry.finished + ends (observed calls) := by
  rw [telemetry_performAll hp, Telemetry.finished_foldl_record]

/-- Neither the start of the simulation nor a dispatch ends a journey. -/
private theorem finished_aside (hkind : e.kind = .simulationStarted ∨ e.kind = .shiftDispatch)
    (h : w.handle e = .ok w') : w'.telemetry.finished = w.telemetry.finished := by
  unfold handle at h
  rcases hkind with hkind | hkind
  · simp only [hkind] at h
    obtain ⟨w₁, hstep, hafter⟩ := onStart_eq_ok h
    obtain ⟨clock, -, rfl⟩ := schedule_eq_ok hstep
    rcases hafter with ⟨-, rfl⟩ | ⟨-, hdispatch⟩
    · rfl
    · obtain ⟨clock', -, rfl⟩ := schedule_eq_ok hdispatch
      rfl
  · simp only [hkind] at h
    obtain ⟨events, htelemetry⟩ := telemetry_onShiftDispatch h
    rw [htelemetry]
    rfl

/-- While nobody departs, all who were accounted for are accounted for. -/
theorem accounted_of_turns {now : Time} {services : Services} {calls : List Call}
    (horderly : ∀ s ∈ w.services.members, s.Orderly)
    (hturns : Services.Turns now .other w.services services calls)
    (hp : { w with services }.performAll calls = .ok w') : w'.accounted = w.accounted := by
  have hbound := Services.boundCount_of_turns (by simp) hturns horderly
  have hended := finished_performAll hp
  have hservices : w'.services = services := (kept_performAll hp).services
  unfold World.accounted
  rw [hservices, hended]
  show services.boundCount + (w.telemetry.finished + _) = _
  omega

/-- A traveler who departs and whom a service takes is bound or gives up, and so is one more who is
accounted for. -/
theorem accounted_departed {now : Time} {i : Nat} {s : Service} {turn : Turn} {o : Observation}
    {f : Traveler → Traveler} (horderly : ∀ s ∈ w.services.members, s.Orderly)
    (hunbound : w.services.Unbound id) (hs : w.services.members[i]? = some s)
    (hopen : s.closed = false) (ha : s.Act now (.departure id) turn)
    (hhead : turn.calls.head? = some (.observe o)) (hwaiting : o.kind = .waiting)
    (hp : { w.changeTraveler id f with
      services := w.services.commit i turn }.performAll turn.calls =
      .ok w') :
    (if (w.services.commit i turn).isBound id then w' else w'.abortUntracked id).accounted =
      w.accounted + 1 := by
  obtain ⟨hobserved, hcases⟩ :=
    Services.departed_cases horderly hunbound hs hopen ha hhead hwaiting
  have hcommit := Services.boundCount_commit hs turn
  have hservices : w'.services = w.services.commit i turn := (kept_performAll hp).services
  have hended : w'.telemetry.finished = w.telemetry.finished := by
    have hended := finished_performAll hp
    simpa [hobserved, ends, hwaiting, ObservationKind.ends, changeTraveler] using hended
  unfold World.accounted
  rcases hcases with ⟨hisBound, hsize⟩ | ⟨hisBound, hsize⟩
  · rw [if_pos hisBound, hservices, hended]
    omega
  · have hgave : (w'.abortUntracked id).telemetry.finished = w'.telemetry.finished + 1 := rfl
    have hkept : (w'.abortUntracked id).services = w'.services := rfl
    rw [if_neg (by simp [hisBound]), hgave, hkept, hservices, hended]
    omega

/-- Nobody sets out by an event with which nothing is left to be done. -/
private theorem setsOut_ignored (htraveler : ∀ id t, e.subject = some (.traveler id) →
    w.traveler? id = some t → e.kind = .departure → t.plan.current? = none) :
    w.setsOut e = false := by
  unfold setsOut
  split
  · next id hkind hsubject =>
    cases ht : w.traveler? id with
    | none => rfl
    | some t => simp [htraveler id t hsubject ht hkind]
  · rfl

/-- One who sets out is one more who is accounted for, and no other event changes their number. -/
theorem Handled.accounted (hh : Handled w e w') (horderly : ∀ s ∈ w.services.members, s.Orderly)
    (hdeparts : ∀ id t, e.kind = .departure → e.subject = some (.traveler id) →
      w.traveler? id = some t → w.services.Unbound id ∧ t.plan.current? ≠ none)
    (haside : e.kind = .simulationStarted ∨ e.kind = .shiftDispatch →
      w'.telemetry.finished = w.telemetry.finished) :
    w'.accounted = w.accounted + if w.setsOut e then 1 else 0 := by
  cases hh with
  | aside hkind hservices hentities hclock hstart =>
    have hne : e.kind ≠ .departure := by rcases hkind with hkind | hkind <;> simp [hkind]
    unfold World.accounted
    rw [hservices, haside hkind, setsOut_eq_false hne]
    rfl
  | ignored hkind htraveler hstop =>
    rw [setsOut_ignored htraveler]
    rfl
  | stepped hkind hturns hp hafter =>
    have hsame := accounted_of_turns horderly hturns hp
    rw [setsOut_eq_false (by simp [hkind])]
    rcases hafter with ⟨-, rfl⟩ | ⟨time, hschedule⟩
    · exact hsame
    · obtain ⟨clock', -, rfl⟩ := schedule_eq_ok hschedule
      exact hsame
  | unserved hkind hsubject ht =>
    rw [setsOut_eq_true hkind hsubject ht (hdeparts _ _ hkind hsubject ht).2]
    rfl
  | departed hkind hsubject ht hs hopen ha hhead hwaiting hp =>
    obtain ⟨hunbound, hcurrent⟩ := hdeparts _ _ hkind hsubject ht
    rw [setsOut_eq_true hkind hsubject ht hcurrent, if_pos rfl]
    exact accounted_departed horderly hunbound hs hopen ha hhead hwaiting hp
  | @waits id st i s hkind hsubject hst hpickup hstate hs hmode hfree =>
    have hcommit := Services.boundCount_commit hs
      { service := { s with waitingStops := s.waitingStops.insert st.request id } }
    rw [setsOut_eq_false (by simp [hkind])]
    exact congrArg (· + w.telemetry.finished) (Nat.add_right_cancel hcommit)
  | served hkind hsubject hst hs ha hp =>
    have hsame := accounted_of_turns horderly (Services.turns_of_act hs ha) hp
    rw [setsOut_eq_false (by simp [hkind])]
    exact hsame
  | stays hkind | cancelled hkind =>
    rw [setsOut_eq_false (by simp [hkind])]
    rfl

/-- In a settled world each event accounts for the traveler who sets out by it, and for nobody else.
-/
theorem accounted_handle (hw : w.Settled w.services) (hnext : w.clock.next? = some (e, clock))
    (hfault : w'.fault = none) (h : { w with clock, current := some e }.handle e = .ok w') :
    w'.accounted = w.accounted + if w.setsOut e then 1 else 0 := by
  refine (handled_of_handle hfault h).accounted hw.orderly (fun id t hkind hsubject ht => ?_)
    fun hkind => finished_aside hkind h
  obtain ⟨hunbound, -, hcurrent, -⟩ := hw.next_departure hnext hkind hsubject ht
  exact ⟨hunbound, hcurrent⟩

/-! ## Stops that are completed -/

/-- The number of stops that are completed at which passengers reach a stage. -/
def completed (w : World) (k : ObservationKind) : Nat := w.entities.countP (·.completedAt k)

/-- No stop is completed by what a traveler does. -/
theorem completed_changeTraveler (w : World) (id : EntityId) (f : Traveler → Traveler)
    (k : ObservationKind) : (w.changeTraveler id f).completed k = w.completed k := by
  unfold completed changeTraveler
  rw [List.modify_eq_set_getElem?]
  cases hentity : w.entities[id]? with
  | none => rfl
  | some entity =>
    have hset := List.countP_set_add (·.completedAt k) hentity
    cases entity with
    | traveler t => exact hset (.traveler (f t))
    | stop st => exact Nat.add_right_cancel (hset (.stop st))

/-- What a stop counts for changes with its state. -/
theorem completed_setStopState {st : Stop} (hst : w.stop? id = some st) (state : StopState)
    (k : ObservationKind) :
    (w.setStopState id state).completed k +
        (if st.state = .completed ∧ st.stage = k then 1 else 0) =
      w.completed k + if state = .completed ∧ st.stage = k then 1 else 0 := by
  have hset :=
    List.countP_set_add (·.completedAt k) (getElem?_of_stop hst) (.stop { st with state })
  unfold completed setStopState
  rw [List.modify_eq_set_getElem?, getElem?_of_stop hst]
  simp only [Entity.completedAt_stop] at hset
  exact hset

/-- What services call for completes no stop. -/
theorem completed_performAll {calls : List Call} (hp : w.performAll calls = .ok w')
    (k : ObservationKind) : w'.completed k = w.completed k := by
  induction calls generalizing w with
  | nil =>
    cases hp
    rfl
  | cons c calls ih =>
    obtain ⟨w₁, hc, hrest⟩ := performAll_cons_eq_ok hp
    rw [ih hrest]
    have hschedule {v : World} {time : Time} {kind : EventKind} {subject : Option Subject}
        (hv : v.schedule time kind subject = .ok w₁) : w₁.completed k = v.completed k := by
      obtain ⟨clock, -, rfl⟩ := schedule_eq_ok hv
      rfl
    cases c with
    | observe o =>
      cases hc
      rfl
    | ready stop traveler now => exact hschedule hc
    | board vehicle id now | abort id now =>
      cases hc
      exact w.completed_changeTraveler id _ k
    | alight vehicle id link now =>
      cases ht : w.traveler? id with
      | none =>
        simp only [perform, alight, ht, Except.ok.injEq] at hc
        rw [hc]
      | some t =>
        rcases alight_eq_ok ht hc with ⟨-, rfl⟩ | ⟨next, -, hs⟩
        · exact w.completed_changeTraveler id _ k
        · exact (hschedule hs).trans (w.completed_changeTraveler id _ k)

/-- Each passenger who is counted as picked up or dropped off on the way from one world to another
is the passenger of a stop that is completed on this way. -/
def Matched (w w' : World) : Prop :=
  ∀ k, k = .pickedUp ∨ k = .droppedOff →
    w'.telemetry.counts.of k + w.completed k = w.telemetry.counts.of k + w'.completed k

/-- Where nobody is counted and no stop is completed, there is nothing to match. -/
theorem matched_of_eq (hcounts : w'.telemetry.counts = w.telemetry.counts)
    (hcompleted : ∀ k, w'.completed k = w.completed k) : Matched w w' := by
  intro k _
  rw [hcounts, hcompleted]

/-- Passengers and stops match on a way that goes on where they match on each part of it. -/
theorem Matched.trans {w'' : World} (h : Matched w w') (h' : Matched w' w'') : Matched w w'' := by
  intro k hk
  have hfirst := h k hk
  have hrest := h' k hk
  omega

/-- Calls that tell of waiting travelers and of rejections only complete no stop. -/
theorem matched_performAll (w₀ : World) {services : Services} {calls : List Call}
    (htelemetry : w₀.telemetry = w.telemetry) (hcompleted : ∀ k, w₀.completed k = w.completed k)
    (hp : { w₀ with services }.performAll calls = .ok w')
    (hkind : ∀ o ∈ observed calls, o.kind = .waiting ∨ o.kind = .rejected) : Matched w w' := by
  intro k hk
  have hnone : (observed calls).countP (·.kind = k) = 0 := List.countP_eq_zero.2 fun o ho => by
    rcases hkind o ho with hkind | hkind <;> rcases hk with rfl | rfl <;> simp [hkind]
  rw [telemetry_performAll hp, Telemetry.of_foldl_record, completed_performAll hp, hnone,
    ← htelemetry, ← hcompleted]
  rfl

/-- A stop that is not completed, and does not become so, is matched by nobody. -/
theorem matched_setStopState {st : Stop} (hst : w.stop? id = some st) {state : StopState}
    (hstate : st.state ≠ .completed) (hnext : state ≠ .completed) :
    Matched w (w.setStopState id state) := by
  refine matched_of_eq rfl fun k => ?_
  simpa [hstate, hnext] using completed_setStopState hst state k

/-- The passenger who is observed at a stop matches the completion of the stop. -/
theorem matched_served {services : Services} {st : Stop} {calls : List Call} {o : Observation}
    (hst : w.stop? id = some st) (hstate : st.state ≠ .completed)
    (hp : { w with services }.performAll calls = .ok w') (hobserved : observed calls = [o])
    (hkind : o.kind = st.stage) : Matched w (w'.setStopState id .completed) := by
  intro k _
  have hst' : w'.stop? id = some st := ((kept_performAll hp).stop id).trans hst
  have hcompleted := completed_setStopState hst' .completed k
  have hcounted : w'.telemetry.counts.of k =
      w.telemetry.counts.of k + (observed calls).countP (·.kind = k) := by
    rw [telemetry_performAll hp]
    exact Telemetry.of_foldl_record w.telemetry (observed calls) k
  have hsame : w'.completed k = w.completed k := completed_performAll hp k
  rw [hobserved, List.countP_singleton, hkind] at hcounted
  rw [hsame] at hcompleted
  simp only [hstate, false_and, if_false, true_and, decide_eq_true_eq] at hcompleted hcounted
  show w'.telemetry.counts.of k + _ = _
  omega

/-- The start of the simulation is neither a pickup nor a dropoff. -/
private theorem matched_onStart {now : Time} (h : w.onStart now = .ok w') : Matched w w' := by
  obtain ⟨w₁, hstep, hafter⟩ := onStart_eq_ok h
  obtain ⟨clock, -, rfl⟩ := schedule_eq_ok hstep
  rcases hafter with ⟨-, rfl⟩ | ⟨-, hdispatch⟩
  · exact matched_of_eq rfl fun _ => rfl
  · obtain ⟨clock', -, rfl⟩ := schedule_eq_ok hdispatch
    exact matched_of_eq rfl fun _ => rfl

/-- A dispatch of shifts is neither a pickup nor a dropoff. -/
private theorem matched_onShiftDispatch {now : Time} (h : w.onShiftDispatch now = .ok w') :
    Matched w w' := by
  obtain ⟨events, htelemetry⟩ := telemetry_onShiftDispatch h
  obtain ⟨_, _, _, _, _, _, -, -, -, -, -, -, hentities, -⟩ := onShiftDispatch_eq_ok h
  refine matched_of_eq ?_ fun k => ?_
  · rw [htelemetry]
    rfl
  · unfold completed
    rw [hentities]

/-- A step tells of rejections only, and so of nobody at a stop. -/
private theorem matched_onPassengerStep {now : Time} (h : w.onPassengerStep now = .ok w') :
    Matched w w' := by
  obtain ⟨ns, services, calls, w₁, hstep, hp, hafter⟩ := onPassengerStep_eq_ok h
  have hmatched : Matched w w₁ := matched_performAll w rfl (fun _ => rfl) hp
    fun o ho => .inr (Services.kind_of_stepEach hstep ho)
  rcases hafter with ⟨-, rfl⟩ | ⟨time, -, hschedule⟩
  · exact hmatched
  · obtain ⟨clock, -, rfl⟩ := schedule_eq_ok hschedule
    exact hmatched.trans (matched_of_eq rfl fun _ => rfl)

/-- A departure tells of waiting only, and so of nobody at a stop. -/
private theorem matched_onDeparture {now : Time} (h : w.onDeparture now id = .ok w') :
    Matched w w' := by
  rcases onDeparture_eq_ok h with ⟨rfl, -⟩ | ⟨t, planned, -, -, ⟨fault, -, rfl⟩ |
    ⟨taken, services, calls, w₁, hdepart, hp, rfl⟩⟩
  · exact matched_of_eq rfl fun _ => rfl
  · exact matched_of_eq rfl fun k => w.completed_changeTraveler id _ k
  · have hkind : ∀ o ∈ observed calls, o.kind = .waiting ∨ o.kind = .rejected := by
      intro o ho
      rcases Services.depart_eq_ok hdepart with ⟨-, -, rfl⟩ | ⟨-, i, s, turn, hs, -, hturn, -, rfl⟩
      · cases ho
      · obtain ⟨o', ready, hcalls, hkind, hready⟩ := Service.calls_depart hturn
        rw [hcalls, observed_cons_observe, hready, List.mem_singleton] at ho
        exact .inl (ho ▸ hkind)
    have hmatched : Matched w w₁ :=
      matched_performAll (w.changeTraveler id ({ · with state := .waiting })) rfl
        (w.completed_changeTraveler id _) hp hkind
    split
    · exact hmatched
    · exact hmatched.trans (matched_of_eq rfl fun k => w₁.completed_changeTraveler id _ k)

/-- The one who boards or alights at a stop matches its completion. -/
private theorem matched_onStop {now : Time} (h : w.onStop now id = .ok w') : Matched w w' := by
  rcases onStop_eq_ok h with ⟨rfl, -⟩ | ⟨st, i, s, hst, hs, hmode, ⟨hpickup, hstate, h⟩ |
    ⟨pickup, hdropoff, hstate, h⟩⟩
  · exact matched_of_eq rfl fun _ => rfl
  · have hopen : st.state ≠ .completed := by rcases hstate with hstate | hstate <;> simp [hstate]
    rcases onPickup_eq_ok hstate hs h with ⟨-, -, rfl⟩ | ⟨-, -, rfl⟩ | ⟨turn, w₁, hturn, hp, rfl⟩
    · exact matched_setStopState hst hopen (by simp)
    · exact matched_setStopState hst hopen (by simp)
    · obtain ⟨o, hobserved, hkind, -⟩ := Service.observed_pickUp hturn
      exact matched_served hst hopen hp hobserved
        (hkind.trans (Stop.stage_eq_pickedUp_iff.2 hpickup).symm)
  · have hopen : st.state ≠ .completed := by simp [hstate]
    rcases onDropoff_eq_ok hs h with ⟨-, rfl⟩ | ⟨-, ⟨fault, -, rfl⟩ |
      ⟨traveler, turn, w₁, hturn, hp, rfl⟩⟩
    · exact matched_setStopState hst hopen (by simp)
    · exact matched_of_eq rfl fun _ => rfl
    · obtain ⟨o, hobserved, hkind, -⟩ := Service.observed_dropOff hturn
      exact matched_served hst hopen hp hobserved
        (hkind.trans (Stop.stage_eq_droppedOff_iff.2 ⟨pickup, hdropoff⟩).symm)

/-- Whatever an event comes to, faults included, who is picked up or dropped off by it is the
passenger of the stop that is completed by it. -/
theorem matched_handle (h : w.handle e = .ok w') : Matched w w' := by
  unfold handle at h
  split at h
  · exact matched_onStart h
  · exact matched_onShiftDispatch h
  · exact matched_onPassengerStep h
  · exact matched_onDeparture h
  · exact matched_onStop h
  · cases h
    exact matched_of_eq rfl fun _ => rfl

/-! ## Runs -/

/-- The worlds that come of a world as events are taken, each of which is listed with the world in
which it was taken, and some rejections are published in between. -/
inductive Passes (allowed : Rejection → Prop) (w : World) : List (World × Event) → World → Prop
  | here : Passes allowed w [] w
  | event {passed : List (World × Event)} {v v' : World} {e : Event} :
      Passes allowed w passed v → v.next? = .ok (some (e, v')) →
      Passes allowed w (passed ++ [(v, e)]) v'
  | publish {passed : List (World × Event)} {v : World} (r : Rejection) :
      Passes allowed w passed v → allowed r → Passes allowed w passed (v.publish r)

variable {allowed : Rejection → Prop}

/-- A run that lists its events passes the worlds in which they were taken. -/
theorem takes_iff_passes {taken : List Event} : w.Takes allowed taken w' ↔
    ∃ passed, passed.map (·.2) = taken ∧ w.Passes allowed passed w' := by
  constructor
  · intro h
    induction h with
    | here => exact ⟨[], rfl, .here⟩
    | @event taken v v' e _ hnext ih =>
      obtain ⟨passed, rfl, hpasses⟩ := ih
      exact ⟨passed ++ [(v, e)], by simp, hpasses.event hnext⟩
    | publish r _ hr ih =>
      obtain ⟨passed, htaken, hpasses⟩ := ih
      exact ⟨passed, htaken, hpasses.publish r hr⟩
  · rintro ⟨passed, rfl, h⟩
    induction h with
    | here => exact .here
    | event _ hnext ih =>
      rw [List.map_append]
      exact ih.event hnext
    | publish r _ hr ih => exact ih.publish r hr

/-- Before a fault is met, those who set out on the way are those who are accounted for since. -/
theorem Passes.accounted {passed : List (World × Event)} (h : w.Passes allowed passed w')
    (hw : w.Settled w.services) (hfault : w'.fault = none) :
    w'.Settled w'.services ∧
      w'.accounted = w.accounted + passed.countP fun p => p.1.setsOut p.2 := by
  induction h with
  | here => exact ⟨hw, rfl⟩
  | @event passed v v' e _ hnext ih =>
    obtain ⟨hbefore, clock, hclock, hhandle⟩ := next?_eq_ok_some hnext
    obtain ⟨hv, hcount⟩ := ih hbefore
    refine ⟨hv.handled hclock (handled_of_handle hfault hhandle), ?_⟩
    rw [accounted_handle hv hclock hfault hhandle, hcount, List.countP_append,
      List.countP_singleton, Nat.add_assoc]
  | @publish passed v r _ _ ih =>
    obtain ⟨hv, hcount⟩ := ih hfault
    refine ⟨hv.publish r, ?_⟩
    rw [← hcount]
    exact congrArg (· + v.telemetry.finished) (v.services.boundCount_publish r)

/-- Passengers and stops match over a whole run. -/
theorem Passes.matched {passed : List (World × Event)} (h : w.Passes allowed passed w') :
    Matched w w' := by
  induction h with
  | here => exact matched_of_eq rfl fun _ => rfl
  | @event passed v v' e _ hnext ih =>
    obtain ⟨-, clock, -, hhandle⟩ := next?_eq_ok_some hnext
    have hstep := matched_handle hhandle
    exact ih.trans hstep
  | publish r _ _ ih => exact ih.trans (matched_of_eq rfl fun _ => rfl)

end World

namespace Setup

/-- A scenario reaches a world by taking events, each of which is listed with the world in which it
was taken, if some rejections may be published while it is filled and on the way. -/
def Passes (s : Setup) (allowed : Rejection → Prop) (provisions : List Provision)
    (passed : List (World × Event)) (w : World) : Prop :=
  (∀ r, .rejection r ∈ provisions → allowed r) ∧
    ∃ built ready started, s.build = .ok built ∧ built.provideAll provisions = .ok ready ∧
      ready.start = .ok started ∧ started.Passes allowed passed w

variable {s : Setup} {provisions : List Provision}

/-- A run is a passage of which the worlds on the way are left out. -/
theorem runs_iff_passes {allowed : Rejection → Prop} {taken : List Event} {w : World} :
    s.Runs allowed provisions taken w ↔
      ∃ passed, passed.map (·.2) = taken ∧ s.Passes allowed provisions passed w := by
  constructor
  · rintro ⟨hallowed, built, ready, started, hbuilt, hready, hstarted, htakes⟩
    obtain ⟨passed, htaken, hpasses⟩ := World.takes_iff_passes.1 htakes
    exact ⟨passed, htaken, hallowed, built, ready, started, hbuilt, hready, hstarted, hpasses⟩
  · rintro ⟨passed, htaken, hallowed, built, ready, started, hbuilt, hready, hstarted, hpasses⟩
    exact ⟨hallowed, built, ready, started, hbuilt, hready, hstarted,
      World.takes_iff_passes.2 ⟨passed, htaken, hpasses⟩⟩

/-- Before a scenario starts nobody is on the way, no stop is completed and nothing is counted. -/
theorem unaccounted_provideAll {built ready : World} (hbuilt : s.build = .ok built)
    (hready : built.provideAll provisions = .ok ready)
    (hscheduled : ∀ st time, .stop st time ∈ provisions → st.state = .scheduled) :
    ready.accounted = 0 ∧ ready.telemetry.counts = {} ∧ ∀ k, ready.completed k = 0 := by
  have hfresh : ready.Fresh :=
    World.provideAll_keeps (fun _ _ _ _ hv hf => hv.filled hf) hready (fresh_build hbuilt)
  have hempty : built.telemetry = {} ∧ built.entities = [] := by
    refine ⟨?_, (build_eq_ok hbuilt).2.2.1⟩
    unfold build at hbuilt
    split at hbuilt <;> cases hbuilt
    rfl
  obtain ⟨htelemetry, hcompleted⟩ : ready.telemetry = {} ∧ ∀ k, ready.completed k = 0 := by
    refine World.provideAll_keeps (P := fun v => v.telemetry = {} ∧ ∀ k, v.completed k = 0) ?_
      hready ⟨hempty.1, fun k => by simp [World.completed, hempty.2]⟩
    rintro v v' p hp ⟨htelemetry, hcompleted⟩ hf
    refine ⟨hf.telemetry.trans htelemetry, fun k => ?_⟩
    have hadded : p.entity?.toList.countP (·.completedAt k) = 0 := by
      cases p with
      | stop st time =>
        simp [Provision.entity?, Entity.completedAt, hscheduled st time hp]
      | traveler | booking | rejection => rfl
    unfold World.completed at hcompleted ⊢
    rw [hf.entities, List.countP_append, hcompleted, hadded]
  have hbound : ready.services.boundCount = 0 := by
    refine List.sum_eq_zero_iff_forall_eq_nat.2 fun n hn => ?_
    obtain ⟨u, hu, rfl⟩ := List.mem_map.1 hn
    have hempty : u.bound = .empty := Table.ext_find? fun id => hfresh.unbound u hu id
    rw [hempty]
    rfl
  refine ⟨?_, by rw [htelemetry], hcompleted⟩
  rw [World.accounted, hbound, htelemetry]
  rfl

/-- Every departure is accounted for, in every world that a scenario reaches before a fault is met,
whatever rejections are published: as many travelers have set out as are bound to a request, were
dropped off, were rejected, or gave up, and as many were picked up or dropped off as there are
pickups or dropoffs that are completed. -/
theorem Passes.accounts {passed : List (World × Event)} {w : World}
    (h : s.Passes (fun _ => True) provisions passed w)
    (hscheduled : ∀ st time, .stop st time ∈ provisions → st.state = .scheduled)
    (hfault : w.fault = none) :
    passed.countP (fun p => p.1.setsOut p.2) =
        (w.services.members.map (·.bound.size)).sum + w.telemetry.counts.droppedOff +
          w.telemetry.counts.rejected + w.telemetry.aborted ∧
      w.telemetry.counts.pickedUp = w.entities.countP (·.completedAt .pickedUp) ∧
      w.telemetry.counts.droppedOff = w.entities.countP (·.completedAt .droppedOff) := by
  obtain ⟨-, built, ready, started, hbuilt, hready, hstarted, hpasses⟩ := h
  obtain ⟨hnone, hcounts, hcompleted⟩ := unaccounted_provideAll hbuilt hready hscheduled
  have hsettled : started.Settled started.services := settled_start hbuilt hready hstarted
  obtain ⟨clock, -, rfl⟩ := World.schedule_eq_ok hstarted
  obtain ⟨-, hsum⟩ := hpasses.accounted hsettled hfault
  have hstart : World.accounted { ready with clock } = 0 := hnone
  have hstage (k : ObservationKind) (hk : k = .pickedUp ∨ k = .droppedOff) :
      w.telemetry.counts.of k = w.completed k := by
    have hmatched := hpasses.matched k hk
    have hcompleted : World.completed { ready with clock } k = 0 := hcompleted k
    have hcounted : ready.telemetry.counts.of k = 0 := by
      rw [hcounts]
      cases k <;> rfl
    rw [hcompleted, hcounted] at hmatched
    omega
  refine ⟨?_, hstage .pickedUp (.inl rfl), hstage .droppedOff (.inr rfl)⟩
  rw [hstart, Nat.zero_add] at hsum
  rw [← hsum]
  simp only [World.accounted, Services.boundCount, Telemetry.finished, Nat.add_assoc]

end Setup

/-! ## A way to work and no way back -/

/-- A traveler whom a vehicle takes to work, and who finds no service for the way back. -/
def oneWayCommuter : List Provision :=
  [.traveler ⟨"alice"⟩ ⟨"home"⟩ [⟨⟨"drt"⟩, ⟨"home"⟩, ⟨"work"⟩, 100, none⟩,
      ⟨⟨"ferry"⟩, ⟨"work"⟩, ⟨"home"⟩, 150, none⟩],
    .stop ⟨⟨"bus"⟩, ⟨"drt_0"⟩, ⟨"drt"⟩, .pickup, .scheduled⟩ 110,
    .stop ⟨⟨"bus"⟩, ⟨"drt_0"⟩, ⟨"drt"⟩, .dropoff 1, .scheduled⟩ 200]

/-- Two departures are accounted for by one ride that is completed and one journey that is given
up. -/
theorem Setup.one_way_accounts : ∃ passed w,
    commute.Passes (fun _ => True) oneWayCommuter passed w ∧ w.fault = none ∧
    (∀ st time, .stop st time ∈ oneWayCommuter → st.state = .scheduled) ∧
    w.telemetry.counts.droppedOff = 1 ∧ w.telemetry.aborted = 1 ∧
    passed.countP (fun p => p.1.setsOut p.2) = 2 ∧
    w.entities.countP (·.completedAt .pickedUp) = 1 := by
  have hrecord : ((commute.record oneWayCommuter 9).bind fun r =>
      if r.2.fault = none ∧ r.2.telemetry.counts = ⟨1, 1, 1, 0⟩ ∧ r.2.telemetry.aborted = 1 ∧
        (r.2.services.members.map (·.bound.size)).sum = 0 then some () else none) = some () := by
    decide +kernel
  obtain ⟨⟨taken, w⟩, hw, hif⟩ := Option.bind_eq_some_iff.1 hrecord
  dsimp only at hif
  split at hif
  · next hvalues =>
    obtain ⟨hfault, hcounts, haborted, hbound⟩ := hvalues
    obtain ⟨passed, -, hpasses⟩ := runs_iff_passes.1 (runs_of_record (fun _ _ => trivial) hw)
    have hscheduled : ∀ st time, .stop st time ∈ oneWayCommuter → st.state = .scheduled := by
      intro st time hst
      simp only [oneWayCommuter, List.mem_cons, List.not_mem_nil, reduceCtorEq,
        Provision.stop.injEq, false_or, or_false] at hst
      rcases hst with ⟨rfl, -⟩ | ⟨rfl, -⟩ <;> rfl
    obtain ⟨hsum, hpicked, -⟩ := Passes.accounts hpasses hscheduled hfault
    rw [hbound, hcounts, haborted] at hsum
    rw [hcounts] at hpicked
    exact ⟨passed, w, hpasses, hfault, hscheduled, by rw [hcounts], haborted, hsum, hpicked.symm⟩
  · cases hif

end DialARide
