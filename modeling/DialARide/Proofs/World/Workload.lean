import DialARide.Proofs.Ride.Horizon
import DialARide.Proofs.World.Rhythm

/-!
# What is left to do

Events lead to events: a departure may call a stop, a traveler who alights departs again, and the
services go on stepping while anything is pending. Still there is only so much to do. A departure
weighs as much as itself and the stop that it may call, each leg that comes after the current one
as much as a departure, and a step as much as the steps that fit between it and the last time at
which anything else can happen. No departure and no stop adds to the sum of these weights more than
was taken from it, and nothing that they schedule comes after that last time.
-/

namespace DialARide

/-! ## Weights -/

/-- The number of steps from a time on, each an interval after the one before, if none but the last
one is later than a given time. -/
def stepsFrom (last interval time : Time) : Nat :=
  (last.toNat + interval.toNat - time.toNat) / interval.toNat + 1

/-- The number of events that may come of an event, itself included, apart from further legs. -/
def Event.weight (last interval : Time) (e : Event) : Nat :=
  match e.kind with
  | .simulationStarted => stepsFrom last interval e.time + 1
  | .shiftDispatch => 0
  | .passengerStep => stepsFrom last interval e.time
  | .departure => 2
  | .stopReached => 1

/-- The number of legs after the current one. -/
def Plan.ahead (p : Plan) : Nat := p.legs.length - (p.position + 1)

/-- The number of legs that a traveler has after the current one. -/
def Entity.ahead : Entity → Nat
  | .traveler t => t.plan.ahead
  | .stop _ => 0

theorem Time.max_one_pos (interval : Time) : 0 < (max interval 1).toNat := by
  by_cases h : interval = 0
  · rw [h]
    decide
  · rw [Time.max_one_eq_self h]
    exact Nat.pos_of_ne_zero fun hzero => h (UInt64.toNat_inj.1 hzero)

/-- After a step that is not too late one step less is left. -/
theorem stepsFrom_lt {last interval time next : Time} (hpos : 0 < interval.toNat)
    (htime : time ≤ last) (hnext : time.toNat + interval.toNat = next.toNat) :
    stepsFrom last interval next < stepsFrom last interval time := by
  have hle : time.toNat ≤ last.toNat := UInt64.le_iff_toNat_le.1 htime
  have hafter : last.toNat + interval.toNat - next.toNat = last.toNat - time.toNat := by omega
  have hbefore : last.toNat + interval.toNat - time.toNat =
      last.toNat - time.toNat + interval.toNat := by omega
  unfold stepsFrom
  rw [hafter, hbefore, Nat.add_div_right _ hpos]
  omega

/-- Every event but a dispatch counts for itself at least. -/
theorem Event.weight_pos (last interval : Time) {e : Event} (hkind : e.kind ≠ .shiftDispatch) :
    0 < e.weight last interval := by
  unfold weight
  cases h : e.kind with
  | shiftDispatch => exact absurd h hkind
  | simulationStarted | passengerStep | departure | stopReached => simp [stepsFrom]

namespace Clock

variable {c c' : Clock} {last interval : Time}

/-- The total weight of what is pending. -/
def workload (last interval : Time) (c : Clock) : Nat :=
  (c.pending.map (Event.weight last interval)).sum

/-- What is scheduled adds its weight to the workload. -/
theorem workload_scheduleAt {time : Time} {kind : EventKind} {subject : Option Subject}
    (h : c.scheduleAt time kind subject = .ok c') : c'.workload last interval =
      c.workload last interval + Event.weight last interval ⟨time, kind, subject, c.scheduled⟩ := by
  obtain ⟨-, -, hpending⟩ := scheduleAt_eq_ok h
  have hperm := Event.perm_insertIn ⟨time, kind, subject, c.scheduled⟩ c.pending
  unfold workload
  rw [hpending, (hperm.map (Event.weight last interval)).sum_nat, List.map_cons, List.sum_cons,
    Nat.add_comm]

/-- Taking an event takes its weight off the workload. -/
theorem workload_next {e : Event} (h : c.next? = some (e, c')) :
    c.workload last interval = c'.workload last interval + e.weight last interval := by
  unfold workload
  rw [(next?_eq_some h).1, List.map_cons, List.sum_cons, Nat.add_comm]

end Clock

namespace World

/-- The number of legs that come after those which travelers are at. -/
def ahead (w : World) : Nat := (w.entities.map Entity.ahead).sum

/-- The number of events that are left to be taken at most, if no traffic is later than a given
time. -/
def workload (last : Time) (w : World) : Nat :=
  w.clock.workload last (max w.stepInterval 1) + 2 * w.ahead

/-- Nothing is later than a given time but steps of the services, and shifts are not dispatched. -/
structure Within (last : Time) (w : World) : Prop where
  timely : w.clock.Timely
  traffic : ∀ e ∈ w.clock.pending, e.kind.IsTraffic → e.time ≤ last
  undispatched : ∀ e ∈ w.clock.pending, e.kind ≠ .shiftDispatch
  shifts : w.shifts = none
  legs : ∀ id t, w.traveler? id = some t → ∀ leg ∈ t.plan.legs, leg.departure ≤ last
  services : w.services.Within last

variable {w w' : World} {e : Event} {clock : Clock} {last now : Time} {id : EntityId}

/-! ## How the workload changes -/

/-- What is scheduled adds its weight to the workload. -/
theorem workload_schedule {time : Time} {kind : EventKind} {subject : Option Subject}
    (h : w.schedule time kind subject = .ok w') : w'.workload last =
      w.workload last + Event.weight last (max w.stepInterval 1) ⟨time, kind, subject, 0⟩ := by
  obtain ⟨clock, hclock, rfl⟩ := schedule_eq_ok h
  have hadded : clock.workload last (max w.stepInterval 1) =
      w.clock.workload last (max w.stepInterval 1) +
        Event.weight last (max w.stepInterval 1) ⟨time, kind, subject, 0⟩ :=
    Clock.workload_scheduleAt hclock
  show clock.workload last (max w.stepInterval 1) + 2 * w.ahead = _
  rw [hadded, workload]
  omega

theorem workload_next (hnext : w.clock.next? = some (e, clock)) : w.workload last =
    World.workload last { w with clock, current := some e } +
      e.weight last (max w.stepInterval 1) := by
  have htaken : w.clock.workload last (max w.stepInterval 1) = _ := Clock.workload_next hnext
  show _ = clock.workload last (max w.stepInterval 1) + 2 * w.ahead + _
  rw [workload, htaken]
  omega

/-- A traveler whose plan stays the same has as many legs ahead as before. -/
theorem workload_changeTraveler (w : World) (id : EntityId) {f : Traveler → Traveler}
    (hf : ∀ t, (f t).plan = t.plan) : (w.changeTraveler id f).workload last = w.workload last := by
  have hsame : (w.changeTraveler id f).entities.map Entity.ahead =
      w.entities.map Entity.ahead := by
    refine List.ext_getElem? fun j => ?_
    simp only [changeTraveler, List.getElem?_map, List.getElem?_modify]
    cases w.entities[j]? with
    | none => rfl
    | some entity => cases entity <;> by_cases hid : id = j <;> simp [hid, Entity.ahead, hf]
  unfold workload ahead
  rw [hsame]
  rfl

theorem workload_setStopState (w : World) (id : EntityId) (state : StopState) :
    (w.setStopState id state).workload last = w.workload last := by
  have hsame : (w.setStopState id state).entities.map Entity.ahead =
      w.entities.map Entity.ahead := by
    refine List.ext_getElem? fun j => ?_
    simp only [setStopState, List.getElem?_map, List.getElem?_modify]
    cases w.entities[j]? with
    | none => rfl
    | some entity => cases entity <;> by_cases hid : id = j <;> simp [hid, Entity.ahead]
  unfold workload ahead
  rw [hsame]
  rfl

/-- The workload changes with the legs ahead of the one traveler who changes. -/
private theorem workload_changeTraveler_some {t : Traveler} (ht : w.traveler? id = some t)
    (f : Traveler → Traveler) : (w.changeTraveler id f).workload last + 2 * t.plan.ahead =
      w.workload last + 2 * (f t).plan.ahead := by
  have hentity : w.entities[id]? = some (.traveler t) := by
    unfold traveler? at ht
    split at ht
    · next hentity =>
      cases ht
      exact hentity
    · cases ht
  have hset : (w.changeTraveler id f).ahead + t.plan.ahead = w.ahead + (f t).plan.ahead := by
    unfold ahead changeTraveler
    rw [List.modify_eq_set_getElem?, hentity]
    exact List.sum_map_set Entity.ahead hentity (.traveler (f t))
  have hclock : (w.changeTraveler id f).workload last =
      w.clock.workload last (max w.stepInterval 1) + 2 * (w.changeTraveler id f).ahead := rfl
  rw [hclock, workload]
  omega

/-- What a traveler has to do after alighting was ahead before. The leg that comes next weighs as
much as its departure. -/
theorem workload_alight {link : LinkId} (h : w.alight id link now = .ok w') :
    w'.workload last ≤ w.workload last := by
  cases ht : w.traveler? id with
  | none =>
    simp only [alight, ht, Except.ok.injEq] at h
    exact h ▸ Nat.le_refl _
  | some t =>
    have hchange (f : Traveler → Traveler) (hf : (f t).plan = t.plan.advance) :
        (w.changeTraveler id f).workload last + 2 * t.plan.ahead =
          w.workload last + 2 * t.plan.advance.ahead := by
      rw [workload_changeTraveler_some ht f, hf]
    rcases alight_eq_ok ht h with ⟨-, rfl⟩ | ⟨next, hnext, hschedule⟩
    · have hsame := hchange
        ({ · with link, plan := t.plan.advance, state := .arrived, vehicle := none }) rfl
      have hle : t.plan.advance.ahead ≤ t.plan.ahead := by
        simp only [Plan.ahead, Plan.advance]
        omega
      omega
    · have hsame := hchange
        ({ · with link, plan := t.plan.advance, state := .activity, vehicle := none }) rfl
      have hlt : t.plan.advance.position < t.plan.advance.legs.length := by
        obtain ⟨leg, hleg, -⟩ := Option.map_eq_some_iff.1 hnext
        exact (List.getElem?_eq_some_iff.1 hleg).1
      have hahead : t.plan.advance.ahead + 1 = t.plan.ahead := by
        simp only [Plan.ahead, Plan.advance] at hlt ⊢
        omega
      have hdeparture : w'.workload last = _ + 2 := workload_schedule hschedule
      omega

/-- Only a stop that is called adds to what is left to do. -/
theorem workload_perform {c : Call} (h : w.perform c = .ok w') :
    w'.workload last ≤ w.workload last + if c.isReady then 1 else 0 := by
  cases c with
  | observe o =>
    cases h
    exact Nat.le_refl _
  | ready stop traveler now => exact Nat.le_of_eq (workload_schedule h)
  | board vehicle id now | abort id now =>
    cases h
    exact Nat.le_of_eq (w.workload_changeTraveler id fun _ => rfl)
  | alight vehicle id link now => exact workload_alight h

/-- Calls add to the workload at most one event for each stop that they wake. -/
theorem workload_performAll {calls : List Call} (h : w.performAll calls = .ok w') :
    w'.workload last ≤ w.workload last + calls.countP Call.isReady := by
  induction calls generalizing w with
  | nil =>
    cases h
    exact Nat.le_refl _
  | cons c calls ih =>
    obtain ⟨w₁, hc, hrest⟩ := performAll_cons_eq_ok h
    have hfirst : w₁.workload last ≤ w.workload last + _ := workload_perform hc
    have hmore := ih hrest
    rw [List.countP_cons]
    omega

/-! ## Nothing happens later -/

/-- What is scheduled in time stays within the time. -/
theorem Within.schedule {time : Time} {kind : EventKind} {subject : Option Subject}
    (hw : w.Within last) (hkind : kind ≠ .shiftDispatch) (htime : kind.IsTraffic → time ≤ last)
    (h : w.schedule time kind subject = .ok w') : w'.Within last := by
  obtain ⟨clock, hclock, rfl⟩ := schedule_eq_ok h
  have hgrown := Clock.grown_scheduleAt hclock
  refine ⟨hgrown.timely hw.timely, fun e he htraffic => ?_, fun e he => ?_, hw.shifts, hw.legs,
    hw.services⟩
  · rcases hgrown.mem_or he with ⟨rfl, rfl, -⟩ | he
    · exact htime htraffic
    · exact hw.traffic e he htraffic
  · rcases hgrown.mem_or he with ⟨-, rfl, -⟩ | he
    · exact hkind
    · exact hw.undispatched e he

theorem Within.changeTraveler (hw : w.Within last) (id : EntityId) {f : Traveler → Traveler}
    (hf : ∀ t, w.traveler? id = some t → (f t).plan.legs = t.plan.legs) :
    (w.changeTraveler id f).Within last := by
  refine ⟨hw.timely, hw.traffic, hw.undispatched, hw.shifts, fun j t ht => ?_, hw.services⟩
  rw [traveler?_changeTraveler] at ht
  split at ht
  · next hid =>
    obtain ⟨t', ht', rfl⟩ := Option.map_eq_some_iff.1 ht
    rw [hf t' (hid ▸ ht')]
    exact hw.legs j t' ht'
  · exact hw.legs j t ht

theorem Within.setStopState (hw : w.Within last) (id : EntityId) (state : StopState) :
    (w.setStopState id state).Within last := by
  refine ⟨hw.timely, hw.traffic, hw.undispatched, hw.shifts, fun j t ht => ?_, hw.services⟩
  rw [traveler?_setStopState] at ht
  exact hw.legs j t ht

/-- A call that is put into effect in time schedules nothing later. -/
theorem Within.perform {c : Call} (hw : w.Within last)
    (hc : ∀ time, c.moment? = some time → time ≤ last) (h : w.perform c = .ok w') :
    w'.Within last := by
  cases c with
  | observe o =>
    cases h
    exact ⟨hw.timely, hw.traffic, hw.undispatched, hw.shifts, hw.legs, hw.services⟩
  | ready stop traveler now => exact hw.schedule (by simp) (fun _ => hc now rfl) h
  | board vehicle id now | abort id now =>
    cases h
    exact hw.changeTraveler id fun _ _ => rfl
  | alight vehicle id link now =>
    have h : w.alight id link now = .ok w' := h
    cases ht : w.traveler? id with
    | none =>
      simp only [alight, ht, Except.ok.injEq] at h
      exact h ▸ hw
    | some t =>
      have hlegs (t' : Traveler) (ht' : w.traveler? id = some t') :
          t.plan.advance.legs = t'.plan.legs := by
        obtain rfl := Option.some.inj (ht.symm.trans ht')
        rfl
      rcases alight_eq_ok ht h with ⟨-, rfl⟩ | ⟨next, hnext, hschedule⟩
      · exact hw.changeTraveler id hlegs
      · have hafter : (w.changeTraveler id ({ · with
            link, plan := t.plan.advance, state := .activity, vehicle := none })).Within last :=
          hw.changeTraveler id hlegs
        refine hafter.schedule (by simp) (fun _ => ?_) hschedule
        obtain ⟨leg, hleg, rfl⟩ := Option.map_eq_some_iff.1 hnext
        have hdeparture : leg.departure ≤ last := hw.legs id t ht leg (List.mem_of_getElem? hleg)
        show max leg.departure now ≤ last
        rw [UInt64.max_def]
        split
        · exact hc now rfl
        · exact hdeparture

/-- Calls that are put into effect in time schedule nothing later. -/
theorem Within.performAll {calls : List Call} (hw : w.Within last)
    (hcalls : ∀ c ∈ calls, ∀ time, c.moment? = some time → time ≤ last)
    (h : w.performAll calls = .ok w') : w'.Within last := by
  induction calls generalizing w with
  | nil =>
    cases h
    exact hw
  | cons c calls ih =>
    obtain ⟨w₁, hc, hrest⟩ := performAll_cons_eq_ok h
    exact ih (hw.perform (hcalls c List.mem_cons_self) hc)
      (fun d hd => hcalls d (List.mem_cons_of_mem c hd)) hrest

/-- What services do together adds to the workload just what they call for. -/
theorem Within.turn {services : Services} {calls : List Call} (hw : w.Within last)
    (hservices : services.Within last)
    (hcalls : ∀ c ∈ calls, ∀ time, c.moment? = some time → time ≤ last)
    (h : { w with services }.performAll calls = .ok w') :
    w'.Within last ∧ w'.workload last ≤ w.workload last + calls.countP Call.isReady := by
  have hstart : World.Within last { w with services } :=
    ⟨hw.timely, hw.traffic, hw.undispatched, hw.shifts, hw.legs, hservices⟩
  have hload : w'.workload last ≤ _ + calls.countP Call.isReady := workload_performAll h
  exact ⟨hstart.performAll hcalls h, hload⟩

/-- A departure stays within the time, and wakes one stop at most. -/
theorem Within.onDeparture (hw : w.Within last) (hnow : now ≤ last)
    (h : w.onDeparture now id = .ok w') :
    w'.Within last ∧ w'.workload last ≤ w.workload last + 1 := by
  rcases onDeparture_eq_ok h with ⟨rfl, -⟩ | ⟨t, planned, -, -, hcases⟩
  · exact ⟨hw, Nat.le_add_right _ 1⟩
  · have hwaits : (w.changeTraveler id ({ · with state := .waiting })).Within last :=
      hw.changeTraveler id fun _ _ => rfl
    have hload : (w.changeTraveler id ({ · with state := .waiting })).workload last =
      w.workload last := w.workload_changeTraveler id fun _ => rfl
    rcases hcases with ⟨fault, -, rfl⟩ | ⟨taken, services, calls, w₁, hdepart, hperform, rfl⟩
    · exact ⟨⟨hwaits.timely, hwaits.traffic, hwaits.undispatched, hwaits.shifts, hwaits.legs,
        hwaits.services⟩, Nat.le_succ_of_le (Nat.le_of_eq hload)⟩
    · have hturn : services.Within last ∧
          (∀ c ∈ calls, ∀ time, c.moment? = some time → time ≤ last) ∧
          calls.countP Call.isReady ≤ 1 := by
        rcases Services.depart_eq_ok hdepart with ⟨-, rfl, rfl⟩ | ⟨-, i, s, turn, hs, -, hturn, rfl,
          rfl⟩
        · exact ⟨hw.services, by simp, Nat.zero_le 1⟩
        · have hact := Service.act_depart hturn
          refine ⟨hw.services.commit ?_ ?_, ?_, hact.countP_isReady.1⟩
          · exact (hw.services s (List.mem_of_getElem? hs)).act hact (by simp)
          · intro r hr
            rw [Service.submittedAt_depart hturn hr]
            exact hnow
          · intro c hc time htime
            rw [hact.moment hc htime]
            exact hnow
      obtain ⟨hservices, hcalls, hready⟩ := hturn
      obtain ⟨hafter, hdone⟩ := hwaits.turn hservices hcalls hperform
      split
      · exact ⟨hafter, by omega⟩
      · have haborted : (w₁.abort id).Within last := hafter.changeTraveler id fun _ _ => rfl
        have hsame : (w₁.abortUntracked id).workload last = w₁.workload last :=
          w₁.workload_changeTraveler id fun _ => rfl
        exact ⟨⟨haborted.timely, haborted.traffic, haborted.undispatched, haborted.shifts,
          haborted.legs, haborted.services⟩, by omega⟩

/-- A passenger who boards or alights adds nothing to what is left to do. -/
theorem Within.served {i : Nat} {s : Service} {turn : Turn} {w₁ : World} {state : StopState}
    (hw : w.Within last) (hnow : now ≤ last) (hs : w.services.members[i]? = some s)
    (hact : s.Act now .other turn) (hsubmitted : turn.submitted = [])
    (hp : { w with services := w.services.commit i turn }.performAll turn.calls = .ok w₁) :
    (w₁.setStopState id state).Within last ∧
      (w₁.setStopState id state).workload last ≤ w.workload last := by
  have hservice : turn.service.Within last :=
    (hw.services s (List.mem_of_getElem? hs)).act hact (by simp)
  obtain ⟨hafter, hdone⟩ := hw.turn (hw.services.commit hservice (by simp [hsubmitted]))
    (fun c hc time htime => by rwa [hact.moment hc htime]) hp
  rw [hact.countP_isReady.2 (by simp)] at hdone
  rw [workload_setStopState]
  exact ⟨hafter.setStopState id state, hdone⟩

/-- Whatever happens at a stop stays within the time, and adds nothing to the workload. -/
theorem Within.onStop (hw : w.Within last) (hnow : now ≤ last) (h : w.onStop now id = .ok w') :
    w'.Within last ∧ w'.workload last ≤ w.workload last := by
  have hset (state : StopState) : (w.setStopState id state).Within last ∧
      (w.setStopState id state).workload last ≤ w.workload last :=
    ⟨hw.setStopState id state, Nat.le_of_eq (w.workload_setStopState id state)⟩
  rcases onStop_eq_ok h with ⟨rfl, -⟩ | ⟨st, i, s, -, hs, -, ⟨-, hstate, h⟩ | ⟨pickup, -, -, h⟩⟩
  · exact ⟨hw, Nat.le_refl _⟩
  · rcases onPickup_eq_ok hstate hs h with ⟨-, hunbound, rfl⟩ | ⟨-, -, rfl⟩ |
      ⟨turn, w₁, hturn, hp, rfl⟩
    · have hact : s.Act now (.arrival id) _ := .await id st.request rfl hunbound
      have hservice := (hw.services s (List.mem_of_getElem? hs)).act hact (by simp)
      have hafter : World.Within last { w with services := w.services.commit i _ } :=
        ⟨hw.timely, hw.traffic, hw.undispatched, hw.shifts, hw.legs,
          hw.services.commit hservice (by simp)⟩
      exact ⟨hafter.setStopState id _, by rw [workload_setStopState]; exact Nat.le_refl _⟩
    · exact hset _
    · exact hw.served hnow hs (Service.act_pickUp hturn) (Service.submitted_pickUp hturn) hp
  · rcases onDropoff_eq_ok hs h with ⟨-, rfl⟩ | ⟨-, ⟨fault, -, rfl⟩ |
      ⟨traveler, turn, w₁, hturn, hp, rfl⟩⟩
    · exact hset _
    · exact ⟨⟨hw.timely, hw.traffic, hw.undispatched, hw.shifts, hw.legs, hw.services⟩,
        Nat.le_refl _⟩
    · exact hw.served hnow hs (Service.act_dropOff hturn) (Service.submitted_dropOff hturn) hp

/-- After the last time no step is needed any more. Traffic that is still pending would be due
already. -/
theorem Within.le_of_needsStep {services : Services} {ns : List Nat} {calls : List Call}
    (hw : w.Within last) (hstep : w.services.stepAll w.clock.now = (ns, services, calls))
    (hp : { w with services }.performAll calls = .ok w') (hneeds : w'.needsStep = true) :
    w.clock.now ≤ last := by
  by_contra hlate
  rw [UInt64.not_le] at hlate
  have hcalls (c : Call) (hc : c ∈ calls) (time : Time) (htime : c.moment? = some time) :
      time ≤ last := by
    rw [Services.moment?_of_stepEach hstep hc] at htime
    cases htime
  obtain ⟨hafter, -⟩ := hw.turn (hw.services.stepEach hstep) hcalls hp
  have hkept := kept_performAll hp
  have hnow : w'.clock.now = w.clock.now := hkept.clock.now
  have htraffic (e : Event) (he : e ∈ w'.clock.pending) : ¬ e.kind.IsTraffic := fun hkind =>
    absurd (UInt64.lt_of_lt_of_le (hnow ▸ hlate) (hafter.timely.ahead e he))
      (UInt64.not_lt.2 (hafter.traffic e he hkind))
  have hsame : w'.services = services := hkept.services
  have hnone : w'.needsStep = false := by
    rw [needsStep_eq_false_iff, hsame]
    exact ⟨fun e he => not_or.1 (htraffic e he), hw.services.pendingRejections_stepAll hlate hstep⟩
  rw [hnone] at hneeds
  cases hneeds

end World

end DialARide
