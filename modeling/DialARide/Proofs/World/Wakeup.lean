import DialARide.Proofs.Ride.Waiting
import DialARide.Proofs.World.Reach

/-!
# No passenger is missed

A vehicle that waits at a stop and the passenger who waits for it find each other. When the
passenger comes after the vehicle, the arrival at the stop is scheduled once more for the same
moment, and time does not move on before it was handled. Otherwise the request is to be rejected,
and the services go on stepping until the rejection is applied.
-/

namespace DialARide

/-- The request and the mode of the passenger for whom a vehicle stops. -/
def Entity.pickup? : Entity → Option (RequestId × ModeId)
  | .stop s => if s.kind = .pickup then some (s.request, s.mode) else none
  | .traveler _ => none

/-- The request and the mode of the passenger for whom a stop is filled in. -/
def Provision.pickup? (p : Provision) : Option (RequestId × ModeId) := p.entity?.bind (·.pickup?)

namespace World

/-- The request and the mode of the passenger for whom the stop of a number is. -/
def pickup? (w : World) (id : EntityId) : Option (RequestId × ModeId) :=
  w.entities[id]?.bind (·.pickup?)

/-- The stop does not miss its passenger, if it waits for one. -/
def Heeds (w : World) (id : EntityId) : Prop :=
  ∀ st, w.stop? id = some st → st.kind = .pickup → st.state = .waitingForPassenger →
    w.services.Awaits st.mode st.request id (w.IsDue id)

/-- Time is kept, the services are told of what concerns them, and every passenger is picked up at
one stop only. -/
structure Regular (w : World) : Prop where
  timely : w.clock.Timely
  informed : w.services.Informed
  single : ∀ id id' p, w.pickup? id = some p → w.pickup? id' = some p → id = id'

/-- No stop misses its passenger. -/
structure Wakeful (w : World) : Prop where
  regular : w.Regular
  heeds : ∀ id, w.Heeds id

/-- A step of the services is pending, or the start that leads to one. -/
def StepAhead (w : World) : Prop :=
  ∃ e ∈ w.clock.pending, e.kind = .passengerStep ∨ e.kind = .simulationStarted

variable {w w' : World} {id : EntityId} {e : Event} {clock : Clock} {p : Event → Prop}

/-! ## What stays as it is -/

/-- A pickup is known by the stop. -/
theorem pickup?_eq (w : World) (id : EntityId) :
    w.pickup? id = (w.stop? id).bind fun st => (Entity.stop st).pickup? := by
  unfold pickup? stop?
  cases w.entities[id]? with
  | none => rfl
  | some entity => cases entity <;> rfl

/-- The passenger of a pickup is the one whom its request names. -/
theorem pickup?_of_stop {st : Stop} (hst : w.stop? id = some st) (hkind : st.kind = .pickup) :
    w.pickup? id = some (st.request, st.mode) := by
  rw [pickup?_eq, hst]
  simp [Entity.pickup?, hkind]

theorem getElem?_of_stop {st : Stop} (hst : w.stop? id = some st) :
    w.entities[id]? = some (.stop st) := by
  unfold stop? at hst
  split at hst
  · next s hs =>
    cases hst
    exact hs
  · cases hst

/-- Whatever a stop does, it stays a stop for the same passenger. -/
theorem pickup?_setStopState (w : World) (id j : EntityId) (state : StopState) :
    (w.setStopState id state).pickup? j = w.pickup? j := by
  rw [pickup?_eq, pickup?_eq, stop?_setStopState]
  split
  · cases w.stop? j <;> rfl
  · rfl

/-- What is due stays due while more is scheduled. -/
theorem IsDue.grown (h : w.IsDue id) (hclock : w.clock.Grown p w'.clock) : w'.IsDue id := by
  obtain ⟨e, he, htime, hevent⟩ := h
  exact ⟨e, hclock.mem he, htime.trans hclock.now.symm, hevent⟩

/-- Regularity depends on services, stops and clock only. -/
theorem Regular.congr (h : w.Regular) (hservices : w'.services = w.services)
    (hstop : ∀ id, w'.stop? id = w.stop? id) (hclock : w.clock.Grown p w'.clock) :
    w'.Regular := by
  have hpickup : ∀ id, w'.pickup? id = w.pickup? id := by
    intro id
    rw [pickup?_eq, pickup?_eq, hstop]
  constructor
  · exact hclock.timely h.timely
  · rw [hservices]
    exact h.informed
  · intro id id' p hid hid'
    rw [hpickup] at hid hid'
    exact h.single id id' p hid hid'

/-- Whether a stop misses its passenger depends on the services, the stop and the clock only. -/
theorem Heeds.congr (h : w.Heeds id) (hservices : w'.services = w.services)
    (hstop : w'.stop? id = w.stop? id) (hclock : w.clock.Grown p w'.clock) : w'.Heeds id := by
  intro st hst hkind hstate
  rw [hservices]
  rw [hstop] at hst
  exact (h st hst hkind hstate).mono fun hdue => hdue.grown hclock

/-- Order is kept whatever becomes of a stop. -/
theorem Regular.setStopState (h : w.Regular) (id : EntityId) (state : StopState) :
    (w.setStopState id state).Regular := by
  constructor
  · exact h.timely
  · exact h.informed
  · intro j j' p hj hj'
    rw [pickup?_setStopState] at hj hj'
    exact h.single j j' p hj hj'

/-- What becomes of one stop does not make another one miss its passenger. -/
theorem Heeds.setStopState {j : EntityId} (h : w.Heeds j) (hne : id ≠ j) (state : StopState) :
    (w.setStopState id state).Heeds j :=
  h.congr rfl ((w.stop?_setStopState id j state).trans (if_neg hne))
    (.refl (fun _ => False) _)

/-- A stop that does not wait misses nobody. -/
theorem heeds_setStopState (w : World) (id : EntityId) {state : StopState}
    (hstate : state ≠ .waitingForPassenger) : (w.setStopState id state).Heeds id := by
  intro st hst hkind hwaits
  rw [stop?_setStopState, if_pos rfl, Option.map_eq_some_iff] at hst
  obtain ⟨st', -, rfl⟩ := hst
  exact absurd hwaits hstate

/-! ## Turns and the calls that they make -/

/-- Turns of services keep the order as long as nothing is published. -/
theorem Regular.turns {now : Time} {occasion : Occasion} {services : Services} {calls : List Call}
    (h : w.Regular) (hturns : Services.Turns now occasion w.services services calls)
    (hpublication : ∀ r, occasion ≠ .publication r)
    (hp : { w with services }.performAll calls = .ok w') : w'.Regular := by
  have hservices : World.Regular { w with services } := by
    constructor
    · exact h.timely
    · exact hturns.informed hpublication h.informed
    · exact h.single
  have hkept := kept_performAll hp
  exact hservices.congr hkept.services hkept.stop hkept.clock

/-- A stop that is called for in a turn is due as soon as the call is put into effect. -/
theorem Heeds.turns {now : Time} {occasion : Occasion} {services : Services} {calls : List Call}
    (h : w.Heeds id) (hw : w.Regular) (hnow : w.clock.now = now)
    (hturns : Services.Turns now occasion w.services services calls)
    (hpublication : ∀ r, occasion ≠ .publication r) (harrival : ∀ stop, occasion ≠ .arrival stop)
    (hp : { w with services }.performAll calls = .ok w') : w'.Heeds id := by
  intro st hst hkind hstate
  have hkept := kept_performAll hp
  rw [hkept.stop] at hst
  have hawaits := hturns.awaits hpublication harrival hw.informed (h st hst hkind hstate)
  rw [hkept.services]
  apply hawaits.mono
  rintro (hdue | ⟨traveler, hc⟩)
  · exact hdue.grown hkept.clock
  · obtain ⟨d, hd, htime, hevent⟩ := exists_due_of_ready hp hc
    exact ⟨d, hd, htime.trans (hkept.clock.now.trans hnow).symm, hevent⟩

/-! ## Taking an event -/

/-- Taking an event leaves a stop due, unless the event is the arrival there. -/
theorem IsDue.next (h : w.IsDue id) (hw : w.clock.Timely)
    (hnext : w.clock.next? = some (e, clock)) :
    World.IsDue { w with clock, current := some e } id ∨
      e.kind = .stopReached ∧ e.subject = some (.stop id) := by
  obtain ⟨d, hd, htime, hevent⟩ := h
  have hnow := hw.now_eq_of_due hnext hd htime
  rw [(Clock.next?_eq_some hnext).1] at hd
  rcases List.mem_cons.1 hd with rfl | hd
  · exact .inr hevent
  · exact .inl ⟨d, hd, htime.trans hnow.symm, hevent⟩

/-- Taking an event keeps the order. -/
theorem Regular.next (h : w.Regular) (hnext : w.clock.next? = some (e, clock)) :
    World.Regular { w with clock, current := some e } := by
  constructor
  · exact h.timely.next hnext
  · exact h.informed
  · exact h.single

/-- A stop misses nobody while the event that is taken is not the arrival there. -/
theorem Heeds.next (h : w.Heeds id) (hw : w.Regular) (hnext : w.clock.next? = some (e, clock))
    (hother : ¬ (e.kind = .stopReached ∧ e.subject = some (.stop id))) :
    World.Heeds { w with clock, current := some e } id := by
  intro st hst hkind hstate
  apply (h st hst hkind hstate).mono
  intro hdue
  exact (hdue.next hw.timely hnext).resolve_right hother

/-- Nothing but the clock and the travelers changed. -/
theorem Wakeful.congr (h : w.Wakeful) (hservices : w'.services = w.services)
    (hstop : ∀ id, w'.stop? id = w.stop? id) (hclock : w.clock.Grown p w'.clock) :
    w'.Wakeful := by
  constructor
  · exact h.regular.congr hservices hstop hclock
  · intro id
    exact (h.heeds id).congr hservices (hstop id) hclock

/-- Turns of services, with the calls that they make, let no stop miss its passenger. -/
theorem Wakeful.turns {now : Time} {occasion : Occasion} {services : Services} {calls : List Call}
    (h : w.Wakeful) (hnow : w.clock.now = now)
    (hturns : Services.Turns now occasion w.services services calls)
    (hpublication : ∀ r, occasion ≠ .publication r) (harrival : ∀ stop, occasion ≠ .arrival stop)
    (hp : { w with services }.performAll calls = .ok w') : w'.Wakeful := by
  constructor
  · exact h.regular.turns hturns hpublication hp
  · intro id
    exact (h.heeds id).turns h.regular hnow hturns hpublication harrival hp

/-- While no arrival is taken, no stop misses its passenger. -/
theorem Wakeful.next (h : w.Wakeful) (hnext : w.clock.next? = some (e, clock))
    (hkind : e.kind ≠ .stopReached) : World.Wakeful { w with clock, current := some e } := by
  constructor
  · exact h.regular.next hnext
  · intro id
    exact (h.heeds id).next h.regular hnext fun hthis => hkind hthis.1

/-- The arrival at a stop is over once it is known what becomes of that stop. -/
theorem Wakeful.of_arrival (h : w.Wakeful) (hnext : w.clock.next? = some (e, clock))
    (hsubject : e.subject = some (.stop id)) (hregular : w'.Regular) (hthis : w'.Heeds id)
    (hothers : ∀ j, id ≠ j → World.Heeds { w with clock, current := some e } j → w'.Heeds j) :
    w'.Wakeful := by
  constructor
  · exact hregular
  · intro j
    by_cases hj : id = j
    · exact hj ▸ hthis
    · apply hothers j hj
      apply (h.heeds j).next h.regular hnext
      rintro ⟨-, hsubject'⟩
      rw [hsubject] at hsubject'
      cases hsubject'
      exact hj rfl

/-- A stop that begins to wait does not miss its passenger, and no other stop misses its own. -/
theorem Regular.heeds_await {i : Nat} {s : Service} {st : Stop} (h : w.Regular)
    (hst : w.stop? id = some st) (hpickup : st.kind = .pickup)
    (hs : w.services.members[i]? = some s) (hmode : s.mode = st.mode)
    (hunbound : s.bound.find? st.request = none) :
    let services := w.services.commit i
      { service := { s with waitingStops := s.waitingStops.insert st.request id } }
    let w' := World.setStopState { w with services } id .waitingForPassenger
    w'.Heeds id ∧ ∀ j, id ≠ j → w.Heeds j → w'.Heeds j := by
  intro services w'
  constructor
  · intro st' hst' _ _ s' hs' hmode'
    have hset := (stop?_setStopState { w with services } id id .waitingForPassenger).symm.trans hst'
    have hold : World.stop? { w with services } id = some st := hst
    rw [if_pos rfl, hold] at hset
    obtain rfl := Option.some.inj hset
    have hawaits := Services.awaits_commit_await h.informed hs hunbound id (w'.IsDue id)
    exact hawaits s' hs' (hmode'.trans hmode.symm)
  · intro j hj hheeds st' hst' hpickup' hstate'
    have hset := (stop?_setStopState { w with services } id j .waitingForPassenger).symm.trans hst'
    rw [if_neg hj] at hset
    have hset : w.stop? j = some st' := hset
    apply (hheeds st' hset hpickup' hstate').commit_await hs
    intro hmode' hrequest
    have hp := pickup?_of_stop hst hpickup
    rw [hrequest, ← hmode, hmode'] at hp
    exact hj (h.single id j _ hp (pickup?_of_stop hset hpickup'))

/-- A stop to which nobody comes goes on waiting. -/
theorem Regular.heeds_stay {i : Nat} {s : Service} {st : Stop} (h : w.Regular)
    (hst : w.stop? id = some st) (hs : w.services.members[i]? = some s) (hmode : s.mode = st.mode)
    (hstatus : ∀ b, s.bound.find? st.request = some b → b.status = .pickedUp)
    (hup : s.Upcoming st.request → s.waitingStops.find? st.request = some id ∨
      s.parked.contains st.request = true ∧ ¬ s.Unissued st.request) :
    (w.setStopState id .waitingForPassenger).Heeds id := by
  intro st' hst' _ _ s' hs' hmode'
  rw [stop?_setStopState, if_pos rfl, hst] at hst'
  obtain rfl := Option.some.inj hst'
  obtain ⟨j, hj⟩ := List.mem_iff_getElem?.1 hs'
  have hsame : j = i := h.informed.position_eq hs hj (hmode'.trans hmode.symm)
  subst hsame
  obtain rfl : s = s' := Option.some.inj (hs.symm.trans hj)
  constructor
  · exact hup
  · intro b hb hnot
    exact absurd (hstatus b hb) hnot

/-- An arrival with which nothing is left to be done lets no stop miss its passenger: no service
answers for a stop that waits there. -/
theorem Wakeful.ignored (h : w.Wakeful) (hnext : w.clock.next? = some (e, clock))
    (hstop : ∀ id st, e.subject = some (.stop id) → w.stop? id = some st → e.kind = .stopReached →
      st.kind = .pickup → st.state = .waitingForPassenger → w.services.position? st.mode = none) :
    World.Wakeful { w with clock, current := some e } := by
  have hregular := h.regular.next hnext
  constructor
  · exact hregular
  · intro id
    by_cases hthis : e.kind = .stopReached ∧ e.subject = some (.stop id)
    · intro st hst hpickup hstate s hs hmode
      have hnone := hstop id st hthis.2 hst hthis.1 hpickup hstate
      exact absurd hmode (Services.mode_ne_of_position? hnone hs (hregular.informed.allOpen s hs))
    · exact (h.heeds id).next h.regular hnext hthis

/-- A traveler who begins to wait changes no stop. -/
theorem Wakeful.changeTraveler (h : w.Wakeful) (id : EntityId) (f : Traveler → Traveler) :
    (w.changeTraveler id f).Wakeful := by
  have hkept := w.kept_changeTraveler id f
  exact h.congr hkept.services hkept.stop hkept.clock

/-- A traveler who gives up a leg changes no stop. -/
theorem Wakeful.abortUntracked (h : w.Wakeful) (id : EntityId) : (w.abortUntracked id).Wakeful :=
  h.congr rfl (fun j => stop?_changeTraveler _ id j _) (.refl (fun _ => False) _)

/-- A stop at which the vehicle stays does not miss its passenger, who has boarded elsewhere or is
awaited already. -/
theorem Wakeful.stays {i : Nat} {s : Service} {st : Stop} (h : w.Wakeful)
    (hnext : w.clock.next? = some (e, clock)) (hsubject : e.subject = some (.stop id))
    (hst : w.stop? id = some st) (hpickup : st.kind = .pickup)
    (hs : w.services.members[i]? = some s) (hmode : s.mode = st.mode)
    (hstatus : ∀ b, s.bound.find? st.request = some b → b.status = .pickedUp)
    (hthere : st.state = .waitingForPassenger ∨ s.bound.contains st.request = true) :
    (World.setStopState { w with clock, current := some e } id .waitingForPassenger).Wakeful := by
  have hregular := h.regular.next hnext
  apply h.of_arrival hnext hsubject
  · exact hregular.setStopState id .waitingForPassenger
  · apply hregular.heeds_stay hst hs hmode hstatus
    intro hup
    have hmem : s ∈ w.services.members := List.mem_of_getElem? hs
    rcases hthere with hstate | hbound
    · exact (h.heeds id st hst hpickup hstate s hmem hmode).upcoming hup
    · rw [Table.contains, (h.regular.informed.members s hmem).orderly.unbound _ hup] at hbound
      cases hbound
  · intro j hj hheeds
    exact hheeds.setStopState hj .waitingForPassenger

/-- No event that is handled without fault lets a stop miss its passenger. -/
theorem Wakeful.handled (h : w.Wakeful) (hnext : w.clock.next? = some (e, clock))
    (hh : Handled { w with clock, current := some e } e w') : w'.Wakeful := by
  have hregular := h.regular.next hnext
  have hnow : clock.now = e.time := (Clock.next?_eq_some hnext).2
  cases hh with
  | aside hkind hservices hentities hclock _ =>
    have hne : e.kind ≠ .stopReached := by rcases hkind with hkind | hkind <;> simp [hkind]
    refine (h.next hnext hne).congr hservices (fun id => ?_) hclock
    unfold stop?
    rw [hentities]
  | ignored _ _ hstop => exact h.ignored hnext hstop
  | @stepped services calls w₁ _ hkind hturns hp hafter =>
    have hstep : w₁.Wakeful :=
      (h.next hnext (by simp [hkind])).turns hnow hturns (by simp) (by simp) hp
    rcases hafter with ⟨-, rfl⟩ | ⟨time, hschedule⟩
    · exact hstep
    · obtain ⟨clock', hclock, rfl⟩ := schedule_eq_ok hschedule
      exact hstep.congr rfl (fun _ => rfl) (Clock.grown_scheduleAt hclock)
  | @unserved id t hkind hsubject ht =>
    exact ((h.next hnext (by simp [hkind])).changeTraveler id _).abortUntracked id
  | @departed id t i s turn o w₁ hkind hsubject ht hs hopen hact hhead hwaiting hp =>
    have hafter : w₁.Wakeful := ((h.next hnext (by simp [hkind])).changeTraveler id _).turns hnow
      (Services.turns_of_act hs hact) (by simp) (by simp) hp
    split
    · exact hafter
    · exact hafter.abortUntracked id
  | @waits id st i s hkind hsubject hst hpickup hstate hs hmode hunbound =>
    have hact : s.Act e.time (.arrival id) _ := .await id st.request rfl hunbound
    obtain ⟨hthis, hothers⟩ := hregular.heeds_await hst hpickup hs hmode hunbound
    apply h.of_arrival hnext hsubject
    · exact (hregular.turns (Services.turns_of_act hs hact) (by simp) rfl).setStopState id _
    · exact hthis
    · exact hothers
  | stays hkind hsubject hst hpickup hs hmode hstatus hthere =>
    exact h.stays hnext hsubject hst hpickup hs hmode hstatus hthere
  | @served id st i s turn w₁ hkind hsubject hst hs hact hp =>
    have hturns := Services.turns_of_act hs hact
    apply h.of_arrival hnext hsubject
    · exact (hregular.turns hturns (by simp) hp).setStopState id .completed
    · exact w₁.heeds_setStopState id (by simp)
    · intro j hj hheeds
      exact (hheeds.turns hregular hnow hturns (by simp) (by simp) hp).setStopState hj .completed
  | @cancelled id st pickup hkind hsubject hst hdropoff =>
    apply h.of_arrival hnext hsubject
    · exact hregular.setStopState id .cancelled
    · exact heeds_setStopState _ id (by simp)
    · intro j hj hheeds
      exact hheeds.setStopState hj .cancelled

/-- The passenger of a stop that waits boards when the arrival there is handled. -/
theorem Handled.completed {i : Nat} {s : Service} {st : Stop} {b : Binding} (hh : Handled w e w')
    (hw : w.Regular) (hkind : e.kind = .stopReached) (hsubject : e.subject = some (.stop id))
    (hst : w.stop? id = some st) (hpickup : st.kind = .pickup)
    (hstate : st.state = .waitingForPassenger) (hs : w.services.members[i]? = some s)
    (hmode : s.mode = st.mode) (hb : s.bound.find? st.request = some b)
    (hstatus : b.status ≠ .pickedUp) :
    ∃ st', w'.stop? id = some st' ∧ st'.state = .completed := by
  cases hh with
  | aside hkind' => rcases hkind' with hkind' | hkind' <;> simp [hkind] at hkind'
  | stepped hkind' | unserved hkind' | departed hkind' => simp [hkind] at hkind'
  | ignored _ _ hstop =>
    have hnone := hstop id st hsubject hst hkind hpickup hstate
    have hmem : s ∈ w.services.members := List.mem_of_getElem? hs
    exact absurd hmode (Services.mode_ne_of_position? hnone hmem (hw.informed.allOpen s hmem))
  | @waits id' st' _ _ _ hsubject' hst' _ hstate' =>
    rw [hsubject] at hsubject'
    cases hsubject'
    obtain rfl := Option.some.inj (hst.symm.trans hst')
    rw [hstate] at hstate'
    cases hstate'
  | @stays id' st' j s' _ hsubject' hst' _ hs' hmode' hstatus' =>
    rw [hsubject] at hsubject'
    cases hsubject'
    obtain rfl := Option.some.inj (hst.symm.trans hst')
    have hj : j = i := hw.informed.position_eq hs hs' (hmode'.trans hmode.symm)
    subst hj
    obtain rfl := Option.some.inj (hs.symm.trans hs')
    exact absurd (hstatus' b hb) hstatus
  | @served id' st' _ _ turn w₁ _ hsubject' hst' _ _ hp =>
    rw [hsubject] at hsubject'
    cases hsubject'
    have hkept : w₁.stop? id = some st := ((kept_performAll hp).stop id).trans hst
    refine ⟨{ st with state := .completed }, ?_, rfl⟩
    rw [stop?_setStopState, if_pos rfl, hkept]
    rfl
  | cancelled _ hsubject' hst' hdropoff =>
    rw [hsubject] at hsubject'
    cases hsubject'
    obtain rfl := Option.some.inj (hst.symm.trans hst')
    rw [hpickup] at hdropoff
    cases hdropoff

/-! ## Steps are taken while they are needed -/

/-- No step is needed when no traffic is pending and no rejection is to be applied. -/
theorem needsStep_eq_false_iff : w.needsStep = false ↔
    (∀ e ∈ w.clock.pending, e.kind ≠ .departure ∧ e.kind ≠ .stopReached) ∧
      w.services.pendingRejections = 0 := by
  simp only [needsStep, Clock.hasPending, Bool.or_eq_false_iff, List.any_eq_false,
    decide_eq_true_eq, decide_eq_false_iff_not, Nat.not_lt, Nat.le_zero_eq, ← forall₂_and]

/-- A step stays ahead while more is scheduled. -/
theorem StepAhead.grown (h : w.StepAhead) (hclock : w.clock.Grown p w'.clock) : w'.StepAhead := by
  obtain ⟨e, he, hkind⟩ := h
  exact ⟨e, hclock.mem he, hkind⟩

/-- A step is still to come after any other event than a step or the start is taken. -/
theorem StepAhead.next (h : w.StepAhead) (hnext : w.clock.next? = some (e, clock))
    (hkind : ¬ (e.kind = .passengerStep ∨ e.kind = .simulationStarted)) :
    World.StepAhead { w with clock, current := some e } := by
  obtain ⟨d, hd, hdkind⟩ := h
  rw [(Clock.next?_eq_some hnext).1] at hd
  rcases List.mem_cons.1 hd with rfl | hd
  · exact absurd hdkind hkind
  · exact ⟨d, hd, hdkind⟩

/-- A departure or an arrival is itself what a step is needed for. -/
theorem stepAhead_next (h : w.StepAhead ∨ w.needsStep = false)
    (hnext : w.clock.next? = some (e, clock))
    (hkind : e.kind = .departure ∨ e.kind = .stopReached) :
    World.StepAhead { w with clock, current := some e } := by
  rcases h with hahead | hnone
  · apply hahead.next hnext
    rcases hkind with hkind | hkind <;> simp [hkind]
  · have he : e ∈ w.clock.pending := by
      rw [(Clock.next?_eq_some hnext).1]
      exact List.mem_cons_self
    obtain ⟨hdeparture, harrival⟩ := (needsStep_eq_false_iff.1 hnone).1 e he
    rcases hkind with hkind | hkind
    · exact absurd hkind hdeparture
    · exact absurd hkind harrival

/-- After every event that is handled without fault, a step is to come if one is needed. -/
theorem Handled.stepAhead (hh : Handled { w with clock, current := some e } e w')
    (hnext : w.clock.next? = some (e, clock)) (h : w.StepAhead ∨ w.needsStep = false) :
    w'.StepAhead ∨ w'.needsStep = false := by
  cases hh with
  | aside hkind hservices hentities hclock hstart =>
    rcases hkind with hkind | hkind
    · left
      obtain ⟨d, hd, hdkind⟩ := List.any_eq_true.1 (hstart hkind)
      exact ⟨d, hd, .inl (by simpa using hdkind)⟩
    · rcases h with hahead | hnone
      · exact .inl ((hahead.next hnext (by simp [hkind])).grown hclock)
      · right
        obtain ⟨hpending, hrejections⟩ := needsStep_eq_false_iff.1 hnone
        rw [needsStep_eq_false_iff, hservices]
        refine ⟨fun d hd => ?_, hrejections⟩
        rcases hclock.mem_or hd with (hdkind | hdkind) | hd
        · simp [hdkind]
        · simp [hdkind]
        · apply hpending d
          rw [(Clock.next?_eq_some hnext).1]
          exact List.mem_cons_of_mem e hd
  | ignored hkind => exact .inl (stepAhead_next h hnext hkind)
  | stepped hkind hturns hp hafter =>
    rcases hafter with ⟨hnone, rfl⟩ | ⟨time, hschedule⟩
    · exact .inr hnone
    · left
      obtain ⟨clock', hclock, rfl⟩ := schedule_eq_ok hschedule
      obtain ⟨d, hd, -, hdkind, -⟩ := Clock.exists_mem_of_scheduleAt hclock
      exact ⟨d, hd, .inl hdkind⟩
  | unserved hkind => exact .inl (stepAhead_next h hnext (.inl hkind))
  | @departed id t i s turn o w₁ hkind hsubject ht hs hopen hact hhead hwaiting hp =>
    have hahead := (stepAhead_next h hnext (.inl hkind)).grown (kept_performAll hp).clock
    left
    split <;> exact hahead
  | waits hkind | stays hkind | cancelled hkind => exact .inl (stepAhead_next h hnext (.inr hkind))
  | served hkind hsubject hst hs hact hp =>
    exact .inl ((stepAhead_next h hnext (.inr hkind)).grown (kept_performAll hp).clock)

/-- A step is needed while a rejection lies in the mailbox of an open service. -/
theorem needsStep_of_mem {s : Service} {r : Rejection} (hs : s ∈ w.services.members)
    (hopen : s.closed = false) (hr : r ∈ s.mailbox) : w.needsStep ≠ false := by
  intro hnone
  have hzero := (needsStep_eq_false_iff.1 hnone).2
  have hactive : s ∈ w.services.active := List.mem_filter.2 ⟨hs, by simp [hopen]⟩
  have hmem : r ∈ w.services.active.flatMap (·.mailbox) := List.mem_flatMap.2 ⟨s, hactive, hr⟩
  have hpos : 0 < w.services.pendingRejections := List.length_pos_of_mem hmem
  omega

/-! ## Scenarios -/

/-- What is filled in comes after what was there, in order. -/
theorem entities_provideAll {provisions : List Provision} (h : w.provideAll provisions = .ok w') :
    w'.entities = w.entities ++ provisions.filterMap (·.entity?) := by
  induction provisions generalizing w with
  | nil =>
    cases h
    simp
  | cons p rest ih =>
    unfold provideAll at h
    cases hp : w.provide p with
    | error halt => simp [hp, Bind.bind, Except.bind] at h
    | ok w₁ =>
      simp only [hp, Bind.bind, Except.bind] at h
      rw [ih h, (filled_of_provide hp).entities, List.append_assoc]
      cases hentity : p.entity? <;> simp [hentity]

/-- Every stop of a world that was filled was filled in. -/
theorem exists_mem_of_stop {provisions : List Provision} {st : Stop}
    (hentities : w.entities = provisions.filterMap (·.entity?)) (hst : w.stop? id = some st) :
    ∃ time, .stop st time ∈ provisions := by
  have hmem := List.mem_of_getElem? (getElem?_of_stop hst)
  rw [hentities, List.mem_filterMap] at hmem
  obtain ⟨p, hp, hentity⟩ := hmem
  cases p with
  | stop st' time =>
    cases hentity
    exact ⟨time, hp⟩
  | traveler | booking | rejection => cases hentity

/-- Every passenger is picked up at one stop only where the passengers of the stops differ. -/
theorem pickup?_injective (h : (w.entities.filterMap (·.pickup?)).Nodup) {id' : EntityId}
    {p : RequestId × ModeId} (hid : w.pickup? id = some p) (hid' : w.pickup? id' = some p) :
    id = id' := by
  obtain ⟨entity, hentity, hp⟩ := Option.bind_eq_some_iff.1 hid
  obtain ⟨entity', hentity', hp'⟩ := Option.bind_eq_some_iff.1 hid'
  exact List.index_eq_of_filterMap h p hentity hp hentity' hp'

/-- Bookings keep the services informed while a scenario is filled. -/
theorem Filled.informed {p : Provision} (hf : Filled w p w') (hp : ∀ r, p ≠ .rejection r)
    (h : w.services.Informed) : w'.services.Informed := by
  rcases hf.services with ⟨now, calls, hturns⟩ | ⟨r, hr, -⟩
  · exact hturns.informed (by simp) h
  · exact absurd hr (hp r)

end World

/-- A world is filled with what is filled in, in order. -/
theorem Setup.entities_provideAll {s : Setup} {provisions : List Provision} {built ready : World}
    (hbuilt : s.build = .ok built) (hready : built.provideAll provisions = .ok ready) :
    ready.entities = provisions.filterMap (·.entity?) := by
  rw [World.entities_provideAll hready, (build_eq_ok hbuilt).2.2.1, List.nil_append]

/-- The services that are set up are informed. -/
theorem Setup.informed_build {s : Setup} {w : World} (hb : s.build = .ok w) :
    w.services.Informed := by
  obtain ⟨hfault, hmembers, -, -⟩ := build_eq_ok hb
  have hmode : Service.mode ∘ s.service = ModeRule.mode :=
    funext fun rule => (s.service_terms rule).2.1
  constructor
  · rw [hmembers, List.map_map, hmode]
    exact (s.config.fault?_eq_none_iff.1 hfault).2.1
  · intro u hu
    rw [hmembers] at hu
    obtain ⟨rule, -, rfl⟩ := List.mem_map.1 hu
    exact (s.service_terms rule).1
  · intro u hu
    rw [hmembers] at hu
    obtain ⟨rule, -, rfl⟩ := List.mem_map.1 hu
    obtain ⟨-, -, hmailbox, hparked⟩ := s.service_terms rule
    constructor
    · exact (s.vacant_service rule).1
    · simp [hmailbox]
    · simp [hparked]

/-- In a world that is filled with stops that are all scheduled, and with one stop at most for
each passenger, no stop misses its passenger. -/
theorem Setup.wakeful_provideAll {s : Setup} {provisions : List Provision} {built ready : World}
    (hbuilt : s.build = .ok built) (hready : built.provideAll provisions = .ok ready)
    (hrejections : ∀ r, .rejection r ∉ provisions)
    (hstops : ∀ st time, .stop st time ∈ provisions → st.state = .scheduled)
    (hsingle : (provisions.filterMap Provision.pickup?).Nodup) : ready.Wakeful := by
  obtain ⟨-, -, -, hclock⟩ := build_eq_ok hbuilt
  have hfilled := entities_provideAll hbuilt hready
  have hkept : ready.clock.Timely ∧ ready.services.Informed := by
    apply World.provideAll_keeps (P := fun v => v.clock.Timely ∧ v.services.Informed) ?_ hready
    · constructor
      · rw [hclock]
        exact ⟨.nil, by simp⟩
      · exact informed_build hbuilt
    · intro v v' p hp hv hf
      constructor
      · exact hf.clock.timely hv.1
      · apply hf.informed _ hv.2
        rintro r rfl
        exact hrejections r hp
  have hdiffer : (ready.entities.filterMap (·.pickup?)).Nodup := by
    rw [hfilled, List.filterMap_filterMap]
    exact hsingle
  constructor
  · exact ⟨hkept.1, hkept.2, fun id id' p => World.pickup?_injective hdiffer⟩
  · intro id st hst _ hstate
    obtain ⟨time, hmem⟩ := World.exists_mem_of_stop hfilled hst
    rw [hstops st time hmem] at hstate
    cases hstate

/-- While a vehicle waits at a pickup whose passenger waits too, the arrival at the stop is due now,
or the request is to be rejected and the steps of the services that will do so go on. No run comes
to rest there, so the two do not wait for each other for ever. -/
theorem Setup.Reaches.no_missed_passenger {s : Setup} {provisions : List Provision} {w : World}
    (h : s.Reaches (fun _ => False) provisions w)
    (hstops : ∀ st time, .stop st time ∈ provisions → st.state = .scheduled)
    (hsingle : (provisions.filterMap Provision.pickup?).Nodup) (hfault : w.fault = none)
    {id : EntityId} {st : Stop} (hst : w.stop? id = some st) (hpickup : st.kind = .pickup)
    (hwaits : st.state = .waitingForPassenger) {service : Service}
    (hs : service ∈ w.services.members) (hmode : service.mode = st.mode) {b : Binding}
    (hb : service.bound.find? st.request = some b) (hstatus : b.status ≠ .pickedUp) :
    w.IsDue id ∨ (∃ r ∈ service.mailbox, r.request = st.request) ∧ w.StepAhead := by
  obtain ⟨hrejections, built, ready, started, hbuilt, hready, hstarted, honward⟩ := h
  have hwakeful := wakeful_provideAll hbuilt hready hrejections hstops hsingle
  have hstart : started.Wakeful ∧ (started.StepAhead ∨ started.needsStep = false) := by
    obtain ⟨clock, hclock, rfl⟩ := World.schedule_eq_ok hstarted
    obtain ⟨e, he, -, hkind, -⟩ := Clock.exists_mem_of_scheduleAt hclock
    constructor
    · exact hwakeful.congr rfl (fun _ => rfl) (Clock.grown_scheduleAt hclock)
    · exact .inl ⟨e, he, .inr hkind⟩
  have hw : w.Wakeful ∧ (w.StepAhead ∨ w.needsStep = false) := by
    refine honward.keeps (P := fun v => v.Wakeful ∧ (v.StepAhead ∨ v.needsStep = false)) ?_ ?_
      hstart hfault
    · intro v v' e clock hv hnext hh
      exact ⟨hv.1.handled hnext hh, hh.stepAhead hnext hv.2⟩
    · intro v r hr
      exact hr.elim
  have hawaits := hw.1.heeds id st hst hpickup hwaits service hs hmode
  rcases hawaits.bound b hb hstatus with hdue | ⟨r, hr, hrequest⟩
  · exact .inl hdue
  · right
    have hneeds := World.needsStep_of_mem hs (hw.1.regular.informed.allOpen service hs) hr
    exact ⟨⟨r, hr, hrequest⟩, hw.2.resolve_right hneeds⟩

/-- The vehicle that came too early is called once more when the traveler departs. -/
theorem no_missed_commuter : ∃ w st service b, commute.play (commuters 100 50) 5 = some w ∧
    w.stop? 1 = some st ∧ st.state = .waitingForPassenger ∧ service ∈ w.services.members ∧
    service.bound.find? st.request = some b ∧ b.status = .submitted ∧
    (w.IsDue 1 ∨ (∃ r ∈ service.mailbox, r.request = st.request) ∧ w.StepAhead) := by
  have hplay : ((commute.play (commuters 100 50) 5).bind fun w => (w.stop? 1).bind fun st =>
      w.services.members.head?.bind fun service => (service.bound.find? st.request).bind fun b =>
        if w.fault = none ∧ st.kind = .pickup ∧ st.state = .waitingForPassenger ∧
          service.mode = st.mode ∧ b.status = .submitted then some () else none) = some () := by
    decide +kernel
  obtain ⟨w, hw, hrest⟩ := Option.bind_eq_some_iff.1 hplay
  obtain ⟨st, hst, hrest⟩ := Option.bind_eq_some_iff.1 hrest
  obtain ⟨service, hservice, hrest⟩ := Option.bind_eq_some_iff.1 hrest
  obtain ⟨b, hb, hif⟩ := Option.bind_eq_some_iff.1 hrest
  split at hif
  · next hall =>
    obtain ⟨hfault, hpickup, hwaits, hmode, hstatus⟩ := hall
    have hs : service ∈ w.services.members := List.mem_of_head? hservice
    have hreaches : commute.Reaches (fun _ => False) (commuters 100 50) w :=
      Setup.reaches_of_play (by simp [commuters]) hw
    refine ⟨w, st, service, b, hw, hst, hwaits, hs, hb, hstatus, ?_⟩
    exact hreaches.no_missed_passenger (by simp [commuters]) (by decide) hfault hst hpickup hwaits
      hs hmode hb (by simp [hstatus])
  · cases hif

end DialARide
