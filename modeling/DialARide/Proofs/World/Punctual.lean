import DialARide.Proofs.World.Timetable

/-!
# Scenarios that keep to a timetable

While a scenario goes by a timetable, everything about an outing can be told from its stage: which
of its events are pending, where its traveler is, how far its stops have come, and whether the
service and the key figures know of it. Outings depart in the order in which they are listed, so the
number that the service draws for a request is that of the outing. Each event moves one outing to
the next stage.
-/

namespace DialARide

namespace Outing

variable {o : Outing} {mode : ModeId} {n : Nat} {stage stage' : Stage} {e : Event}

/-- The events of an outing are numbered apart from those of all others. -/
theorem serial_of_mem_events (he : e ∈ o.events n stage) : e.serial / 3 = n := by
  cases stage with
  | ahead =>
    simp only [events, List.mem_cons, List.not_mem_nil, or_false] at he
    rcases he with rfl | rfl | rfl <;> simp [departs, picksUp, dropsOff] <;> omega
  | waiting =>
    simp only [events, List.mem_cons, List.not_mem_nil, or_false] at he
    rcases he with rfl | rfl <;> simp [picksUp, dropsOff] <;> omega
  | aboard =>
    obtain rfl := List.mem_singleton.1 he
    simp [dropsOff]
    omega
  | arrived => cases he

/-- The events of an outing are due one after the other. -/
theorem pairwise_events (h : o.departure ≤ o.pickupAt ∧ o.pickupAt ≤ o.dropoffAt) (n : Nat)
    (stage : Stage) : (o.events n stage).Pairwise Event.Before := by
  have hprecedes {a b : Event} (htime : a.time ≤ b.time) (hkind : a.kind.rank ≤ b.kind.rank) :
      a.Precedes b := (UInt64.lt_or_eq_of_le htime).imp_right fun heq => ⟨heq, hkind⟩
  have hfirst : (o.departs n).Before (o.picksUp n) :=
    Event.before_of_serial_lt (hprecedes h.1 (Nat.le_succ 3)) (by simp [departs, picksUp])
  have hsecond : (o.picksUp n).Before (o.dropsOff n) :=
    Event.before_of_serial_lt (hprecedes h.2 (Nat.le_refl _)) (by simp [picksUp, dropsOff])
  have hthird := hfirst.trans hsecond
  cases stage <;> simp [events, hfirst, hsecond, hthird]

/-- The events of an outing at a stage are different. -/
theorem nodup_events (o : Outing) (n : Nat) (stage : Stage) : (o.events n stage).Nodup := by
  cases stage <;> simp [events, departs, picksUp, dropsOff]

/-- The events of an outing are traffic. -/
theorem isTraffic_of_mem_events (he : e ∈ o.events n stage) : e.kind.IsTraffic := by
  unfold EventKind.IsTraffic
  cases stage <;> simp only [events, List.mem_cons, List.not_mem_nil, or_false] at he <;>
    rcases he with rfl | rfl | rfl <;> simp [departs, picksUp, dropsOff]

/-- Each event leads from one stage to the next. -/
theorem exists_next_of_events {rest : List Event} (h : o.events n stage = e :: rest) :
    ∃ stage', rest = o.events n stage' ∧
      (stage = .ahead ∧ e = o.departs n ∧ stage' = .waiting ∨
        stage = .waiting ∧ e = o.picksUp n ∧ stage' = .aboard ∨
        stage = .aboard ∧ e = o.dropsOff n ∧ stage' = .arrived) := by
  cases stage <;> cases h
  · exact ⟨.waiting, rfl, .inl ⟨rfl, rfl, rfl⟩⟩
  · exact ⟨.aboard, rfl, .inr (.inl ⟨rfl, rfl, rfl⟩)⟩
  · exact ⟨.arrived, rfl, .inr (.inr ⟨rfl, rfl, rfl⟩)⟩

/-- Everything about an outing is as it is at a stage. -/
structure IsAt (o : Outing) (mode : ModeId) (n : Nat) (stage : Stage)
    (bound : Table RequestId Binding) (w : World) : Prop where
  traveler : w.traveler? (3 * n) = some (o.traveler mode stage)
  pickup : w.stop? (3 * n + 1) = some { o.pickup mode n with state := pickupState stage }
  dropoff : w.stop? (3 * n + 2) =
    some { (o.pickup mode n).dropoff (3 * n + 1) with state := dropoffState stage }
  bound : bound.find? (requestName mode n) = o.binding? n stage
  progress : (w.telemetry.progress.find? (requestName mode n)).isSome =
    decide (stage = .waiting ∨ stage = .aboard)

end Outing

/-- A traveler who has come to the end of a journey. -/
def Traveler.alighted (t : Traveler) (plan : Plan) (link : LinkId) : Traveler :=
  { t with link, plan, state := .arrived, vehicle := none }

/-- Alighting with no leg left is arriving. -/
theorem World.alight_eq {w : World} {id : EntityId} {t : Traveler} (ht : w.traveler? id = some t)
    (hlast : t.plan.advance.current? = none) (link : LinkId) (now : Time) :
    w.alight id link now = .ok (w.changeTraveler id (·.alighted t.plan.advance link)) := by
  simp only [World.alight, ht, hlast]
  rfl

namespace World

/-- Two worlds, with the travelers that are bound in each, differ in nothing but one outing, the
services and what was put down. -/
structure Moved (mode : ModeId) (n : Nat) (bound bound' : Table RequestId Binding)
    (w w' : World) : Prop where
  clock : w'.clock = w.clock
  shifts : w'.shifts = w.shifts
  fault : w'.fault = w.fault
  size : w'.entities.length = w.entities.length
  traveler : ∀ id, id ≠ 3 * n → w'.traveler? id = w.traveler? id
  stop : ∀ id, id ≠ 3 * n + 1 → id ≠ 3 * n + 2 → w'.stop? id = w.stop? id
  bound : ∀ m, m ≠ n → bound'.find? (requestName mode m) = bound.find? (requestName mode m)
  progress : ∀ m, m ≠ n → w'.telemetry.progress.find? (requestName mode m) =
    w.telemetry.progress.find? (requestName mode m)

variable {mode : ModeId} {n : Nat} {bound bound' : Table RequestId Binding} {w w' : World}

/-- The world once the traveler of an outing has changed, the services have and something was
observed of the ride. -/
def noted (w : World) (n : Nat) (f : Traveler → Traveler) (services : Services)
    (o : Observation) : World :=
  { w.changeTraveler (3 * n) f with services, telemetry := w.telemetry.record o }

@[simp] theorem traveler?_noted (w : World) (n : Nat) (f : Traveler → Traveler)
    (services : Services) (o : Observation) (id : EntityId) :
    (w.noted n f services o).traveler? id =
      if 3 * n = id then (w.traveler? id).map f else w.traveler? id :=
  w.traveler?_changeTraveler (3 * n) id f

@[simp] theorem stop?_noted (w : World) (n : Nat) (f : Traveler → Traveler)
    (services : Services) (o : Observation) (id : EntityId) :
    (w.noted n f services o).stop? id = w.stop? id :=
  w.stop?_changeTraveler (3 * n) id f

/-- What is observed of one ride concerns no other outing. -/
theorem moved_noted (w : World) (f : Traveler → Traveler) (services : Services)
    {o : Observation} (ho : o.request = requestName mode n)
    (hbound : ∀ id, requestName mode n ≠ id → bound'.find? id = bound.find? id) :
    w.Moved mode n bound bound' (w.noted n f services o) where
  clock := rfl
  shifts := rfl
  fault := rfl
  size := List.length_modify ..
  traveler id hid := by rw [traveler?_noted, if_neg (Ne.symm hid)]
  stop id _ _ := w.stop?_noted n f services o id
  bound _ hm := hbound _ fun heq => hm (requestName_injective heq).symm
  progress _ hm :=
    w.telemetry.find?_progress_record fun heq => hm (requestName_injective (ho.symm.trans heq)).symm

/-- What becomes of a stop of the outing concerns no other one. -/
theorem Moved.setStopState (h : w.Moved mode n bound bound' w') {id : EntityId}
    (hid : id = 3 * n + 1 ∨ id = 3 * n + 2) (state : StopState) :
    w.Moved mode n bound bound' (w'.setStopState id state) where
  clock := h.clock
  shifts := h.shifts
  fault := h.fault
  size := (List.length_modify ..).trans h.size
  traveler j hj := (w'.traveler?_setStopState _ _ _).trans (h.traveler j hj)
  stop j hpickup hdropoff := by
    have hne : id ≠ j := by
      rcases hid with rfl | rfl
      · exact Ne.symm hpickup
      · exact Ne.symm hdropoff
    rw [w'.stop?_setStopState, if_neg hne]
    exact h.stop j hpickup hdropoff
  bound := h.bound
  progress := h.progress

end World

namespace Outing

variable {tt : Timetable} {o : Outing} {mode : ModeId} {n m drawn : Nat} {stage : Stage}
  {bound bound' : Table RequestId Binding} {log : List Request} {w w' : World}

/-- Neither the time nor what is still to come matters to an outing. -/
theorem IsAt.setClock (h : o.IsAt mode n stage bound w) (clock : Clock) (current : Option Event) :
    o.IsAt mode n stage bound { w with clock, current } :=
  ⟨h.traveler, h.pickup, h.dropoff, h.bound, h.progress⟩

/-- Every other outing stays where it is. -/
theorem IsAt.moved (h : o.IsAt mode m stage bound w) (hmoved : w.Moved mode n bound bound' w')
    (hother : m ≠ n) : o.IsAt mode m stage bound' w' where
  traveler := (hmoved.traveler _ (by omega)).trans h.traveler
  pickup := (hmoved.stop _ (by omega) (by omega)).trans h.pickup
  dropoff := (hmoved.stop _ (by omega) (by omega)).trans h.dropoff
  bound := (hmoved.bound m hother).trans h.bound
  progress := (congrArg Option.isSome (hmoved.progress m hother)).trans h.progress

/-- The traveler of the outing whose turn it is departs, and waits for the vehicle. -/
theorem IsAt.onDeparture (h : o.IsAt tt.mode n .ahead bound w) (ho : o ∈ tt.outings)
    (hservices : w.services = tt.servicesAt n bound log) (now : Time) :
    ∃ bound' w', w.onDeparture now (3 * n) = .ok w' ∧ w.Moved tt.mode n bound bound' w' ∧
      o.IsAt tt.mode n .waiting bound' w' ∧
      w'.services = tt.servicesAt (n + 1) bound' (log ++ [o.request tt.mode n now]) ∧
      w'.telemetry.rides = w.telemetry.rides := by
  obtain ⟨bound', hbound⟩ :
      ∃ bound', bound' = bound.insert (requestName tt.mode n) (o.binding n .submitted) := ⟨_, rfl⟩
  have hself : bound'.find? (requestName tt.mode n) = some (o.binding n .submitted) := by
    rw [hbound, Table.find?_insert, if_pos rfl]
  have hothers (id : RequestId) (hid : requestName tt.mode n ≠ id) :
      bound'.find? id = bound.find? id := by rw [hbound, Table.find?_insert, if_neg hid]
  have hplan : (o.traveler tt.mode .ahead).plan.current? = some ⟨0, o.leg tt.mode⟩ := rfl
  have hdepart : (w.changeTraveler (3 * n) ({ · with state := .waiting })).services.depart now
      ⟨3 * n, (o.traveler tt.mode .ahead).person, (o.leg tt.mode).mode, some ⟨0, o.leg tt.mode⟩⟩
      (o.traveler tt.mode .ahead).link =
        .ok (true, tt.servicesAt (n + 1) bound' (log ++ [o.request tt.mode n now]),
          [.observe (o.observation tt.mode n now .waiting none)]) :=
    hbound ▸ hservices ▸ tt.depart_servicesAt ho n bound log now
  have hkept : (tt.servicesAt (n + 1) bound' (log ++ [o.request tt.mode n now])).isBound (3 * n) =
      true := tt.isBound_servicesAt hself _
  have hdone : w.onDeparture now (3 * n) = .ok (w.noted n ({ · with state := .waiting })
      (tt.servicesAt (n + 1) bound' (log ++ [o.request tt.mode n now]))
      (o.observation tt.mode n now .waiting none)) := by
    simp only [World.onDeparture, h.traveler, hplan, hdepart]
    show Except.ok (if true && Services.isBound _ (3 * n) then w.noted n _ _ _ else _) = _
    rw [hkept]
    rfl
  refine ⟨bound', _, hdone, w.moved_noted _ _ rfl hothers, ?_, rfl, rfl⟩
  constructor
  case traveler =>
    rw [World.traveler?_noted, if_pos rfl, h.traveler]
    rfl
  case pickup => rw [World.stop?_noted, h.pickup]; rfl
  case dropoff => rw [World.stop?_noted, h.dropoff]; rfl
  case bound => exact hself
  case progress => exact congrArg Option.isSome ((Table.find?_insert ..).trans (if_pos rfl))

/-- The passenger who waits boards. -/
theorem IsAt.onPickup (h : o.IsAt tt.mode n .waiting bound w)
    (hservices : w.services = tt.servicesAt drawn bound log) (now : Time) :
    ∃ bound' w', w.onStop now (3 * n + 1) = .ok w' ∧ w.Moved tt.mode n bound bound' w' ∧
      o.IsAt tt.mode n .aboard bound' w' ∧ w'.services = tt.servicesAt drawn bound' log ∧
      w'.telemetry.rides = w.telemetry.rides := by
  obtain ⟨bound', hbound⟩ :
      ∃ bound', bound' = bound.insert (requestName tt.mode n) (o.binding n .pickedUp) := ⟨_, rfl⟩
  have hothers (id : RequestId) (hid : requestName tt.mode n ≠ id) :
      bound'.find? id = bound.find? id := by rw [hbound, Table.find?_insert, if_neg hid]
  have hfound : w.services.position? tt.mode = some tt.position :=
    hservices ▸ tt.found_servicesAt drawn bound log
  have hawait : w.services.awaitPassenger tt.position (3 * n + 1) (requestName tt.mode n) =
      (true, w.services) := by
    rw [hservices, Services.awaitPassenger_eq (tt.member_servicesAt drawn bound log)]
    exact if_pos (by simp [Timetable.serviceAt, Table.contains, h.bound, binding?])
  have hpickUp : w.services.pickUp tt.position o.vehicle (requestName tt.mode n) now =
      (true, tt.servicesAt drawn bound' log, [.board o.vehicle (3 * n) now,
        .observe (o.observation tt.mode n now .pickedUp (some o.vehicle))]) :=
    hbound ▸ hservices ▸ tt.pickUp_servicesAt h.bound rfl o.vehicle log now
  have hdone : w.onStop now (3 * n + 1) = .ok ((w.noted n
      ({ · with state := .inVehicle, vehicle := some o.vehicle }) (tt.servicesAt drawn bound' log)
      (o.observation tt.mode n now .pickedUp (some o.vehicle))).setStopState (3 * n + 1)
        .completed) := by
    simp only [World.onStop, h.pickup, Outing.pickup, hfound, pickupState, World.onPickup, if_true,
      hawait, hpickUp]
    rfl
  refine ⟨bound', _, hdone, (w.moved_noted _ _ rfl hothers).setStopState (.inl rfl) _, ?_, rfl, rfl⟩
  constructor
  case traveler =>
    rw [World.traveler?_setStopState, World.traveler?_noted, if_pos rfl, h.traveler]
    rfl
  case pickup =>
    rw [World.stop?_setStopState, if_pos rfl, World.stop?_noted, h.pickup]
    rfl
  case dropoff =>
    rw [World.stop?_setStopState, if_neg (Nat.ne_of_lt (Nat.lt_succ_self _)), World.stop?_noted,
      h.dropoff]
    rfl
  case bound =>
    rw [hbound, Table.find?_insert, if_pos rfl]
    rfl
  case progress =>
    show ((w.telemetry.progress.adjust (requestName tt.mode n) _).find? _).isSome = _
    rw [Table.find?_adjust, if_pos rfl, Option.isSome_map, h.progress]
    rfl

/-- The passenger on board alights at the end of the journey. One leg is all there is, so alighting
is arriving. -/
theorem IsAt.onDropoff (h : o.IsAt tt.mode n .aboard bound w)
    (hservices : w.services = tt.servicesAt drawn bound log) (now : Time) :
    ∃ bound' w', w.onStop now (3 * n + 2) = .ok w' ∧ w.Moved tt.mode n bound bound' w' ∧
      o.IsAt tt.mode n .arrived bound' w' ∧ w'.services = tt.servicesAt drawn bound' log ∧
      w'.telemetry.rides.length = w.telemetry.rides.length + 1 := by
  obtain ⟨bound', hbound⟩ : ∃ bound', bound' = bound.erase (requestName tt.mode n) := ⟨_, rfl⟩
  have hothers (id : RequestId) (hid : requestName tt.mode n ≠ id) :
      bound'.find? id = bound.find? id := by rw [hbound, Table.find?_erase, if_neg hid]
  obtain ⟨ride, hride⟩ : ∃ ride, w.telemetry.progress.find? (requestName tt.mode n) = some ride :=
    Option.isSome_iff_exists.1 h.progress
  have hfound : w.services.position? tt.mode = some tt.position :=
    hservices ▸ tt.found_servicesAt drawn bound log
  have hboarded : (w.stop? (3 * n + 1)).any (·.state = .completed) = true := by
    rw [h.pickup]
    rfl
  have hact : w.services.act tt.position (·.dropOff o.vehicle (requestName tt.mode n) now) =
      .ok (some (3 * n, tt.servicesAt drawn bound' log,
        [.observe (o.observation tt.mode n now .droppedOff (some o.vehicle)),
          .alight o.vehicle (3 * n) o.target now])) :=
    hbound ▸ hservices ▸ tt.dropOff_servicesAt h.bound o.vehicle log now
  have hcalls : World.performAll { w with services := tt.servicesAt drawn bound' log }
      [.observe (o.observation tt.mode n now .droppedOff (some o.vehicle)),
        .alight o.vehicle (3 * n) o.target now] =
      .ok (w.noted n (·.alighted (o.traveler tt.mode .arrived).plan o.target)
        (tt.servicesAt drawn bound' log)
        (o.observation tt.mode n now .droppedOff (some o.vehicle))) := by
    show (World.alight _ (3 * n) o.target now >>= Except.ok) = .ok _
    refine congrArg (· >>= Except.ok)
      (World.alight_eq (t := o.traveler tt.mode .aboard) ?_ rfl o.target now)
    exact h.traveler
  have hdone : w.onStop now (3 * n + 2) = .ok ((w.noted n
      (·.alighted (o.traveler tt.mode .arrived).plan o.target) (tt.servicesAt drawn bound' log)
      (o.observation tt.mode n now .droppedOff (some o.vehicle))).setStopState (3 * n + 2)
        .completed) := by
    simp only [World.onStop, h.dropoff, Stop.dropoff, Outing.pickup, hfound, dropoffState,
      World.onDropoff, hboarded, if_true, hact, hcalls]
    rfl
  refine ⟨bound', _, hdone, (w.moved_noted _ _ rfl hothers).setStopState (.inr rfl) _, ?_, rfl, ?_⟩
  · constructor
    case traveler =>
      rw [World.traveler?_setStopState, World.traveler?_noted, if_pos rfl, h.traveler]
      rfl
    case pickup =>
      rw [World.stop?_setStopState, if_neg (Nat.ne_of_gt (Nat.lt_succ_self _)), World.stop?_noted,
        h.pickup]
      rfl
    case dropoff =>
      rw [World.stop?_setStopState, if_pos rfl, World.stop?_noted, h.dropoff]
      rfl
    case bound =>
      rw [hbound, Table.find?_erase, if_pos rfl]
      rfl
    case progress =>
      show ((w.telemetry.follow (o.observation tt.mode n now _ _)).progress.find? _).isSome = _
      simp [Telemetry.follow, observation, hride]
  · show (w.telemetry.follow (o.observation tt.mode n now _ _)).rides.length = _
    simp [Telemetry.follow, observation, hride]

end Outing

/-- The number of outings that are not ahead. -/
def departed (stages : List Stage) : Nat := stages.countP (· ≠ .ahead)

/-- An outing that was ahead departs once. -/
theorem departed_set {stages : List Stage} {n : Nat} {stage stage' : Stage}
    (hstage : stages[n]? = some stage) (hstage' : stage' ≠ .ahead) :
    departed (stages.set n stage') = departed stages + if stage = .ahead then 1 else 0 := by
  have hset := List.countP_set_add (fun s : Stage => decide (s ≠ .ahead)) hstage stage'
  unfold departed
  by_cases hahead : stage = .ahead <;> simp [hahead, hstage'] at hset ⊢ <;> omega

/-- The outings that are not ahead are the first ones. -/
def InOrder (stages : List Stage) : Prop :=
  ∀ (n : Nat) (stage : Stage), stages[n]? = some stage → (stage = .ahead ↔ departed stages ≤ n)

/-- The outings stay in order when the first one that is ahead departs, and when one that has
departed moves on. -/
theorem InOrder.set {stages : List Stage} {n : Nat} {stage stage' : Stage} (h : InOrder stages)
    (hstage : stages[n]? = some stage) (hturn : stage = .ahead → departed stages = n)
    (hstage' : stage' ≠ .ahead) : InOrder (stages.set n stage') := by
  intro m s hs
  have hbefore := h n stage hstage
  rw [departed_set hstage hstage']
  by_cases hm : m = n
  · subst hm
    rw [List.getElem?_set_self (List.getElem?_eq_some_iff.1 hstage).1] at hs
    cases hs
    by_cases hahead : stage = .ahead
    · simp [hstage', hahead, hturn hahead]
    · simpa [hstage', hahead] using hbefore
  · rw [List.getElem?_set_ne (Ne.symm hm)] at hs
    rw [h m s hs]
    by_cases hahead : stage = .ahead
    · rw [if_pos hahead, hturn hahead]
      omega
    · rw [if_neg hahead, Nat.add_zero]

/-- An outing that had not arrived arrives once. -/
theorem arrived_set {stages : List Stage} {n : Nat} {stage : Stage}
    (hstage : stages[n]? = some stage) (hahead : stage ≠ .arrived) (stage' : Stage) :
    (stages.set n stage').countP (· = .arrived) =
      stages.countP (· = .arrived) + if stage' = .arrived then 1 else 0 := by
  have hset := List.countP_set_add (fun s : Stage => decide (s = .arrived)) hstage stage'
  simpa [hahead] using hset

namespace World

/-- A world goes by a timetable whose outings have come to given stages, with given travelers bound
and requests submitted. -/
structure OnTime (tt : Timetable) (stages : List Stage) (bound : Table RequestId Binding)
    (log : List Request) (w : World) : Prop where
  length : stages.length = tt.outings.length
  strict : w.clock.Strict
  traffic : ∀ e : Event, e.kind.IsTraffic → (e ∈ w.clock.pending ↔
    ∃ (n : Nat) (o : Outing) (stage : Stage), tt.outings[n]? = some o ∧
      stages[n]? = some stage ∧ e ∈ o.events n stage)
  undispatched : ∀ e ∈ w.clock.pending, e.kind ≠ .shiftDispatch
  outings : ∀ (n : Nat) (o : Outing) (stage : Stage), tt.outings[n]? = some o →
    stages[n]? = some stage → o.IsAt tt.mode n stage bound w
  inOrder : InOrder stages
  size : w.entities.length = 3 * tt.outings.length
  services : w.services = tt.servicesAt (departed stages) bound log
  log : log.map (·.id) = (List.range (departed stages)).map (requestName tt.mode)
  rides : w.telemetry.rides.length = stages.countP (· = .arrived)
  shifts : w.shifts = none
  fault : w.fault = none

variable {tt : Timetable} {stages : List Stage} {bound bound' : Table RequestId Binding}
  {log log' : List Request} {w w' : World} {e : Event} {clock : Clock} {n : Nat} {o : Outing}
  {stage stage' : Stage}

/-! ## Which event is next -/

/-- What is to come of an outing at its stage is pending. -/
theorem OnTime.mem_pending (h : w.OnTime tt stages bound log) (ho : tt.outings[n]? = some o)
    (hstage : stages[n]? = some stage) (he : e ∈ o.events n stage) : e ∈ w.clock.pending :=
  (h.traffic e (Outing.isTraffic_of_mem_events he)).2 ⟨n, o, stage, ho, hstage, he⟩

/-- What is due before another pending event is taken first. -/
theorem OnTime.not_before (h : w.OnTime tt stages bound log)
    (hnext : w.clock.next? = some (e, clock)) {d : Event} (hd : d ∈ w.clock.pending) :
    ¬ d.Before e := by
  rw [(Clock.next?_eq_some hnext).1] at hd
  rcases List.mem_cons.1 hd with rfl | hd
  · exact fun hself => hself.asymm hself
  · exact ((h.strict.next hnext).2 d hd).asymm

/-- Traffic that is next is the first event of an outing that is to come. -/
theorem OnTime.exists_next (h : w.OnTime tt stages bound log)
    (hnext : w.clock.next? = some (e, clock)) (he : e.kind.IsTraffic) :
    ∃ (n : Nat) (o : Outing) (stage : Stage) (rest : List Event), tt.outings[n]? = some o ∧
      stages[n]? = some stage ∧ o.events n stage = e :: rest := by
  have hpending : e ∈ w.clock.pending := (Clock.next?_eq_some hnext).1 ▸ List.mem_cons_self
  obtain ⟨n, o, stage, ho, hstage, hmem⟩ := (h.traffic e he).1 hpending
  cases hevents : o.events n stage with
  | nil => simp [hevents] at hmem
  | cons a rest =>
    refine ⟨n, o, stage, rest, ho, hstage, ?_⟩
    rw [hevents] at hmem
    rcases List.mem_cons.1 hmem with rfl | hmem
    · exact hevents
    · have hsorted := Outing.pairwise_events (tt.timely o (List.mem_of_getElem? ho)) n stage
      rw [hevents, List.pairwise_cons] at hsorted
      have ha : a ∈ w.clock.pending := h.mem_pending ho hstage (hevents ▸ List.mem_cons_self)
      exact absurd (hsorted.1 e hmem) (h.not_before hnext ha)

/-- The next to depart is the first outing that is ahead. One that is listed before it would depart
first. -/
theorem OnTime.departed_eq (h : w.OnTime tt stages bound log)
    (hnext : w.clock.next? = some (o.departs n, clock)) (ho : tt.outings[n]? = some o)
    (hstage : stages[n]? = some .ahead) : departed stages = n := by
  have hle : departed stages ≤ n := (h.inOrder n .ahead hstage).1 rfl
  refine Nat.le_antisymm hle (Nat.le_of_not_lt fun hlt => ?_)
  have hn := (List.getElem?_eq_some_iff.1 ho).1
  have hm : departed stages < tt.outings.length := Nat.lt_trans hlt hn
  have ho' : tt.outings[departed stages]? = some tt.outings[departed stages] :=
    List.getElem?_eq_getElem hm
  have hstage' : stages[departed stages]? = some _ := List.getElem?_eq_getElem (h.length ▸ hm)
  have hahead := (h.inOrder _ _ hstage').2 (Nat.le_refl _)
  rw [hahead] at hstage'
  refine h.not_before hnext (h.mem_pending ho' hstage' List.mem_cons_self)
    (Event.before_of_serial_lt ?_ (Nat.mul_lt_mul_of_pos_left hlt (Nat.succ_pos 2)))
  have hsorted := List.pairwise_iff_getElem.1 tt.sorted _ _ hm hn hlt
  rw [(List.getElem?_eq_some_iff.1 ho).2] at hsorted
  exact (UInt64.lt_or_eq_of_le hsorted).imp_right fun heq => ⟨heq, Nat.le_refl _⟩

/-! ## What an event changes -/

/-- An outing moves on to its next stage, and all others stay where they are. -/
theorem OnTime.move (h : w.OnTime tt stages bound log)
    (hnext : w.clock.next? = some (e, clock)) (ho : tt.outings[n]? = some o)
    (hstage : stages[n]? = some stage) (hevents : o.events n stage = e :: o.events n stage')
    (hturn : stage = .ahead → departed stages = n) (hstage' : stage' ≠ .ahead)
    (hmoved : World.Moved tt.mode n bound bound' { w with clock, current := some e } w')
    (hat : o.IsAt tt.mode n stage' bound' w')
    (hservices : w'.services = tt.servicesAt (departed (stages.set n stage')) bound' log')
    (hlog : log'.map (·.id) =
      (List.range (departed (stages.set n stage'))).map (requestName tt.mode))
    (hrides : w'.telemetry.rides.length = (stages.set n stage').countP (· = .arrived)) :
    w'.OnTime tt (stages.set n stage') bound' log' := by
  have hn : n < stages.length := (List.getElem?_eq_some_iff.1 hstage).1
  have hself : (stages.set n stage')[n]? = some stage' := List.getElem?_set_self hn
  have hother {m : Nat} (hm : m ≠ n) : (stages.set n stage')[m]? = stages[m]? :=
    List.getElem?_set_ne (Ne.symm hm)
  have hpending (d : Event) : d ∈ w'.clock.pending ↔ d ∈ w.clock.pending ∧ d ≠ e := by
    rw [show w'.clock = clock from hmoved.clock]
    exact h.strict.mem_next_iff hnext d
  constructor
  case length => rw [List.length_set, h.length]
  case strict => exact hmoved.clock ▸ (h.strict.next hnext).1
  case traffic =>
    intro d hd
    rw [hpending, h.traffic d hd]
    constructor
    · rintro ⟨⟨m, o', s, ho', hs, hmem⟩, hne⟩
      by_cases hm : m = n
      · subst hm
        obtain rfl := Option.some.inj (ho.symm.trans ho')
        obtain rfl := Option.some.inj (hstage.symm.trans hs)
        rw [hevents] at hmem
        exact ⟨m, o, stage', ho, hself, (List.mem_cons.1 hmem).resolve_left hne⟩
      · exact ⟨m, o', s, ho', (hother hm).trans hs, hmem⟩
    · rintro ⟨m, o', s, ho', hs, hmem⟩
      by_cases hm : m = n
      · subst hm
        obtain rfl := Option.some.inj (ho.symm.trans ho')
        obtain rfl := Option.some.inj (hself.symm.trans hs)
        have hnodup := o.nodup_events m stage
        rw [hevents, List.nodup_cons] at hnodup
        exact ⟨⟨m, o, stage, ho, hstage, hevents ▸ List.mem_cons_of_mem e hmem⟩,
          fun heq => hnodup.1 (heq ▸ hmem)⟩
      · rw [hother hm] at hs
        refine ⟨⟨m, o', s, ho', hs, hmem⟩, fun heq => hm ?_⟩
        have he : e ∈ o.events n stage := hevents ▸ List.mem_cons_self
        rw [← Outing.serial_of_mem_events hmem, heq, Outing.serial_of_mem_events he]
  case undispatched => exact fun d hd => h.undispatched d ((hpending d).1 hd).1
  case outings =>
    intro m o' s ho' hs
    by_cases hm : m = n
    · subst hm
      obtain rfl := Option.some.inj (ho.symm.trans ho')
      obtain rfl := Option.some.inj (hself.symm.trans hs)
      exact hat
    · have hbefore := h.outings m o' s ho' (hother hm ▸ hs)
      exact (hbefore.setClock clock (some e)).moved hmoved hm
  case inOrder => exact h.inOrder.set hstage hturn hstage'
  case size => exact hmoved.size.trans h.size
  case services => exact hservices
  case log => exact hlog
  case rides => exact hrides
  case shifts => exact hmoved.shifts.trans h.shifts
  case fault => exact hmoved.fault.trans h.fault

/-- As long as the traffic stays the same, the rest of the clock does not matter. -/
theorem OnTime.setClock {current : Option Event} (h : w.OnTime tt stages bound log)
    (hstrict : clock.Strict)
    (htraffic : ∀ d : Event, d.kind.IsTraffic → (d ∈ clock.pending ↔ d ∈ w.clock.pending))
    (hundispatched : ∀ d ∈ clock.pending, d.kind ≠ .shiftDispatch) :
    World.OnTime tt stages bound log { w with clock, current } where
  length := h.length
  strict := hstrict
  traffic d hd := (htraffic d hd).trans (h.traffic d hd)
  undispatched := hundispatched
  outings n o stage ho hstage := (h.outings n o stage ho hstage).setClock _ _
  inOrder := h.inOrder
  size := h.size
  services := h.services
  log := h.log
  rides := h.rides
  shifts := h.shifts
  fault := h.fault

/-- The start and the steps of the services are no part of any outing. -/
theorem OnTime.next (h : w.OnTime tt stages bound log) (hnext : w.clock.next? = some (e, clock))
    (he : ¬ e.kind.IsTraffic) :
    World.OnTime tt stages bound log { w with clock, current := some e } := by
  have hpending := (Clock.next?_eq_some hnext).1
  refine h.setClock (h.strict.next hnext).1 (fun d hd => ?_) fun d hd => ?_
  · have hne : d ≠ e := fun heq => he (heq ▸ hd)
    rw [hpending, List.mem_cons, or_iff_right hne]
  · exact h.undispatched d (hpending ▸ List.mem_cons_of_mem e hd)

/-- Steps may be scheduled at any time. -/
theorem OnTime.schedule {time : Time} {kind : EventKind} (h : w.OnTime tt stages bound log)
    (hkind : ¬ kind.IsTraffic) (hdispatch : kind ≠ .shiftDispatch)
    (hschedule : w.schedule time kind none = .ok w') : w'.OnTime tt stages bound log := by
  obtain ⟨clock, hclock, rfl⟩ := schedule_eq_ok hschedule
  have hgrown := Clock.grown_scheduleAt hclock
  refine h.setClock (h.strict.scheduleAt hclock) (fun d hd => ⟨fun hmem => ?_, hgrown.mem⟩)
    fun d hd => ?_
  · exact (hgrown.mem_or hmem).resolve_left fun hnew => hkind (hnew.2.1 ▸ hd)
  · rcases hgrown.mem_or hd with ⟨-, rfl, -⟩ | hd
    · exact hdispatch
    · exact h.undispatched d hd

/-- A step finds nothing to do. -/
theorem OnTime.onPassengerStep {now : Time} (h : w.OnTime tt stages bound log)
    (hstep : w.onPassengerStep now = .ok w') : w'.OnTime tt stages bound log := by
  obtain ⟨ns, hidle⟩ := Services.stepAll_of_idle (tt.idle_servicesAt _ _ _) now
  rw [← h.services] at hidle
  obtain ⟨_, services, calls, w₁, hsteps, hperform, hafter⟩ := onPassengerStep_eq_ok hstep
  cases hidle.symm.trans hsteps
  cases hperform
  rcases hafter with ⟨-, rfl⟩ | ⟨time, -, hschedule⟩
  · exact h
  · exact OnTime.schedule h (by simp [EventKind.IsTraffic]) (by simp) hschedule

/-- Departures and arrivals of vehicles move their outings on. -/
theorem OnTime.traffic_handle (h : w.OnTime tt stages bound log)
    (hnext : w.clock.next? = some (e, clock)) (he : e.kind.IsTraffic)
    (hhandle : World.handle { w with clock, current := some e } e = .ok w') :
    ∃ stages' bound' log', w'.OnTime tt stages' bound' log' := by
  obtain ⟨n, o, stage, rest, ho, hstage, hevents⟩ := h.exists_next hnext he
  generalize hv : ({ w with clock, current := some e } : World) = v at hhandle
  have hat : o.IsAt tt.mode n stage bound v :=
    hv ▸ (h.outings n o stage ho hstage).setClock clock (some e)
  have hservices : v.services = tt.servicesAt (departed stages) bound log := by
    rw [← hv, ← h.services]
  have hrides : v.telemetry.rides.length = stages.countP (· = .arrived) := by
    rw [← hv, ← h.rides]
  obtain ⟨stage', rfl, ⟨rfl, rfl, rfl⟩ | ⟨rfl, rfl, rfl⟩ | ⟨rfl, rfl, rfl⟩⟩ :=
    Outing.exists_next_of_events hevents
  · have hturn := h.departed_eq hnext ho hstage
    rw [hturn] at hservices
    obtain ⟨bound', w₁, hdone, hmoved, hafter, hserved, hsame⟩ :=
      hat.onDeparture (List.mem_of_getElem? ho) hservices o.departure
    cases hdone.symm.trans hhandle
    have hset : departed (stages.set n .waiting) = n + 1 := by
      rw [departed_set hstage (by simp), hturn, if_pos rfl]
    refine ⟨_, bound', _, h.move hnext ho hstage hevents (fun _ => hturn) (by simp)
      (hv ▸ hmoved) hafter (hset ▸ hserved) ?_ ?_⟩
    · rw [hset, List.map_append, h.log, hturn, List.range_succ, List.map_append]
      rfl
    · rw [hsame, hrides, arrived_set hstage (by simp), if_neg (by simp), Nat.add_zero]
  · obtain ⟨bound', w₁, hdone, hmoved, hafter, hserved, hsame⟩ :=
      hat.onPickup hservices o.pickupAt
    cases hdone.symm.trans hhandle
    have hset : departed (stages.set n .aboard) = departed stages := by
      rw [departed_set hstage (by simp), if_neg (by simp), Nat.add_zero]
    refine ⟨_, bound', _, h.move hnext ho hstage hevents (by simp) (by simp)
      (hv ▸ hmoved) hafter (hset ▸ hserved) (hset ▸ h.log) ?_⟩
    rw [hsame, hrides, arrived_set hstage (by simp), if_neg (by simp), Nat.add_zero]
  · obtain ⟨bound', w₁, hdone, hmoved, hafter, hserved, hmore⟩ :=
      hat.onDropoff hservices o.dropoffAt
    cases hdone.symm.trans hhandle
    have hset : departed (stages.set n .arrived) = departed stages := by
      rw [departed_set hstage (by simp), if_neg (by simp), Nat.add_zero]
    refine ⟨_, bound', _, h.move hnext ho hstage hevents (by simp) (by simp)
      (hv ▸ hmoved) hafter (hset ▸ hserved) (hset ▸ h.log) ?_⟩
    rw [hmore, hrides, arrived_set hstage (by simp), if_pos rfl]

/-- Every event keeps to the timetable. -/
theorem OnTime.handle (h : w.OnTime tt stages bound log)
    (hnext : w.clock.next? = some (e, clock))
    (hhandle : World.handle { w with clock, current := some e } e = .ok w') :
    ∃ stages' bound' log', w'.OnTime tt stages' bound' log' := by
  by_cases htraffic : e.kind.IsTraffic
  · exact h.traffic_handle hnext htraffic hhandle
  · have hafter := h.next hnext htraffic
    have hfirst : e ∈ w.clock.pending := (Clock.next?_eq_some hnext).1 ▸ List.mem_cons_self
    refine ⟨stages, bound, log, ?_⟩
    unfold World.handle at hhandle
    split at hhandle
    · rw [onStart_eq hafter.shifts] at hhandle
      exact hafter.schedule (by simp [EventKind.IsTraffic]) (by simp) hhandle
    · next hkind => exact absurd hkind (h.undispatched e hfirst)
    · exact hafter.onPassengerStep hhandle
    · next hkind _ => exact absurd (.inl hkind) htraffic
    · next hkind _ => exact absurd (.inr hkind) htraffic
    · cases hhandle
      exact hafter

/-- A scenario keeps to its timetable as long as it runs. -/
theorem OnTime.runFrom {before taken : List Event} {limit : Nat}
    (h : w.OnTime tt stages bound log) (hrun : runFrom before limit w = .ok (taken, w')) :
    ∃ stages' bound' log', w'.OnTime tt stages' bound' log' := by
  induction limit generalizing w before stages bound log with
  | zero =>
    cases hrun
    exact ⟨stages, bound, log, h⟩
  | succ limit ih =>
    unfold World.runFrom at hrun
    split at hrun
    · cases hrun
    · cases hrun
      exact ⟨stages, bound, log, h⟩
    · next e v hnext =>
      obtain ⟨-, clock, hclock, hhandle⟩ := next?_eq_ok_some hnext
      obtain ⟨stages', bound', log', hafter⟩ := h.handle hclock hhandle
      exact ih hafter hrun

/-! ## The end -/

/-- No number is that of a stop and of a traveler. -/
theorem traveler?_eq_none_of_stop? {id : EntityId} {s : Stop} (h : w.stop? id = some s) :
    w.traveler? id = none := by
  unfold stop? at h
  unfold traveler?
  split at h
  · next hentity => rw [hentity]
  · cases h

/-- Once nothing is pending, every outing has arrived. -/
theorem OnTime.eq_arrived (h : w.OnTime tt stages bound log) (hempty : w.clock.isEmpty = true) :
    ∀ stage ∈ stages, stage = .arrived := by
  intro stage hmem
  obtain ⟨n, hstage⟩ := List.mem_iff_getElem?.1 hmem
  have hn : n < tt.outings.length := h.length ▸ (List.getElem?_eq_some_iff.1 hstage).1
  have hnone (d : Event) : d ∉ tt.outings[n].events n stage := fun hd =>
    absurd (h.mem_pending (List.getElem?_eq_getElem hn) hstage hd)
      (by simp [List.isEmpty_iff.1 hempty])
  cases stage with
  | arrived => rfl
  | ahead | waiting | aboard => exact absurd List.mem_cons_self (hnone _)

/-- Every outing of a timetable has been completed: the travelers are those of the outings and are
where they wanted to be, every ride is over, and the requests were submitted in the order of the
outings. -/
structure Completed (tt : Timetable) (w : World) : Prop where
  traveler?_eq_some_iff : ∀ (id : Nat) (t : Traveler), w.traveler? id = some t ↔
    ∃ n o, tt.outings[n]? = some o ∧ id = 3 * n ∧ t = o.traveler tt.mode .arrived
  rides : w.telemetry.rides.length = tt.outings.length
  submitted : w.services.submitted.map (·.id) =
    (List.range tt.outings.length).map (requestName tt.mode)

/-- Once nothing is pending, the timetable is completed. Only the first of the three entities of an
outing is a traveler. -/
theorem OnTime.completed (h : w.OnTime tt stages bound log) (hempty : w.clock.isEmpty = true) :
    w.Completed tt := by
  have harrived := h.eq_arrived hempty
  have hat (n : Nat) (o : Outing) (ho : tt.outings[n]? = some o) :
      o.IsAt tt.mode n .arrived bound w := by
    have hn : n < stages.length := h.length ▸ (List.getElem?_eq_some_iff.1 ho).1
    have hstage : stages[n]? = some .arrived := by
      rw [List.getElem?_eq_getElem hn, harrived _ (List.getElem_mem hn)]
    exact h.outings n o .arrived ho hstage
  refine ⟨fun id t => ⟨fun ht => ?_, ?_⟩, ?_, ?_⟩
  · have hid : id < 3 * tt.outings.length := by
      rw [← h.size]
      by_contra hout
      have hentity : w.entities[id]? = none := List.getElem?_eq_none (Nat.le_of_not_lt hout)
      simp [traveler?, hentity] at ht
    have hn : id / 3 < tt.outings.length := by omega
    have ho : tt.outings[id / 3]? = some _ := List.getElem?_eq_getElem hn
    have hhere := hat _ _ ho
    obtain hfirst | hsecond | hthird :
        id = 3 * (id / 3) ∨ id = 3 * (id / 3) + 1 ∨ id = 3 * (id / 3) + 2 := by omega
    · rw [hfirst, hhere.traveler] at ht
      exact ⟨id / 3, _, ho, hfirst, (Option.some.inj ht).symm⟩
    · rw [hsecond, traveler?_eq_none_of_stop? hhere.pickup] at ht
      cases ht
    · rw [hthird, traveler?_eq_none_of_stop? hhere.dropoff] at ht
      cases ht
  · rintro ⟨n, o, ho, rfl, rfl⟩
    exact (hat n o ho).traveler
  · rw [h.rides, List.countP_eq_length.2 fun stage hstage => by simp [harrived stage hstage],
      h.length]
  · have hall : departed stages = tt.outings.length := by
      rw [← h.length]
      exact List.countP_eq_length.2 fun stage hstage => by simp [harrived stage hstage]
    rw [h.services, ← hall]
    exact h.log

end World

end DialARide
