import DialARide.Proofs.World.Ending

/-!
# Outings by timetable

On an outing one traveler is taken from one link to another by one vehicle, whose two stops are
fixed in advance. A timetable lists outings by departure; no vehicle comes before its passenger has
set out, and the stops are told in advance under which name the service will know the ride. How far
an outing has come is a matter of four stages.
-/

namespace DialARide

/-- How far an outing has come. -/
inductive Stage where
  | ahead
  | waiting
  | aboard
  | arrived
  deriving DecidableEq, Repr

/-- A traveler's way from one link to another, and the vehicle that calls at both. -/
structure Outing where
  person : PersonId
  vehicle : VehicleId
  source : LinkId
  target : LinkId
  departure : Time
  pickupAt : Time
  dropoffAt : Time
  deriving DecidableEq, Repr

namespace Outing

/-- The leg to be travelled. -/
def leg (o : Outing) (mode : ModeId) : Leg where
  mode
  source := o.source
  target := o.target
  departure := o.departure

/-- The stop at which the traveler of the outing of a number boards. -/
def pickup (o : Outing) (mode : ModeId) (n : Nat) : Stop where
  vehicle := o.vehicle
  request := requestName mode n
  mode
  kind := .pickup

/-- What a scenario is filled with for the outing of a number. -/
def provisions (o : Outing) (mode : ModeId) (n : Nat) : List Provision :=
  [.traveler o.person o.source [o.leg mode], .stop (o.pickup mode n) o.pickupAt,
    .stop ((o.pickup mode n).dropoff (3 * n + 1)) o.dropoffAt]

/-- The departure of the traveler. -/
def departs (o : Outing) (n : Nat) : Event :=
  ⟨o.departure, .departure, some (.traveler (3 * n)), 3 * n⟩

/-- The arrival of the vehicle at the pickup. -/
def picksUp (o : Outing) (n : Nat) : Event :=
  ⟨o.pickupAt, .stopReached, some (.stop (3 * n + 1)), 3 * n + 1⟩

/-- The arrival of the vehicle at the dropoff. -/
def dropsOff (o : Outing) (n : Nat) : Event :=
  ⟨o.dropoffAt, .stopReached, some (.stop (3 * n + 2)), 3 * n + 2⟩

/-- The events that are to come at a stage. -/
def events (o : Outing) (n : Nat) : Stage → List Event
  | .ahead => [o.departs n, o.picksUp n, o.dropsOff n]
  | .waiting => [o.picksUp n, o.dropsOff n]
  | .aboard => [o.dropsOff n]
  | .arrived => []

/-- The traveler at a stage. -/
def traveler (o : Outing) (mode : ModeId) : Stage → Traveler
  | .ahead => { person := o.person, link := o.source, plan := { legs := [o.leg mode] } }
  | .waiting =>
    { person := o.person, link := o.source, plan := { legs := [o.leg mode] }, state := .waiting }
  | .aboard =>
    { person := o.person, link := o.source, plan := { legs := [o.leg mode] }
      state := .inVehicle, vehicle := some o.vehicle }
  | .arrived =>
    { person := o.person, link := o.target, plan := { legs := [o.leg mode], position := 1 }
      state := .arrived }

/-- How far the pickup has come at a stage. -/
def pickupState : Stage → StopState
  | .ahead | .waiting => .scheduled
  | .aboard | .arrived => .completed

/-- How far the dropoff has come at a stage. -/
def dropoffState : Stage → StopState
  | .ahead | .waiting | .aboard => .scheduled
  | .arrived => .completed

/-- The traveler and the stops of an outing at a stage. -/
def entities (o : Outing) (mode : ModeId) (n : Nat) (stage : Stage) : List Entity :=
  [.traveler (o.traveler mode stage), .stop { o.pickup mode n with state := pickupState stage },
    .stop { (o.pickup mode n).dropoff (3 * n + 1) with state := dropoffState stage }]

/-- The binding of the traveler to the request. -/
def binding (o : Outing) (n : Nat) (status : RequestStatus) : Binding where
  traveler := 3 * n
  person := o.person
  target := o.target
  status

/-- The binding that is kept at a stage. -/
def binding? (o : Outing) (n : Nat) : Stage → Option Binding
  | .ahead | .arrived => none
  | .waiting => some (o.binding n .submitted)
  | .aboard => some (o.binding n .pickedUp)

/-- The request that is made at the departure. -/
def request (o : Outing) (mode : ModeId) (n : Nat) (now : Time) : Request where
  id := requestName mode n
  passenger := o.person
  mode
  source := o.source
  target := o.target
  earliestStart := now
  submittedAt := now
  route := none

/-- What is observed of the outing at a stage of the ride. -/
def observation (o : Outing) (mode : ModeId) (n : Nat) (now : Time) (kind : ObservationKind)
    (vehicle : Option VehicleId) : Observation :=
  { time := now, kind, mode, request := requestName mode n, person := o.person, vehicle }

end Outing

/-- Outings by departure, and a vacant service that is the first open one of their mode. Nothing is
rejected by the optimizer. -/
structure Timetable where
  mode : ModeId
  outings : List Outing
  services : Services
  position : Nat
  service : Service
  sorted : outings.Pairwise fun o o' => o.departure ≤ o'.departure
  timely : ∀ o ∈ outings, o.departure ≤ o.pickupAt ∧ o.pickupAt ≤ o.dropoffAt
  distinct : ∀ o ∈ outings, o.source ≠ o.target
  linked : ∀ o ∈ outings, ∀ id ∈ [o.source, o.target],
    ∃ link, service.network.link? id = some link ∧ link.id = id
  member : services.members[position]? = some service
  found : services.position? mode = some position
  accepted : ∀ r, services.verdict r = none
  idle : ∀ s ∈ services.members, s.mailbox = []
  proposed : service.naming = .proposed
  shared : service.ownOptimizer = false
  screening : ∀ r : Request, r.source ≠ r.target → service.screening.accepts r
  unbooked : ∀ desk, service.desk = some desk → desk.bookings = .empty
  unawaited : service.waitingStops = .empty
  unbound : service.bound = .empty
  undrawn : service.drawn = 0
  unsubmitted : services.submitted = []

namespace Services

variable {h : Services} {i : Nat} {s : Service}

/-- What the optimizer accepts is put down, and nothing else changes. -/
private theorem foldl_submitShared_of_accepted (hverdict : ∀ r, h.verdict r = none)
    (submitted : List Request) :
    submitted.foldl submitShared h = { h with submitted := h.submitted ++ submitted } := by
  induction submitted generalizing h with
  | nil => simp
  | cons r rest ih =>
    have hfirst : h.submitShared r = { h with submitted := h.submitted ++ [r] } := by
      simp [submitShared, hverdict]
    rw [List.foldl_cons, hfirst, ih (by exact hverdict)]
    simp

/-- The first open service of a mode stays where it is when a service changes in other respects. -/
theorem position?_set (hs : h.members[i]? = some s) (s' : Service) (hclosed : s'.closed = s.closed)
    (hmode : s'.mode = s.mode) (mode : ModeId) :
    Services.position? { h with members := h.members.set i s' } mode = h.position? mode := by
  let serves (u : Service) : Bool := !u.closed && u.mode = mode
  have hposition (members : List Service) :
      members.findIdx? serves = (members.map serves).findIdx? id := by
    rw [List.findIdx?_map]
    rfl
  obtain ⟨hi, rfl⟩ := List.getElem?_eq_some_iff.1 hs
  have hsame : (h.members.set i s').map serves = h.members.map serves := by
    have hserves : serves s' = serves h.members[i] := by simp [serves, hclosed, hmode]
    rw [List.map_set, hserves, ← List.getElem_map serves (h := by simpa using hi)]
    exact List.set_getElem_self _
  show (h.members.set i s').findIdx? serves = h.members.findIdx? serves
  rw [hposition, hposition, hsame]

/-- A step of services without rejections changes nothing. -/
theorem stepAll_of_idle (hidle : ∀ s ∈ h.members, s.mailbox = []) (now : Time) :
    ∃ ns, h.stepAll now = (ns, h, []) := by
  have hstepAt (i : Nat) : ∃ n, h.stepAt i now = (n, h, []) := by
    unfold stepAt
    cases hs : h.members[i]? with
    | none => exact ⟨0, rfl⟩
    | some s =>
      have hnone : s.mailbox = [] := hidle s (List.mem_of_getElem? hs)
      have hstep : s.step now = { service := s } := by
        cases s
        cases hnone
        rfl
      simp only [hstep]
      exact ⟨_, by rw [commit_self hs]⟩
  unfold stepAll
  induction (h.members.zipIdx.filter (!·.1.closed)).map (·.2) with
  | nil => exact ⟨[], rfl⟩
  | cons i rest ih =>
    obtain ⟨n, hfirst⟩ := hstepAt i
    obtain ⟨ns, hrest⟩ := ih
    exact ⟨n :: ns, by simp [stepEach, hfirst, hrest]⟩

end Services

namespace Timetable

variable (tt : Timetable) {n : Nat} {o : Outing} {bound : Table RequestId Binding}
  {log : List Request} {now : Time}

/-- The service once a number of travelers has departed, some of whom are still bound. -/
def serviceAt (drawn : Nat) (bound : Table RequestId Binding) : Service :=
  { tt.service with drawn, bound }

/-- The services once a number of travelers has departed, some of whom are still bound. -/
def servicesAt (drawn : Nat) (bound : Table RequestId Binding) (log : List Request) : Services :=
  { tt.services with
    members := tt.services.members.set tt.position (tt.serviceAt drawn bound), submitted := log }

theorem mode_eq : tt.service.mode = tt.mode ∧ tt.service.closed = false := by
  obtain ⟨s, hs, hopen, hmode⟩ := Services.position?_eq_some tt.found
  obtain rfl := Option.some.inj (tt.member.symm.trans hs)
  exact ⟨hmode, hopen⟩

/-- At first nobody has departed. -/
theorem servicesAt_zero : tt.servicesAt 0 .empty [] = tt.services := by
  have hservice : tt.serviceAt 0 .empty = tt.service := by
    rw [serviceAt, ← tt.undrawn, ← tt.unbound]
  obtain ⟨hposition, hmember⟩ := List.getElem?_eq_some_iff.1 tt.member
  rw [servicesAt, hservice, ← hmember, List.set_getElem_self, ← tt.unsubmitted]

theorem member_servicesAt (drawn : Nat) (bound : Table RequestId Binding) (log : List Request) :
    (tt.servicesAt drawn bound log).members[tt.position]? = some (tt.serviceAt drawn bound) :=
  List.getElem?_set_self (List.getElem?_eq_some_iff.1 tt.member).1

theorem found_servicesAt (drawn : Nat) (bound : Table RequestId Binding) (log : List Request) :
    (tt.servicesAt drawn bound log).position? tt.mode = some tt.position :=
  (Services.position?_set tt.member (tt.serviceAt drawn bound) rfl rfl tt.mode).trans tt.found

theorem idle_servicesAt (drawn : Nat) (bound : Table RequestId Binding) (log : List Request) :
    ∀ s ∈ (tt.servicesAt drawn bound log).members, s.mailbox = [] := by
  intro s hs
  rcases List.mem_or_eq_of_mem_set hs with hs | rfl
  · exact tt.idle s hs
  · exact tt.idle tt.service (List.mem_of_getElem? tt.member)

/-- A turn of the service replaces the travelers bound, and what is submitted is put down. -/
theorem commit_servicesAt (drawn drawn' : Nat) (bound bound' : Table RequestId Binding)
    (log : List Request) (calls : List Call) (submitted : List Request) :
    (tt.servicesAt drawn bound log).commit tt.position
        { service := tt.serviceAt drawn' bound', calls, submitted } =
      tt.servicesAt drawn' bound' (log ++ submitted) := by
  have hshared : (tt.serviceAt drawn' bound').ownOptimizer = false := tt.shared
  unfold Services.commit servicesAt
  simp only [hshared, Bool.false_eq_true, if_false, List.set_set]
  rw [Services.foldl_submitShared_of_accepted (by exact tt.accepted)]

/-- Whoever departs without a booking makes the request of the next number. -/
theorem depart_serviceAt (ho : o ∈ tt.outings) (n : Nat) (bound : Table RequestId Binding)
    (now : Time) :
    (tt.serviceAt n bound).depart now
        ⟨3 * n, o.person, tt.mode, some ⟨0, o.leg tt.mode⟩⟩ o.source =
      .ok (some {
        service := tt.serviceAt (n + 1)
          (bound.insert (requestName tt.mode n) (o.binding n .submitted))
        calls := [.observe (o.observation tt.mode n now .waiting none)]
        submitted := [o.request tt.mode n now] }) := by
  obtain ⟨source, hsource, hsourceId⟩ := tt.linked o ho o.source (by simp)
  obtain ⟨target, htarget, htargetId⟩ := tt.linked o ho o.target (by simp)
  have hmode : (tt.serviceAt n bound).mode = tt.mode := tt.mode_eq.1
  have hcollect : (tt.serviceAt n bound).collect ⟨o.person, 0⟩ = none := by
    unfold Service.collect serviceAt
    cases hdesk : tt.service.desk with
    | none => rfl
    | some desk => simp [tt.unbooked desk hdesk]
  have hsourced : (tt.serviceAt n bound).requireLink o.source = .ok source := by
    simp [Service.requireLink, serviceAt, hsource]
  have htargeted : (tt.serviceAt n bound).requireLink o.target = .ok target := by
    simp [Service.requireLink, serviceAt, htarget]
  have hrequest : (tt.serviceAt n bound).request (tt.serviceAt n bound).nextName o.person
      (o.leg tt.mode) source target now now = o.request tt.mode n now := by
    simp [Service.request, Service.nextName, Outing.request, Outing.leg, serviceAt, tt.proposed,
      Naming.choose, requestName, tt.mode_eq.1, hsourceId, htargetId]
  have haccepts : (tt.serviceAt n bound).screening.accepts (o.request tt.mode n now) = true :=
    tt.screening _ (tt.distinct o ho)
  have hnobody : (tt.serviceAt n bound).waitingStops.find? (requestName tt.mode n) = none := by
    rw [serviceAt, tt.unawaited, Table.find?_empty]
  have hready : (tt.serviceAt n bound).readyCalls (requestName tt.mode n) (3 * n) now = [] := by
    rw [Service.readyCalls, hnobody]
    rfl
  have hwaiting : (tt.serviceAt n bound).waitingCall now (o.request tt.mode n now) =
      .observe (o.observation tt.mode n now .waiting none) := by
    rw [Service.waitingCall, Service.observation, hmode]
    rfl
  unfold Service.depart
  rw [if_neg (by simp [hmode])]
  simp only [hcollect, hsourced, show (o.leg tt.mode).target = o.target from rfl, htargeted,
    Bind.bind, Except.bind, Pure.pure, Except.pure]
  rw [Service.departNow_eq]
  simp only [hrequest, haccepts, if_true]
  rw [show (o.request tt.mode n now).id = requestName tt.mode n from rfl, hready,
    Table.erase_of_find?_eq_none hnobody, hwaiting]
  rfl

/-- The traveler of the outing whose turn it is departs and is bound. -/
theorem depart_servicesAt (ho : o ∈ tt.outings) (n : Nat) (bound : Table RequestId Binding)
    (log : List Request) (now : Time) :
    (tt.servicesAt n bound log).depart now
        ⟨3 * n, o.person, tt.mode, some ⟨0, o.leg tt.mode⟩⟩ o.source =
      .ok (true, tt.servicesAt (n + 1)
        (bound.insert (requestName tt.mode n) (o.binding n .submitted))
        (log ++ [o.request tt.mode n now]),
        [.observe (o.observation tt.mode n now .waiting none)]) := by
  unfold Services.depart Services.departAt
  simp only [tt.found_servicesAt, tt.member_servicesAt, tt.depart_serviceAt ho, Bind.bind,
    Except.bind, Pure.pure, Except.pure, tt.commit_servicesAt]

/-- The passenger of an outing boards. -/
theorem pickUp_servicesAt {drawn : Nat} {b : Binding}
    (hb : bound.find? (requestName tt.mode n) = some b) (hstatus : b.status = .submitted)
    (vehicle : VehicleId) (log : List Request) (now : Time) :
    (tt.servicesAt drawn bound log).pickUp tt.position vehicle (requestName tt.mode n) now =
      (true, tt.servicesAt drawn
        (bound.insert (requestName tt.mode n) { b with status := .pickedUp }) log,
        [.board vehicle b.traveler now, .observe ⟨now, .pickedUp, tt.mode, requestName tt.mode n,
          b.person, some vehicle, none⟩]) := by
  have hnobody : tt.service.waitingStops.find? (requestName tt.mode n) = none := by
    rw [tt.unawaited, Table.find?_empty]
  have hturn : (tt.serviceAt drawn bound).pickUp vehicle (requestName tt.mode n) now = some {
      service := tt.serviceAt drawn
        (bound.insert (requestName tt.mode n) { b with status := .pickedUp })
      calls := [.board vehicle b.traveler now, .observe ⟨now, .pickedUp, tt.mode,
        requestName tt.mode n, b.person, some vehicle, none⟩] } := by
    simp [Service.pickUp, serviceAt, hb, hstatus, Service.observation, tt.mode_eq.1,
      Table.erase_of_find?_eq_none hnobody]
  rw [Services.pickUp_eq (tt.member_servicesAt drawn bound log), hturn]
  simp only [tt.commit_servicesAt, List.append_nil]

/-- The passenger of an outing alights. -/
theorem dropOff_servicesAt {drawn : Nat} {b : Binding}
    (hb : bound.find? (requestName tt.mode n) = some b) (vehicle : VehicleId) (log : List Request)
    (now : Time) :
    (tt.servicesAt drawn bound log).act tt.position
        (·.dropOff vehicle (requestName tt.mode n) now) =
      .ok (some (b.traveler, tt.servicesAt drawn (bound.erase (requestName tt.mode n)) log,
        [.observe ⟨now, .droppedOff, tt.mode, requestName tt.mode n, b.person, some vehicle, none⟩,
          .alight vehicle b.traveler b.target now])) := by
  have hturn : (tt.serviceAt drawn bound).dropOff vehicle (requestName tt.mode n) now =
      .ok (b.traveler, {
        service := tt.serviceAt drawn (bound.erase (requestName tt.mode n))
        calls := [.observe ⟨now, .droppedOff, tt.mode, requestName tt.mode n, b.person,
          some vehicle, none⟩, .alight vehicle b.traveler b.target now] }) := by
    simp [Service.dropOff, serviceAt, hb, Service.observation, tt.mode_eq.1]
  unfold Services.act
  simp only [tt.member_servicesAt, hturn, Bind.bind, Except.bind, Pure.pure, Except.pure,
    tt.commit_servicesAt, List.append_nil]

/-- A traveler is bound if a binding is kept for some request. -/
theorem isBound_servicesAt {drawn : Nat} {b : Binding}
    (hb : bound.find? (requestName tt.mode n) = some b) (log : List Request) :
    (tt.servicesAt drawn bound log).isBound b.traveler = true := by
  have hactive : tt.serviceAt drawn bound ∈ (tt.servicesAt drawn bound log).active :=
    List.mem_filter.2 ⟨List.mem_of_getElem? (tt.member_servicesAt drawn bound log),
      by simp [serviceAt, tt.mode_eq.2]⟩
  have hvalue : b ∈ bound.values := Table.mem_values_iff.2 ⟨_, hb⟩
  exact List.any_eq_true.2 ⟨_, hactive, List.any_eq_true.2 ⟨b, hvalue, by simp⟩⟩

end Timetable

end DialARide
