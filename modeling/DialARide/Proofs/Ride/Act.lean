import DialARide.Proofs.Ride.Naming
import DialARide.Proofs.Ride.Outcome

/-!
# What a service can do

Every call on a service is a short sequence of acts, and an act is one of thirteen changes that
are written out here in full. What holds of all acts then holds of all calls: the functions of the
service are opened in this module and nowhere after it.
-/

namespace DialARide

/-- A turn and what is done after it. -/
def Turn.andThen (t u : Turn) : Turn :=
  { service := u.service, calls := t.calls ++ u.calls, submitted := t.submitted ++ u.submitted }

/-- The observations that calls pass on. -/
def observed (calls : List Call) : List Observation := calls.filterMap (·.observation?)

@[simp] theorem observed_append (calls more : List Call) :
    observed (calls ++ more) = observed calls ++ observed more :=
  List.filterMap_append

@[simp] theorem observed_cons_observe (o : Observation) (calls : List Call) :
    observed (.observe o :: calls) = o :: observed calls :=
  rfl

/-- The binding of a traveler to a request. -/
def Request.binding (r : Request) (traveler : EntityId) (status : RequestStatus) : Binding :=
  ⟨traveler, r.passenger, r.target, status⟩

/-- What calls upon a service. -/
inductive Occasion where
  | departure (traveler : EntityId)
  | arrival (stop : EntityId)
  | publication (r : Rejection)
  | other
  deriving DecidableEq, Repr

namespace Service

/-- The desk of the service with a booking handed out. -/
def handOut (desk : Desk) (key : LegKey) : Desk :=
  { desk with bookings := desk.bookings.erase key }

/-- The notice to the stop that waits for the passenger of a request, if one does. -/
def readyCalls (s : Service) (id : RequestId) (traveler : EntityId) (now : Time) : List Call :=
  ((s.waitingStops.find? id).map (Call.ready · traveler now)).toList

/-- What is told when a traveler departs for a request. -/
def waitingCall (s : Service) (now : Time) (r : Request) : Call :=
  .observe (s.observation now .waiting r.id r.passenger)

/-- One change of a service at a time, with what it tells the simulation and what it submits. A
traveler departs, a stop begins to wait and a rejection is heard only on that very occasion. -/
inductive Act (s : Service) (now : Time) (occasion : Occasion) : Turn → Prop
  /-- A rejection of the mode comes into the mailbox. -/
  | hear (copies : Nat) (r : Rejection) : occasion = .publication r → r.mode = s.mode →
      Act s now occasion { service := { s with mailbox := s.mailbox ++ List.replicate copies r } }
  /-- A stop waits for a passenger who is not there. -/
  | await (stop : EntityId) (id : RequestId) : occasion = .arrival stop →
      s.bound.find? id = none →
      Act s now occasion { service := { s with waitingStops := s.waitingStops.insert id stop } }
  /-- A leg is booked. -/
  | book (desk : Desk) (key : LegKey) (r : Request) : s.desk = some desk →
      r.id = s.naming.choose (bookingName s.mode desk.drawn) → r.mode = s.mode →
      desk.screening.accepts r →
      Act s now occasion {
        service := { s with
          desk := some { desk with
            bookings := desk.bookings.insert key r, drawn := desk.drawn + 1 } }
        submitted := [r] }
  /-- A leg is not booked, but its name is used up. -/
  | declineBooking (desk : Desk) : s.desk = some desk →
      Act s now occasion {
        service := { s with desk := some { desk with drawn := desk.drawn + 1 } } }
  /-- A traveler departs with a booking that was rejected. -/
  | departRejected (traveler : EntityId) (desk : Desk) (key : LegKey) (r : Request)
      (rejection : Rejection) : occasion = .departure traveler → s.desk = some desk →
      desk.bookings.find? key = some r → s.parked.find? r.id = some rejection →
      Act s now occasion {
        service := { s with
          desk := some (handOut desk key)
          bound := s.bound.insert r.id (r.binding traveler .waitingActive)
          parked := s.parked.erase r.id
          mailbox := rejection :: s.mailbox }
        calls := [s.waitingCall now r] }
  /-- A traveler departs with a booking that was not rejected. -/
  | departBooked (traveler : EntityId) (desk : Desk) (key : LegKey) (r : Request) :
      occasion = .departure traveler → s.desk = some desk →
      desk.bookings.find? key = some r → s.parked.find? r.id = none →
      Act s now occasion {
        service := { s with
          desk := some (handOut desk key)
          bound := s.bound.insert r.id (r.binding traveler .waitingActive)
          waitingStops := s.waitingStops.erase r.id }
        calls := s.waitingCall now r :: s.readyCalls r.id traveler now }
  /-- A traveler departs with a request that is made and submitted now. -/
  | departNow (traveler : EntityId) (r : Request) : occasion = .departure traveler →
      r.id = s.naming.choose (requestName s.mode s.drawn) → r.mode = s.mode →
      s.screening.accepts r →
      Act s now occasion {
        service := { s with
          drawn := s.drawn + 1
          bound := s.bound.insert r.id (r.binding traveler .submitted)
          waitingStops := s.waitingStops.erase r.id }
        calls := s.waitingCall now r :: s.readyCalls r.id traveler now
        submitted := [r] }
  /-- A traveler departs with a request that is made now and declined. -/
  | departDeclined (traveler : EntityId) (r : Request) : occasion = .departure traveler →
      r.id = s.naming.choose (requestName s.mode s.drawn) →
      Act s now occasion {
        service := { s with drawn := s.drawn + 1, bound := s.bound.erase r.id }
        calls := [s.waitingCall now r] }
  /-- A passenger boards. -/
  | pickUp (vehicle : VehicleId) (id : RequestId) (b : Binding) :
      s.bound.find? id = some b → b.status ≠ .pickedUp →
      Act s now occasion {
        service := { s with
          bound := s.bound.insert id { b with status := .pickedUp }
          waitingStops := s.waitingStops.erase id }
        calls := [.board vehicle b.traveler now,
          .observe { s.observation now .pickedUp id b.person with vehicle := some vehicle }] }
  /-- A passenger alights. -/
  | dropOff (vehicle : VehicleId) (id : RequestId) (b : Binding) :
      s.bound.find? id = some b →
      Act s now occasion {
        service := { s with bound := s.bound.erase id }
        calls := [
          .observe { s.observation now .droppedOff id b.person with vehicle := some vehicle },
          .alight vehicle b.traveler b.target now] }
  /-- A rejection takes effect on the traveler who is bound to the request. -/
  | reject (r : Rejection) (rest : List Rejection) (b : Binding) :
      s.mailbox = r :: rest → r.time < now → s.bound.find? r.request = some b →
      Act s now occasion {
        service := { s with
          mailbox := rest
          waitingStops := s.waitingStops.erase r.request
          bound := s.bound.erase r.request }
        calls := [
          .observe { s.observation now .rejected r.request b.person with cause := some r.cause },
          .abort b.traveler now] }
  /-- The rejection of a booking is parked until the traveler departs. -/
  | park (r : Rejection) (rest : List Rejection) :
      s.mailbox = r :: rest → r.time < now → s.bound.find? r.request = none →
      s.isBooked r.request →
      Act s now occasion {
        service := { s with
          mailbox := rest
          waitingStops := s.waitingStops.erase r.request
          parked := s.parked.insert r.request r } }
  /-- A rejection of a request that the service does not know has no effect. -/
  | discard (r : Rejection) (rest : List Rejection) :
      s.mailbox = r :: rest → r.time < now → s.bound.find? r.request = none →
      ¬ s.isBooked r.request →
      Act s now occasion {
        service := { s with
          mailbox := rest
          waitingStops := s.waitingStops.erase r.request } }

/-- Acts of one time and one occasion, one after the other. -/
inductive Acts (now : Time) (occasion : Occasion) : Service → Turn → Prop
  | nil (s : Service) : Acts now occasion s { service := s }
  | cons {s : Service} {t u : Turn} : s.Act now occasion t → Acts now occasion t.service u →
      Acts now occasion s (t.andThen u)

variable {s : Service} {now : Time} {occasion : Occasion}

theorem Act.acts {t : Turn} (h : s.Act now occasion t) : Acts now occasion s t := by
  have hcons := Acts.cons h (.nil t.service)
  simpa [Turn.andThen] using hcons

/-- What every act keeps is kept by acts one after the other. -/
theorem Acts.keeps {P : Service → Prop}
    (hact : ∀ (u : Service) (t : Turn), P u → u.Act now occasion t → P t.service) {t : Turn}
    (ha : Acts now occasion s t) (hs : P s) : P t.service := by
  induction ha with
  | nil => exact hs
  | cons hfirst _ ih => exact ih (hact _ _ hs hfirst)

/-! ## Departure -/

theorem releaseStop_eq (s : Service) (id : RequestId) (traveler : EntityId) (now : Time) :
    s.releaseStop id traveler now =
      ({ s with waitingStops := s.waitingStops.erase id }, s.readyCalls id traveler now) := by
  unfold releaseStop readyCalls
  cases h : s.waitingStops.find? id with
  | none => simp [Table.erase_of_find?_eq_none h]
  | some stop => simp

/-- A booking is handed out exactly if it stands at the desk. -/
theorem collect_eq_some_iff {key : LegKey} {r : Request} {s' : Service} :
    s.collect key = some (r, s') ↔
      ∃ desk, s.desk = some desk ∧ desk.bookings.find? key = some r ∧
        s' = { s with desk := some (handOut desk key) } := by
  unfold collect handOut
  cases hd : s.desk with
  | none => simp
  | some desk =>
    cases hr : desk.bookings.find? key with
    | none => simp [hr]
    | some q => simp [hr, eq_comm]

/-- A departure for a booked leg is an act. -/
theorem act_departBooked {who : Departing} {key : LegKey} {r : Request}
    {s' : Service} (h : s.collect key = some (r, s')) :
    s.Act now (.departure who.traveler) (s'.departBooked now who r) := by
  obtain ⟨desk, hdesk, hr, rfl⟩ := collect_eq_some_iff.1 h
  cases hp : s.parked.find? r.id with
  | some rejection =>
    have hact : s.Act now (.departure who.traveler) _ :=
      .departRejected who.traveler desk key r rejection rfl hdesk hr hp
    simpa [departBooked, bind, hp, waitingCall, Request.binding, observation] using hact
  | none =>
    have hact : s.Act now (.departure who.traveler) _ :=
      .departBooked who.traveler desk key r rfl hdesk hr hp
    simpa [departBooked, bind, hp, waitingCall, Request.binding, observation, releaseStop_eq,
      readyCalls] using hact

/-- A request that is made at a departure is submitted and the traveler bound to it, or it is
declined and its name used up. -/
theorem departNow_eq (s : Service) (now : Time) (who : Departing) (leg : Leg)
    (source target : Link) :
    let r := s.request s.nextName who.person leg source target now now
    s.departNow now who leg source target = if s.screening.accepts r then
      { service := { s with
          drawn := s.drawn + 1
          bound := s.bound.insert r.id (r.binding who.traveler .submitted)
          waitingStops := s.waitingStops.erase r.id }
        calls := s.waitingCall now r :: s.readyCalls r.id who.traveler now
        submitted := [r] }
    else
      { service := { s with drawn := s.drawn + 1, bound := s.bound.erase r.id }
        calls := [s.waitingCall now r] } := by
  intro r
  by_cases ha : s.screening.accepts r
  · simp [departNow, submit, bind, r, ha, waitingCall, Request.binding, observation,
      releaseStop_eq, readyCalls, Table.adjust_insert]
  · simp [departNow, submit, bind, r, ha, waitingCall, observation, Table.erase_insert]

/-- A departure for a leg that is not booked is an act. -/
theorem act_departNow (s : Service) (now : Time) (who : Departing) (leg : Leg)
    (source target : Link) :
    s.Act now (.departure who.traveler) (s.departNow now who leg source target) := by
  rw [departNow_eq]
  split
  · next ha => exact .departNow who.traveler _ rfl rfl rfl ha
  · exact .departDeclined who.traveler _ rfl rfl

/-- A service that takes a traveler of its mode does so by the booking of the leg or, where
there is none, by a request made now. -/
theorem depart_eq_ok_some {who : Departing} {link : LinkId} {t : Turn}
    (h : s.depart now who link = .ok (some t)) :
    who.mode = s.mode ∧ ∃ planned, who.leg = some planned ∧
      ((∃ r s', s.collect ⟨who.person, planned.index⟩ = some (r, s') ∧
          t = s'.departBooked now who r) ∨
        (s.collect ⟨who.person, planned.index⟩ = none ∧ ∃ source target,
          t = s.departNow now who planned.leg source target)) := by
  have hdeparts := s.departs_depart now who link
  rw [h] at hdeparts
  cases hdeparts with
  | booked hmode hleg hbooking =>
    exact ⟨hmode, _, hleg, .inl ⟨_, _, by rw [collect_eq, hbooking]; rfl, rfl⟩⟩
  | requested hmode hleg hbooking =>
    exact ⟨hmode, _, hleg, .inr ⟨by rw [collect_eq, hbooking]; rfl, _, _, rfl⟩⟩

/-- Whoever is taken departs by an act. -/
theorem act_depart {who : Departing} {link : LinkId} {t : Turn}
    (h : s.depart now who link = .ok (some t)) : s.Act now (.departure who.traveler) t := by
  obtain ⟨-, planned, -, hcases⟩ := depart_eq_ok_some h
  rcases hcases with ⟨r, s', hc, rfl⟩ | ⟨-, source, target, rfl⟩
  · exact act_departBooked hc
  · exact s.act_departNow now who planned.leg source target

/-- A notice to a stop is no observation. -/
@[simp] theorem observed_readyCalls (s : Service) (id : RequestId) (traveler : EntityId)
    (now : Time) : observed (s.readyCalls id traveler now) = [] := by
  unfold readyCalls
  cases s.waitingStops.find? id <;> rfl

/-- A departure first tells that the traveler waits, and this is all that is observed of it. -/
theorem calls_depart {who : Departing} {link : LinkId} {t : Turn}
    (h : s.depart now who link = .ok (some t)) :
    ∃ o ready, t.calls = .observe o :: ready ∧ o.kind = .waiting ∧ observed ready = [] := by
  obtain ⟨-, planned, -, hcases⟩ := depart_eq_ok_some h
  rcases hcases with ⟨r, s', -, rfl⟩ | ⟨-, source, target, rfl⟩
  · let o := s'.observation now .waiting r.id r.passenger
    cases hp : s'.parked.find? r.id with
    | some rejection => exact ⟨o, [], by simp [departBooked, bind, hp, observation, o], rfl, rfl⟩
    | none =>
      refine ⟨o, s'.readyCalls r.id who.traveler now, ?_, rfl, s'.observed_readyCalls _ _ _⟩
      simp [departBooked, bind, hp, observation, releaseStop_eq, readyCalls, o]
  · let r := s.request s.nextName who.person planned.leg source target now now
    let o := s.observation now .waiting r.id r.passenger
    by_cases ha : s.screening.accepts r
    · refine ⟨o, s.readyCalls r.id who.traveler now, ?_, rfl, s.observed_readyCalls _ _ _⟩
      simp [departNow, submit, bind, r, ha, observation, releaseStop_eq, readyCalls, o]
    · refine ⟨o, [], ?_, rfl, rfl⟩
      simp [departNow, submit, bind, r, ha, observation, o]

/-! ## Stops and bookings -/

/-- A stop that waits comes to be by acts. -/
theorem acts_awaitPassenger (s : Service) (stop : EntityId) (id : RequestId) :
    Acts now (.arrival stop) s { service := (s.awaitPassenger stop id).2 } := by
  unfold awaitPassenger
  split
  · exact .nil s
  · next h =>
    refine (Act.await stop id rfl ?_).acts
    simpa [Table.contains] using h

/-- A passenger boards by an act. -/
theorem act_pickUp {vehicle : VehicleId} {id : RequestId} {t : Turn}
    (h : s.pickUp vehicle id now = some t) : s.Act now occasion t := by
  unfold pickUp at h
  split at h
  · simp at h
  · next b hb =>
    split at h
    · simp at h
    · next hstatus =>
      obtain rfl := Option.some.inj h
      exact .pickUp vehicle id b hb hstatus

/-- A passenger alights by an act. -/
theorem act_dropOff {vehicle : VehicleId} {id : RequestId} {traveler : EntityId} {t : Turn}
    (h : s.dropOff vehicle id now = .ok (traveler, t)) : s.Act now occasion t := by
  unfold dropOff at h
  split at h
  · simp at h
  · next b hb =>
    simp only [Except.ok.injEq, Prod.mk.injEq] at h
    obtain ⟨-, rfl⟩ := h
    exact .dropOff vehicle id b hb

/-- Rejections are received by acts. -/
theorem acts_deliver (s : Service) (copies : Nat) (r : Rejection) :
    Acts now (.publication r) s { service := s.deliver copies r } := by
  unfold deliver
  split
  · next h => exact (Act.hear copies r rfl h).acts
  · exact .nil s

/-- A leg is not booked, or it is booked under the next name of the desk. -/
theorem book_eq_ok {person : PersonId} {planned : PlannedLeg} {name : Option RequestId} {t : Turn}
    (h : s.book now person planned = .ok (name, t)) :
    (name = none ∧ t = { service := s }) ∨ ∃ desk, s.desk = some desk ∧
      ((name = none ∧
          t = { service := { s with desk := some { desk with drawn := desk.drawn + 1 } } }) ∨
        ∃ r, name = some (bookingName s.mode desk.drawn) ∧
          r.id = s.naming.choose (bookingName s.mode desk.drawn) ∧ r.mode = s.mode ∧
          desk.screening.accepts r ∧ t = {
            service := { s with
              desk := some { desk with
                bookings := desk.bookings.insert ⟨person, planned.index⟩ r
                drawn := desk.drawn + 1 } }
            submitted := [r] }) := by
  have hbooks := s.books_book now person planned
  generalize s.book now person planned = report at h hbooks
  cases hbooks with
  | noDesk | turnedDown =>
    cases h
    exact .inl ⟨rfl, rfl⟩
  | noSource | noTarget => cases h
  | between hdesk =>
    refine .inr ⟨_, hdesk, ?_⟩
    simp only [bookBetween] at h
    split at h
    · next ha =>
      cases h
      exact .inr ⟨_, rfl, rfl, rfl, ha, rfl⟩
    · cases h
      exact .inl ⟨rfl, rfl⟩

/-- A booking changes nothing or is one act. -/
theorem act_book {person : PersonId} {planned : PlannedLeg} {name : Option RequestId} {t : Turn}
    (h : s.book now person planned = .ok (name, t)) :
    t = { service := s } ∨ s.Act now occasion t := by
  rcases book_eq_ok h with ⟨-, rfl⟩ | ⟨desk, hdesk, ⟨-, rfl⟩ | ⟨r, -, hid, hmode, ha, rfl⟩⟩
  · exact .inl rfl
  · exact .inr (.declineBooking desk hdesk)
  · exact .inr (.book desk ⟨person, planned.index⟩ r hdesk hid hmode ha)

/-! ## Rejections -/

/-- A rejection at the front of the mailbox takes effect by one act. -/
theorem act_applyRejection {r : Rejection} {rest : List Rejection}
    (hm : s.mailbox = r :: rest) (ht : r.time < now) :
    s.Act now occasion {
      service := { (s.applyRejection now r).1 with mailbox := rest }
      calls := (s.applyRejection now r).2 } := by
  unfold applyRejection
  cases hb : s.bound.find? r.request with
  | some b => simpa [hb, observation] using Act.reject r rest b hm ht hb
  | none =>
    by_cases hk : s.isBooked r.request
    · have hk' : ({ s with waitingStops := s.waitingStops.erase r.request }).isBooked
          r.request = true := hk
      simpa [hb, hk'] using Act.park r rest hm ht hb hk
    · have hk' : ({ s with waitingStops := s.waitingStops.erase r.request }).isBooked
          r.request = false := by simpa [isBooked] using hk
      simpa [hb, hk'] using Act.discard r rest hm ht hb hk

/-- Applying a rejection neither reads the mailbox nor changes it. -/
theorem applyRejection_withMailbox (s : Service) (now : Time) (r : Rejection)
    (m : List Rejection) :
    ({ s with mailbox := m }).applyRejection now r =
      ({ (s.applyRejection now r).1 with mailbox := m }, (s.applyRejection now r).2) := by
  unfold applyRejection
  cases hb : s.bound.find? r.request with
  | some b => simp [hb, observation]
  | none => by_cases hk : s.desk.any (·.isBooked r.request) <;> simp [hb, isBooked, hk]

/-- Applying a rejection leaves all but the bindings, the stops and the parked rejections alone. -/
theorem exists_applyRejection (s : Service) (now : Time) (r : Rejection) :
    ∃ bound waitingStops parked,
      (s.applyRejection now r).1 = { s with bound, waitingStops, parked } := by
  unfold applyRejection
  cases hb : s.bound.find? r.request with
  | some b =>
    simp only [hb]
    exact ⟨_, _, _, rfl⟩
  | none =>
    simp only [hb]
    split <;> exact ⟨_, _, _, rfl⟩

theorem exists_applyRejections (now : Time) (s : Service) (due : List Rejection) :
    ∃ bound waitingStops parked,
      (applyRejections now s due).service = { s with bound, waitingStops, parked } := by
  induction due generalizing s with
  | nil => exact ⟨_, _, _, rfl⟩
  | cons r due ih =>
    obtain ⟨bound, waitingStops, parked, hfirst⟩ := s.exists_applyRejection now r
    obtain ⟨bound', waitingStops', parked', hrest⟩ := ih (s.applyRejection now r).1
    rw [hfirst] at hrest
    exact ⟨bound', waitingStops', parked', by simpa only [applyRejections, hfirst] using hrest⟩

theorem submitted_applyRejections (now : Time) (s : Service) (due : List Rejection) :
    (applyRejections now s due).submitted = [] := by
  induction due generalizing s with
  | nil => rfl
  | cons r due ih => exact ih _

/-- Applying rejections that stand at the front of the mailbox is a sequence of acts. -/
theorem acts_applyRejections {due rest : List Rejection}
    (hm : s.mailbox = due ++ rest) (ht : ∀ r ∈ due, r.time < now) :
    Acts now occasion s (applyRejections now { s with mailbox := rest } due) := by
  induction due generalizing s with
  | nil =>
    have hs : { s with mailbox := rest } = s := by
      rw [List.nil_append] at hm
      rw [← hm]
    rw [applyRejections, hs]
    exact .nil s
  | cons r due ih =>
    have hm' : s.mailbox = r :: (due ++ rest) := hm
    have hact : s.Act now occasion _ := act_applyRejection hm' (ht r List.mem_cons_self)
    have hrest := ih (s := { (s.applyRejection now r).1 with mailbox := due ++ rest }) rfl
      fun q hq => ht q (List.mem_cons_of_mem r hq)
    have hcons := Acts.cons hact hrest
    rw [applyRejections, applyRejection_withMailbox]
    simpa [Turn.andThen, submitted_applyRejections] using hcons

/-- A step of a service is a sequence of acts. -/
theorem acts_step (s : Service) (now : Time) (occasion : Occasion) :
    Acts now occasion s (s.step now) := by
  have hm : s.mailbox = s.mailbox.takeWhile (·.time < now) ++ s.mailbox.dropWhile (·.time < now) :=
    List.takeWhile_append_dropWhile.symm
  refine acts_applyRejections hm fun r hr => ?_
  simpa using List.all_eq_true.1 List.all_takeWhile r hr

/-! ## What is observed -/

/-- One stage is observed when a passenger boards. -/
theorem observed_pickUp {vehicle : VehicleId} {id : RequestId} {t : Turn}
    (h : s.pickUp vehicle id now = some t) :
    ∃ o, observed t.calls = [o] ∧ o.kind = .pickedUp ∧ o.mode = s.mode ∧ o.request = id := by
  unfold pickUp at h
  split at h
  · cases h
  · split at h <;> cases h
    exact ⟨_, rfl, rfl, rfl, rfl⟩

/-- One stage is observed when a passenger alights. -/
theorem observed_dropOff {vehicle : VehicleId} {id : RequestId} {traveler : EntityId} {t : Turn}
    (h : s.dropOff vehicle id now = .ok (traveler, t)) :
    ∃ o, observed t.calls = [o] ∧ o.kind = .droppedOff ∧ o.mode = s.mode ∧ o.request = id := by
  unfold dropOff at h
  split at h <;> cases h
  exact ⟨_, rfl, rfl, rfl, rfl⟩

theorem kind_of_applyRejection {r : Rejection} {o : Observation}
    (ho : o ∈ observed (s.applyRejection now r).2) : o.kind = .rejected := by
  unfold applyRejection at ho
  cases hb : s.bound.find? r.request with
  | some b =>
    simp only [hb] at ho
    obtain rfl := List.mem_singleton.1 ho
    rfl
  | none =>
    simp only [hb] at ho
    split at ho <;> cases ho

/-- Nothing but rejections is observed when rejections are applied. -/
theorem kind_of_applyRejections {due : List Rejection} {o : Observation}
    (ho : o ∈ observed (applyRejections now s due).calls) : o.kind = .rejected := by
  induction due generalizing s with
  | nil => cases ho
  | cons r due ih =>
    simp only [applyRejections, observed_append, List.mem_append] at ho
    exact ho.elim kind_of_applyRejection ih

/-! ## What all acts keep -/

/-- All that is observed by a service has its mode. -/
theorem Act.mode_of_observed {t : Turn} (ha : s.Act now occasion t) {o : Observation}
    (ho : o ∈ observed t.calls) : o.mode = s.mode := by
  cases ha with
  | hear | await | book | declineBooking | park | discard => cases ho
  | departBooked | departNow =>
    rw [waitingCall, observed_cons_observe, observed_readyCalls, List.mem_singleton] at ho
    rw [ho]
    rfl
  | departRejected | departDeclined | pickUp | dropOff | reject =>
    obtain rfl := List.mem_singleton.1 ho
    rfl

/-- All that is observed has the time of the act. -/
theorem Act.time_of_observed {t : Turn} (ha : s.Act now occasion t) {o : Observation}
    (ho : o ∈ observed t.calls) : o.time = now := by
  cases ha with
  | hear | await | book | declineBooking | park | discard => cases ho
  | departBooked | departNow =>
    rw [waitingCall, observed_cons_observe, observed_readyCalls, List.mem_singleton] at ho
    rw [ho]
    rfl
  | departRejected | departDeclined | pickUp | dropOff | reject =>
    obtain rfl := List.mem_singleton.1 ho
    rfl

/-- The terms on which the service runs never change. -/
theorem Act.terms {t : Turn} (h : s.Act now occasion t) : t.service.mode = s.mode ∧
    t.service.naming = s.naming ∧ t.service.closed = s.closed ∧
    t.service.ownOptimizer = s.ownOptimizer := by
  cases h <;> exact ⟨rfl, rfl, rfl, rfl⟩

/-- No act parks a rejection under another name than that of its request. -/
theorem Act.parked {t : Turn} (ha : s.Act now occasion t)
    (hs : ∀ id r, s.parked.find? id = some r → r.request = id) (id : RequestId) (r : Rejection)
    (hr : t.service.parked.find? id = some r) : r.request = id := by
  cases ha with
  | hear | await | book | declineBooking | departBooked | departNow | departDeclined | pickUp
  | dropOff | reject | discard => exact hs id r hr
  | departRejected traveler desk key q rejection hwho hd hq hp =>
    simp only [Table.find?_erase] at hr
    split at hr
    · cases hr
    · exact hs id r hr
  | park q =>
    simp only [Table.find?_insert] at hr
    split at hr
    · next hid => rw [← Option.some.inj hr, hid]
    · exact hs id r hr

end Service

end DialARide
