import DialARide.Proofs.World.Handled
import DialARide.World.Setup

/-!
# The worlds that a scenario reaches

A scenario is set up, filled with travelers, stops and bookings, and started. From then on its
events are taken one by one, and rejections may be published in between. What holds of the world
that is filled, and is kept by every event handled without fault and by every publication, holds
of all worlds reached before a fault is met.
-/

namespace DialARide

/-- What a scenario is filled with before it starts. -/
inductive Provision where
  | traveler (person : PersonId) (link : LinkId) (legs : List Leg)
  | stop (s : Stop) (time : Time)
  | booking (now : Time) (person : PersonId) (planned : PlannedLeg)
  | rejection (r : Rejection)
  deriving DecidableEq, Repr

/-- The traveler or the stop that comes into the world. -/
def Provision.entity? : Provision → Option Entity
  | .traveler person link legs => some (.traveler { person, link, plan := { legs } })
  | .stop s _ => some (.stop s)
  | .booking .. | .rejection _ => none

/-- A traveler comes who is to depart. -/
def Provision.departs : Provision → Bool
  | .traveler _ _ legs => !legs.isEmpty
  | _ => false

namespace World

/-- Fills in one thing. A booking that meets a fault is not made. -/
def provide (w : World) : Provision → Except Halt World
  | .traveler person link legs => do return (← w.addTraveler person link legs).2
  | .stop s time => do return (← w.addStop s time).2
  | .booking now person planned =>
    match w.book now person planned with
    | .ok (some (_, booked)) => .ok booked
    | _ => .ok w
  | .rejection r => .ok (w.publish r)

/-- Fills in one thing after the other. -/
def provideAll : World → List Provision → Except Halt World
  | w, [] => .ok w
  | w, p :: rest => do (← w.provide p).provideAll rest

/-- Publishes one rejection after the other. -/
def publishAll (w : World) (rejections : List Rejection) : World := rejections.foldl publish w

/-- The worlds that come of a world as events are taken and some rejections are published. -/
inductive Onward (allowed : Rejection → Prop) (w : World) : World → Prop
  | here : Onward allowed w w
  | event {v v' : World} {e : Event} : Onward allowed w v → v.next? = .ok (some (e, v')) →
      Onward allowed w v'
  | publish {v : World} (r : Rejection) : Onward allowed w v → allowed r →
      Onward allowed w (v.publish r)

/-- The worlds that come of a world as events are taken, which are listed in order, and some
rejections are published in between. -/
inductive Takes (allowed : Rejection → Prop) (w : World) : List Event → World → Prop
  | here : Takes allowed w [] w
  | event {taken : List Event} {v v' : World} {e : Event} : Takes allowed w taken v →
      v.next? = .ok (some (e, v')) → Takes allowed w (taken ++ [e]) v'
  | publish {taken : List Event} {v : World} (r : Rejection) : Takes allowed w taken v →
      allowed r → Takes allowed w taken (v.publish r)

/-- The worlds that come of a world as events are taken, which are listed in order, while all
rejections come from the optimizer: whenever an event submits a request to it, the optimizer
publishes any number of rejections, of whatever requests, modes and times. They lie in the mailboxes
when the event is over; nothing looks there between a submission and the end of its event. -/
inductive Consults (w : World) : List Event → World → Prop
  | here : Consults w [] w
  | event {taken : List Event} {v v' : World} {e : Event} (answers : List Rejection) :
      Consults w taken v → v.next? = .ok (some (e, v')) →
      (answers ≠ [] → v'.services.submitted ≠ v.services.submitted) →
      Consults w (taken ++ [e]) (v'.publishAll answers)

end World

namespace Setup

/-- A scenario reaches a world from what it is filled with, if some rejections may be published
while it is filled and on the way. -/
def Reaches (s : Setup) (allowed : Rejection → Prop) (provisions : List Provision) (w : World) :
    Prop :=
  (∀ r, .rejection r ∈ provisions → allowed r) ∧
    ∃ built ready started, s.build = .ok built ∧ built.provideAll provisions = .ok ready ∧
      ready.start = .ok started ∧ started.Onward allowed w

/-- A scenario reaches a world by taking the listed events, if some rejections may be published
while it is filled and on the way. -/
def Runs (s : Setup) (allowed : Rejection → Prop) (provisions : List Provision)
    (taken : List Event) (w : World) : Prop :=
  (∀ r, .rejection r ∈ provisions → allowed r) ∧
    ∃ built ready started, s.build = .ok built ∧ built.provideAll provisions = .ok ready ∧
      ready.start = .ok started ∧ started.Takes allowed taken w

/-- A scenario reaches a world by taking the listed events while all rejections come from the
optimizer, which may publish any of them while it is filled: the requests of bookings are submitted
then. -/
def Consults (s : Setup) (provisions : List Provision) (taken : List Event) (w : World) : Prop :=
  ∃ built ready started, s.build = .ok built ∧ built.provideAll provisions = .ok ready ∧
    ready.start = .ok started ∧ started.Consults taken w

/-- A number of events and the world after them, if nothing goes wrong on the way. -/
def record (s : Setup) (provisions : List Provision) (events : Nat) :
    Option (List Event × World) := do
  let built ← s.build.toOption
  let ready ← (built.provideAll provisions).toOption
  let started ← ready.start.toOption
  (started.run events).toOption

/-- The world after a number of events, if nothing goes wrong on the way. -/
def play (s : Setup) (provisions : List Provision) (events : Nat) : Option World := do
  let built ← s.build.toOption
  let ready ← (built.provideAll provisions).toOption
  let started ← ready.start.toOption
  return (← (started.run events).toOption).2

end Setup

namespace World

variable {allowed : Rejection → Prop} {w w' : World} {e : Event}

/-! ## Filling a scenario -/

/-- What becomes of a world when one thing is filled in. -/
structure Filled (w : World) (p : Provision) (w' : World) : Prop where
  entities : w'.entities = w.entities ++ p.entity?.toList
  services : (∃ now calls, Services.Turns now .other w.services w'.services calls) ∨
    ∃ r, p = .rejection r ∧ w'.services = w.services.publish r
  clock : w.clock.Grown (fun e => e.kind = .departure ∨ e.kind = .stopReached) w'.clock
  departures : ∀ id, w'.departures id = w.departures id +
    if p.departs = true ∧ w.entities.length = id then 1 else 0
  shifts : w'.shifts = w.shifts
  telemetry : w'.telemetry = w.telemetry

/-- The departure of a traveler with a leg to travel is scheduled. -/
theorem provide_traveler (w : World) (person : PersonId) (link : LinkId) (leg : Leg)
    (rest : List Leg) : w.provide (.traveler person link (leg :: rest)) =
      { w with entities := w.entities ++ [Entity.traveler
        { person, link, plan := { legs := leg :: rest } }] }.schedule leg.departure .departure
          (some (.traveler w.entities.length)) := by
  simp only [provide, addTraveler]
  cases { w with entities := w.entities ++ [Entity.traveler
    { person, link, plan := { legs := leg :: rest } }] }.schedule leg.departure .departure
      (some (.traveler w.entities.length)) <;> rfl

/-- The arrival at a stop is scheduled. -/
theorem provide_stop (w : World) (s : Stop) (time : Time) : w.provide (.stop s time) =
    { w with entities := w.entities ++ [Entity.stop s] }.schedule time .stopReached
      (some (.stop w.entities.length)) := by
  simp only [provide, addStop]
  cases { w with entities := w.entities ++ [Entity.stop s] }.schedule time .stopReached
    (some (.stop w.entities.length)) <;> rfl

/-- A traveler comes into the world together with the first departure. -/
private theorem filled_of_traveler {person : PersonId} {link : LinkId} {legs : List Leg}
    (h : w.provide (.traveler person link legs) = .ok w') :
    Filled w (.traveler person link legs) w' := by
  have hnone : ∃ now calls, Services.Turns now .other w.services w.services calls :=
    ⟨0, [], .nil w.services⟩
  cases legs with
  | nil =>
    cases h
    exact ⟨rfl, .inl hnone, .refl _ _, fun id => by simp [Provision.departs, departures], rfl, rfl⟩
  | cons leg rest =>
    have hs := (w.provide_traveler person link leg rest).symm.trans h
    have hkept := kept_schedule (.inl rfl) hs
    have hdepartures := departures_schedule hs
    obtain ⟨clock, -, rfl⟩ := schedule_eq_ok hs
    refine ⟨rfl, .inl hnone, hkept.clock, fun id => ?_, rfl, rfl⟩
    simpa [Provision.departs, departures] using hdepartures id

/-- A stop comes into the world together with the arrival there. -/
private theorem filled_of_stop {s : Stop} {time : Time} (h : w.provide (.stop s time) = .ok w') :
    Filled w (.stop s time) w' := by
  obtain ⟨clock, hclock, rfl⟩ := schedule_eq_ok ((w.provide_stop s time).symm.trans h)
  have hgrown := Clock.grown_scheduleAt hclock
  refine ⟨rfl, .inl ⟨0, [], .nil w.services⟩, hgrown.mono fun e he => .inr he.2.1, fun id => ?_,
    rfl, rfl⟩
  have hsame := hgrown.countP_eq
    (f := fun e => e.kind = .departure ∧ e.subject = some (.traveler id)) fun e he => by
      simp [he.2.1]
  simpa [Provision.departs, departures] using hsame

/-- A booking is made at one service. -/
theorem book_eq_ok_some {now : Time} {person : PersonId} {planned : PlannedLeg}
    {name : Option RequestId} (h : w.book now person planned = .ok (some (name, w'))) :
    ∃ i s t, w.services.members[i]? = some s ∧ s.book now person planned = .ok (name, t) ∧
      w' = { w with services := w.services.commit i t } := by
  unfold book at h
  split at h
  · cases h
  · next i hi =>
    cases hact : w.services.act i (·.book now person planned) with
    | error fault => simp [hact, Bind.bind, Except.bind] at h
    | ok outcome =>
      simp only [hact, Bind.bind, Except.bind, Pure.pure, Except.pure, Except.ok.injEq,
        Option.map_eq_some_iff] at h
      obtain ⟨⟨name', services, calls⟩, rfl, heq⟩ := h
      obtain ⟨rfl, rfl⟩ := Prod.mk.injEq _ _ _ _ ▸ heq
      obtain ⟨s, t, hs, hturn, rfl, -⟩ := Services.act_eq_ok hact
      exact ⟨i, s, t, hs, hturn, rfl⟩

/-- A booking is one turn of a service, or it is not made. -/
theorem provide_booking_eq_ok {now : Time} {person : PersonId} {planned : PlannedLeg}
    (h : w.provide (.booking now person planned) = .ok w') :
    ∃ services calls, w' = { w with services } ∧
      Services.Turns now .other w.services services calls := by
  simp only [provide] at h
  split at h
  · next name booked hbook =>
    cases h
    obtain ⟨i, s, t, hs, hturn, rfl⟩ := book_eq_ok_some hbook
    refine ⟨_, t.calls, rfl, ?_⟩
    have hacts : t = { service := s } ∨ s.Act now .other t := Service.act_book hturn
    rcases hacts with rfl | hact'
    · exact Services.turns_of_acts hs (.nil s) rfl
    · exact Services.turns_of_act hs hact'
  · cases h
    exact ⟨w.services, [], rfl, .nil w.services⟩

/-- A booking is a turn of one service. -/
private theorem filled_of_booking {now : Time} {person : PersonId} {planned : PlannedLeg}
    (h : w.provide (.booking now person planned) = .ok w') :
    Filled w (.booking now person planned) w' := by
  obtain ⟨services, calls, rfl, hturns⟩ := provide_booking_eq_ok h
  exact ⟨by simp [Provision.entity?], .inl ⟨now, calls, hturns⟩, .refl _ _,
    by simp [Provision.departs, departures], rfl, rfl⟩

/-- Whatever is filled in comes into the world in one of these ways. -/
theorem filled_of_provide {p : Provision} (h : w.provide p = .ok w') : Filled w p w' := by
  cases p with
  | traveler person link legs => exact filled_of_traveler h
  | stop s time => exact filled_of_stop h
  | booking now person planned => exact filled_of_booking h
  | rejection r =>
    cases h
    exact ⟨by simp [Provision.entity?, publish], .inr ⟨r, rfl, rfl⟩, .refl _ _,
      by simp [Provision.departs, departures, publish], rfl, rfl⟩

/-- What every act keeps that nobody calls for, whatever is heard, holds of all services when one
thing is filled in. -/
theorem Filled.forall_members {p : Provision} {P : Service → Prop}
    (hact : ∀ (now : Time) (s : Service) (t : Turn), P s → s.Act now .other t → P t.service)
    (hhear : ∀ (s : Service) l, P s → P (s.hear l)) (hf : Filled w p w')
    (hP : ∀ s ∈ w.services.members, P s) : ∀ s ∈ w'.services.members, P s := by
  rcases hf.services with ⟨now, calls, hturns⟩ | ⟨r, -, hpublish⟩
  · exact hturns.forall_members (hact now) hhear hP
  · rw [hpublish]
    exact Services.forall_members_publish hhear r hP

/-- The services stand in the same order when one thing is filled in. -/
theorem Filled.modes {p : Provision} (hf : Filled w p w') :
    w'.services.members.map Service.mode = w.services.members.map Service.mode := by
  rcases hf.services with ⟨now, calls, hturns⟩ | ⟨r, -, hpublish⟩
  · exact hturns.modes
  · rw [hpublish, Services.modes_publish]

/-- A traveler who is filled in has the next number, and all others keep theirs. -/
theorem Filled.traveler? {p : Provision} (hf : Filled w p w') (id : EntityId) :
    w'.traveler? id = if w.entities.length = id then
      p.entity?.bind (fun | .traveler t => some t | .stop _ => none) else w.traveler? id := by
  unfold World.traveler?
  rw [hf.entities, List.getElem?_append_toList]
  by_cases hid : w.entities.length = id
  · rw [if_pos hid, if_pos hid]
    cases p <;> rfl
  · rw [if_neg hid, if_neg hid]

/-- What every filling in keeps holds of the world that is filled. -/
theorem provideAll_keeps {P : World → Prop} {provisions : List Provision}
    (hfill : ∀ (v v' : World), ∀ p ∈ provisions, P v → Filled v p v' → P v')
    (h : w.provideAll provisions = .ok w') (hw : P w) : P w' := by
  induction provisions generalizing w with
  | nil =>
    cases h
    exact hw
  | cons p rest ih =>
    unfold provideAll at h
    cases hp : w.provide p with
    | error halt => simp [hp, Bind.bind, Except.bind] at h
    | ok w₁ =>
      simp only [hp, Bind.bind, Except.bind] at h
      exact ih (fun v v' q hq => hfill v v' q (List.mem_cons_of_mem p hq)) h
        (hfill w w₁ p List.mem_cons_self hw (filled_of_provide hp))

/-! ## Taking events -/

/-- Taking events leads onward. -/
theorem Takes.onward {taken : List Event} (h : w.Takes allowed taken w') :
    w.Onward allowed w' := by
  induction h with
  | here => exact .here
  | event _ hnext ih => exact .event ih hnext
  | publish r _ hr ih => exact .publish r ih hr

/-- Publishing more at the end is part of the same run. -/
theorem Takes.publishAll {taken : List Event} {rejections : List Rejection}
    (h : w.Takes allowed taken w') (hallowed : ∀ r ∈ rejections, allowed r) :
    w.Takes allowed taken (w'.publishAll rejections) := by
  induction rejections generalizing w' with
  | nil => exact h
  | cons r rest ih =>
    exact ih (h.publish r (hallowed r List.mem_cons_self))
      fun q hq => hallowed q (List.mem_cons_of_mem r hq)

/-- What the optimizer publishes is published. -/
theorem Consults.takes {taken : List Event} (h : w.Consults taken w') :
    w.Takes (fun _ => True) taken w' := by
  induction h with
  | here => exact .here
  | event answers _ hnext _ ih => exact (ih.event hnext).publishAll fun _ _ => trivial

/-- A run in which no rejection comes from elsewhere is one in which the optimizer has nothing to
add to its verdicts. -/
theorem Takes.consults {taken : List Event} (h : w.Takes (fun _ => False) taken w') :
    w.Consults taken w' := by
  induction h with
  | here => exact .here
  | event _ hnext ih => exact ih.event [] hnext fun hne => absurd rfl hne
  | publish r _ hr _ => exact hr.elim

/-- A run takes the events that it lists, latest first. -/
theorem takes_runFrom {w₀ : World} {before events : List Event} {limit : Nat}
    (h : runFrom before limit w = .ok (events, w')) (hw : w₀.Takes allowed before.reverse w) :
    w₀.Takes allowed events.reverse w' := by
  induction limit generalizing w before with
  | zero =>
    cases h
    exact hw
  | succ limit ih =>
    unfold runFrom at h
    split at h
    · cases h
    · cases h
      exact hw
    · next e v hnext =>
      apply ih h
      rw [List.reverse_cons]
      exact hw.event hnext

/-- What every event that meets no fault keeps, and every publication, holds of all worlds that
come of a world before a fault is met. -/
theorem Onward.keeps {P : World → Prop}
    (hevent : ∀ (v v' : World) (e : Event) (clock : Clock), P v → v.clock.next? = some (e, clock) →
      Handled { v with clock, current := some e } e v' → P v')
    (hpublish : ∀ (v : World) (r : Rejection), allowed r → P v → P (v.publish r))
    (h : w.Onward allowed w') (hw : P w) (hfault : w'.fault = none) : P w' := by
  induction h with
  | here => exact hw
  | event _ hnext ih =>
    obtain ⟨hbefore, clock, hclock, hhandle⟩ := next?_eq_ok_some hnext
    exact hevent _ _ _ clock (ih hbefore) hclock (handled_of_handle hfault hhandle)
  | publish r _ hr ih => exact hpublish _ r hr (ih hfault)

end World

namespace Setup

variable {s : Setup} {provisions : List Provision} {events : Nat} {taken : List Event}

/-- What a run leads to is reached. -/
theorem Runs.reaches (h : s.Runs allowed provisions taken w) : s.Reaches allowed provisions w := by
  obtain ⟨hallowed, built, ready, started, hbuilt, hready, hstarted, htakes⟩ := h
  exact ⟨hallowed, built, ready, started, hbuilt, hready, hstarted, htakes.onward⟩

/-- A run with an optimizer that is consulted is one in which anything may be published. -/
theorem Consults.runs (h : s.Consults provisions taken w) :
    s.Runs (fun _ => True) provisions taken w := by
  obtain ⟨built, ready, started, hbuilt, hready, hstarted, hconsults⟩ := h
  exact ⟨fun _ _ => trivial, built, ready, started, hbuilt, hready, hstarted, hconsults.takes⟩

/-- An event is taken, and the optimizer publishes what it wants if a request was submitted. -/
theorem Consults.event {e : Event} {w' : World} {answers : List Rejection}
    (h : s.Consults provisions taken w) (hnext : w.next? = .ok (some (e, w')))
    (hanswers : answers ≠ [] → w'.services.submitted ≠ w.services.submitted) :
    s.Consults provisions (taken ++ [e]) (w'.publishAll answers) := by
  obtain ⟨built, ready, started, hbuilt, hready, hstarted, hconsults⟩ := h
  exact ⟨built, ready, started, hbuilt, hready, hstarted, hconsults.event answers hnext hanswers⟩

/-- A run in which nothing is published is one with an optimizer that objects to nothing. -/
theorem Runs.consults (h : s.Runs (fun _ => False) provisions taken w) :
    s.Consults provisions taken w := by
  obtain ⟨-, built, ready, started, hbuilt, hready, hstarted, htakes⟩ := h
  exact ⟨built, ready, started, hbuilt, hready, hstarted, htakes.consults⟩

/-- What is recorded of a run is what it takes and comes to. -/
theorem runs_of_record (hallowed : ∀ r, .rejection r ∈ provisions → allowed r)
    (h : s.record provisions events = some (taken, w)) : s.Runs allowed provisions taken w := by
  simp only [record, bind, Option.bind_eq_some_iff, toOption_eq_some_iff] at h
  obtain ⟨built, hbuilt, ready, hready, started, hstarted, hrun⟩ := h
  refine ⟨hallowed, built, ready, started, hbuilt, hready, hstarted, ?_⟩
  unfold World.run at hrun
  cases hfrom : started.runFrom [] events with
  | error halt => simp [hfrom, Bind.bind, Except.bind] at hrun
  | ok outcome =>
    simp only [hfrom, Bind.bind, Except.bind, Pure.pure, Except.pure, Except.ok.injEq,
      Prod.mk.injEq] at hrun
    obtain ⟨rfl, rfl⟩ := hrun
    exact World.takes_runFrom hfrom .here

/-- Playing a scenario leads where its record ends. -/
theorem play_eq (s : Setup) (provisions : List Provision) (events : Nat) :
    s.play provisions events = (s.record provisions events).map (·.2) := by
  simp only [play, record, bind, pure, Option.map_eq_bind, Option.bind_assoc, Function.comp_def]

/-- What a run comes to is reached. -/
theorem reaches_of_play (hallowed : ∀ r, .rejection r ∈ provisions → allowed r)
    (h : s.play provisions events = some w) : s.Reaches allowed provisions w := by
  rw [play_eq, Option.map_eq_some_iff] at h
  obtain ⟨⟨taken, v⟩, hrecord, rfl⟩ := h
  exact (runs_of_record hallowed hrecord).reaches

end Setup

/-! ## Setting up -/

/-- A service that is set up is vacant. -/
theorem Setup.vacant_service (s : Setup) (rule : ModeRule) :
    (s.service rule).Orderly ∧ ∀ id, (s.service rule).bound.find? id = none := by
  by_cases hbooked : s.bookedMode = some rule.mode
  · simp only [service, if_pos hbooked]
    refine ⟨Service.orderly_of_vacant rfl (fun _ => rfl) fun desk key hd => ?_, fun _ => rfl⟩
    obtain rfl := Option.some.inj hd
    rfl
  · simp only [service, if_neg hbooked]
    refine ⟨Service.orderly_of_vacant rfl (fun _ => rfl) fun desk key hd => ?_, fun _ => rfl⟩
    cases hd

/-- A service that is set up is open, serves the mode asked for, and was told of no rejection. -/
theorem Setup.service_terms (s : Setup) (rule : ModeRule) :
    (s.service rule).closed = false ∧ (s.service rule).mode = rule.mode ∧
      (s.service rule).mailbox = [] ∧ (s.service rule).parked = .empty := by
  by_cases hbooked : s.bookedMode = some rule.mode <;> simp [service, hbooked, Service.withDesk]

/-- Nothing is in the world that is set up but a service for each mode of a faultless
configuration. -/
theorem Setup.build_eq_ok {s : Setup} {w : World} (h : s.build = .ok w) :
    s.config.fault? = none ∧ w.services.members = s.config.modes.map s.service ∧
      w.entities = [] ∧ w.clock = {} := by
  unfold build at h
  split at h
  · cases h
  · next hfault =>
    cases h
    exact ⟨(Option.or_eq_none_iff.1 hfault).1, rfl, rfl, rfl⟩

/-! ## A way to work -/

/-- Two links that one mode serves. -/
def commute : Setup where
  config := { modes := [{ mode := ⟨"drt"⟩ }], stepInterval := 60 }
  network := .ofLinks [{ id := ⟨"home"⟩, source := ⟨0, 0⟩, target := ⟨1, 0⟩ },
    { id := ⟨"work"⟩, source := ⟨1, 0⟩, target := ⟨2, 0⟩ }]

/-- A traveler who goes to work, and a vehicle that comes to pick the traveler up. -/
def commuters (departure pickup : Time) : List Provision :=
  [.traveler ⟨"alice"⟩ ⟨"home"⟩ [⟨⟨"drt"⟩, ⟨"home"⟩, ⟨"work"⟩, departure, none⟩],
    .stop ⟨⟨"bus"⟩, ⟨"drt_0"⟩, ⟨"drt"⟩, .pickup, .scheduled⟩ pickup]

end DialARide
