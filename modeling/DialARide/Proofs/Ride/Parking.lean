import DialARide.Proofs.Ride.Reading

/-!
# Rejections of bookings are parked until the traveler departs

A step reads the rejections that are due. One that concerns a booking is parked, and a later one
takes its place. Once the traveler departs, the parked rejection goes to the front of the mailbox,
before everything that is not due and behind nothing but other rejections that were parked. So
the next step reads it while the traveler is bound, and the journey is aborted. Whatever else is
read about the request comes to nothing.
-/

namespace DialARide

/-- The call is the end of the ride for a request. -/
def Operation.dropsOff (id : RequestId) : Operation → Bool
  | .dropOff _ id' _ => id' = id
  | _ => false

theorem departures_eq (occasion : Occasion) (calls : List Call) :
    departures occasion calls = (observed calls).filterMap fun o =>
      if o.kind = .waiting then occasion.traveler?.map (o.request, ·) else none := by
  induction calls with
  | nil => rfl
  | cons c calls ih =>
    cases c with
    | observe o =>
      rw [departures, List.filterMap_cons, ← departures, observed_cons_observe,
        List.filterMap_cons, ih]
      rfl
    | ready | board | alight | abort => exact ih

namespace Service

variable {s : Service} {now : Time} {id : RequestId} {r : Rejection}

/-! ## Between steps -/

/-- A traveler departs whose booking was rejected: the rejection that was parked goes to the front
of the mailbox, and the traveler is bound. -/
structure Recalls (s : Service) (o : Operation) (id : RequestId) (r : Rejection)
    (traveler : EntityId) : Prop where
  parked : s.parked.find? id = some r
  mailbox : (s.perform o).service.mailbox = r :: s.mailbox
  erased : (s.perform o).service.parked = s.parked.erase id
  bound : ∃ b, (s.perform o).service.bound.find? id = some b ∧ b.traveler = traveler
  departure : DialARide.departures o.occasion (s.perform o).calls = [(id, traveler)]

/-- A traveler who is taken departs for an upcoming request, and nobody else is bound anew. Neither
the mailbox nor the parked rejections change, unless the booking of the traveler was rejected. -/
theorem Orderly.departs (h : s.Orderly) {who : Departing} {link : LinkId} {t : Turn}
    (ht : s.depart now who link = .ok (some t)) :
    ∃ id, s.Upcoming id ∧
      DialARide.departures (.departure who.traveler) t.calls = [(id, who.traveler)] ∧
      (∀ id', id ≠ id' → t.service.bound.find? id' = s.bound.find? id') ∧
      ((t.service.mailbox = s.mailbox ∧ t.service.parked = s.parked ∧
          (s.parked.find? id = none ∨ s.Unissued id)) ∨
        ∃ r, s.parked.find? id = some r ∧ t.service.mailbox = r :: s.mailbox ∧
          t.service.parked = s.parked.erase id ∧
          ∃ b, t.service.bound.find? id = some b ∧ b.traveler = who.traveler) := by
  obtain ⟨o, ready, hcalls, hkind, hready⟩ := calls_depart ht
  have hone : DialARide.departures (.departure who.traveler) t.calls =
      [(o.request, who.traveler)] := by
    rw [departures_eq, hcalls, observed_cons_observe, hready]
    simp [hkind, Occasion.traveler?]
  refine ⟨o.request, ?_⟩
  cases act_depart ht with
  | hear | await | book | declineBooking | pickUp | park | discard => cases hcalls
  | dropOff | reject =>
    cases hcalls
    cases hkind
  | departRejected traveler desk key q r hwho hdesk hq hp =>
    cases hwho
    cases hcalls
    refine ⟨.inr ⟨desk, key, q, hdesk, hq, rfl⟩, hone, fun id' (hne : q.id ≠ id') => ?_,
      .inr ⟨r, hp, rfl, rfl, ?_⟩⟩
    · rw [Table.find?_insert, if_neg hne]
    · exact ⟨_, (Table.find?_insert ..).trans (if_pos rfl), rfl⟩
  | departBooked traveler desk key q hwho hdesk hq hp =>
    cases hcalls
    refine ⟨.inr ⟨desk, key, q, hdesk, hq, rfl⟩, hone, fun id' (hne : q.id ≠ id') => ?_,
      .inl ⟨rfl, rfl, .inl hp⟩⟩
    rw [Table.find?_insert, if_neg hne]
  | departNow traveler q hwho hid =>
    cases hcalls
    have hissue : s.Unissued q.id := by
      rw [hid, h.choose_eq]
      exact s.unissued_requestName
    refine ⟨.inl hissue, hone, fun id' (hne : q.id ≠ id') => ?_, .inl ⟨rfl, rfl, .inr hissue⟩⟩
    rw [Table.find?_insert, if_neg hne]
  | departDeclined traveler q hwho hid =>
    cases hcalls
    have hissue : s.Unissued q.id := by
      rw [hid, h.choose_eq]
      exact s.unissued_requestName
    refine ⟨.inl hissue, hone, fun id' (hne : q.id ≠ id') => ?_, .inl ⟨rfl, rfl, .inr hissue⟩⟩
    rw [Table.find?_erase, if_neg hne]

/-- A departure leaves the mailbox and the parked rejections alone, unless the booking of the
traveler was rejected. -/
theorem Orderly.mailbox_depart (h : s.Orderly) (now : Time) (who : Departing) (link : LinkId) :
    ((s.perform (.depart now who link)).service.mailbox = s.mailbox ∧
        (s.perform (.depart now who link)).service.parked = s.parked ∧
        ∀ p ∈ s.departures [.depart now who link],
          s.parked.find? p.1 = none ∨ s.Unissued p.1) ∨
      ∃ id r, s.Recalls (.depart now who link) id r who.traveler := by
  cases hdepart : s.depart now who link with
  | error fault => exact .inl (by simp [departures, DialARide.departures, perform, hdepart])
  | ok turn =>
    cases turn with
    | none => exact .inl (by simp [departures, DialARide.departures, perform, hdepart])
    | some t =>
      obtain rfl : s.perform (.depart now who link) = t := by simp [perform, hdepart]
      obtain ⟨id, -, hone, -, ⟨hmailbox, hparked, hfresh⟩ | ⟨r, hp, hmailbox, herased, hbound⟩⟩ :=
        h.departs hdepart
      · refine .inl ⟨hmailbox, hparked, fun p hdeparts => ?_⟩
        have hall : s.departures [.depart now who link] = [(id, who.traveler)] := by
          rw [departures, departures, List.append_nil]
          exact hone
        rw [hall, List.mem_singleton] at hdeparts
        rw [hdeparts]
        exact hfresh
      · exact .inr ⟨id, r, hp, hmailbox, herased, hbound, hone⟩

/-- Between steps rejections only come in at the end of the mailbox and what is parked stays,
unless a traveler departs whose booking was rejected. -/
theorem Orderly.mailbox_perform (h : s.Orderly) {o : Operation} (ho : o.stepTime? = none) :
    (∃ more, (s.perform o).service.mailbox = s.mailbox ++ more ∧
        (s.perform o).service.parked = s.parked) ∨
      ∃ id r traveler, s.Recalls o id r traveler := by
  have hquiet (heq : (s.perform o).service.mailbox = s.mailbox ∧
      (s.perform o).service.parked = s.parked) :
      ∃ more, (s.perform o).service.mailbox = s.mailbox ++ more ∧
        (s.perform o).service.parked = s.parked := ⟨[], by rw [heq.1, List.append_nil], heq.2⟩
  cases o with
  | step now => cases ho
  | depart now who link =>
    rcases h.mailbox_depart now who link with ⟨hmailbox, hparked, -⟩ | ⟨id, r, hrecalls⟩
    · exact .inl (hquiet ⟨hmailbox, hparked⟩)
    · exact .inr ⟨id, r, _, hrecalls⟩
  | await stop id =>
    refine .inl (hquiet ?_)
    simp only [perform, awaitPassenger]
    split <;> exact ⟨rfl, rfl⟩
  | pickUp vehicle id now =>
    refine .inl (hquiet ?_)
    cases hb : s.bound.find? id with
    | none => simp [perform, pickUp, hb]
    | some b => by_cases hstatus : b.status = .pickedUp <;> simp [perform, pickUp, hb, hstatus]
  | dropOff vehicle id now =>
    refine .inl (hquiet ?_)
    cases hb : s.bound.find? id <;> simp [perform, dropOff, hb]
  | reject r =>
    simp only [perform, deliver]
    split
    · exact .inl ⟨[r], rfl, rfl⟩
    · exact .inl ⟨[], (List.append_nil _).symm, rfl⟩
  | book now person planned =>
    refine .inl (hquiet ?_)
    cases hbook : s.book now person planned with
    | error fault => simp [perform, hbook]
    | ok outcome =>
      rcases book_eq_ok hbook with ⟨-, ht⟩ | ⟨desk, -, ⟨-, ht⟩ | ⟨r, -, -, -, -, ht⟩⟩ <;>
        simp [perform, hbook, ht]

/-- A traveler stays bound to a request between steps until dropped off. Nobody departs for a
request to which somebody is bound. -/
theorem Orderly.bound_perform (h : s.Orderly) {o : Operation} (ho : o.stepTime? = none)
    (hdrop : o.dropsOff id = false) {b : Binding} (hb : s.bound.find? id = some b) :
    ∃ b', (s.perform o).service.bound.find? id = some b' ∧ b'.traveler = b.traveler := by
  have hfresh {id' : RequestId} (hup : s.Upcoming id') : id' ≠ id := by
    rintro rfl
    rw [h.unbound _ hup] at hb
    cases hb
  cases o with
  | step now => cases ho
  | depart now who link =>
    cases hdepart : s.depart now who link with
    | error fault => exact ⟨b, by simp [perform, hdepart, hb], rfl⟩
    | ok turn =>
      cases turn with
      | none => exact ⟨b, by simp [perform, hdepart, hb], rfl⟩
      | some t =>
        obtain ⟨id', hup, -, hothers, -⟩ := h.departs hdepart
        exact ⟨b, by simp [perform, hdepart, hothers id (hfresh hup), hb], rfl⟩
  | await stop id' =>
    refine ⟨b, ?_, rfl⟩
    simp only [perform, awaitPassenger]
    split <;> exact hb
  | pickUp vehicle id' now =>
    cases hb' : s.bound.find? id' with
    | none => exact ⟨b, by simp [perform, pickUp, hb', hb], rfl⟩
    | some b' =>
      by_cases hstatus : b'.status = .pickedUp
      · exact ⟨b, by simp [perform, pickUp, hb', hstatus, hb], rfl⟩
      · by_cases hid : id' = id
        · subst hid
          obtain rfl := Option.some.inj (hb.symm.trans hb')
          exact ⟨{ b with status := .pickedUp }, by simp [perform, pickUp, hb, hstatus], rfl⟩
        · exact ⟨b, by simp [perform, pickUp, hb', hstatus, hid, hb], rfl⟩
  | dropOff vehicle id' now =>
    have hne : id' ≠ id := by simpa [Operation.dropsOff] using hdrop
    cases hb' : s.bound.find? id' <;> exact ⟨b, by simp [perform, dropOff, hb', hne, hb], rfl⟩
  | reject r =>
    refine ⟨b, ?_, rfl⟩
    simp only [perform, deliver]
    split <;> exact hb
  | book now person planned =>
    refine ⟨b, ?_, rfl⟩
    cases hbook : s.book now person planned with
    | error fault => simp [perform, hbook, hb]
    | ok outcome =>
      rcases book_eq_ok hbook with ⟨-, ht⟩ | ⟨desk, -, ⟨-, ht⟩ | ⟨r, -, -, -, -, ht⟩⟩ <;>
        simp [perform, hbook, ht, hb]

/-! ## What is parked -/

/-- What is parked for a request that nobody departed for is the last rejection that was read while
the request was booked. It was due at a step, and the name of its request was given away. -/
structure Shelved (s : Service) (gone : List (RequestId × EntityId)) (readings : List Reading)
    (steps : List Time) : Prop where
  held : ∀ id ∉ gone.map (·.1), s.parked.find? id = Reading.held id readings
  named : ∀ id r, s.parked.find? id = some r → r.request = id
  due : ∀ id r, s.parked.find? id = some r → ∃ t ∈ steps, r.time < t
  issued : ∀ id r, s.parked.find? id = some r → ¬ s.Unissued id

variable {gone : List (RequestId × EntityId)} {told : List Call} {readings : List Reading}
  {steps : List Time} {traveler : EntityId}

theorem Acts.unissued {occasion : Occasion} {t : Turn} (ha : Acts now occasion s t)
    (h : t.service.Unissued id) : s.Unissued id :=
  ha.keeps (P := fun u => u.Unissued id → s.Unissued id)
    (fun _ _ hu hact hissue => hu (hact.unissued hissue)) (fun hissue => hissue) h

/-- A step parks what it reads of requests that are booked. What is parked after the step was parked
before, or was read and due now. -/
theorem Shelved.step (h : s.Shelved gone readings steps) (hr : s.Recorded gone told) (now : Time) :
    (s.step now).service.Shelved gone (readings ++ s.read (.step now)) (steps ++ [now]) := by
  have horigin {id : RequestId} {r : Rejection}
      (hp : (s.step now).service.parked.find? id = some r) :
      s.parked.find? id = some r ∨ r.request = id ∧ r.time < now ∧ s.isBooked id := by
    rcases mem_due_of_parked hp with hbefore | ⟨hmem, hid, hbooked⟩
    · exact .inl hbefore
    · have htime : r.time < now := by simpa using List.all_eq_true.1 List.all_takeWhile r hmem
      exact .inr ⟨hid, htime, hbooked⟩
  refine ⟨fun id hid => ?_, fun id r hp => ?_, fun id r hp => ?_, fun id r hp hissue => ?_⟩
  · have hnone : s.bound.find? id = none := by
      by_contra hbound
      obtain ⟨b, hb⟩ := Option.ne_none_iff_exists'.1 hbound
      exact hid (List.mem_map_of_mem (hr.bound id b hb).1)
    have hparked := parked_applyRejections
      (s := { s with mailbox := s.mailbox.dropWhile (·.time < now) }) hnone now
      (s.mailbox.takeWhile (·.time < now))
    rw [Reading.held_append, ← h.held id hid]
    exact hparked
  · rcases horigin hp with hbefore | ⟨hid, -, -⟩
    · exact h.named id r hbefore
    · exact hid
  · rcases horigin hp with hbefore | ⟨-, htime, -⟩
    · obtain ⟨t, ht, hlt⟩ := h.due id r hbefore
      exact ⟨t, List.mem_append_left _ ht, hlt⟩
    · exact ⟨now, List.mem_append_right _ List.mem_cons_self, htime⟩
  · have hissue' : s.Unissued id := (s.acts_step now .other).unissued hissue
    rcases horigin hp with hbefore | ⟨-, -, hbooked⟩
    · exact h.issued id r hbefore hissue'
    · exact hr.orderly.not_unissued_of_booked (isBooked_iff.1 hbooked) hissue'

/-- Between steps what is parked for a request stays until the traveler departs. -/
theorem Orderly.parked_perform (h : s.Orderly) {o : Operation} (ho : o.stepTime? = none)
    (id : RequestId) : (s.perform o).service.parked.find? id = s.parked.find? id ∨
      (s.perform o).service.parked.find? id = none ∧
        id ∈ (DialARide.departures o.occasion (s.perform o).calls).map (·.1) := by
  rcases h.mailbox_perform ho with ⟨-, -, hsame⟩ | ⟨id', r, traveler, hrecalls⟩
  · exact .inl (by rw [hsame])
  · rw [hrecalls.erased, hrecalls.departure, Table.find?_erase]
    split
    · next hid => exact .inr ⟨rfl, by simp [hid]⟩
    · exact .inl rfl

/-- Every call keeps what is known of the parked rejections. -/
theorem Shelved.perform (h : s.Shelved gone readings steps) (hr : s.Recorded gone told)
    (o : Operation) :
    (s.perform o).service.Shelved (gone ++ DialARide.departures o.occasion (s.perform o).calls)
      (readings ++ s.read o) (steps ++ o.stepTime?.toList) := by
  have hgone {departed : List (RequestId × EntityId)} {id : RequestId}
      (hid : id ∉ (gone ++ departed).map (·.1)) :
      id ∉ gone.map (·.1) ∧ id ∉ departed.map (·.1) := by
    rwa [List.map_append, List.mem_append, not_or] at hid
  by_cases ho : o.stepTime? = none
  · rw [read_eq_nil ho, ho, Option.toList_none, List.append_nil, List.append_nil]
    have hkept {id : RequestId} {r : Rejection}
        (hp : (s.perform o).service.parked.find? id = some r) : s.parked.find? id = some r := by
      rcases hr.orderly.parked_perform ho id with hsame | ⟨hnone, -⟩
      · rwa [hsame] at hp
      · rw [hnone] at hp
        cases hp
    refine ⟨fun id hid => ?_, fun id r hp => h.named id r (hkept hp),
      fun id r hp => h.due id r (hkept hp),
      fun id r hp hissue => h.issued id r (hkept hp) ((s.acts_perform o).unissued hissue)⟩
    rcases hr.orderly.parked_perform ho id with hsame | ⟨-, hdeparts⟩
    · exact hsame.trans (h.held id (hgone hid).1)
    · exact absurd hdeparts (hgone hid).2
  · obtain ⟨now, rfl⟩ : ∃ now, o = .step now := by
      cases o <;> first | exact ⟨_, rfl⟩ | exact absurd rfl ho
    obtain ⟨hheld, hnamed, hdue, hissued⟩ := h.step hr now
    exact ⟨fun id hid => hheld id (hgone hid).1, hnamed, hdue, hissued⟩

theorem departures_append (s : Service) (os os' : List Operation) :
    s.departures (os ++ os') = s.departures os ++ (s.run os).service.departures os' := by
  induction os generalizing s with
  | nil => rfl
  | cons o os ih =>
    rw [List.cons_append, departures, departures, ih, List.append_assoc]
    rfl

theorem Shelved.run (h : s.Shelved gone readings steps) (hr : s.Recorded gone told)
    (operations : List Operation) :
    (s.run operations).service.Shelved (gone ++ s.departures operations)
      (readings ++ s.readings operations) (steps ++ stepTimes operations) := by
  induction operations generalizing s gone told readings steps with
  | nil => simpa [Service.run, departures, Service.readings, stepTimes] using h
  | cons o rest ih =>
    have hrest := ih (h.perform hr o) (hr.acts (s.acts_perform o))
    have htimes : stepTimes (o :: rest) = o.stepTime?.toList ++ stepTimes rest := by
      unfold stepTimes
      cases ho : o.stepTime? <;> simp [ho]
    simpa [Service.run, departures, Service.readings, Turn.andThen, htimes] using hrest

/-! ## After the departure -/

/-- The traveler departed for a request whose rejection had been parked. Before it the mailbox holds
nothing but rejections of other requests, all of them due. -/
structure Recalled (s : Service) (id : RequestId) (r : Rejection) (traveler : EntityId)
    (steps : List Time) : Prop where
  named : r.request = id
  due : ∃ t ∈ steps, r.time < t
  queued : ∃ front back, s.mailbox = front ++ r :: back ∧
    ∀ q ∈ front, q.request ≠ id ∧ ∃ t ∈ steps, q.time < t
  unparked : s.parked.find? id = none
  bound : ∃ b, s.bound.find? id = some b ∧ b.traveler = traveler

/-- The departure of a traveler whose booking was rejected recalls what is parked. -/
theorem Shelved.recall (h : s.Shelved gone readings steps) (hr : s.Recorded gone told)
    {now : Time} {who : Departing} {link : LinkId}
    (hdeparts : (id, who.traveler) ∈ s.departures [.depart now who link])
    (hheld : Reading.held id readings = some r) :
    (s.perform (.depart now who link)).service.Recalled id r who.traveler steps := by
  have hgone : id ∉ gone.map (·.1) := by
    have honce := (hr.run [.depart now who link]).once
    rw [List.map_append, List.nodup_append] at honce
    exact fun hmem => honce.2.2 _ hmem _ (List.mem_map_of_mem hdeparts) rfl
  have hparked : s.parked.find? id = some r := (h.held id hgone).trans hheld
  rcases hr.orderly.mailbox_depart now who link with ⟨-, -, hfresh⟩ | ⟨id', r', hrecalls⟩
  · rcases hfresh _ hdeparts with hnone | hissue
    · rw [hparked] at hnone
      cases hnone
    · exact absurd hissue (h.issued id r hparked)
  · have hone : (id, who.traveler) ∈ [(id', who.traveler)] := by
      rw [← hrecalls.departure]
      simpa [departures] using hdeparts
    obtain rfl : id = id' := (Prod.mk.inj (List.mem_singleton.1 hone)).1
    obtain rfl := Option.some.inj (hparked.symm.trans hrecalls.parked)
    refine ⟨h.named id r hparked, h.due id r hparked, ⟨[], s.mailbox, hrecalls.mailbox, ?_⟩, ?_,
      hrecalls.bound⟩
    · intro q hq
      cases hq
    · rw [hrecalls.erased, Table.find?_erase, if_pos rfl]

/-- Between steps a rejection that was recalled stays before everything that is not due, and the
traveler stays bound until dropped off. A rejection that is put before it was parked, and so was
read as due by a step. -/
theorem Recalled.perform (h : s.Recalled id r traveler steps) (hs : s.Shelved gone readings steps)
    (hr : s.Recorded gone told) {o : Operation} (ho : o.stepTime? = none)
    (hdrop : o.dropsOff id = false) : (s.perform o).service.Recalled id r traveler steps := by
  obtain ⟨front, back, hmailbox, hfront⟩ := h.queued
  obtain ⟨b, hb, htraveler⟩ := h.bound
  obtain ⟨b', hb', hsame⟩ := hr.orderly.bound_perform ho hdrop hb
  have hbound : ∃ b, (s.perform o).service.bound.find? id = some b ∧ b.traveler = traveler :=
    ⟨b', hb', hsame.trans htraveler⟩
  rcases hr.orderly.mailbox_perform ho with ⟨more, hmore, hparked⟩ | ⟨id', r', traveler', hrecalls⟩
  · refine ⟨h.named, h.due, ⟨front, back ++ more, ?_, hfront⟩, ?_, hbound⟩
    · rw [hmore, hmailbox, List.append_assoc, List.cons_append]
    · rw [hparked]
      exact h.unparked
  · have hne : id' ≠ id := by
      rintro rfl
      have hnone := h.unparked
      rw [hrecalls.parked] at hnone
      cases hnone
    refine ⟨h.named, h.due, ⟨r' :: front, back, ?_, ?_⟩, ?_, hbound⟩
    · rw [hrecalls.mailbox, hmailbox, List.cons_append]
    · intro q hq
      rcases List.mem_cons.1 hq with rfl | hq
      · rw [hs.named id' q hrecalls.parked]
        exact ⟨hne, hs.due id' q hrecalls.parked⟩
      · exact hfront q hq
    · rw [hrecalls.erased, Table.find?_erase, if_neg hne]
      exact h.unparked

theorem Recalled.run {between : List Operation}
    (hbetween : ∀ o ∈ between, o.stepTime? = none ∧ o.dropsOff id = false)
    (h : s.Recalled id r traveler steps) (hs : s.Shelved gone readings steps)
    (hr : s.Recorded gone told) : (s.run between).service.Recalled id r traveler steps := by
  induction between generalizing s gone told readings with
  | nil => exact h
  | cons o rest ih =>
    obtain ⟨ho, hdrop⟩ := hbetween o List.mem_cons_self
    have hs' := hs.perform hr o
    rw [ho, Option.toList_none, List.append_nil] at hs'
    exact ih (fun o' ho' => hbetween o' (List.mem_cons_of_mem o ho')) (h.perform hs hr ho hdrop) hs'
      (hr.acts (s.acts_perform o))

/-- The next step reads the rejection that was recalled while the traveler is bound. -/
theorem Recalled.mem_read_step (h : s.Recalled id r traveler steps) (hr : s.Recorded gone told)
    {later : Time} (hlater : ∀ t ∈ steps, t ≤ later) :
    ∃ o : Observation, o.kind = .rejected ∧ o.request = id ∧ o.time = later ∧
      o.cause = some r.cause ∧
      ⟨r, false, [.observe o, .abort traveler later]⟩ ∈ s.read (.step later) := by
  obtain ⟨front, back, hmailbox, hfront⟩ := h.queued
  obtain ⟨b, hb, rfl⟩ := h.bound
  have hnot : s.isBooked id = false := by
    rw [Bool.eq_false_iff]
    intro hbooked
    have hnone := hr.orderly.unbound id (.inr (isBooked_iff.1 hbooked))
    rw [hb] at hnone
    cases hnone
  have hdue : ∀ q ∈ front ++ [r], decide (q.time < later) = true := by
    intro q hq
    have hbefore : ∃ t ∈ steps, q.time < t := by
      rcases List.mem_append.1 hq with hq | hq
      · exact (hfront q hq).2
      · rw [List.mem_singleton.1 hq]
        exact h.due
    obtain ⟨t, ht, hlt⟩ := hbefore
    exact decide_eq_true (Nat.lt_of_lt_of_le hlt (hlater t ht))
  have htake : s.mailbox.takeWhile (·.time < later) =
      front ++ r :: back.takeWhile (·.time < later) := by
    have hsplit : s.mailbox = (front ++ [r]) ++ back := by simp [hmailbox]
    rw [hsplit, List.takeWhile_append_of_pos hdue, List.append_assoc, List.singleton_append]
  let rest := { s with mailbox := s.mailbox.dropWhile (·.time < later) }
  let s' := (applyRejections later rest front).service
  have hbound : s'.bound.find? r.request = some b := by
    rw [h.named, bound_applyRejections_of_ne fun q hq => (hfront q hq).1]
    exact hb
  have hbooked : s'.isBooked r.request = false := by
    rw [h.named, isBooked_applyRejections]
    exact hnot
  have hcalls := s'.calls_applyRejection later r
  rw [hbound] at hcalls
  refine ⟨{ s'.observation later .rejected r.request b.person with cause := some r.cause }, rfl,
    h.named, rfl, rfl, ?_⟩
  rw [read, htake, readAll_append]
  refine List.mem_append_right _ (List.mem_cons.2 (.inl ?_))
  rw [Reading.mk.injEq]
  exact ⟨rfl, hbooked.symm, hcalls.symm⟩

/-- The first step after the departure reads the rejection that was parked. -/
theorem Shelved.mem_read_step (h : s.Shelved gone readings steps) (hr : s.Recorded gone told)
    {now later : Time} {who : Departing} {link : LinkId} {between : List Operation}
    (hdeparts : (id, who.traveler) ∈ s.departures [.depart now who link])
    (hheld : Reading.held id readings = some r)
    (hbetween : ∀ o ∈ between, o.stepTime? = none ∧ o.dropsOff id = false)
    (hlater : ∀ t ∈ steps, t ≤ later) :
    ∃ o : Observation, o.kind = .rejected ∧ o.request = id ∧ o.time = later ∧
      o.cause = some r.cause ∧ ⟨r, false, [.observe o, .abort who.traveler later]⟩ ∈
        (s.run (.depart now who link :: between)).service.read (.step later) := by
  have hdepart := hr.acts (s.acts_perform (.depart now who link))
  have hshelved := h.perform hr (.depart now who link)
  have htime : (Operation.depart now who link).stepTime? = none := rfl
  rw [htime, Option.toList_none, List.append_nil] at hshelved
  have hrecalled := (h.recall hr hdeparts hheld).run hbetween hshelved hdepart
  exact hrecalled.mem_read_step (hdepart.run between) hlater

/-! ## Whole runs -/

/-- Nothing is parked when a service is opened. -/
theorem shelved_opened {naming : Naming} (mode : ModeId) (network : Network) (screening : Screening)
    (desk : Option Desk) : (opened mode network naming screening desk).Shelved [] [] [] :=
  ⟨fun _ _ => rfl, fun _ _ h => (by cases h), fun _ _ h => (by cases h),
    fun _ _ h => (by cases h)⟩

/-- Whatever is asked of a service that takes bookings, and in whatever order, as long as the times
of its steps do not decrease: only a rejection that is read tells of a rejection or aborts anybody,
and of those of one request one at most does, none if the passenger is dropped off. Until the
traveler departs, the last rejection that was read of a booking stays parked. If the traveler then
departs and is not dropped off before the next step, that step observes that the request is
rejected, for the cause of the parked rejection, and aborts the traveler. -/
theorem parked_rejection_aborts (mode : ModeId) (network : Network) (screening advance : Screening)
    (operations : List Operation) (hsteps : (stepTimes operations).Pairwise (· ≤ ·))
    (id : RequestId) :
    let s := opened mode network .proposed screening (some { screening := advance })
    let readings := s.readings operations
    (s.run operations).calls.filter (·.rejects) = readings.flatMap (·.calls) ∧
    (readings.filter (Reading.Strikes id)).length +
      (stages id (s.run operations).calls).count .droppedOff ≤ 1 ∧
    (id ∉ (s.departures operations).map (·.1) →
      (s.run operations).service.parked.find? id = Reading.held id readings) ∧
    ∀ before now who link between later after r,
      operations = before ++ .depart now who link :: (between ++ .step later :: after) →
      (id, who.traveler) ∈ (s.run before).service.departures [.depart now who link] →
      (∀ o ∈ between, o.stepTime? = none ∧ o.dropsOff id = false) →
      Reading.held id (s.readings before) = some r →
      ∃ o : Observation, o.kind = .rejected ∧ o.request = id ∧ o.time = later ∧
        o.cause = some r.cause ∧
        [.observe o, .abort who.traveler later] <:+:
          ((s.run (before ++ .depart now who link :: between)).service.step later).calls ∧
        readings.filter (Reading.Strikes id) =
          [⟨r, false, [.observe o, .abort who.traveler later]⟩] ∧
        rejectionsOf id (s.run operations).calls = [o] := by
  intro s readings
  have hrecorded : s.Recorded [] [] := recorded_opened mode network screening (some advance)
  have hshelved : s.Shelved [] [] [] := shelved_opened mode network screening _
  have hstrikes := hrecorded.length_strikes_le operations id
  refine ⟨hrecorded.filter_rejects_run operations, hstrikes,
    (hshelved.run hrecorded operations).held id, ?_⟩
  intro before now who link between later after r hop hdeparts hbetween hheld
  have hlater : ∀ t ∈ stepTimes before, t ≤ later := by
    rw [hop, stepTimes, List.filterMap_append, List.pairwise_append] at hsteps
    exact fun t ht => hsteps.2.2 t ht later (by simp [Operation.stepTime?])
  obtain ⟨o, hkind, hrequest, htime, hcause, hread⟩ :=
    (hshelved.run hrecorded before).mem_read_step (hrecorded.run before) hdeparts hheld hbetween
      hlater
  rw [← service_run_append] at hread
  let struck : Reading := ⟨r, false, [.observe o, .abort who.traveler later]⟩
  have hmem : struck ∈ readings := by
    have hsplit : operations =
        (before ++ .depart now who link :: between) ++ .step later :: after := by simp [hop]
    rw [show readings = s.readings operations from rfl, hsplit, readings_append]
    exact List.mem_append_right _ (List.mem_append_left _ hread)
  have hstruck : struck ∈ readings.filter (Reading.Strikes id) :=
    List.mem_filter.2 ⟨hmem, decide_eq_true ⟨Reading.request_of_held hheld, List.cons_ne_nil _ _⟩⟩
  have honly : readings.filter (Reading.Strikes id) = [struck] := by
    obtain ⟨x, hx⟩ := List.length_eq_one_iff.1 (Nat.le_antisymm
      (Nat.le_trans (Nat.le_add_right _ _) hstrikes) (List.length_pos_of_mem hstruck))
    rw [hx, List.mem_singleton] at hstruck
    rw [hx, hstruck]
  refine ⟨o, hkind, hrequest, htime, hcause, ?_, honly, ?_⟩
  · rw [calls_step, List.flatMap_def]
    exact List.infix_of_mem_flatten (List.mem_map_of_mem hread)
  · rw [hrecorded.rejectionsOf_run, honly]
    rfl

/-- The trips of two passengers are booked and rejected, that of the first twice. A rejection that
is not due lies in the mailbox when both depart, and the next step aborts both. -/
theorem both_bookings_aborted :
    let leg : Leg := ⟨⟨"drt"⟩, ⟨"home"⟩, ⟨"work"⟩, 10, none⟩
    let home : Link := { id := leg.source, source := ⟨0, 0⟩, target := ⟨1, 0⟩ }
    let work : Link := { id := leg.target, source := ⟨1, 0⟩, target := ⟨2, 0⟩ }
    let s := opened ⟨"drt"⟩ (.ofLinks [home, work]) .proposed .distinctLinks (some {})
    let alice : Departing := ⟨1, ⟨"alice"⟩, ⟨"drt"⟩, some ⟨0, leg⟩⟩
    let bob : Departing := ⟨2, ⟨"bob"⟩, ⟨"drt"⟩, some ⟨0, leg⟩⟩
    let first : RequestId := ⟨"drt_prebooked_0"⟩
    let before : List Operation := [
      .book 0 ⟨"alice"⟩ ⟨0, leg⟩, .book 0 ⟨"bob"⟩ ⟨0, leg⟩,
      .reject ⟨1, ⟨"drt"⟩, first, "late"⟩, .reject ⟨1, ⟨"drt"⟩, ⟨"drt_prebooked_1"⟩, "full"⟩,
      .step 2, .reject ⟨2, ⟨"drt"⟩, first, "no vehicle"⟩, .step 3,
      .reject ⟨50, ⟨"drt"⟩, first, "closed"⟩]
    let operations := before ++ .depart 10 alice ⟨"home"⟩ ::
      ([.depart 10 bob ⟨"home"⟩] ++ .step 11 :: [.step 60])
    (∃ o : Observation, o.time = 11 ∧ o.cause = some "no vehicle" ∧
      (s.readings operations).filter (Reading.Strikes first) =
        [⟨⟨2, ⟨"drt"⟩, first, "no vehicle"⟩, false, [.observe o, .abort 1 11]⟩] ∧
      rejectionsOf first (s.run operations).calls = [o]) ∧
      ((s.run operations).calls.filter (·.isAbort)) = [.abort 2 11, .abort 1 11] := by
  intro leg home work s alice bob first before operations
  refine ⟨?_, by decide +kernel⟩
  have hparked := (parked_rejection_aborts ⟨"drt"⟩ (.ofLinks [home, work]) .distinctLinks
    .distinctLinks operations (by decide +kernel) first).2.2.2
  obtain ⟨o, -, -, htime, hcause, -, hstrikes, hone⟩ := hparked before 10 alice ⟨"home"⟩
    [.depart 10 bob ⟨"home"⟩] 11 [.step 60] ⟨2, ⟨"drt"⟩, first, "no vehicle"⟩ rfl
    (by decide +kernel) (by decide +kernel) (by decide +kernel)
  exact ⟨o, htime, hcause, hstrikes, hone⟩

end Service

end DialARide
