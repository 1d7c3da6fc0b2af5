import DialARide.Proofs.Ride.Effect
import DialARide.Proofs.Ride.Operation

/-!
# Requests reach the optimizer once

A call makes one request at most: a departure without a booking makes one now, and a booking makes
one ahead. What passes its screening is submitted at once, under a name that was never given away
before. Hence no name is submitted twice, whoever is bound to a request was announced to the
optimizer by that one submission, and of a request that is declined nothing is left.
-/

namespace DialARide

/-- The call is a departure. -/
def Operation.isDeparture : Operation → Bool
  | .depart .. => true
  | _ => false

/-- The call is a booking. -/
def Operation.isBooking : Operation → Bool
  | .book .. => true
  | _ => false

namespace Service

/-- The request that a call makes, with the screening that it has to pass: a departure makes one
if the traveler goes by the mode of the service and has not booked, a booking if it is for that
mode, and either needs links that are known. -/
def draft? (s : Service) : Operation → Option (Request × Screening)
  | .depart now who link =>
    match who.leg with
    | none => none
    | some planned =>
      if who.mode ≠ s.mode ∨ (s.collect ⟨who.person, planned.index⟩).isSome then none
      else
        match s.requireLink link, s.requireLink planned.leg.target with
        | .ok source, .ok target =>
          some (s.request s.nextName who.person planned.leg source target now now, s.screening)
        | _, _ => none
  | .book now person planned =>
    match s.desk with
    | none => none
    | some desk =>
      if planned.leg.mode ≠ s.mode then none
      else
        match s.requireLink planned.leg.source, s.requireLink planned.leg.target with
        | .ok source, .ok target =>
          some (s.request (s.nextBookingName desk) person planned.leg source target
            planned.leg.departure now, desk.screening)
        | _, _ => none
  | _ => none

variable {s : Service} {r : Request} {screening : Screening} {now : Time} {o : Operation}
  {occasion : Occasion} {t : Turn}

/-! ## What a call submits -/

/-- A departure that makes a request leads to that of a traveler without a booking. -/
theorem draft?_depart {who : Departing} {link : LinkId}
    (h : s.draft? (.depart now who link) = some (r, screening)) :
    ∃ (planned : PlannedLeg) (source target : Link), screening = s.screening ∧
      r = s.request s.nextName who.person planned.leg source target now now ∧
      s.perform (.depart now who link) = s.departNow now who planned.leg source target := by
  simp only [draft?] at h
  split at h
  · cases h
  · next planned hleg =>
    split at h
    · cases h
    · next hfree =>
      simp only [ne_eq, not_or, not_not, Bool.not_eq_true, Option.isSome_eq_false_iff,
        Option.isNone_iff_eq_none] at hfree
      split at h
      · next source target hsource htarget =>
        cases h
        refine ⟨planned, source, target, rfl, rfl, ?_⟩
        simp [perform, depart, hleg, hfree.1, hfree.2, hsource, htarget, Bind.bind, Except.bind,
          Pure.pure, Except.pure]
      · cases h

/-- A booking that makes a request uses up a name, and keeps the request if it is accepted. -/
theorem draft?_book {person : PersonId} {planned : PlannedLeg}
    (h : s.draft? (.book now person planned) = some (r, screening)) :
    ∃ desk, s.desk = some desk ∧ screening = desk.screening ∧
      r.id = s.naming.choose (bookingName s.mode desk.drawn) ∧
      s.perform (.book now person planned) =
        if desk.screening.accepts r then
          { service := { s with desk := some { desk with
              bookings := desk.bookings.insert ⟨person, planned.index⟩ r
              drawn := desk.drawn + 1 } }
            submitted := [r] }
        else { service := { s with desk := some { desk with drawn := desk.drawn + 1 } } } := by
  simp only [draft?] at h
  split at h
  · cases h
  · next desk hdesk =>
    split at h
    · cases h
    · next hmode =>
      split at h
      · next source target hsource htarget =>
        cases h
        refine ⟨desk, hdesk, rfl, rfl, ?_⟩
        simp only [perform, book, hdesk, if_neg hmode, hsource, htarget, Bind.bind, Except.bind]
        split <;> split <;> simp_all [Pure.pure, Except.pure]
      · cases h

/-- Nothing is submitted when a traveler departs with a booking. -/
theorem submitted_departBooked (s : Service) (now : Time) (who : Departing) (r : Request) :
    (s.departBooked now who r).submitted = [] := by
  cases hp : s.parked.find? r.id <;> simp [departBooked, bind, hp]

private theorem submitted_depart (s : Service) (now : Time) (who : Departing) (link : LinkId) :
    (s.perform (.depart now who link)).submitted =
      ((s.draft? (.depart now who link)).filter fun d => d.2.accepts d.1).toList.map (·.1) := by
  have hdeparts := s.departs_depart now who link
  generalize hdepart : s.depart now who link = report at hdeparts
  cases hdeparts with
  | turnedDown hmode => cases hleg : who.leg <;> simp [perform, hdepart, draft?, hleg, hmode]
  | hindered hmode hhinders =>
    cases hhinders with
    | leg hleg => simp [perform, hdepart, draft?, hleg]
    | source hleg hbooking hlink =>
      have hsource := requireLink_eq_error_iff.2 ⟨hlink, rfl⟩
      simp [perform, hdepart, draft?, hleg, hmode, collect_eq, hbooking, hsource]
    | target hleg hbooking hlink hend =>
      have htarget := requireLink_eq_error_iff.2 ⟨hend, rfl⟩
      simp [perform, hdepart, draft?, hleg, hmode, collect_eq, hbooking, htarget]
  | booked hmode hleg hbooking =>
    simp [perform, hdepart, draft?, hleg, hmode, collect_eq, hbooking, submitted_departBooked]
  | @requested planned source target hmode hleg hbooking hsource htarget =>
    let r := s.request s.nextName who.person planned.leg source target now now
    by_cases ha : s.screening.accepts r <;>
      simp [perform, hdepart, draft?, hleg, hmode, collect_eq, hbooking, hsource, htarget,
        departNow_eq, r, ha, Option.filter]

private theorem submitted_book (s : Service) (now : Time) (person : PersonId)
    (planned : PlannedLeg) :
    (s.perform (.book now person planned)).submitted =
      ((s.draft? (.book now person planned)).filter fun d => d.2.accepts d.1).toList.map (·.1) := by
  have hbooks := s.books_book now person planned
  generalize hbook : s.book now person planned = report at hbooks
  cases hbooks with
  | noDesk hdesk => simp [perform, hbook, draft?, hdesk]
  | turnedDown hdesk hmode => simp [perform, hbook, draft?, hdesk, hmode]
  | noSource hdesk hmode hsource => simp [perform, hbook, draft?, hdesk, hmode, hsource]
  | noTarget hdesk hmode hsource htarget =>
    simp [perform, hbook, draft?, hdesk, hmode, hsource, htarget]
  | @between desk source target hdesk hmode hsource htarget =>
    let r := s.request (s.nextBookingName desk) person planned.leg source target
      planned.leg.departure now
    by_cases ha : desk.screening.accepts r <;>
      simp [perform, hbook, bookBetween, draft?, hdesk, hmode, hsource, htarget, r, ha,
        Option.filter]

/-- A call submits the request that it makes if that is accepted, and nothing else. -/
theorem submitted_perform (s : Service) (o : Operation) : (s.perform o).submitted =
    ((s.draft? o).filter fun d => d.2.accepts d.1).toList.map (·.1) := by
  cases o with
  | depart now who link => exact s.submitted_depart now who link
  | book now person planned => exact s.submitted_book now person planned
  | await | reject => rfl
  | pickUp vehicle id now =>
    cases hb : s.bound.find? id with
    | none => simp [perform, pickUp, draft?, hb]
    | some b => by_cases hstatus : b.status = .pickedUp <;>
        simp [perform, pickUp, draft?, hb, hstatus]
  | dropOff vehicle id now => cases hb : s.bound.find? id <;> simp [perform, dropOff, draft?, hb]
  | step now => exact submitted_applyRejections now _ _

/-- What is left of a request that is declined: its name is used up, and nobody is bound to it. -/
theorem Orderly.declined (h : s.Orderly) (hdraft : s.draft? o = some (r, screening))
    (hdeclined : ¬ screening.accepts r) :
    s.Unissued r.id ∧ ¬ (s.perform o).service.Upcoming r.id ∧
      (s.perform o).service.bound.find? r.id = none := by
  cases o with
  | await | pickUp | dropOff | reject | step => cases hdraft
  | depart now who link =>
    obtain ⟨planned, source, target, rfl, rfl, hperform⟩ := draft?_depart hdraft
    rw [hperform, departNow_eq, if_neg hdeclined]
    have hid : (s.request s.nextName who.person planned.leg source target now now).id =
        requestName s.mode s.drawn := h.choose_eq _
    rw [hid]
    refine ⟨s.unissued_requestName, h.not_upcoming_nextRequest rfl rfl rfl, ?_⟩
    simp
  | book now person planned =>
    obtain ⟨desk, hdesk, rfl, hid, hperform⟩ := draft?_book hdraft
    rw [hperform, if_neg hdeclined]
    rw [h.choose_eq] at hid
    rw [hid]
    have hissue := unissued_bookingName hdesk
    exact ⟨hissue, h.not_upcoming_nextBooking rfl rfl hdesk rfl rfl rfl,
      h.unbound _ (.inl hissue)⟩

/-! ## Once, or not at all -/

/-- What is known of a service that has submitted requests and declined others: no name was
submitted twice, names that were submitted are used up, whoever is bound and whatever is booked
was submitted, and of what was declined nothing is left and nothing will come. -/
structure Cleared (s : Service) (sent declined : List RequestId) : Prop where
  orderly : s.Orderly
  once : sent.Nodup
  issued : ∀ id ∈ sent, ¬ s.Unissued id
  bound : ∀ id b, s.bound.find? id = some b → id ∈ sent
  booked : ∀ id, s.Booked id → id ∈ sent
  declined : ∀ id ∈ declined, id ∉ sent ∧ ¬ s.Upcoming id ∧ s.bound.find? id = none

variable {sent declined : List RequestId}

/-- An act submits one request at most, under a name that was not given away before. -/
theorem Orderly.submitted_eq (h : s.Orderly) (ha : s.Act now occasion t) :
    t.submitted = [] ∨ ∃ r, t.submitted = [r] ∧ s.Unissued r.id ∧ ¬ t.service.Unissued r.id := by
  have hone (r : Request) (hr : t.submitted = [r]) (hissue : s.Unissued r.id) :
      ∃ r, t.submitted = [r] ∧ s.Unissued r.id ∧ ¬ t.service.Unissued r.id :=
    ⟨r, hr, hissue, (h.submitted_of_act ha (hr ▸ List.mem_singleton_self r)).2⟩
  cases ha with
  | hear | await | pickUp | dropOff | reject | park | discard | declineBooking | departRejected
  | departBooked | departDeclined => exact .inl rfl
  | departNow traveler r hwho hid =>
    exact .inr (hone r rfl (hid.trans (h.choose_eq _) ▸ s.unissued_requestName))
  | book desk key r hd hid =>
    exact .inr (hone r rfl (hid.trans (h.choose_eq _) ▸ unissued_bookingName hd))

/-- Whoever is bound was bound before, departs with a booking, or has a request submitted now. -/
theorem Act.bound_before (ha : s.Act now occasion t) {id : RequestId} {b : Binding}
    (hb : t.service.bound.find? id = some b) :
    (∃ b', s.bound.find? id = some b') ∨ s.Booked id ∨ id ∈ t.submitted.map (·.id) := by
  have hinsert {id' : RequestId} {b' : Binding}
      (hb : (s.bound.insert id' b').find? id = some b) :
      id' = id ∨ ∃ b', s.bound.find? id = some b' := by
    rcases Table.find?_insert_eq_some_iff.1 hb with ⟨hid, -⟩ | ⟨-, hb⟩
    · exact .inl hid
    · exact .inr ⟨b, hb⟩
  have herase {id' : RequestId} (hb : (s.bound.erase id').find? id = some b) :
      ∃ b', s.bound.find? id = some b' := by
    rw [Table.find?_erase] at hb
    split at hb
    · cases hb
    · exact ⟨b, hb⟩
  cases ha with
  | hear | await | book | declineBooking | park | discard => exact .inl ⟨b, hb⟩
  | departRejected traveler desk key r rejection hwho hd hr hp =>
    rcases hinsert hb with rfl | hbefore
    · exact .inr (.inl ⟨desk, key, r, hd, hr, rfl⟩)
    · exact .inl hbefore
  | departBooked traveler desk key r hwho hd hr hp =>
    rcases hinsert hb with rfl | hbefore
    · exact .inr (.inl ⟨desk, key, r, hd, hr, rfl⟩)
    · exact .inl hbefore
  | departNow traveler r =>
    rcases hinsert hb with rfl | hbefore
    · exact .inr (.inr List.mem_cons_self)
    · exact .inl hbefore
  | departDeclined | dropOff | reject => exact .inl (herase hb)
  | pickUp vehicle id' b' hb' =>
    rcases hinsert hb with rfl | hbefore
    · exact .inl ⟨b', hb'⟩
    · exact .inl hbefore

/-- Whatever is booked was booked before or is submitted now. -/
theorem Act.booked_before (ha : s.Act now occasion t) {id : RequestId}
    (hb : t.service.Booked id) : s.Booked id ∨ id ∈ t.submitted.map (·.id) := by
  cases ha with
  | hear | await | pickUp | dropOff | reject | park | discard | departNow | departDeclined =>
    exact .inl hb
  | departRejected traveler desk key r rejection hwho hd =>
    obtain ⟨_, key', r', hdesk, hr', hid⟩ := hb
    obtain rfl := Option.some.inj hdesk
    exact .inl ⟨desk, key', r', hd, find?_handOut hr', hid⟩
  | departBooked traveler desk key r hwho hd =>
    obtain ⟨_, key', r', hdesk, hr', hid⟩ := hb
    obtain rfl := Option.some.inj hdesk
    exact .inl ⟨desk, key', r', hd, find?_handOut hr', hid⟩
  | declineBooking desk hd =>
    obtain ⟨_, key', r', hdesk, hr', hid⟩ := hb
    obtain rfl := Option.some.inj hdesk
    exact .inl ⟨desk, key', r', hd, hr', hid⟩
  | book desk key r hd =>
    obtain ⟨_, key', r', hdesk, hr', rfl⟩ := hb
    obtain rfl := Option.some.inj hdesk
    rcases Table.find?_insert_eq_some_iff.1 hr' with ⟨-, rfl⟩ | ⟨-, hr'⟩
    · exact .inr List.mem_cons_self
    · exact .inl ⟨desk, key', r', hd, hr', rfl⟩

/-- Nobody is bound to a name that is not upcoming and to which nobody was bound. -/
theorem Orderly.unbound_of_spent (h : s.Orderly) (ha : s.Act now occasion t) {id : RequestId}
    (hup : ¬ s.Upcoming id) (hnone : s.bound.find? id = none) :
    t.service.bound.find? id = none := by
  cases hb : t.service.bound.find? id with
  | none => rfl
  | some b =>
    rcases ha.bound_before hb with ⟨b', hb'⟩ | hbooked | hsent
    · simp [hnone] at hb'
    · exact absurd (.inr hbooked) hup
    · rcases h.submitted_eq ha with hno | ⟨r, hone, hissue, -⟩
      · simp [hno] at hsent
      · rw [hone] at hsent
        exact absurd (.inl (List.mem_singleton.1 hsent ▸ hissue)) hup

/-- Every act keeps the books. -/
theorem Cleared.act (h : s.Cleared sent declined) (ha : s.Act now occasion t) :
    t.service.Cleared (sent ++ t.submitted.map (·.id)) declined := by
  have hnew := h.orderly.submitted_eq ha
  refine ⟨h.orderly.act ha, ?_, fun id hid => ?_, fun id b hb => ?_, fun id hb => ?_,
    fun id hid => ?_⟩
  · rcases hnew with hnone | ⟨r, hone, hissue, -⟩
    · simpa [hnone] using h.once
    · rw [hone, List.map_singleton]
      have hfresh : r.id ∉ sent := fun hmem => h.issued r.id hmem hissue
      exact List.nodup_append_comm.1 (List.nodup_cons.2 ⟨hfresh, h.once⟩)
  · rcases List.mem_append.1 hid with hid | hid
    · exact fun hissue => h.issued id hid (ha.unissued hissue)
    · rcases hnew with hnone | ⟨r, hone, -, hused⟩
      · simp [hnone] at hid
      · rw [hone] at hid
        exact List.mem_singleton.1 hid ▸ hused
  · rcases ha.bound_before hb with ⟨b', hb'⟩ | hbooked | hsent
    · exact List.mem_append_left _ (h.bound id b' hb')
    · exact List.mem_append_left _ (h.booked id hbooked)
    · exact List.mem_append_right _ hsent
  · rcases ha.booked_before hb with hbooked | hsent
    · exact List.mem_append_left _ (h.booked id hbooked)
    · exact List.mem_append_right _ hsent
  · obtain ⟨hsent, hup, hnone⟩ := h.declined id hid
    refine ⟨fun hmem => ?_, fun hup' => hup (h.orderly.upcoming_of_act ha hup'),
      h.orderly.unbound_of_spent ha hup hnone⟩
    rcases List.mem_append.1 hmem with hmem | hmem
    · exact hsent hmem
    · rcases hnew with hno | ⟨r, hone, hissue, -⟩
      · simp [hno] at hmem
      · rw [hone] at hmem
        exact hup (.inl (List.mem_singleton.1 hmem ▸ hissue))

theorem Cleared.acts (h : s.Cleared sent declined) (ha : Acts now occasion s t) :
    t.service.Cleared (sent ++ t.submitted.map (·.id)) declined := by
  induction ha generalizing sent with
  | nil s => simpa using h
  | cons hact _ ih => simpa [Turn.andThen, List.append_assoc] using ih (h.act hact)

/-! ## Runs -/

/-- The requests that a call makes and that are declined. -/
def refusals (s : Service) (o : Operation) : List Request :=
  ((s.draft? o).filter fun d => !d.2.accepts d.1).toList.map (·.1)

/-- The requests that the calls on a service make and that are declined, in order. -/
def refused (s : Service) : List Operation → List Request
  | [] => []
  | o :: rest => s.refusals o ++ (s.perform o).service.refused rest

/-- The requests that the calls on a service submit, each with the call, in order. -/
def submissions (s : Service) : List Operation → List (Operation × Request)
  | [] => []
  | o :: rest => (s.perform o).submitted.map (o, ·) ++ (s.perform o).service.submissions rest

theorem map_submissions (s : Service) (operations : List Operation) :
    (s.submissions operations).map (·.2) = (s.run operations).submitted := by
  induction operations generalizing s with
  | nil => rfl
  | cons o rest ih => simp [submissions, run, Turn.andThen, ih, Function.comp_def]

/-- Only departures and bookings submit requests. -/
theorem isDeparture_or_isBooking {operations : List Operation} {p : Operation × Request}
    (hp : p ∈ s.submissions operations) : p.1.isDeparture ∨ p.1.isBooking := by
  induction operations generalizing s with
  | nil => cases hp
  | cons o rest ih =>
    rcases List.mem_append.1 hp with hp | hp
    · obtain ⟨r, hr, rfl⟩ := List.mem_map.1 hp
      rw [submitted_perform] at hr
      cases o with
      | depart => exact .inl rfl
      | book => exact .inr rfl
      | await | pickUp | dropOff | reject | step => cases hr
    · exact ih hp

theorem mem_refusals_iff : r ∈ s.refusals o ↔
    ∃ screening, s.draft? o = some (r, screening) ∧ ¬ screening.accepts r := by
  unfold refusals
  cases s.draft? o with
  | none => simp
  | some d =>
    obtain ⟨q, screening⟩ := d
    by_cases ha : screening.accepts q
    · simp only [Option.filter, ha, Bool.not_true, Bool.false_eq_true, if_false,
        Option.toList_none, List.map_nil, List.not_mem_nil, Option.some.injEq, Prod.mk.injEq,
        false_iff]
      rintro ⟨_, ⟨rfl, rfl⟩, hdeclined⟩
      exact hdeclined ha
    · simp only [Option.filter, ha, Bool.not_false, if_true, Option.toList_some, List.map_cons,
        List.map_nil, List.mem_singleton, Option.some.injEq, Prod.mk.injEq]
      constructor
      · rintro rfl
        exact ⟨screening, ⟨rfl, rfl⟩, by simp [ha]⟩
      · rintro ⟨_, ⟨rfl, -⟩, -⟩
        rfl

/-- Every call keeps the books. -/
theorem Cleared.perform (h : s.Cleared sent declined) (o : Operation) :
    (s.perform o).service.Cleared (sent ++ (s.perform o).submitted.map (·.id))
      (declined ++ (s.refusals o).map (·.id)) := by
  have hkept := h.acts (s.acts_perform o)
  refine { hkept with declined := fun id hid => ?_ }
  rcases List.mem_append.1 hid with hid | hid
  · exact hkept.declined id hid
  · obtain ⟨r, hr, rfl⟩ := List.mem_map.1 hid
    obtain ⟨screening, hdraft, hdeclined⟩ := mem_refusals_iff.1 hr
    obtain ⟨hissue, hup, hnone⟩ := h.orderly.declined hdraft hdeclined
    refine ⟨fun hmem => ?_, hup, hnone⟩
    rw [submitted_perform, hdraft] at hmem
    have hbefore : r.id ∈ sent := by simpa [Option.filter, hdeclined] using hmem
    exact h.issued r.id hbefore hissue

/-- All calls keep the books. -/
theorem Cleared.run (h : s.Cleared sent declined) (operations : List Operation) :
    (s.run operations).service.Cleared (sent ++ (s.run operations).submitted.map (·.id))
      (declined ++ (s.refused operations).map (·.id)) := by
  induction operations generalizing s sent declined with
  | nil => simpa [Service.run, refused] using h
  | cons o rest ih =>
    have hrest := ih (h.perform o)
    simpa [Service.run, refused, Turn.andThen, List.append_assoc] using hrest

/-- Nothing was submitted by a service that was just opened. -/
theorem cleared_opened (mode : ModeId) (network : Network) (screening : Screening)
    (desk : Option Screening) :
    (opened mode network .proposed screening (desk.map ({ screening := · }))).Cleared [] [] := by
  have hvacant : ∀ d key,
      (opened mode network .proposed screening (desk.map ({ screening := · }))).desk = some d →
        d.bookings.find? key = none := by
    intro d key hd
    obtain ⟨_, -, rfl⟩ := Option.map_eq_some_iff.1 hd
    rfl
  refine ⟨orderly_of_vacant rfl (fun _ => rfl) hvacant, .nil, by simp, fun id b hb => ?_,
    fun id hb => ?_, by simp⟩
  · cases hb
  · obtain ⟨d, key, r, hd, hr, -⟩ := hb
    simp [hvacant d key hd] at hr

/-- Whatever is asked of a service that was just opened, and in whatever order: no name is
submitted twice, whoever is bound to a request was announced by exactly one submission, either at
the booking or at the departure, and a request that was declined is never submitted and nobody is
bound to it. -/
theorem run_submits_once (mode : ModeId) (network : Network) (screening : Screening)
    (desk : Option Screening) (operations : List Operation) :
    let s := opened mode network .proposed screening (desk.map ({ screening := · }))
    (s.submissions operations).map (·.2) = (s.run operations).submitted ∧
      ((s.run operations).submitted.map (·.id)).Nodup ∧
      (∀ id b, (s.run operations).service.bound.find? id = some b →
        ∃ o r, (s.submissions operations).filter (·.2.id = id) = [(o, r)] ∧
          (o.isDeparture ∨ o.isBooking)) ∧
      ∀ r ∈ s.refused operations, r.id ∉ (s.run operations).submitted.map (·.id) ∧
        (s.run operations).service.bound.find? r.id = none := by
  intro s
  have h := (cleared_opened mode network screening desk).run operations
  rw [List.nil_append, List.nil_append] at h
  refine ⟨map_submissions s operations, h.once, fun id b hb => ?_, fun r hr => ?_⟩
  · have hsent := h.bound id b hb
    have honce := h.once
    rw [← map_submissions, List.map_map] at hsent honce
    obtain ⟨⟨o, r⟩, hmem, hone⟩ := List.exists_filter_eq_singleton honce hsent
    exact ⟨o, r, hone, isDeparture_or_isBooking hmem⟩
  · obtain ⟨hsent, -, hnone⟩ := h.declined r.id (List.mem_map_of_mem hr)
    exact ⟨hsent, hnone⟩

end Service

end DialARide
