import DialARide.Proofs.Ride.Course
import DialARide.Proofs.Ride.Submission
import Mathlib.Data.List.TakeWhile

/-!
# Nothing comes from beyond the horizon

A rejection is as old as the request that it answers, and what a service calls for is due at once.
While nobody books or departs after some last time, no rejection is later either, and the first step
after that time clears all mailboxes. A service calls a stop once at most when a traveler departs,
and on no other occasion.
-/

namespace DialARide

/-- The moment at which a call can put an event on the clock. -/
def Call.moment? : Call → Option Time
  | .ready _ _ now | .alight _ _ _ now => some now
  | .observe _ | .board .. | .abort .. => none

/-- The call tells a stop that its passenger is there. -/
def Call.isReady : Call → Bool
  | .ready .. => true
  | .observe _ | .board .. | .alight .. | .abort .. => false

theorem Call.isReady_eq_false {c : Call} (hc : c.moment? = none) : c.isReady = false := by
  cases c <;> first | rfl | cases hc

namespace Service

/-- No rejection that a service keeps is later than a time. -/
structure Within (last : Time) (s : Service) : Prop where
  mailbox : ∀ r ∈ s.mailbox, r.time ≤ last
  parked : ∀ id r, s.parked.find? id = some r → r.time ≤ last

/-- The service has no rejection to apply. -/
def Idle (s : Service) : Prop := s.closed = true ∨ s.mailbox = []

variable {s : Service} {now last : Time} {occasion : Occasion} {t : Turn}

/-! ## Rejections -/

theorem Within.hear (h : s.Within last) {published : List Rejection}
    (hpublished : ∀ r ∈ published, r.time ≤ last) : (s.hear published).Within last := by
  obtain ⟨more, heq, hmore⟩ := s.exists_hear published
  rw [heq]
  refine ⟨fun r hr => ?_, h.parked⟩
  rcases List.mem_append.1 hr with hr | hr
  · exact h.mailbox r hr
  · exact hpublished r (hmore r hr).1

/-- An act moves rejections between the mailbox and those that are parked, and makes none. -/
theorem Within.act (h : s.Within last) (ha : s.Act now occasion t)
    (hoccasion : ∀ r, occasion ≠ .publication r) : t.service.Within last := by
  cases ha with
  | hear copies r hr => exact absurd hr (hoccasion r)
  | await | book | declineBooking | departBooked | departNow | departDeclined | pickUp
  | dropOff => exact ⟨h.mailbox, h.parked⟩
  | departRejected traveler desk key r rejection hwho hd hr hp =>
    refine ⟨fun q hq => ?_, fun id q hq => ?_⟩
    · rcases List.mem_cons.1 hq with rfl | hq
      · exact h.parked r.id q hp
      · exact h.mailbox q hq
    · simp only [Table.find?_erase] at hq
      split at hq
      · cases hq
      · exact h.parked id q hq
  | reject r rest b hm | discard r rest hm =>
    refine ⟨fun q hq => h.mailbox q ?_, h.parked⟩
    rw [hm]
    exact List.mem_cons_of_mem r hq
  | park r rest hm =>
    have hmailbox := h.mailbox
    rw [hm] at hmailbox
    refine ⟨fun q hq => hmailbox q (List.mem_cons_of_mem r hq), fun id q hq => ?_⟩
    simp only [Table.find?_insert] at hq
    split at hq
    · rw [← Option.some.inj hq]
      exact hmailbox r List.mem_cons_self
    · exact h.parked id q hq

theorem Within.acts (h : s.Within last) (ha : Acts now occasion s t)
    (hoccasion : ∀ r, occasion ≠ .publication r) : t.service.Within last :=
  ha.keeps (fun _ _ hu hact => hu.act hact hoccasion) h

theorem mailbox_applyRejections (now : Time) (s : Service) (due : List Rejection) :
    (applyRejections now s due).service.mailbox = s.mailbox := by
  obtain ⟨bound, waitingStops, parked, heq⟩ := exists_applyRejections now s due
  rw [heq]

/-- A step after all rejections of the mailbox clears it. -/
theorem Within.idle_step (h : s.Within last) (hnow : last < now) : (s.step now).service.Idle := by
  refine .inr ((mailbox_applyRejections now _ _).trans (List.dropWhile_eq_nil_iff.2 fun r hr => ?_))
  exact decide_eq_true (UInt64.lt_of_le_of_lt (h.mailbox r hr) hnow)

/-- A request that is made at a departure is submitted at once. -/
theorem submittedAt_depart {who : Departing} {link : LinkId}
    (h : s.depart now who link = .ok (some t)) {r : Request} (hr : r ∈ t.submitted) :
    r.submittedAt = now := by
  obtain ⟨-, planned, -, ⟨q, s', -, rfl⟩ | ⟨-, source, target, rfl⟩⟩ := depart_eq_ok_some h
  · rw [submitted_departBooked] at hr
    cases hr
  · rw [departNow_eq] at hr
    split at hr
    · obtain rfl := List.mem_singleton.1 hr
      rfl
    · cases hr

/-- A booking is submitted at once. -/
theorem submittedAt_book {person : PersonId} {planned : PlannedLeg} {name : Option RequestId}
    (h : s.book now person planned = .ok (name, t)) {r : Request} (hr : r ∈ t.submitted) :
    r.submittedAt = now := by
  have hbooks := s.books_book now person planned
  generalize s.book now person planned = report at h hbooks
  cases hbooks with
  | noDesk | turnedDown =>
    cases h
    cases hr
  | noSource | noTarget => cases h
  | between =>
    simp only [bookBetween] at h
    split at h <;> cases h
    · obtain rfl := List.mem_singleton.1 hr
      rfl
    · cases hr

theorem submitted_pickUp {vehicle : VehicleId} {id : RequestId}
    (h : s.pickUp vehicle id now = some t) : t.submitted = [] := by
  unfold pickUp at h
  split at h
  · cases h
  · split at h <;> cases h
    rfl

theorem submitted_dropOff {vehicle : VehicleId} {id : RequestId} {traveler : EntityId}
    (h : s.dropOff vehicle id now = .ok (traveler, t)) : t.submitted = [] := by
  unfold dropOff at h
  split at h <;> cases h
  rfl

/-! ## Calls -/

/-- What a service calls for is due at once. -/
theorem Act.moment (ha : s.Act now occasion t) {c : Call} (hc : c ∈ t.calls) {time : Time}
    (htime : c.moment? = some time) : time = now := by
  have hready {id : RequestId} {traveler : EntityId}
      (hc : c ∈ s.readyCalls id traveler now) : time = now := by
    obtain ⟨stop, -, rfl⟩ := Option.map_eq_some_iff.1 (Option.mem_toList.1 hc)
    cases htime
    rfl
  cases ha with
  | hear | await | book | declineBooking | park | discard => cases hc
  | departBooked | departNow =>
    rcases List.mem_cons.1 hc with rfl | hc
    · cases htime
    · exact hready hc
  | departRejected | departDeclined =>
    obtain rfl := List.mem_singleton.1 hc
    cases htime
  | pickUp | reject =>
    simp only [List.mem_cons, List.not_mem_nil, or_false] at hc
    rcases hc with rfl | rfl <;> cases htime
  | dropOff =>
    simp only [List.mem_cons, List.not_mem_nil, or_false] at hc
    rcases hc with rfl | rfl
    · cases htime
    · exact (Option.some.inj htime).symm

/-- One stop at most is called at a departure, and none on other occasions. -/
theorem Act.countP_isReady (ha : s.Act now occasion t) :
    t.calls.countP Call.isReady ≤ 1 ∧
      ((∀ id, occasion ≠ .departure id) → t.calls.countP Call.isReady = 0) := by
  have hready (r : Request) (id : RequestId) (traveler : EntityId) :
      (s.waitingCall now r :: s.readyCalls id traveler now).countP Call.isReady ≤ 1 := by
    unfold readyCalls
    cases s.waitingStops.find? id <;> exact Nat.le_of_ble_eq_true rfl
  cases ha with
  | hear | await | book | declineBooking | departRejected | departDeclined | pickUp | dropOff
  | reject | park | discard => exact ⟨Nat.zero_le 1, fun _ => rfl⟩
  | departBooked traveler desk key r hwho | departNow traveler r hwho =>
    exact ⟨hready _ _ _, fun hoccasion => absurd hwho (hoccasion traveler)⟩

/-- Nothing that is called for when rejections are applied puts anything on the clock. -/
theorem moment?_applyRejections {due : List Rejection} {c : Call}
    (hc : c ∈ (applyRejections now s due).calls) : c.moment? = none := by
  induction due generalizing s with
  | nil => cases hc
  | cons r due ih =>
    simp only [applyRejections, List.mem_append] at hc
    refine hc.elim (fun hc => ?_) ih
    unfold applyRejection at hc
    cases hb : s.bound.find? r.request with
    | some b =>
      simp only [hb, List.mem_cons, List.not_mem_nil, or_false] at hc
      rcases hc with rfl | rfl <;> rfl
    | none =>
      simp only [hb] at hc
      split at hc <;> cases hc

end Service

namespace Services

/-- No rejection that any service keeps is later than a time. -/
def Within (last : Time) (h : Services) : Prop := ∀ s ∈ h.members, s.Within last

variable {h h' : Services} {now last : Time} {occasion : Occasion} {i : Nat} {s : Service}
  {t : Turn} {positions ns : List Nat} {calls : List Call}

theorem Within.publish (hh : h.Within last) {r : Rejection} (hr : r.time ≤ last) :
    (h.publish r).Within last := by
  intro s' hs'
  rw [members_publish] at hs'
  obtain ⟨u, hu, rfl⟩ := List.mem_map.1 hs'
  exact (hh u hu).hear fun q hq => by rwa [List.mem_singleton.1 hq]

/-- An answer has the time at which the request was submitted. -/
theorem time_of_mem_answersTo {r : Rejection} (hr : r ∈ h.answersTo t) :
    ∃ q ∈ t.submitted, r.time = q.submittedAt := by
  unfold answersTo at hr
  split at hr
  · cases hr
  · obtain ⟨q, hq, heq⟩ := List.mem_filterMap.1 hr
    obtain ⟨cause, -, rfl⟩ := Option.map_eq_some_iff.1 heq
    exact ⟨q, hq, rfl⟩

theorem Within.commit (hh : h.Within last) (ht : t.service.Within last)
    (hsubmitted : ∀ r ∈ t.submitted, r.submittedAt ≤ last) : (h.commit i t).Within last := by
  intro s' hs'
  obtain ⟨u, rfl, hu⟩ := exists_of_mem_commit hs'
  have hwithin : u.Within last := by
    rcases hu with rfl | hu
    · exact ht
    · exact hh u hu
  refine hwithin.hear fun r hr => ?_
  obtain ⟨q, hq, htime⟩ := time_of_mem_answersTo hr
  rw [htime]
  exact hsubmitted q hq

theorem Within.stepAt {n : Nat} (hh : h.Within last) (hstep : h.stepAt i now = (n, h', calls)) :
    h'.Within last := by
  unfold Services.stepAt at hstep
  split at hstep <;> cases hstep
  · exact hh
  · next s hs =>
    have hacts : Service.Acts now .other s (s.step now) := s.acts_step now .other
    refine hh.commit ((hh s (List.mem_of_getElem? hs)).acts hacts (by simp)) fun r hr => ?_
    rw [Service.step, Service.submitted_applyRejections] at hr
    cases hr

theorem Within.stepEach (hh : h.Within last)
    (hstep : Services.stepEach now h positions = (ns, h', calls)) : h'.Within last := by
  induction positions generalizing h ns calls with
  | nil =>
    cases hstep
    exact hh
  | cons i rest ih =>
    unfold Services.stepEach at hstep
    rcases hfirst : h.stepAt i now with ⟨n, h₁, first⟩
    rcases hmore : Services.stepEach now h₁ rest with ⟨ms, h₂, more⟩
    simp only [hfirst, hmore, Prod.mk.injEq] at hstep
    obtain ⟨-, rfl, rfl⟩ := hstep
    exact ih (hh.stepAt hfirst) hmore

/-- Only the service that steps changes. -/
theorem getElem?_stepAt {n : Nat} (hstep : h.stepAt i now = (n, h', calls)) (j : Nat) :
    h'.members[j]? = if i = j then (h.members[j]?).map fun s => (s.step now).service
      else h.members[j]? := by
  unfold stepAt at hstep
  split at hstep <;> cases hstep
  · next hnone =>
    split
    · next hij => rw [← hij, hnone, Option.map_none]
    · rfl
  · next s hs =>
    have hsubmitted : (s.step now).submitted = [] := Service.submitted_applyRejections now _ _
    have hi : i < h.members.length := (List.getElem?_eq_some_iff.1 hs).1
    rw [commit_quiet h i hsubmitted, List.getElem?_set, if_pos hi]
    split
    · next hij =>
      rw [← hij, hs]
      rfl
    · rfl

/-- Once the services at some positions have stepped after all rejections, those have nothing left
to apply. -/
theorem idle_stepEach (hh : h.Within last) (hnow : last < now)
    (hstep : stepEach now h positions = (ns, h', calls))
    (hothers : ∀ j u, h.members[j]? = some u → j ∉ positions → u.Idle) :
    ∀ s ∈ h'.members, s.Idle := by
  induction positions generalizing h ns calls with
  | nil =>
    cases hstep
    intro s hs
    obtain ⟨j, hj⟩ := List.mem_iff_getElem?.1 hs
    exact hothers j s hj (by simp)
  | cons i rest ih =>
    unfold stepEach at hstep
    rcases hfirst : h.stepAt i now with ⟨n, h₁, first⟩
    rcases hmore : stepEach now h₁ rest with ⟨ms, h₂, more⟩
    simp only [hfirst, hmore, Prod.mk.injEq] at hstep
    obtain ⟨-, rfl, rfl⟩ := hstep
    refine ih (hh.stepAt hfirst) hmore fun j u hu hj => ?_
    rw [getElem?_stepAt hfirst] at hu
    split at hu
    · obtain ⟨s, hs, rfl⟩ := Option.map_eq_some_iff.1 hu
      exact (hh s (List.mem_of_getElem? hs)).idle_step hnow
    · next hij =>
      apply hothers j u hu
      rw [List.mem_cons, not_or]
      exact ⟨Ne.symm hij, hj⟩

/-- Nothing is left to apply after a step of all services that is later than all rejections. -/
theorem Within.pendingRejections_stepAll (hh : h.Within last) (hnow : last < now)
    (hstep : h.stepAll now = (ns, h', calls)) : h'.pendingRejections = 0 := by
  have hidle := idle_stepEach hh hnow hstep fun j u hu hj => by
    left
    by_contra hopen
    refine hj (List.mem_map.2 ⟨(u, j), List.mem_filter.2 ⟨?_, by simpa using hopen⟩, rfl⟩)
    exact List.mk_mem_zipIdx_iff_getElem?.2 hu
  unfold pendingRejections
  rw [List.length_eq_zero_iff, List.flatMap_eq_nil_iff]
  intro s hs
  obtain ⟨hs, hopen⟩ := List.mem_filter.1 hs
  rcases hidle s hs with hclosed | hnone
  · simp [hclosed] at hopen
  · exact hnone

/-- Nothing that is called for when services step puts anything on the clock. -/
theorem moment?_of_stepEach {c : Call} (hstep : stepEach now h positions = (ns, h', calls))
    (hc : c ∈ calls) : c.moment? = none := by
  induction positions generalizing h ns calls with
  | nil =>
    cases hstep
    cases hc
  | cons i rest ih =>
    unfold stepEach at hstep
    rcases hfirst : h.stepAt i now with ⟨n, h₁, first⟩
    rcases hmore : stepEach now h₁ rest with ⟨ms, h₂, more⟩
    simp only [hfirst, hmore, Prod.mk.injEq] at hstep
    obtain ⟨-, rfl, rfl⟩ := hstep
    rcases List.mem_append.1 hc with hc | hc
    · unfold stepAt at hfirst
      split at hfirst <;> cases hfirst
      · cases hc
      · exact Service.moment?_applyRejections hc
    · exact ih hmore hc

/-- Nothing that is called for when a passenger boards puts anything on the clock. -/
theorem moment?_of_pickUp {vehicle : VehicleId} {id : RequestId} {boarded : Bool} {c : Call}
    (hpickUp : h.pickUp i vehicle id now = (boarded, h', calls)) (hc : c ∈ calls) :
    c.moment? = none := by
  unfold pickUp at hpickUp
  split at hpickUp <;> cases hpickUp
  · cases hc
  · next t ht =>
    obtain ⟨s, -, hturn⟩ := Option.bind_eq_some_iff.1 ht
    unfold Service.pickUp at hturn
    split at hturn
    · cases hturn
    · split at hturn <;> cases hturn
      simp only [List.mem_cons, List.not_mem_nil, or_false] at hc
      rcases hc with rfl | rfl <;> rfl

end Services

end DialARide
