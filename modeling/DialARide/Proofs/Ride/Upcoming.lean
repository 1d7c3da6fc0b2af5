import DialARide.Proofs.Ride.Act

/-!
# Requests that are still to come

A name is upcoming while a traveler may yet depart under it: it was not given away so far, or it
is the name of a booking that was not handed out. No act makes a name upcoming again, and in an
orderly service a departure takes an upcoming name that nobody is bound to. Hence no name is used
by two departures.
-/

namespace DialARide

namespace Service

/-- The name is one that the service has not given away so far. -/
def Unissued (s : Service) (id : RequestId) : Prop :=
  (∃ n, s.drawn ≤ n ∧ id = requestName s.mode n) ∨
    ∃ desk n, s.desk = some desk ∧ desk.drawn ≤ n ∧ id = bookingName s.mode n

/-- The name is that of a booking at the desk. -/
def Booked (s : Service) (id : RequestId) : Prop :=
  ∃ desk key r, s.desk = some desk ∧ desk.bookings.find? key = some r ∧ r.id = id

/-- A traveler may yet depart under the name. -/
def Upcoming (s : Service) (id : RequestId) : Prop := s.Unissued id ∨ s.Booked id

/-- Requests have the names proposed for them, upcoming names are bound to nobody, and the
bookings at the desk have different names that were given away. -/
structure Orderly (s : Service) : Prop where
  naming : s.naming = .proposed
  unbound : ∀ id, s.Upcoming id → s.bound.find? id = none
  booked : ∀ desk key r, s.desk = some desk → desk.bookings.find? key = some r →
    ∃ n < desk.drawn, r.id = bookingName s.mode n
  distinct : ∀ desk key key' r r', s.desk = some desk → desk.bookings.find? key = some r →
    desk.bookings.find? key' = some r' → r.id = r'.id → key = key'

variable {s : Service} {now : Time} {occasion : Occasion}

theorem isBooked_iff {id : RequestId} : s.isBooked id = true ↔ s.Booked id := by
  unfold isBooked Booked
  cases s.desk with
  | none => simp
  | some desk =>
    simp only [Option.any_some, Desk.isBooked, List.any_eq_true, decide_eq_true_eq,
      Table.mem_values_iff, Option.some.injEq]
    constructor
    · rintro ⟨r, ⟨key, hr⟩, hid⟩
      exact ⟨desk, key, r, rfl, hr, hid⟩
    · rintro ⟨_, key, r, rfl, hr, hid⟩
      exact ⟨r, ⟨key, hr⟩, hid⟩

theorem unissued_requestName (s : Service) : s.Unissued (requestName s.mode s.drawn) :=
  .inl ⟨s.drawn, Nat.le_refl _, rfl⟩

theorem unissued_bookingName {desk : Desk} (h : s.desk = some desk) :
    s.Unissued (bookingName s.mode desk.drawn) :=
  .inr ⟨desk, desk.drawn, h, Nat.le_refl _, rfl⟩

/-- In an orderly service a request has the name proposed for it. -/
theorem Orderly.choose_eq (h : s.Orderly) (proposed : RequestId) :
    s.naming.choose proposed = proposed := by
  rw [h.naming]
  rfl

/-- A booking has a name that was given away. -/
theorem Orderly.not_unissued_of_booked (h : s.Orderly) {id : RequestId} (hb : s.Booked id) :
    ¬ s.Unissued id := by
  obtain ⟨desk, key, r, hdesk, hr, rfl⟩ := hb
  obtain ⟨n, hn, hid⟩ := h.booked desk key r hdesk hr
  rintro (⟨m, -, hm⟩ | ⟨desk', m, hdesk', hm, hid'⟩)
  · exact requestName_ne_bookingName s.mode m n (hm.symm.trans hid)
  · obtain rfl := Option.some.inj (hdesk.symm.trans hdesk')
    have hnm : n = m := bookingName_injective (hid.symm.trans hid')
    omega

/-! ## No act makes a name upcoming -/

theorem unissued_of_nextRequest (s : Service) {s' : Service} {id : RequestId} (h : s'.Unissued id)
    (hm : s'.mode = s.mode) (hd : s'.desk = s.desk) (hn : s'.drawn = s.drawn + 1) :
    s.Unissued id ∧ id ≠ requestName s.mode s.drawn := by
  unfold Unissued at h
  rw [hm, hd, hn] at h
  rcases h with ⟨n, hle, rfl⟩ | ⟨desk, n, hdesk, hle, rfl⟩
  · refine ⟨.inl ⟨n, by omega, rfl⟩, fun he => ?_⟩
    have := requestName_injective he
    omega
  · exact ⟨.inr ⟨desk, n, hdesk, hle, rfl⟩, (requestName_ne_bookingName s.mode s.drawn n).symm⟩

theorem unissued_of_nextBooking (s : Service) {s' : Service} {id : RequestId} (h : s'.Unissued id)
    {desk desk' : Desk} (hm : s'.mode = s.mode) (hn : s'.drawn = s.drawn)
    (hd : s.desk = some desk) (hd' : s'.desk = some desk') (hb : desk'.drawn = desk.drawn + 1) :
    s.Unissued id ∧ id ≠ bookingName s.mode desk.drawn := by
  unfold Unissued at h
  rw [hm, hd', hn] at h
  rcases h with ⟨n, hle, rfl⟩ | ⟨_, n, hdesk, hle, rfl⟩
  · exact ⟨.inl ⟨n, hle, rfl⟩, requestName_ne_bookingName s.mode n desk.drawn⟩
  · obtain rfl := Option.some.inj hdesk
    refine ⟨.inr ⟨desk, n, hd, by omega, rfl⟩, fun he => ?_⟩
    have := bookingName_injective he
    omega

/-- No name is taken back when a booking is handed out. -/
theorem unissued_of_handOut (s : Service) {s' : Service} {id : RequestId} (h : s'.Unissued id)
    {desk : Desk} {key : LegKey} (hm : s'.mode = s.mode) (hn : s'.drawn = s.drawn)
    (hd : s.desk = some desk) (hd' : s'.desk = some (handOut desk key)) : s.Unissued id := by
  unfold Unissued at h
  rw [hm, hd', hn] at h
  rcases h with hnow | ⟨_, n, hdesk, hle, rfl⟩
  · exact .inl hnow
  · obtain rfl := Option.some.inj hdesk
    exact .inr ⟨desk, n, hd, hle, rfl⟩

/-- No act takes back a name that was given away. -/
theorem Act.unissued {t : Turn} (ha : s.Act now occasion t) {id : RequestId}
    (h : t.service.Unissued id) : s.Unissued id := by
  cases ha with
  | hear | await | pickUp | dropOff | reject | park | discard => exact h
  | departRejected traveler desk key r rejection hwho hd hr hp =>
    exact s.unissued_of_handOut h rfl rfl hd rfl
  | departBooked traveler desk key r hwho hd hr hp => exact s.unissued_of_handOut h rfl rfl hd rfl
  | departNow | departDeclined => exact (s.unissued_of_nextRequest h rfl rfl rfl).1
  | book desk key r hd | declineBooking desk hd =>
    exact (s.unissued_of_nextBooking h rfl rfl hd rfl rfl).1

/-- Once a booking is handed out, its name is not upcoming, and every other name is as before. -/
theorem Orderly.upcoming_handOut (h : s.Orderly) {s' : Service} {id : RequestId}
    (hup : s'.Upcoming id) {desk : Desk} {key : LegKey} {r : Request} (hd : s.desk = some desk)
    (hr : desk.bookings.find? key = some r) (hm : s'.mode = s.mode) (hn : s'.drawn = s.drawn)
    (hd' : s'.desk = some (handOut desk key)) : s.Upcoming id ∧ id ≠ r.id := by
  have hbooked : s.Booked r.id := ⟨desk, key, r, hd, hr, rfl⟩
  rcases hup with hissue | ⟨_, key', r', hdesk, hr', rfl⟩
  · have hissue' : s.Unissued id := s.unissued_of_handOut hissue hm hn hd hd'
    exact ⟨.inl hissue', fun he => h.not_unissued_of_booked hbooked (he ▸ hissue')⟩
  · obtain rfl := Option.some.inj (hd'.symm.trans hdesk)
    simp only [handOut, Table.find?_erase] at hr'
    split at hr'
    · simp at hr'
    · next hne =>
      refine ⟨.inr ⟨desk, key', r', hd, hr', rfl⟩, fun he => hne ?_⟩
      exact h.distinct desk key key' r r' hd hr hr' he.symm

/-- The name of a request that is made now is not upcoming any more. -/
theorem Orderly.not_upcoming_nextRequest (h : s.Orderly) {s' : Service} (hm : s'.mode = s.mode)
    (hd : s'.desk = s.desk) (hn : s'.drawn = s.drawn + 1) :
    ¬ s'.Upcoming (requestName s.mode s.drawn) := by
  rintro (hissue | hbooked)
  · exact (s.unissued_of_nextRequest hissue hm hd hn).2 rfl
  · unfold Booked at hbooked
    rw [hd] at hbooked
    exact h.not_unissued_of_booked hbooked s.unissued_requestName

/-- The name of a booking that is declined is not upcoming any more. -/
theorem Orderly.not_upcoming_nextBooking (h : s.Orderly) {s' : Service} {desk desk' : Desk}
    (hm : s'.mode = s.mode) (hn : s'.drawn = s.drawn) (hd : s.desk = some desk)
    (hd' : s'.desk = some desk') (hb : desk'.drawn = desk.drawn + 1)
    (hkept : desk'.bookings = desk.bookings) : ¬ s'.Upcoming (bookingName s.mode desk.drawn) := by
  rintro (hissue | ⟨_, key, r, hdesk, hr, hid⟩)
  · exact (s.unissued_of_nextBooking hissue hm hn hd hd' hb).2 rfl
  · obtain rfl := Option.some.inj (hd'.symm.trans hdesk)
    rw [hkept] at hr
    exact h.not_unissued_of_booked ⟨desk, key, r, hd, hr, hid⟩ (unissued_bookingName hd)

/-- No act makes a name upcoming that was not. -/
theorem Orderly.upcoming_of_act (h : s.Orderly) {t : Turn} (ha : s.Act now occasion t)
    {id : RequestId} (hup : t.service.Upcoming id) : s.Upcoming id := by
  rcases hup with hissue | hbooked
  · exact .inl (ha.unissued hissue)
  · cases ha with
    | hear | await | pickUp | dropOff | reject | park | discard | departNow | departDeclined =>
      exact .inr hbooked
    | departRejected traveler desk key r rejection hwho hd hr hp =>
      exact (h.upcoming_handOut (.inr hbooked) hd hr rfl rfl rfl).1
    | departBooked traveler desk key r hwho hd hr hp =>
      exact (h.upcoming_handOut (.inr hbooked) hd hr rfl rfl rfl).1
    | declineBooking desk hd =>
      obtain ⟨_, key, r, hdesk, hr, rfl⟩ := hbooked
      obtain rfl := Option.some.inj hdesk
      exact .inr ⟨desk, key, r, hd, hr, rfl⟩
    | book desk key r hd hid hmode hs =>
      obtain ⟨_, key', r', hdesk, hr, rfl⟩ := hbooked
      obtain rfl := Option.some.inj hdesk
      simp only [Table.find?_insert] at hr
      split at hr
      · obtain rfl := Option.some.inj hr
        rw [hid, h.choose_eq]
        exact .inl (unissued_bookingName hd)
      · exact .inr ⟨desk, key', r', hd, hr, rfl⟩

/-- What an act submits has the mode of the service, and a name that is then given away. -/
theorem Orderly.submitted_of_act (h : s.Orderly) {t : Turn} (ha : s.Act now occasion t)
    {q : Request} (hq : q ∈ t.submitted) : q.mode = s.mode ∧ ¬ t.service.Unissued q.id := by
  cases ha with
  | hear | await | pickUp | dropOff | reject | park | discard | declineBooking | departRejected
  | departBooked | departDeclined => cases hq
  | departNow traveler r hwho hid hmode hs =>
    obtain rfl := List.mem_singleton.1 hq
    refine ⟨hmode, fun hissue => (s.unissued_of_nextRequest hissue rfl rfl rfl).2 ?_⟩
    exact hid.trans (h.choose_eq _)
  | book desk key r hd hid hmode hs =>
    obtain rfl := List.mem_singleton.1 hq
    refine ⟨hmode, fun hissue => (s.unissued_of_nextBooking hissue rfl rfl hd rfl rfl).2 ?_⟩
    exact hid.trans (h.choose_eq _)

/-! ## Order is kept -/

/-- A booking that is left at the desk when another is handed out was there before. -/
theorem find?_handOut {desk : Desk} {key key' : LegKey} {r : Request}
    (h : (handOut desk key).bookings.find? key' = some r) : desk.bookings.find? key' = some r := by
  simp only [handOut, Table.find?_erase] at h
  split at h
  · simp at h
  · exact h

/-- Nobody is bound to an upcoming name after an act. -/
theorem Orderly.unbound_of_act (h : s.Orderly) {t : Turn} (ha : s.Act now occasion t)
    {id : RequestId} (hup : t.service.Upcoming id) : t.service.bound.find? id = none := by
  have hnone := h.unbound id (h.upcoming_of_act ha hup)
  cases ha with
  | hear | await | book | declineBooking | park | discard => exact hnone
  | dropOff | reject | departDeclined =>
    simp only [Table.find?_erase]
    split
    · rfl
    · exact hnone
  | departRejected traveler desk key r rejection hwho hd hr hp =>
    have hne := (h.upcoming_handOut hup hd hr rfl rfl rfl).2
    simp [hne.symm, hnone]
  | departBooked traveler desk key r hwho hd hr hp =>
    have hne := (h.upcoming_handOut hup hd hr rfl rfl rfl).2
    simp [hne.symm, hnone]
  | departNow traveler r hwho hid hmode hs =>
    have hne : r.id ≠ id := by
      rw [hid, h.choose_eq]
      rintro rfl
      exact absurd hup (h.not_upcoming_nextRequest rfl rfl rfl)
    simp [hne, hnone]
  | pickUp vehicle id' b hb hstatus =>
    have hne : id' ≠ id := by
      rintro rfl
      simp [hnone] at hb
    simp [hne, hnone]

/-- A request that somebody was bound to is not upcoming any more. -/
theorem Orderly.not_upcoming_of_bound (h : s.Orderly) {t : Turn} (ha : s.Act now occasion t)
    {id : RequestId} {b : Binding} (hb : s.bound.find? id = some b) : ¬ t.service.Upcoming id := by
  intro hup
  have hnone := h.unbound id (h.upcoming_of_act ha hup)
  rw [hb] at hnone
  cases hnone

/-- An orderly service is orderly after every act. A new booking has a name that none of the others
has. -/
theorem Orderly.act (h : s.Orderly) {t : Turn} (ha : s.Act now occasion t) : t.service.Orderly := by
  refine ⟨ha.terms.2.1.trans h.naming, fun id => h.unbound_of_act ha, ?_, ?_⟩
  · intro desk' key' r' hdesk' hr'
    cases ha with
    | hear | await | pickUp | dropOff | reject | park | discard | departNow | departDeclined =>
      exact h.booked desk' key' r' hdesk' hr'
    | departRejected traveler desk key r rejection hwho hd hr hp =>
      obtain rfl := Option.some.inj hdesk'
      exact h.booked desk key' r' hd (find?_handOut hr')
    | departBooked traveler desk key r hwho hd hr hp =>
      obtain rfl := Option.some.inj hdesk'
      exact h.booked desk key' r' hd (find?_handOut hr')
    | declineBooking desk hd =>
      obtain rfl := Option.some.inj hdesk'
      obtain ⟨n, hn, hid⟩ := h.booked desk key' r' hd hr'
      exact ⟨n, Nat.lt_succ_of_lt hn, hid⟩
    | book desk key r hd hid hmode hs =>
      obtain rfl := Option.some.inj hdesk'
      simp only [Table.find?_insert] at hr'
      split at hr'
      · obtain rfl := Option.some.inj hr'
        exact ⟨desk.drawn, Nat.lt_succ_self _, hid.trans (h.choose_eq _)⟩
      · obtain ⟨n, hn, hid⟩ := h.booked desk key' r' hd hr'
        exact ⟨n, Nat.lt_succ_of_lt hn, hid⟩
  · intro desk' key₁ key₂ r₁ r₂ hdesk' h₁ h₂ hid
    cases ha with
    | hear | await | pickUp | dropOff | reject | park | discard | departNow | departDeclined =>
      exact h.distinct desk' key₁ key₂ r₁ r₂ hdesk' h₁ h₂ hid
    | departRejected traveler desk key r rejection hwho hd hr hp =>
      obtain rfl := Option.some.inj hdesk'
      exact h.distinct desk key₁ key₂ r₁ r₂ hd (find?_handOut h₁) (find?_handOut h₂) hid
    | departBooked traveler desk key r hwho hd hr hp =>
      obtain rfl := Option.some.inj hdesk'
      exact h.distinct desk key₁ key₂ r₁ r₂ hd (find?_handOut h₁) (find?_handOut h₂) hid
    | declineBooking desk hd =>
      obtain rfl := Option.some.inj hdesk'
      exact h.distinct desk key₁ key₂ r₁ r₂ hd h₁ h₂ hid
    | book desk key r hd hr hmode hs =>
      obtain rfl := Option.some.inj hdesk'
      have hnew {key' : LegKey} {r' : Request} (hr' : desk.bookings.find? key' = some r') :
          r.id ≠ r'.id := fun he => by
        rw [hr, h.choose_eq] at he
        exact h.not_unissued_of_booked ⟨desk, key', r', hd, hr', he.symm⟩
          (unissued_bookingName hd)
      simp only [Table.find?_insert] at h₁ h₂
      split at h₁ <;> split at h₂
      · next hk₁ hk₂ => exact hk₁.symm.trans hk₂
      · obtain rfl := Option.some.inj h₁
        exact absurd hid (hnew h₂)
      · obtain rfl := Option.some.inj h₂
        exact absurd hid.symm (hnew h₁)
      · exact h.distinct desk key₁ key₂ r₁ r₂ hd h₁ h₂ hid

/-- A service to which nobody is bound and where nothing is booked is orderly. -/
theorem orderly_of_vacant (hn : s.naming = .proposed) (hb : ∀ id, s.bound.find? id = none)
    (hd : ∀ desk key, s.desk = some desk → desk.bookings.find? key = none) : s.Orderly := by
  refine ⟨hn, fun id _ => hb id, fun desk key r hdesk hr => ?_, fun desk key _ r _ hdesk hr => ?_⟩
  · rw [hd desk key hdesk] at hr
    cases hr
  · rw [hd desk key hdesk] at hr
    cases hr

end Service

end DialARide
