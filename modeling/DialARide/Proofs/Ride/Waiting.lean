import DialARide.Proofs.Ride.Course

/-!
# The stop that waits for a passenger

A stop that waits must be told when its passenger comes. The table of waiting stops has it for as
long as a traveler may yet depart under the name of the request, except that it is cleared when a
booking is found to be rejected; then the rejection is parked, and applied once the traveler has
departed. So a passenger who is bound has been called for at the stop, or is about to be rejected.
-/

namespace DialARide

namespace Service

/-- The rejections that a service was told of are those of requests that were made, and parked under
the names of these requests. -/
structure Informed (s : Service) : Prop where
  orderly : s.Orderly
  mailbox : ∀ r ∈ s.mailbox, ¬ s.Unissued r.request
  parked : ∀ id r, s.parked.find? id = some r → r.request = id

/-- The passenger of a request is not missed by the stop that waits: the stop was called when the
passenger came, unless a rejection is to be applied. -/
structure Awaits (s : Service) (id : RequestId) (stop : EntityId) (called : Prop) : Prop where
  upcoming : s.Upcoming id →
    s.waitingStops.find? id = some stop ∨ s.parked.contains id = true ∧ ¬ s.Unissued id
  bound : ∀ b, s.bound.find? id = some b → b.status ≠ .pickedUp →
    called ∨ ∃ r ∈ s.mailbox, r.request = id

variable {s : Service} {now : Time} {occasion : Occasion} {id : RequestId} {stop : EntityId}
  {called called' : Prop}

theorem Awaits.mono (h : s.Awaits id stop called) (hcalled : called → called') :
    s.Awaits id stop called' := by
  constructor
  · exact h.upcoming
  · intro b hb hstatus
    exact (h.bound b hb hstatus).imp_left hcalled

/-! ## Rejections come of requests that were made -/

/-- An act after which no other rejections lie in the mailbox than those of requests made before
keeps the service informed. -/
theorem Informed.act (h : s.Informed) {t : Turn} (ha : s.Act now occasion t)
    (hoccasion : ∀ r, occasion ≠ .publication r) : t.service.Informed := by
  have hissued : ∀ r ∈ t.service.mailbox, ¬ s.Unissued r.request := by
    intro q hq
    cases ha with
    | hear copies r hr => exact absurd hr (hoccasion r)
    | await | book | declineBooking | departBooked | departNow | departDeclined | pickUp
    | dropOff => exact h.mailbox q hq
    | departRejected traveler desk key r rejection hwho hd hr hp =>
      rcases List.mem_cons.1 hq with rfl | hq
      · rw [h.parked r.id q hp]
        exact h.orderly.not_unissued_of_booked ⟨desk, key, r, hd, hr, rfl⟩
      · exact h.mailbox q hq
    | reject r rest b hm | park r rest hm | discard r rest hm =>
      have hbefore : q ∈ s.mailbox := by
        rw [hm]
        exact List.mem_cons_of_mem r hq
      exact h.mailbox q hbefore
  constructor
  · exact h.orderly.act ha
  · intro r hr hissue
    exact hissued r hr (ha.unissued hissue)
  · exact ha.parked h.parked

/-- A service that hears of requests that were made is informed. -/
theorem Informed.hear (h : s.Informed) {published : List Rejection}
    (hpublished : ∀ r ∈ published, r.mode = s.mode → ¬ s.Unissued r.request) :
    (s.hear published).Informed := by
  obtain ⟨more, heq, hmore⟩ := s.exists_hear published
  have horderly := h.orderly.hear published
  rw [heq] at horderly ⊢
  constructor
  · exact horderly
  · intro r hr
    rcases List.mem_append.1 hr with hr | hr
    · exact h.mailbox r hr
    · exact hpublished r (hmore r hr).1 (hmore r hr).2
  · exact h.parked

/-- Whatever is heard, a stop waits for its passenger as before. -/
theorem Awaits.hear (h : s.Awaits id stop called) (published : List Rejection) :
    (s.hear published).Awaits id stop called := by
  obtain ⟨more, heq, -⟩ := s.exists_hear published
  rw [heq]
  constructor
  · exact h.upcoming
  · intro b hb hstatus
    rcases h.bound b hb hstatus with hcalled | ⟨r, hr, hid⟩
    · exact .inl hcalled
    · exact .inr ⟨r, List.mem_append_left more hr, hid⟩

/-! ## Passengers come -/

/-- A stop begins to wait for a passenger who is not there. -/
theorem awaits_await (hb : s.bound.find? id = none) (stop : EntityId) (called : Prop) :
    Awaits { s with waitingStops := s.waitingStops.insert id stop } id stop called := by
  constructor
  · intro _
    simp
  · intro b hb'
    have hb' : s.bound.find? id = some b := hb'
    rw [hb] at hb'
    cases hb'

/-- A stop that begins to wait for another passenger makes no difference. -/
theorem Awaits.await (h : s.Awaits id stop called) {other : RequestId} (hother : other ≠ id)
    (stop' : EntityId) :
    Awaits { s with waitingStops := s.waitingStops.insert other stop' } id stop called := by
  constructor
  · intro hup
    rcases h.upcoming hup with hstop | hparked
    · left
      rw [Table.find?_insert, if_neg hother]
      exact hstop
    · exact .inr hparked
  · exact h.bound

/-- While a name is upcoming, acts leave the stop that waits in the table, or park a rejection. No
act takes back a name, so it is enough that the name was given away before. -/
theorem Awaits.upcoming_of_act (h : s.Awaits id stop called) (hs : s.Informed) {t : Turn}
    (ha : s.Act now occasion t) (hoccasion : ∀ stop, occasion ≠ .arrival stop)
    (hup : t.service.Upcoming id) : t.service.waitingStops.find? id = some stop ∨
      t.service.parked.contains id = true ∧ ¬ t.service.Unissued id := by
  have hbefore := hs.orderly.upcoming_of_act ha hup
  have hunbound := hs.orderly.unbound id hbefore
  have hkept := h.upcoming hbefore
  suffices hsame : t.service.waitingStops.find? id = some stop ∨
      t.service.parked.contains id = true ∧ ¬ s.Unissued id from
    hsame.imp_right fun hparked => ⟨hparked.1, mt ha.unissued hparked.2⟩
  cases ha with
  | await stop' r hstop => exact absurd hstop (hoccasion stop')
  | hear | dropOff | departDeclined | book | declineBooking => exact hkept
  | departRejected traveler desk key r rejection hwho hd hr hp =>
    have hne := (hs.orderly.upcoming_handOut hup hd hr rfl rfl rfl).2
    simpa [Table.contains, hne.symm] using hkept
  | departBooked traveler desk key r hwho hd hr hp =>
    have hne := (hs.orderly.upcoming_handOut hup hd hr rfl rfl rfl).2
    simpa [hne.symm] using hkept
  | departNow traveler r hwho hid hmode hscreen =>
    have hne : r.id ≠ id := by
      rintro rfl
      have hnone := hs.orderly.unbound_of_act (.departNow traveler r hwho hid hmode hscreen) hup
      simp at hnone
    simpa [hne] using hkept
  | pickUp vehicle id' b hb =>
    have hne : id' ≠ id := by
      rintro rfl
      rw [hunbound] at hb
      cases hb
    simpa [hne] using hkept
  | reject r rest b hm ht hb =>
    have hne : r.request ≠ id := by
      rintro rfl
      rw [hunbound] at hb
      cases hb
    simpa [hne] using hkept
  | park r rest hm ht hb hk =>
    by_cases hid : r.request = id
    · have hissued : ¬ s.Unissued r.request := by
        apply hs.mailbox
        rw [hm]
        exact List.mem_cons_self
      rw [hid] at hissued
      right
      exact ⟨by simp [Table.contains, hid], hissued⟩
    · simpa [Table.contains, hid] using hkept
  | discard r rest hm ht hb hk =>
    have hne : r.request ≠ id := by
      rintro rfl
      rcases hbefore with hissue | hbooked
      · apply hs.mailbox r ?_ hissue
        rw [hm]
        exact List.mem_cons_self
      · exact hk (isBooked_iff.2 hbooked)
    simpa [hne] using hkept

/-- A stop that waits is called when its passenger comes under a name that is upcoming, unless a
rejection is parked under that name. -/
theorem Awaits.mem_readyCalls (h : s.Awaits id stop called) (hup : s.Upcoming id)
    (hparked : s.parked.contains id = true → s.Unissued id) (traveler : EntityId) (now : Time) :
    .ready stop traveler now ∈ s.readyCalls id traveler now := by
  have hstop : s.waitingStops.find? id = some stop :=
    (h.upcoming hup).resolve_right fun hrejected => hrejected.2 (hparked hrejected.1)
  simp [readyCalls, hstop]

/-- A passenger who comes is called for at the stop that waits, or has a rejection to be applied.
While nobody comes, the one who was bound still is, with the same rejections to be applied. -/
theorem Awaits.bound_of_act (h : s.Awaits id stop called) (hs : s.Informed) {t : Turn}
    (ha : s.Act now occasion t) {b : Binding} (hb : t.service.bound.find? id = some b)
    (hstatus : b.status ≠ .pickedUp) :
    (called ∨ ∃ traveler, .ready stop traveler now ∈ t.calls) ∨
      ∃ r ∈ t.service.mailbox, r.request = id := by
  have hbefore (hold : s.bound.find? id = some b)
      (hmailbox : ∀ r ∈ s.mailbox, r.request = id → r ∈ t.service.mailbox) :
      (called ∨ ∃ traveler, .ready stop traveler now ∈ t.calls) ∨
        ∃ r ∈ t.service.mailbox, r.request = id := by
    rcases h.bound b hold hstatus with hcalled | ⟨r, hr, hid⟩
    · exact .inl (.inl hcalled)
    · exact .inr ⟨r, hmailbox r hr hid, hid⟩
  have hrest {r : Rejection} {rest : List Rejection} (hm : s.mailbox = r :: rest)
      (hother : r.request ≠ id) : ∀ q ∈ s.mailbox, q.request = id → q ∈ rest := by
    intro q hq hid
    rw [hm, List.mem_cons] at hq
    exact hq.resolve_left fun heq => hother (heq ▸ hid)
  cases ha with
  | hear copies r => exact hbefore hb fun q hq _ => List.mem_append_left _ hq
  | await | book | declineBooking => exact hbefore hb fun q hq _ => hq
  | departRejected traveler desk key r rejection hwho hd hr hp =>
    by_cases hid : r.id = id
    · right
      exact ⟨rejection, List.mem_cons_self, (hs.parked r.id rejection hp).trans hid⟩
    · exact hbefore (by simpa [hid] using hb) fun q hq _ => List.mem_cons_of_mem _ hq
  | departBooked traveler desk key r hwho hd hr hp =>
    by_cases hid : r.id = id
    · subst hid
      have hup : s.Upcoming r.id := .inr ⟨desk, key, r, hd, hr, rfl⟩
      have hready := h.mem_readyCalls hup (by simp [Table.contains, hp]) traveler now
      exact .inl (.inr ⟨traveler, List.mem_cons_of_mem _ hready⟩)
    · exact hbefore (by simpa [hid] using hb) fun q hq _ => hq
  | departNow traveler r hwho hid hmode hscreen =>
    have hname : r.id = requestName s.mode s.drawn := hid.trans (hs.orderly.choose_eq _)
    have hissue : s.Unissued r.id := hname ▸ s.unissued_requestName
    by_cases hid : r.id = id
    · subst hid
      have hready := h.mem_readyCalls (.inl hissue) (fun _ => hissue) traveler now
      exact .inl (.inr ⟨traveler, List.mem_cons_of_mem _ hready⟩)
    · exact hbefore (by simpa [hid] using hb) fun q hq _ => hq
  | departDeclined traveler r hwho hid | dropOff vehicle r b' hb' =>
    simp only [Table.find?_erase] at hb
    split at hb
    · cases hb
    · exact hbefore hb fun q hq _ => hq
  | pickUp vehicle id' b' hb' hstatus' =>
    simp only [Table.find?_insert] at hb
    split at hb
    · obtain rfl := Option.some.inj hb
      exact absurd rfl hstatus
    · exact hbefore hb fun q hq _ => hq
  | reject r rest b' hm ht hb' =>
    simp only [Table.find?_erase] at hb
    split at hb
    · cases hb
    · next hother => exact hbefore hb (hrest hm hother)
  | park r rest hm ht hb' | discard r rest hm ht hb' =>
    refine hbefore hb (hrest hm ?_)
    rintro rfl
    rw [hb'] at hb
    cases hb

/-- No act of a service that no stop calls upon lets a stop miss its passenger. -/
theorem Awaits.act (h : s.Awaits id stop called) (hs : s.Informed) {t : Turn}
    (ha : s.Act now occasion t) (hoccasion : ∀ stop, occasion ≠ .arrival stop) :
    t.service.Awaits id stop (called ∨ ∃ traveler, .ready stop traveler now ∈ t.calls) := by
  constructor
  · intro hup
    exact h.upcoming_of_act hs ha hoccasion hup
  · intro b hb hstatus
    exact h.bound_of_act hs ha hb hstatus

end Service

namespace Services

/-- Each mode is served by one service, which is open and informed. -/
structure Informed (h : Services) : Prop where
  modes : (h.members.map Service.mode).Nodup
  allOpen : ∀ s ∈ h.members, s.closed = false
  members : ∀ s ∈ h.members, s.Informed

/-- The passenger of a request is not missed by the stop that waits at the service of a mode. -/
def Awaits (h : Services) (mode : ModeId) (id : RequestId) (stop : EntityId) (called : Prop) :
    Prop :=
  ∀ s ∈ h.members, s.mode = mode → s.Awaits id stop called

variable {h h' : Services} {now : Time} {occasion : Occasion} {i : Nat} {s : Service} {t : Turn}
  {mode : ModeId} {id : RequestId} {stop : EntityId} {called called' : Prop}

theorem Awaits.mono (ha : h.Awaits mode id stop called) (hcalled : called → called') :
    h.Awaits mode id stop called' :=
  fun s hs hmode => (ha s hs hmode).mono hcalled

theorem Informed.position_eq (hh : h.Informed) {j : Nat} {u : Service}
    (hs : h.members[i]? = some s) (hu : h.members[j]? = some u) (hmode : u.mode = s.mode) :
    j = i :=
  position_eq_of_modes hh.modes hs hu hmode

/-- After a turn the service that acted is told of its own submissions only, and all others of
none. -/
theorem Informed.commit (hh : h.Informed) (hs : h.members[i]? = some s)
    (ha : s.Act now occasion t) (hoccasion : ∀ r, occasion ≠ .publication r) :
    (h.commit i t).Informed := by
  have hinformed : s.Informed := hh.members s (List.mem_of_getElem? hs)
  constructor
  · rw [(turns_of_act hs ha).modes]
    exact hh.modes
  · intro s' hs'
    obtain ⟨u, rfl, hu⟩ := exists_of_mem_commit hs'
    rw [Service.closed_hear]
    rcases hu with rfl | hu
    · rw [ha.terms.2.2.1]
      exact hh.allOpen s (List.mem_of_getElem? hs)
    · exact hh.allOpen u hu
  · intro s' hs'
    obtain ⟨j, hj⟩ := List.mem_iff_getElem?.1 hs'
    obtain ⟨u, rfl, hu⟩ := exists_of_getElem?_commit hj
    rcases hu with rfl | ⟨hne, hu⟩
    · apply (hinformed.act ha hoccasion).hear
      intro r hr _
      obtain ⟨q, hq, hrequest, -⟩ := exists_of_mem_answersTo hr
      rw [hrequest]
      exact (hinformed.orderly.submitted_of_act ha hq).2
    · apply (hh.members u (List.mem_of_getElem? hu)).hear
      intro r hr hmode
      obtain ⟨q, hq, -, hrequest⟩ := exists_of_mem_answersTo hr
      have hown : q.mode = s.mode := (hinformed.orderly.submitted_of_act ha hq).1
      exact absurd (hh.position_eq hs hu (by rw [← hmode, hrequest, hown])) hne

/-- A turn of a service that no stop calls upon lets no stop miss its passenger. -/
theorem Awaits.commit (hw : h.Awaits mode id stop called) (hh : h.Informed)
    (hs : h.members[i]? = some s) (ha : s.Act now occasion t)
    (hoccasion : ∀ stop, occasion ≠ .arrival stop) :
    (h.commit i t).Awaits mode id stop
      (called ∨ ∃ traveler, .ready stop traveler now ∈ t.calls) := by
  intro s' hs' hmode
  obtain ⟨u, rfl, hu⟩ := exists_of_mem_commit hs'
  apply Service.Awaits.hear
  rw [Service.mode_hear] at hmode
  rcases hu with rfl | hu
  · have hmem : s ∈ h.members := List.mem_of_getElem? hs
    have hsame : s.mode = mode := ha.terms.1.symm.trans hmode
    exact (hw s hmem hsame).act (hh.members s hmem) ha hoccasion
  · exact (hw u hu hmode).mono .inl

/-- Turns keep the services informed. -/
theorem Turns.informed {calls : List Call} (ht : Turns now occasion h h' calls)
    (hoccasion : ∀ r, occasion ≠ .publication r) (hh : h.Informed) : h'.Informed := by
  induction ht with
  | nil => exact hh
  | cons hs ha _ ih => exact ih (hh.commit hs ha hoccasion)

/-- Turns of services that no stop calls upon let no stop miss its passenger. -/
theorem Turns.awaits {calls : List Call} (ht : Turns now occasion h h' calls)
    (hpublication : ∀ r, occasion ≠ .publication r) (harrival : ∀ stop, occasion ≠ .arrival stop)
    (hh : h.Informed) (hw : h.Awaits mode id stop called) :
    h'.Awaits mode id stop (called ∨ ∃ traveler, .ready stop traveler now ∈ calls) := by
  induction ht generalizing called with
  | nil => exact hw.mono .inl
  | cons hs ha _ ih =>
    have hfirst := hw.commit hh hs ha harrival
    apply (ih (hh.commit hs ha hpublication) hfirst).mono
    rintro ((hcalled | ⟨traveler, hc⟩) | ⟨traveler, hc⟩)
    · exact .inl hcalled
    · exact .inr ⟨traveler, List.mem_append_left _ hc⟩
    · exact .inr ⟨traveler, List.mem_append_right _ hc⟩

/-- A stop that begins to wait at the service of its mode does not miss its passenger. -/
theorem awaits_commit_await (hh : h.Informed) (hs : h.members[i]? = some s)
    (hb : s.bound.find? id = none) (stop : EntityId) (called : Prop) :
    (h.commit i { service := { s with waitingStops := s.waitingStops.insert id stop } }).Awaits
      s.mode id stop called := by
  intro s' hs' hmode
  obtain ⟨j, hj⟩ := List.mem_iff_getElem?.1 hs'
  obtain ⟨u, rfl, hu⟩ := exists_of_getElem?_commit hj
  apply Service.Awaits.hear
  rw [Service.mode_hear] at hmode
  rcases hu with rfl | ⟨hne, hu⟩
  · exact Service.awaits_await hb stop called
  · exact absurd (hh.position_eq hs hu hmode) hne

/-- A stop that begins to wait for another passenger, or at another service, makes no
difference. -/
theorem Awaits.commit_await (hw : h.Awaits mode id stop called) (hs : h.members[i]? = some s)
    {other : RequestId} (hother : s.mode = mode → other ≠ id) (stop' : EntityId) :
    (h.commit i { service := { s with
      waitingStops := s.waitingStops.insert other stop' } }).Awaits mode id stop called := by
  intro s' hs' hmode
  obtain ⟨u, rfl, hu⟩ := exists_of_mem_commit hs'
  apply Service.Awaits.hear
  rw [Service.mode_hear] at hmode
  rcases hu with rfl | hu
  · have hmode : s.mode = mode := hmode
    exact (hw s (List.mem_of_getElem? hs) hmode).await (hother hmode) stop'
  · exact hw u hu hmode

end Services

end DialARide
