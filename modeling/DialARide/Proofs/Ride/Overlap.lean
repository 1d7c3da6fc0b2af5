import DialARide.Proofs.Ride.Operation

/-!
# Requests with both a traveler and a waiting stop

A stop waits only while its passenger is not there, so nobody should be bound to a request for
which a stop waits. One call breaks this: a traveler departs with a booking that was rejected, and
the stop that came after the rejection is neither told nor cleared. Until the next step clears
both, the request has a traveler and a waiting stop.
-/

namespace DialARide

namespace Service

/-- Somebody is bound to a request for which a stop waits. -/
def Overlaps (s : Service) (id : RequestId) : Prop :=
  s.bound.contains id = true ∧ s.waitingStops.contains id = true

instance (s : Service) (id : RequestId) : Decidable (s.Overlaps id) :=
  inferInstanceAs (Decidable (_ ∧ _))

/-- A traveler who departs gets a booking of the name that was rejected, while a stop waits for its
passenger. -/
def DepartsRejected (s : Service) (who : Departing) (id : RequestId) : Prop :=
  who.mode = s.mode ∧ s.parked.contains id = true ∧ s.waitingStops.contains id = true ∧
    ∃ planned r s', who.leg = some planned ∧
      s.collect ⟨who.person, planned.index⟩ = some (r, s') ∧ r.id = id

/-- What holds of rejections that are parked, and of requests with both a traveler and a waiting
stop: the rejection that will clear them lies in the mailbox. -/
structure Marked (s : Service) : Prop where
  parked : ∀ id r, s.parked.find? id = some r → r.request = id
  overlap : ∀ id, s.Overlaps id → s.status? id = some .waitingActive ∧
    ∃ r ∈ s.mailbox, r.request = id

variable {s : Service} {now : Time} {occasion : Occasion} {id : RequestId}

/-- A request has both a traveler and a waiting stop after an act because it had, and its binding
and its rejections are as before, or because a parked rejection goes back into the mailbox. -/
theorem Act.overlaps {t : Turn} (ha : s.Act now occasion t) (h : t.service.Overlaps id) :
    (s.Overlaps id ∧ t.service.bound.find? id = s.bound.find? id ∧
        ∀ r ∈ s.mailbox, r.request = id → r ∈ t.service.mailbox) ∨
      ((∃ traveler, occasion = .departure traveler) ∧ s.waitingStops.contains id = true ∧
        t.service.status? id = some .waitingActive ∧ t.service.parked.contains id = false ∧
        ∃ r ∈ t.service.mailbox, s.parked.find? id = some r) := by
  unfold Overlaps at h ⊢
  cases ha with
  | hear copies r hr hmode => exact .inl ⟨h, rfl, fun q hq _ => List.mem_append_left _ hq⟩
  | book | declineBooking => exact .inl ⟨h, rfl, fun q hq _ => hq⟩
  | await stop id' hstop hb =>
    have hid : id' ≠ id := by
      rintro rfl
      simp [Table.contains, hb] at h
    exact .inl ⟨by simpa [Table.contains, hid] using h, rfl, fun q hq _ => hq⟩
  | departRejected traveler desk key r rejection hwho hd hr hp =>
    by_cases hid : r.id = id
    · subst hid
      refine .inr ⟨⟨traveler, hwho⟩, h.2, ?_, ?_, rejection, List.mem_cons_self, hp⟩
      · simp [status?, Request.binding]
      · simp [Table.contains]
    · exact .inl ⟨by simpa [Table.contains, hid] using h, by simp [hid],
        fun q hq _ => List.mem_cons_of_mem _ hq⟩
  | departBooked traveler desk key r | departNow traveler r
  | departDeclined traveler r =>
    have hid : r.id ≠ id := by
      rintro rfl
      simp [Table.contains] at h
    exact .inl ⟨by simpa [Table.contains, hid] using h, by simp [hid], fun q hq _ => hq⟩
  | pickUp vehicle id' b | dropOff vehicle id' b =>
    have hid : id' ≠ id := by
      rintro rfl
      simp [Table.contains] at h
    exact .inl ⟨by simpa [Table.contains, hid] using h, by simp [hid], fun q hq _ => hq⟩
  | reject r rest b hm | park r rest hm | discard r rest hm =>
    have hid : r.request ≠ id := by
      rintro rfl
      simp [Table.contains] at h
    refine .inl ⟨by simpa [Table.contains, hid] using h, by simp [hid], fun q hq hq' => ?_⟩
    rw [hm, List.mem_cons] at hq
    refine hq.resolve_left ?_
    rintro rfl
    exact hid hq'

/-- While nobody departs, no request gets both a traveler and a waiting stop. -/
theorem Acts.overlaps (hwho : ∀ traveler, occasion ≠ .departure traveler) {t : Turn}
    (ha : Acts now occasion s t) (h : t.service.Overlaps id) : s.Overlaps id := by
  induction ha with
  | nil => exact h
  | cons hact _ ih =>
    rcases hact.overlaps (ih h) with ⟨hbefore, -⟩ | ⟨⟨traveler, hoccasion⟩, -⟩
    · exact hbefore
    · exact absurd hoccasion (hwho traveler)

/-- A departure without booking touches no parked rejection. -/
private theorem parked_departNow (s : Service) (now : Time) (who : Departing) (leg : Leg)
    (source target : Link) :
    (s.departNow now who leg source target).service.parked = s.parked := by
  let r := s.request s.nextName who.person leg source target now now
  by_cases ha : s.screening.accepts r
  · simp [departNow, submit, bind, r, ha, releaseStop_eq]
  · simp [departNow, submit, bind, r, ha]

/-- A departure with a booking brings a traveler and a waiting stop together exactly if the
booking was rejected. -/
private theorem overlaps_departBooked {now : Time} {who : Departing} {key : LegKey} {r : Request}
    {s' : Service} (hc : s.collect key = some (r, s')) :
    (s'.departBooked now who r).service.Overlaps id ↔
      r.id ≠ id ∧ s.Overlaps id ∨
        r.id = id ∧ s.parked.contains id = true ∧ s.waitingStops.contains id = true := by
  obtain ⟨desk, hdesk, hr, rfl⟩ := collect_eq_some_iff.1 hc
  unfold Overlaps
  by_cases hid : r.id = id
  · subst hid
    cases hp : s.parked.find? r.id <;>
      simp [departBooked, bind, hp, releaseStop_eq, Table.contains]
  · cases hp : s.parked.find? r.id <;>
      simp [departBooked, bind, hp, releaseStop_eq, Table.contains, hid]

/-- A call after which a request has both a traveler and a waiting stop, which it had not, is the
departure of the traveler with a booking that was rejected. -/
theorem departsRejected_of_overlaps {o : Operation} (hno : ¬ s.Overlaps id)
    (h : (s.perform o).service.Overlaps id) :
    ∃ now who link, o = .depart now who link ∧ s.DepartsRejected who id := by
  have hacts := s.acts_perform o
  cases o with
  | await | pickUp | dropOff | reject | book | step =>
    exact absurd (hacts.overlaps (by simp [Operation.occasion]) h) hno
  | depart now who link =>
    refine ⟨now, who, link, rfl, ?_⟩
    simp only [perform] at h
    split at h
    · next t ht =>
      obtain ⟨hmode, planned, hleg, hcases⟩ := depart_eq_ok_some ht
      rcases hcases with ⟨r, s', hc, rfl⟩ | ⟨hc, source, target, rfl⟩
      · rcases (overlaps_departBooked hc).1 h with ⟨-, hbefore⟩ | ⟨hid, hp, hw⟩
        · exact absurd hbefore hno
        · exact ⟨hmode, hp, hw, planned, r, s', hleg, hc, hid⟩
      · rcases (s.act_departNow now who planned.leg source target).overlaps h with
          ⟨hbefore, -⟩ | ⟨-, -, -, hgone, r, -, hp⟩
        · exact absurd hbefore hno
        · rw [parked_departNow, Table.contains, hp] at hgone
          cases hgone
    · exact absurd h hno

/-- The departure of a traveler with a booking that was rejected leaves the request with both a
traveler and a waiting stop. -/
theorem DepartsRejected.overlaps {who : Departing} (h : s.DepartsRejected who id) (now : Time)
    (link : LinkId) : (s.perform (.depart now who link)).service.Overlaps id := by
  obtain ⟨hmode, hp, hw, planned, r, s', hleg, hc, hid⟩ := h
  have hdepart : s.depart now who link = .ok (some (s'.departBooked now who r)) := by
    simp [depart, hmode, hleg, hc]
  simp only [perform, hdepart]
  exact (overlaps_departBooked hc).2 (.inr ⟨hid, hp, hw⟩)

/-- Every act keeps what holds of parked rejections and of their requests. -/
theorem Marked.act (h : s.Marked) {t : Turn} (ha : s.Act now occasion t) : t.service.Marked := by
  refine ⟨ha.parked h.parked, fun id ho => ?_⟩
  rcases ha.overlaps ho with ⟨hbefore, hbound, hmailbox⟩ | ⟨-, -, hstatus, -, r, hr, hp⟩
  · obtain ⟨hstatus, r, hr, hid⟩ := h.overlap id hbefore
    unfold status? at hstatus ⊢
    rw [hbound]
    exact ⟨hstatus, r, hmailbox r hr hid, hid⟩
  · exact ⟨hstatus, r, hr, h.parked id r hp⟩

theorem Marked.acts (h : s.Marked) {t : Turn} (ha : Acts now occasion s t) : t.service.Marked :=
  ha.keeps (fun _ _ hu hact => hu.act hact) h

theorem Marked.run (h : s.Marked) (operations : List Operation) :
    (s.run operations).service.Marked := by
  induction operations generalizing s with
  | nil => exact h
  | cons o rest ih => exact ih (h.acts (s.acts_perform o))

/-- A run that leads to a request with both a traveler and a waiting stop contains the departure
that led to it. -/
theorem exists_departsRejected (hno : ¬ s.Overlaps id) {operations : List Operation}
    (h : (s.run operations).service.Overlaps id) :
    ∃ before now who link, before ++ [.depart now who link] <+: operations ∧
      (s.run before).service.DepartsRejected who id := by
  induction operations generalizing s with
  | nil => exact absurd h hno
  | cons o rest ih =>
    by_cases hnext : (s.perform o).service.Overlaps id
    · obtain ⟨now, who, link, rfl, hdeparts⟩ := departsRejected_of_overlaps hno hnext
      exact ⟨[], now, who, link, ⟨rest, rfl⟩, hdeparts⟩
    · obtain ⟨before, now, who, link, hprefix, hdeparts⟩ := ih hnext h
      exact ⟨o :: before, now, who, link, List.cons_prefix_cons.2 ⟨rfl, hprefix⟩, hdeparts⟩

/-- At some moment of a run a request has both a traveler and a waiting stop exactly if during the
run a traveler departs with a booking of that name which was rejected before the stop came. The
request then has made no progress, and the rejection that clears both is in the mailbox. -/
theorem overlaps_iff_departsRejected (mode : ModeId) (network : Network) (naming : Naming)
    (screening : Screening) (desk : Option Desk) (operations : List Operation) (id : RequestId) :
    let s := opened mode network naming screening desk
    ((∃ before, before <+: operations ∧ (s.run before).service.Overlaps id) ↔
        ∃ before now who link, before ++ [.depart now who link] <+: operations ∧
          (s.run before).service.DepartsRejected who id) ∧
      ((s.run operations).service.Overlaps id →
        (s.run operations).service.status? id = some .waitingActive ∧
          ∃ r ∈ (s.run operations).service.mailbox, r.request = id) := by
  intro s
  have hno (id : RequestId) : ¬ s.Overlaps id := by simp [s, opened, Overlaps, Table.contains]
  have hmarked : s.Marked := by
    refine ⟨fun id r hr => ?_, fun id ho => absurd ho (hno id)⟩
    simp [s, opened] at hr
  refine ⟨⟨?_, ?_⟩, (hmarked.run operations).overlap id⟩
  · rintro ⟨before, hprefix, ho⟩
    obtain ⟨earlier, now, who, link, hprefix', hdeparts⟩ := exists_departsRejected (hno id) ho
    exact ⟨earlier, now, who, link, hprefix'.trans hprefix, hdeparts⟩
  · rintro ⟨before, now, who, link, hprefix, hdeparts⟩
    refine ⟨before ++ [.depart now who link], hprefix, ?_⟩
    rw [service_run_append]
    exact hdeparts.overlaps now link

/-- The booking of a trip is rejected, its stop comes, and its passenger departs. -/
example :
    let leg : Leg := ⟨⟨"drt"⟩, ⟨"home"⟩, ⟨"work"⟩, 100, none⟩
    let home : Link := { id := leg.source, source := ⟨0, 0⟩, target := ⟨1, 0⟩ }
    let work : Link := { id := leg.target, source := ⟨1, 0⟩, target := ⟨2, 0⟩ }
    let network := Network.ofLinks [home, work]
    let s := opened ⟨"drt"⟩ network .proposed .distinctLinks (some {})
    (s.run [.book 0 ⟨"alice"⟩ ⟨0, leg⟩, .reject ⟨0, ⟨"drt"⟩, ⟨"drt_prebooked_0"⟩, "no vehicle"⟩,
      .step 1, .await 7 ⟨"drt_prebooked_0"⟩,
      .depart 100 ⟨1, ⟨"alice"⟩, ⟨"drt"⟩, some ⟨0, leg⟩⟩ ⟨"home"⟩]).service.Overlaps
        ⟨"drt_prebooked_0"⟩ := by
  decide +kernel

end Service

end DialARide
