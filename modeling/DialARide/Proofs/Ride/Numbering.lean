import DialARide.Proofs.Ride.Interference
import DialARide.Proofs.Ride.Submission
import Mathlib.Data.List.Nodup

/-!
# The names that are given away

Every request that is made takes the next number of its service, so the names that are given away
follow from the two counters of each service: a command gives away the name of the request that is
made, and no other. Services of different modes give away different names, unless a mode is named
as the bookings of another one are. Then the first booking of the one and the first departure of
the other have the same name.
-/

namespace DialARide

/-- A name that was given away: by a booking or at a departure, and for which mode. -/
structure Issue where
  booked : Bool
  mode : ModeId
  id : RequestId
  deriving DecidableEq, Repr

namespace Service

/-- The names that a service gives away at departures, up to a number. -/
def issuedNow (mode : ModeId) (n : Nat) : List Issue :=
  (List.range n).map fun k => ⟨false, mode, requestName mode k⟩

/-- The names that a service gives away to bookings, up to a number. -/
def issuedAhead (mode : ModeId) (n : Nat) : List Issue :=
  (List.range n).map fun k => ⟨true, mode, bookingName mode k⟩

/-- The names that a service has given away. -/
def issued (s : Service) : List Issue :=
  issuedNow s.mode s.drawn ++ issuedAhead s.mode ((s.desk.map (·.drawn)).getD 0)

variable {s : Service} {now : Time} {o : Operation}

/-! ## Counters -/

/-- A departure for which no request is made comes to nothing, or a booking is handed out. -/
private theorem perform_depart_of_draft?_eq_none {who : Departing} {link : LinkId}
    (h : s.draft? (.depart now who link) = none) :
    s.perform (.depart now who link) = { service := s } ∨ ∃ key r s',
      s.collect key = some (r, s') ∧
        s.perform (.depart now who link) = s'.departBooked now who r := by
  have hdeparts := s.departs_depart now who link
  generalize hdepart : s.depart now who link = report at hdeparts
  cases hdeparts with
  | turnedDown | hindered => exact .inl (by simp [perform, hdepart])
  | booked hmode hleg hbooking =>
    exact .inr ⟨_, _, _, by rw [collect_eq, hbooking]; rfl, by simp [perform, hdepart]⟩
  | requested hmode hleg hbooking hsource htarget =>
    simp [draft?, hmode, hleg, collect_eq, hbooking, hsource, htarget] at h

/-- A booking for which no request is made comes to nothing. -/
private theorem perform_book_of_draft?_eq_none {person : PersonId} {planned : PlannedLeg}
    (h : s.draft? (.book now person planned) = none) :
    s.perform (.book now person planned) = { service := s } := by
  have hbooks := s.books_book now person planned
  generalize hbook : s.book now person planned = report at hbooks
  cases hbooks with
  | noDesk | turnedDown | noSource | noTarget => simp [perform, hbook]
  | between hdesk hmode hsource htarget =>
    simp [draft?, hdesk, hmode, hsource, htarget] at h

/-- A call by which no request is made leaves the counters alone. -/
private theorem issued_of_draft?_eq_none (h : s.draft? o = none) :
    (s.perform o).service.issued = s.issued := by
  have hsame {s' : Service} (hm : s'.mode = s.mode) (hn : s'.drawn = s.drawn)
      (hd : s'.desk.map (·.drawn) = s.desk.map (·.drawn)) : s'.issued = s.issued := by
    unfold issued
    rw [hm, hn, hd]
  cases o with
  | depart now who link =>
    rcases perform_depart_of_draft?_eq_none h with hperform | ⟨key, r, s', hcollect, hperform⟩
    · rw [hperform]
    · rw [hperform]
      obtain ⟨desk, hdesk, -, rfl⟩ := collect_eq_some_iff.1 hcollect
      cases hp : s.parked.find? r.id <;>
        refine hsame ?_ ?_ ?_ <;>
        simp [departBooked, bind, hp, releaseStop_eq, hdesk, handOut]
  | await stop id =>
    simp only [perform, awaitPassenger]
    split <;> rfl
  | pickUp vehicle id now =>
    cases hb : s.bound.find? id with
    | none => simp [perform, pickUp, hb]
    | some b =>
      by_cases hstatus : b.status = .pickedUp
      · simp [perform, pickUp, hb, hstatus]
      · simp only [perform, pickUp, hb, if_neg hstatus]
        rfl
  | dropOff vehicle id now =>
    cases hb : s.bound.find? id with
    | none => simp [perform, dropOff, hb]
    | some b =>
      simp only [perform, dropOff, hb]
      rfl
  | reject r =>
    simp only [perform, deliver]
    split <;> rfl
  | book now person planned => rw [perform_book_of_draft?_eq_none h]
  | step now =>
    obtain ⟨bound, waitingStops, parked, hstep⟩ := exists_applyRejections now
      { s with mailbox := s.mailbox.dropWhile (·.time < now) } (s.mailbox.takeWhile (·.time < now))
    simp only [perform, step, hstep]
    rfl

/-- A request is made for the mode of the service. -/
private theorem mode_of_draft? {r : Request} {screening : Screening}
    (h : s.draft? o = some (r, screening)) : r.mode = s.mode := by
  cases o with
  | await | pickUp | dropOff | reject | step => cases h
  | depart | book =>
    simp only [draft?] at h
    split at h
    · cases h
    · split at h
      · cases h
      · split at h <;> cases h
        rfl

/-- A call by which a request is made gives its name away. -/
private theorem perm_issued_of_draft? (hn : s.naming = .proposed) {r : Request}
    {screening : Screening}
    (h : s.draft? o = some (r, screening)) :
    (s.perform o).service.issued.Perm (⟨o.isBooking, r.mode, r.id⟩ :: s.issued) := by
  have hchoose (proposed : RequestId) : s.naming.choose proposed = proposed := by
    rw [hn]
    rfl
  rw [mode_of_draft? h]
  cases o with
  | await | pickUp | dropOff | reject | step => cases h
  | depart now who link =>
    obtain ⟨planned, source, target, -, rfl, hperform⟩ := draft?_depart h
    have hissued : (s.perform (.depart now who link)).service.issued =
        issuedNow s.mode (s.drawn + 1) ++ issuedAhead s.mode ((s.desk.map (·.drawn)).getD 0) := by
      rw [hperform, departNow_eq]
      split <;> rfl
    have hid : (s.request s.nextName who.person planned.leg source target now now).id =
        requestName s.mode s.drawn := hchoose _
    rw [hissued, hid, issuedNow, List.range_succ, List.map_append, List.append_assoc]
    exact List.perm_middle
  | book now person planned =>
    obtain ⟨desk, hdesk, -, hid, hperform⟩ := draft?_book h
    have hissued : (s.perform (.book now person planned)).service.issued =
        issuedNow s.mode s.drawn ++ issuedAhead s.mode (desk.drawn + 1) := by
      rw [hperform]
      split <;> rfl
    rw [hissued, hid, hchoose, issued, hdesk, issuedAhead, List.range_succ, List.map_append,
      ← List.append_assoc]
    exact List.perm_append_singleton _ _

/-- A call gives the name away of the request that it makes, and no other. -/
theorem perm_issued_perform (hn : s.naming = .proposed) (o : Operation) :
    (s.perform o).service.issued.Perm
      (((s.draft? o).map fun d => ⟨o.isBooking, d.1.mode, d.1.id⟩).toList ++ s.issued) := by
  cases h : s.draft? o with
  | none => rw [issued_of_draft?_eq_none h]; exact .refl _
  | some d => exact perm_issued_of_draft? hn h

/-- Requests are named in the same way ever after. -/
theorem Acts.naming {occasion : Occasion} {t : Turn} (ha : Acts now occasion s t) :
    t.service.naming = s.naming :=
  ha.keeps (P := fun u => u.naming = s.naming) (fun _ _ hu hact => hact.terms.2.1.trans hu) rfl

/-- No act opens a desk or closes one. -/
theorem Act.isSome_desk {occasion : Occasion} {t : Turn} (ha : s.Act now occasion t) :
    t.service.desk.isSome = s.desk.isSome := by
  cases ha with
  | book _ _ _ hd | declineBooking _ hd | departRejected _ _ _ _ _ _ hd
  | departBooked _ _ _ _ _ hd => simp [hd]
  | hear | await | departNow | departDeclined | pickUp | dropOff | reject | park | discard => rfl

theorem Acts.isSome_desk {occasion : Occasion} {t : Turn} (ha : Acts now occasion s t) :
    t.service.desk.isSome = s.desk.isSome :=
  ha.keeps (P := fun u => u.desk.isSome = s.desk.isSome)
    (fun _ _ hu hact => hact.isSome_desk.trans hu) rfl

/-! ## Names given away by one service -/

theorem mem_issued_iff {x : Issue} : x ∈ s.issued ↔
    (∃ k < s.drawn, x = ⟨false, s.mode, requestName s.mode k⟩) ∨
      ∃ desk, s.desk = some desk ∧ ∃ k < desk.drawn, x = ⟨true, s.mode, bookingName s.mode k⟩ := by
  unfold issued issuedNow issuedAhead
  cases s.desk <;> simp [eq_comm]

/-- No name is given away twice. -/
theorem nodup_issued (s : Service) : s.issued.Nodup := by
  unfold issued issuedNow issuedAhead
  refine List.Nodup.append ?_ ?_ fun x hx hy => ?_
  · refine List.nodup_range.map fun a b hab => ?_
    exact requestName_injective (congrArg Issue.id hab)
  · refine List.nodup_range.map fun a b hab => ?_
    exact bookingName_injective (congrArg Issue.id hab)
  · obtain ⟨a, -, rfl⟩ := List.mem_map.1 hx
    obtain ⟨b, -, hb⟩ := List.mem_map.1 hy
    cases congrArg Issue.booked hb

end Service

namespace Services

variable {h : Services} {i : Nat} {s : Service} {e : Command}

/-- The names that the services have given away. -/
def issued (h : Services) : List Issue := h.members.flatMap Service.issued

/-- The request that is made when a command is carried out, if one is. -/
def draft? (h : Services) (e : Command) : Option Request :=
  (h.place? e).bind fun i => h.members[i]?.bind fun s => (s.draft? e.operation).map (·.1)

/-- The requests that are made when commands are carried out, each with its command, in order. -/
def created (h : Services) : List Command → List (Command × Request)
  | [] => []
  | e :: rest => ((h.draft? e).map (e, ·)).toList ++ (h.carryOut e).2.created rest

/-- The name given away to a request. -/
def issueOf (p : Command × Request) : Issue := ⟨p.1.operation.isBooking, p.2.mode, p.2.id⟩

/-! ## Names given away by all services -/

/-- Each service gives names away for its own mode only. -/
theorem mode_of_mem_issued {x : Issue} (hx : x ∈ s.issued) : x.mode = s.mode := by
  rcases Service.mem_issued_iff.1 hx with ⟨k, -, rfl⟩ | ⟨desk, -, k, -, rfl⟩ <;> rfl

/-- No name is given away twice where no two services are of one mode. -/
theorem nodup_issued_of_modes (hmodes : (h.members.map Service.mode).Nodup) : h.issued.Nodup := by
  refine List.nodup_flatMap.2 ⟨fun s _ => s.nodup_issued, ?_⟩
  refine (List.pairwise_map.1 hmodes).imp fun {s u} hne x hx hy => hne ?_
  exact (mode_of_mem_issued hx).symm.trans (mode_of_mem_issued hy)

/-- Whoever gives names away has given away the first one. -/
theorem exists_first_issued {x : Issue} (hx : x ∈ h.issued) :
    ⟨x.booked, x.mode, if x.booked then bookingName x.mode 0 else requestName x.mode 0⟩ ∈
      h.issued := by
  obtain ⟨s, hs, hx⟩ := List.mem_flatMap.1 hx
  refine List.mem_flatMap.2 ⟨s, hs, Service.mem_issued_iff.2 ?_⟩
  rcases Service.mem_issued_iff.1 hx with ⟨k, hk, rfl⟩ | ⟨desk, hdesk, k, hk, rfl⟩
  · exact .inl ⟨0, Nat.zero_lt_of_lt hk, rfl⟩
  · exact .inr ⟨desk, hdesk, 0, Nat.zero_lt_of_lt hk, rfl⟩

/-- What is given away is a name of its mode. -/
theorem exists_number_of_issued {x : Issue} (hx : x ∈ h.issued) :
    ∃ k, x.id = if x.booked then bookingName x.mode k else requestName x.mode k := by
  obtain ⟨s, -, hx⟩ := List.mem_flatMap.1 hx
  rcases Service.mem_issued_iff.1 hx with ⟨k, -, rfl⟩ | ⟨desk, -, k, -, rfl⟩ <;> exact ⟨k, rfl⟩

/-- The names that are given away are different, unless there are bookings for one mode and
departures of the mode that is named like those bookings. -/
theorem nodup_names_iff (hmodes : (h.members.map Service.mode).Nodup) :
    (h.issued.map (·.id)).Nodup ↔ ∀ x ∈ h.issued, ∀ y ∈ h.issued, x.booked → ¬ y.booked →
      y.mode ≠ x.mode.prebooked := by
  constructor
  · intro hnodup x hx y hy hbooked hnow hmode
    have hfirst := exists_first_issued hx
    have hsecond := exists_first_issued hy
    rw [if_pos hbooked] at hfirst
    rw [if_neg hnow, hmode] at hsecond
    have heq := List.inj_on_of_nodup_map hnodup hfirst hsecond (bookingName_eq x.mode 0)
    exact hnow (congrArg Issue.booked heq ▸ hbooked)
  · intro hapart
    refine (nodup_issued_of_modes hmodes).map_on fun x hx y hy hid => ?_
    obtain ⟨a, ha⟩ := exists_number_of_issued hx
    obtain ⟨b, hb⟩ := exists_number_of_issued hy
    obtain ⟨booked, mode, id⟩ := x
    obtain ⟨booked', mode', id'⟩ := y
    obtain rfl : id = id' := hid
    have hnames := ha.symm.trans hb
    cases booked <;> cases booked' <;> simp only [Bool.false_eq_true, if_false, if_true] at hnames
    · rw [(requestName_eq_iff.1 hnames).1]
    · rw [bookingName_eq] at hnames
      exact absurd (requestName_eq_iff.1 hnames).1 (hapart _ hy _ hx rfl (by simp))
    · rw [bookingName_eq] at hnames
      exact absurd (requestName_eq_iff.1 hnames).1.symm (hapart _ hx _ hy rfl (by simp))
    · rw [bookingName_eq, bookingName_eq] at hnames
      rw [prebooked_injective (requestName_eq_iff.1 hnames).1]

/-! ## Commands -/

/-- What is known of services whatever they carry out: their modes, that requests have the names
proposed for them, and for which mode there is a desk. -/
structure Numbered (booked : Option ModeId) (modes : List ModeId) (h : Services) : Prop where
  modes : h.members.map Service.mode = modes
  naming : ∀ s ∈ h.members, s.naming = .proposed
  desk : ∀ s ∈ h.members, s.desk.isSome → booked = some s.mode

variable {booked : Option ModeId} {modes : List ModeId}

/-- What is heard gives no name away. -/
theorem flatMap_issued_hear (l : List Service) (published : List Rejection) :
    (l.map (·.hear published)).flatMap Service.issued = l.flatMap Service.issued := by
  rw [List.flatMap_map]
  congr 1
  funext s
  obtain ⟨more, heq, -⟩ := s.exists_hear published
  rw [heq]
  rfl

/-- A service that acts keeps its terms. -/
theorem Numbered.commit (hn : h.Numbered booked modes) (hs : h.members[i]? = some s)
    (o : Operation) : (h.commit i (s.perform o)).Numbered booked modes := by
  have hmem : s ∈ h.members := List.mem_of_getElem? hs
  have hacts := s.acts_perform o
  have hmember {u : Service} (hu : u ∈ (h.commit i (s.perform o)).members) :
      ∃ v ∈ h.members, u.mode = v.mode ∧ u.naming = v.naming ∧ u.desk.isSome = v.desk.isSome := by
    obtain ⟨v, rfl, hv⟩ := exists_of_mem_commit hu
    obtain ⟨more, heq, -⟩ := v.exists_hear (h.answersTo (s.perform o))
    rw [heq]
    rcases hv with rfl | hv
    · exact ⟨s, hmem, hacts.mode, hacts.naming, hacts.isSome_desk⟩
    · exact ⟨v, hv, rfl, rfl, rfl⟩
  refine ⟨(modes_commit hs hacts.mode).trans hn.modes, fun u hu => ?_, fun u hu hdesk => ?_⟩
  · obtain ⟨v, hv, -, hnaming, -⟩ := hmember hu
    exact hnaming.trans (hn.naming v hv)
  · obtain ⟨v, hv, hmode, -, hsome⟩ := hmember hu
    rw [hmode]
    exact hn.desk v hv (hsome ▸ hdesk)

theorem Numbered.publish (hn : h.Numbered booked modes) (r : Rejection) :
    (h.publish r).Numbered booked modes := by
  refine ⟨(modes_publish h r).trans hn.modes, ?_, ?_⟩
  · refine forall_members_publish (fun s l hs => ?_) r hn.naming
    obtain ⟨more, heq, -⟩ := s.exists_hear l
    exact heq ▸ hs
  · refine forall_members_publish (fun s l hs => ?_) r hn.desk
    obtain ⟨more, heq, -⟩ := s.exists_hear l
    exact heq ▸ hs

/-- A command gives away the name of the request that is made, and no other. -/
theorem Numbered.carryOut (hn : h.Numbered booked modes) (e : Command) :
    (h.carryOut e).2.Numbered booked modes ∧ (h.carryOut e).2.issued.Perm
      ((((h.draft? e).map (e, ·)).toList.map issueOf) ++ h.issued) := by
  by_cases hpublish : ∃ r, e = .publish r
  · obtain ⟨r, rfl⟩ := hpublish
    refine ⟨hn.publish r, ?_⟩
    have hnone : h.draft? (.publish r) = none := by
      unfold draft?
      cases h.place? (.publish r) with
      | none => rfl
      | some i => cases h.members[i]? <;> simp [Service.draft?, Command.operation]
    rw [hnone]
    exact .of_eq (flatMap_issued_hear h.members [r])
  · have hpublish : ∀ r, e ≠ .publish r := fun r he => hpublish ⟨r, he⟩
    cases hi : h.place? e with
    | none =>
      rw [carryOut_of_place?_eq_none hpublish hi, draft?, hi]
      exact ⟨hn, .refl _⟩
    | some i =>
      obtain ⟨s, hs, -, -⟩ := exists_of_place? hi
      rw [carryOut_eq hpublish hi hs]
      refine ⟨hn.commit hs _, ?_⟩
      have hnaming := hn.naming s (List.mem_of_getElem? hs)
      have hissued : (h.commit i (s.perform e.operation)).issued =
          (h.members.set i (s.perform e.operation).service).flatMap Service.issued := by
        rw [issued, members_commit, flatMap_issued_hear]
      rw [hissued]
      refine (List.perm_flatMap_set hs (Service.perm_issued_perform hnaming e.operation)).trans ?_
      rw [draft?, hi, Option.bind_some, hs, Option.bind_some]
      cases s.draft? e.operation <;> exact .refl _

/-- Commands give away the names of the requests that are made, and no others. -/
theorem Numbered.carryOutAll (hn : h.Numbered booked modes) (commands : List Command) :
    (h.carryOutAll commands).2.Numbered booked modes ∧ (h.carryOutAll commands).2.issued.Perm
      ((h.created commands).map issueOf ++ h.issued) := by
  induction commands generalizing h with
  | nil => exact ⟨hn, .refl _⟩
  | cons e rest ih =>
    obtain ⟨hnext, hfirst⟩ := hn.carryOut e
    obtain ⟨hend, hrest⟩ := ih hnext
    refine ⟨hend, hrest.trans ?_⟩
    rw [created, List.map_append, List.append_assoc]
    exact (hfirst.append_left _).trans (List.perm_append_comm_assoc _ _ _)

/-- Whatever is submitted was made by a command. -/
theorem submitted_sublist_created (h : Services) (commands : List Command) :
    (h.carryOutAll commands).2.submitted.Sublist
      (h.submitted ++ (h.created commands).map (·.2)) := by
  induction commands generalizing h with
  | nil => exact List.sublist_append_left _ _
  | cons e rest ih =>
    have hfirst : (h.carryOut e).2.submitted.Sublist (h.submitted ++ (h.draft? e).toList) := by
      by_cases hpublish : ∃ r, e = .publish r
      · obtain ⟨r, rfl⟩ := hpublish
        exact List.sublist_append_left _ _
      · have hpublish : ∀ r, e ≠ .publish r := fun r he => hpublish ⟨r, he⟩
        cases hi : h.place? e with
        | none =>
          rw [carryOut_of_place?_eq_none hpublish hi]
          exact List.sublist_append_left _ _
        | some i =>
          obtain ⟨s, hs, -, -⟩ := exists_of_place? hi
          rw [carryOut_eq hpublish hi hs, submitted_commit, draft?, hi, Option.bind_some, hs,
            Option.bind_some, Service.submitted_perform]
          refine List.Sublist.append_left ?_ _
          split
          · exact List.nil_sublist _
          · cases s.draft? e.operation with
            | none => exact .refl _
            | some d => by_cases ha : d.2.accepts d.1 <;> simp [Option.filter, ha]
    have hmap : (((h.draft? e).map (e, ·)).toList.map (·.2)) = (h.draft? e).toList := by
      cases h.draft? e <;> rfl
    rw [created, List.map_append, hmap, ← List.append_assoc]
    exact (ih _).trans (hfirst.append_right _)

/-- A request is made by a booking or at a departure, not by both. -/
theorem isDeparture_iff_of_created {commands : List Command} {p : Command × Request}
    (hp : p ∈ h.created commands) :
    p.1.operation.isDeparture ↔ ¬ p.1.operation.isBooking := by
  induction commands generalizing h with
  | nil => cases hp
  | cons e rest ih =>
    rcases List.mem_append.1 hp with hp | hp
    · obtain ⟨r, hr, rfl⟩ := Option.map_eq_some_iff.1 (Option.mem_toList.1 hp)
      unfold draft? at hr
      obtain ⟨i, -, hr⟩ := Option.bind_eq_some_iff.1 hr
      obtain ⟨s, -, hr⟩ := Option.bind_eq_some_iff.1 hr
      obtain ⟨d, hd, -⟩ := Option.map_eq_some_iff.1 hr
      show e.operation.isDeparture ↔ ¬ e.operation.isBooking
      cases ho : e.operation with
      | depart | book => simp [Operation.isDeparture, Operation.isBooking]
      | await | pickUp | dropOff | reject | step =>
        rw [ho] at hd
        cases hd
    · exact ih hp

/-- Commands to services that gave no name away so far make requests of different names, unless
bookings are made for one mode and departures for the mode that is named like these bookings. -/
theorem Numbered.nodup_created_iff (hn : h.Numbered booked modes) (hmodes : modes.Nodup)
    (hnone : h.issued = []) (commands : List Command) :
    ((h.created commands).map (·.2.id)).Nodup ↔ ∀ p ∈ h.created commands,
      ∀ q ∈ h.created commands, p.1.operation.isBooking → q.1.operation.isDeparture →
        q.2.mode ≠ p.2.mode.prebooked := by
  obtain ⟨hend, hissued⟩ := hn.carryOutAll commands
  rw [hnone, List.append_nil] at hissued
  have hnames : ((h.carryOutAll commands).2.issued.map (·.id)).Perm
      ((h.created commands).map (·.2.id)) := by
    have hmap := hissued.map (·.id)
    rwa [List.map_map] at hmap
  rw [← hnames.nodup_iff, nodup_names_iff (hend.modes ▸ hmodes)]
  simp only [hissued.mem_iff, List.forall_mem_map]
  refine forall₂_congr fun p _ => forall₂_congr fun q hq => ?_
  rw [isDeparture_iff_of_created hq]
  rfl

/-- Names are given away for the modes that are served, and to bookings for the booked one. -/
theorem Numbered.mode_of_mem_issued (hn : h.Numbered booked modes) {x : Issue}
    (hx : x ∈ h.issued) : x.mode ∈ modes ∧ (x.booked → booked = some x.mode) := by
  obtain ⟨s, hs, hx⟩ := List.mem_flatMap.1 hx
  rw [← hn.modes, Services.mode_of_mem_issued hx]
  refine ⟨List.mem_map_of_mem hs, fun hbooked => hn.desk s hs ?_⟩
  rcases Service.mem_issued_iff.1 hx with ⟨k, -, rfl⟩ | ⟨desk, hdesk, -⟩
  · cases hbooked
  · simp [hdesk]

/-- The one desk is that of the booked mode. -/
theorem Numbered.deskPosition?_eq {mode : ModeId} (hn : h.Numbered (some mode) modes) :
    h.deskPosition? mode = h.members.findIdx? (·.desk.isSome) := by
  have hsame : ∀ s ∈ h.members, (s.desk.isSome && decide (s.mode = mode)) = s.desk.isSome := by
    intro s hs
    by_cases hdesk : s.desk.isSome
    · simp [hdesk, (Option.some.inj (hn.desk s hs hdesk)).symm]
    · simp [hdesk]
  unfold deskPosition?
  generalize h.members = members at hsame
  induction members with
  | nil => rfl
  | cons s rest ih =>
    rw [List.findIdx?_cons, List.findIdx?_cons, hsame s List.mem_cons_self,
      ih fun u hu => hsame u (List.mem_cons_of_mem s hu)]

end Services

end DialARide
