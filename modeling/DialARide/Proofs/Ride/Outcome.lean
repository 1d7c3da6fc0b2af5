import DialARide.Proofs.Table
import DialARide.Ride.Services

/-!
# What can come of a departure and of a booking

A service turns down travelers of other modes. A traveler of its mode departs by the booking of the
leg or, where there is none, by a request between two known links; a leg is booked between two known
links as well. All that can come of either call is said here once, with what leads to it.
-/

namespace DialARide

namespace Service

/-- A link is missing just if the network of the mode does not have it. -/
theorem requireLink_eq_error_iff {s : Service} {link : LinkId} {fault : Fault} :
    s.requireLink link = .error fault ↔
      s.network.link? link = none ∧ fault = .missingLink link s.mode := by
  unfold requireLink
  cases s.network.link? link <;> simp [eq_comm]

theorem requireLink_eq_ok_iff {s : Service} {id : LinkId} {link : Link} :
    s.requireLink id = .ok link ↔ s.network.link? id = some link := by
  unfold requireLink
  cases s.network.link? id <;> simp

/-! ## Departures -/

/-- The booking of a leg. -/
def booking? (s : Service) (key : LegKey) : Option Request := s.desk.bind (·.bookings.find? key)

/-- The service without the booking of a leg. -/
def unbook (s : Service) (key : LegKey) : Service :=
  { s with desk := s.desk.map fun desk => { desk with bookings := desk.bookings.erase key } }

/-- A booking that is handed out is no longer on the desk. -/
theorem collect_eq (s : Service) (key : LegKey) :
    s.collect key = (s.booking? key).map fun r => (r, s.unbook key) := by
  unfold collect booking? unbook
  cases s.desk with
  | none => rfl
  | some desk => cases hr : desk.bookings.find? key <;> simp [hr]

/-- Where a leg is not booked there is nothing to be taken from the desk. -/
theorem unbook_eq_self {s : Service} {key : LegKey} (h : s.booking? key = none) :
    s.unbook key = s := by
  unfold booking? at h
  unfold unbook
  cases hdesk : s.desk with
  | none => rw [Option.map_none, ← hdesk]
  | some desk =>
    have hnone : desk.bookings.find? key = none := by simpa [hdesk] using h
    rw [Option.map_some, Table.erase_of_find?_eq_none hnone, ← hdesk]

/-- What keeps a service from taking a traveler of its mode from a link: the traveler has no leg, or
the leg is not booked and the link, or else the end of the leg, is not in the network. -/
inductive Hinders (s : Service) (who : Departing) (link : LinkId) : Fault → Prop
  | leg : who.leg = none → Hinders s who link (.noCurrentLeg who.person who.mode)
  | source {planned : PlannedLeg} : who.leg = some planned →
      s.booking? ⟨who.person, planned.index⟩ = none → s.network.link? link = none →
      Hinders s who link (.missingLink link s.mode)
  | target {planned : PlannedLeg} : who.leg = some planned →
      s.booking? ⟨who.person, planned.index⟩ = none → s.network.link? link ≠ none →
      s.network.link? planned.leg.target = none →
      Hinders s who link (.missingLink planned.leg.target s.mode)

/-- All that can come of a departure. -/
inductive Departs (s : Service) (now : Time) (who : Departing) (link : LinkId) :
    Except Fault (Option Turn) → Prop
  | turnedDown : who.mode ≠ s.mode → Departs s now who link (.ok none)
  | hindered {fault : Fault} : who.mode = s.mode → s.Hinders who link fault →
      Departs s now who link (.error fault)
  | booked {planned : PlannedLeg} {r : Request} : who.mode = s.mode → who.leg = some planned →
      s.booking? ⟨who.person, planned.index⟩ = some r → Departs s now who link
        (.ok (some ((s.unbook ⟨who.person, planned.index⟩).departBooked now who r)))
  | requested {planned : PlannedLeg} {source target : Link} : who.mode = s.mode →
      who.leg = some planned → s.booking? ⟨who.person, planned.index⟩ = none →
      s.requireLink link = .ok source → s.requireLink planned.leg.target = .ok target →
      Departs s now who link (.ok (some (s.departNow now who planned.leg source target)))

/-- A traveler with a leg departs by the booking of the leg or, if it has none, by a request. -/
theorem depart_eq {s : Service} {who : Departing} {planned : PlannedLeg} (hmode : who.mode = s.mode)
    (hleg : who.leg = some planned) (now : Time) (link : LinkId) :
    s.depart now who link = match s.booking? ⟨who.person, planned.index⟩ with
      | some r => .ok (some ((s.unbook ⟨who.person, planned.index⟩).departBooked now who r))
      | none => do
        let source ← s.requireLink link
        let target ← s.requireLink planned.leg.target
        return some (s.departNow now who planned.leg source target) := by
  simp only [depart, hmode, hleg, collect_eq, ne_eq, not_true_eq_false, if_false]
  cases s.booking? ⟨who.person, planned.index⟩ <;> rfl

/-- Nothing else can come of a departure. -/
theorem departs_depart (s : Service) (now : Time) (who : Departing) (link : LinkId) :
    s.Departs now who link (s.depart now who link) := by
  by_cases hmode : who.mode = s.mode
  · cases hleg : who.leg with
    | none =>
      have hfault : s.depart now who link = .error (.noCurrentLeg who.person who.mode) := by
        simp [depart, hmode, hleg]
      rw [hfault]
      exact .hindered hmode (.leg hleg)
    | some planned =>
      rw [depart_eq hmode hleg]
      cases hbooking : s.booking? ⟨who.person, planned.index⟩ with
      | some r => exact .booked hmode hleg hbooking
      | none =>
        cases hsource : s.requireLink link with
        | error fault =>
          obtain ⟨hlink, rfl⟩ := requireLink_eq_error_iff.1 hsource
          exact .hindered hmode (.source hleg hbooking hlink)
        | ok source =>
          have hlink : s.network.link? link ≠ none := by simp [requireLink_eq_ok_iff.1 hsource]
          cases htarget : s.requireLink planned.leg.target with
          | error fault =>
            obtain ⟨hend, rfl⟩ := requireLink_eq_error_iff.1 htarget
            exact .hindered hmode (.target hleg hbooking hlink hend)
          | ok target => exact .requested hmode hleg hbooking hsource htarget
  · have hnone : s.depart now who link = .ok none := by simp [depart, hmode]
    rw [hnone]
    exact .turnedDown hmode

/-- A service turns down exactly the travelers of other modes. -/
theorem depart_eq_ok_none_iff {s : Service} {now : Time} {who : Departing} {link : LinkId} :
    s.depart now who link = .ok none ↔ who.mode ≠ s.mode := by
  constructor
  · intro h
    have hdeparts := s.departs_depart now who link
    rw [h] at hdeparts
    cases hdeparts with
    | turnedDown hmode => exact hmode
  · intro hmode
    simp [depart, hmode]

/-- A departure meets a fault just if something keeps the service from taking the traveler. -/
theorem depart_eq_error_iff {s : Service} {now : Time} {who : Departing} {link : LinkId}
    {fault : Fault} : s.depart now who link = .error fault ↔
      who.mode = s.mode ∧ s.Hinders who link fault := by
  constructor
  · intro h
    have hdeparts := s.departs_depart now who link
    rw [h] at hdeparts
    cases hdeparts with
    | hindered hmode hhinders => exact ⟨hmode, hhinders⟩
  · rintro ⟨hmode, hhinders⟩
    cases hhinders with
    | leg hleg => simp [depart, hmode, hleg]
    | source hleg hbooking hlink =>
      have hsource := requireLink_eq_error_iff.2 ⟨hlink, rfl⟩
      rw [depart_eq hmode hleg, hbooking, hsource]
      rfl
    | target hleg hbooking hlink hend =>
      obtain ⟨source, hlink⟩ := Option.ne_none_iff_exists'.1 hlink
      have hsource := requireLink_eq_ok_iff.2 hlink
      have htarget := requireLink_eq_error_iff.2 ⟨hend, rfl⟩
      rw [depart_eq hmode hleg, hbooking, hsource, htarget]
      rfl

/-! ## Bookings -/

/-- The turn in which a leg between two known links is booked, and the name drawn for the booking if
the request passes the screening. -/
def bookBetween (s : Service) (desk : Desk) (now : Time) (person : PersonId) (planned : PlannedLeg)
    (source target : Link) : Option RequestId × Turn :=
  let id := s.nextBookingName desk
  let r := s.request id person planned.leg source target planned.leg.departure now
  let desk := { desk with drawn := desk.drawn + 1 }
  if desk.screening.accepts r then
    (some id, {
      service := { s with desk := some { desk with
        bookings := desk.bookings.insert ⟨person, planned.index⟩ r } }
      submitted := [r] })
  else (none, { service := { s with desk := some desk } })

/-- All that can come of a booking. -/
inductive Books (s : Service) (now : Time) (person : PersonId) (planned : PlannedLeg) :
    Except Fault (Option RequestId × Turn) → Prop
  | noDesk : s.desk = none → Books s now person planned (.ok (none, { service := s }))
  | turnedDown {desk : Desk} : s.desk = some desk → planned.leg.mode ≠ s.mode →
      Books s now person planned (.ok (none, { service := s }))
  | noSource {desk : Desk} {fault : Fault} : s.desk = some desk → planned.leg.mode = s.mode →
      s.requireLink planned.leg.source = .error fault → Books s now person planned (.error fault)
  | noTarget {desk : Desk} {source : Link} {fault : Fault} : s.desk = some desk →
      planned.leg.mode = s.mode → s.requireLink planned.leg.source = .ok source →
      s.requireLink planned.leg.target = .error fault → Books s now person planned (.error fault)
  | between {desk : Desk} {source target : Link} : s.desk = some desk →
      planned.leg.mode = s.mode → s.requireLink planned.leg.source = .ok source →
      s.requireLink planned.leg.target = .ok target →
      Books s now person planned (.ok (s.bookBetween desk now person planned source target))

/-- A leg of the mode is booked once both links are known. -/
theorem book_eq {s : Service} {desk : Desk} {planned : PlannedLeg} (hdesk : s.desk = some desk)
    (hmode : planned.leg.mode = s.mode) (now : Time) (person : PersonId) :
    s.book now person planned = do
      let source ← s.requireLink planned.leg.source
      let target ← s.requireLink planned.leg.target
      return s.bookBetween desk now person planned source target := by
  simp only [book, hdesk, hmode, ne_eq, not_true_eq_false, if_false, bookBetween]
  cases s.requireLink planned.leg.source with
  | error fault => rfl
  | ok source =>
    cases s.requireLink planned.leg.target with
    | error fault => rfl
    | ok target =>
      show (if _ then _ else _) = Except.ok (if _ then _ else _)
      split <;> rfl

/-- Nothing else can come of a booking. -/
theorem books_book (s : Service) (now : Time) (person : PersonId) (planned : PlannedLeg) :
    s.Books now person planned (s.book now person planned) := by
  cases hdesk : s.desk with
  | none =>
    have hnone : s.book now person planned = .ok (none, { service := s }) := by
      simp [book, hdesk]
    rw [hnone]
    exact .noDesk hdesk
  | some desk =>
    by_cases hmode : planned.leg.mode = s.mode
    · rw [book_eq hdesk hmode]
      cases hsource : s.requireLink planned.leg.source with
      | error fault => exact .noSource hdesk hmode hsource
      | ok source =>
        cases htarget : s.requireLink planned.leg.target with
        | error fault => exact .noTarget hdesk hmode hsource htarget
        | ok target => exact .between hdesk hmode hsource htarget
    · have hnone : s.book now person planned = .ok (none, { service := s }) := by
        simp [book, hdesk, hmode]
      rw [hnone]
      exact .turnedDown hdesk hmode

end Service

namespace Services

/-! ## The service that takes a traveler -/

/-- The first open service of a mode, with its position. -/
def first? (h : Services) (mode : ModeId) : Option (Service × Nat) :=
  h.members.zipIdx.find? fun p => !p.1.closed && p.1.mode = mode

variable {h : Services} {mode : ModeId} {i : Nat} {s : Service}

theorem position?_eq_first? (h : Services) (mode : ModeId) :
    h.position? mode = (h.first? mode).map (·.2) :=
  List.findIdx?_eq_fst_find?_zipIdx

theorem find?_active (h : Services) (mode : ModeId) :
    h.active.find? (·.mode = mode) = (h.first? mode).map (·.1) := by
  have hmembers : h.members.zipIdx.map (·.1) = h.members := List.zipIdx_map_fst 0 _
  rw [active, List.find?_filter, first?, ← hmembers, List.find?_map, hmembers]
  simp only [Function.comp_def, Bool.decide_and, Bool.decide_eq_true]

theorem getElem?_of_first? (hfirst : h.first? mode = some (s, i)) : h.members[i]? = some s :=
  List.mem_zipIdx_iff_getElem?.1 (List.mem_of_find?_eq_some hfirst)

/-- Where a mode is not served, its travelers are turned down. -/
theorem depart_of_first?_eq_none {who : Departing} (hfirst : h.first? who.mode = none) (now : Time)
    (link : LinkId) : h.depart now who link = .ok (false, h, []) := by
  simp only [depart, position?_eq_first?, hfirst, Option.map_none]

/-- The first open service of a mode decides on the travelers of the mode. -/
theorem depart_of_first? {who : Departing} (hfirst : h.first? who.mode = some (s, i)) (now : Time)
    (link : LinkId) : h.depart now who link = (s.depart now who link).map fun
      | some t => (true, h.commit i t, t.calls)
      | none => (false, h, []) := by
  simp only [depart, position?_eq_first?, hfirst, Option.map_some, departAt,
    getElem?_of_first? hfirst]
  cases s.depart now who link with
  | error fault => rfl
  | ok turn => cases turn <;> rfl

/-- A departure meets a fault just if something keeps the first open service of its mode from taking
the traveler. -/
theorem depart_eq_error_iff {h : Services} {now : Time} {who : Departing} {link : LinkId}
    {fault : Fault} : h.depart now who link = .error fault ↔
      ∃ s, h.active.find? (·.mode = who.mode) = some s ∧ s.Hinders who link fault := by
  rw [find?_active]
  cases hfirst : h.first? who.mode with
  | none => simp [depart_of_first?_eq_none hfirst]
  | some p =>
    obtain ⟨s, i⟩ := p
    have hmode : who.mode = s.mode := by
      have hfound := List.find?_some hfirst
      simp only [Bool.and_eq_true, decide_eq_true_eq] at hfound
      exact hfound.2.symm
    have hdepart : h.depart now who link = .error fault ↔ s.depart now who link = .error fault := by
      rw [depart_of_first? hfirst]
      cases s.depart now who link <;> simp [Except.map]
    simp only [hdepart, Service.depart_eq_error_iff, hmode, true_and, Option.map_some,
      Option.some.injEq, exists_eq_left']

end Services

end DialARide
