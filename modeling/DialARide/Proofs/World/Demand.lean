import DialARide.Proofs.World.Completion
import DialARide.World.Demand

/-!
# Random demand is met

Drawn demand is a timetable: the trips are listed by departure, no vehicle comes before its
passenger has set out, and the stops are made for the names that the service is going to give. So
whatever numbers are drawn, every traveler arrives.
-/

namespace DialARide

/-- A time can be drawn from a range that is not empty. -/
theorem Draws.exists_between {range : Time × Time} (hrange : range.1 ≤ range.2) (draws : Draws)
    (position : Nat) : ∃ time, draws.between position range = .ok time ∧ time ≤ range.2 := by
  have hle : range.1.toNat ≤ range.2.toNat := UInt64.le_iff_toNat_le.1 hrange
  refine ⟨_, if_neg (UInt64.not_lt.2 hrange), ?_⟩
  have hdrawn : draws position % (range.2.toNat - range.1.toNat + 1) <
      range.2.toNat - range.1.toNat + 1 := Nat.mod_lt _ (Nat.succ_pos _)
  have hlast : range.2.toNat < UInt64.size := range.2.toNat_lt
  rw [UInt64.le_iff_toNat_le, UInt64.toNat_ofNat_of_lt' (by omega)]
  omega

theorem World.addStop_eq (w : World) (s : Stop) (time : Time) :
    w.addStop s time = (w.provide (.stop s time)).map (w.entities.length, ·) := by
  simp only [World.provide, World.addStop]
  cases World.schedule { w with entities := w.entities ++ [Entity.stop s] } time .stopReached
    (some (.stop w.entities.length)) <;> rfl

/-! ## The outings that are drawn -/

namespace Demand

variable {d : Demand} {draws : Draws} {n : Nat} {t : Trip} {o : Outing}

/-- The leg of a trip. -/
def leg (d : Demand) (t : Trip) : Leg :=
  { mode := d.mode, source := t.source, target := t.target, departure := t.departure }

/-- The outing for the trip of a number, with the times of the stops. -/
def outingAt (d : Demand) (n : Nat) (t : Trip) (pickupAt dropoffAt : Time) : Outing where
  person := ⟨s!"person_{n}"⟩
  vehicle := ⟨s!"veh_{n % max d.vehicles 1}"⟩
  source := t.source
  target := t.target
  departure := t.departure
  pickupAt := pickupAt
  dropoffAt := dropoffAt

/-- The outing drawn for the trip of a number. -/
def outing (d : Demand) (draws : Draws) (n : Nat) (t : Trip) : Except Halt Outing := do
  let position := 3 * d.travelers + 2 * n
  let pickupAt ← Time.plus t.departure (← draws.between position d.pickupDelay)
  let dropoffAt ← Time.plus pickupAt (← draws.between (position + 1) d.rideTime)
  return d.outingAt n t pickupAt dropoffAt

/-- The outings drawn for trips that are numbered from a number on. -/
def outingsFrom (d : Demand) (draws : Draws) : Nat → List Trip → Except Halt (List Outing)
  | _, [] => .ok []
  | n, t :: rest => do return (← d.outing draws n t) :: (← d.outingsFrom draws (n + 1) rest)

variable {before : List Outing} {built w : World}

/-- The dropoff of an outing is that of the pickup that is added before it. -/
theorem addStops_eq {mode : ModeId} (hsize : w.entities.length = 3 * n + 1) (o : Outing) :
    (do
      let (id, w) ← w.addStop (o.pickup mode n) o.pickupAt
      let (_, w) ← w.addStop { o.pickup mode n with kind := .dropoff id } o.dropoffAt
      return w : Except Halt World) = w.provideAll [.stop (o.pickup mode n) o.pickupAt,
        .stop ((o.pickup mode n).dropoff (3 * n + 1)) o.dropoffAt] := by
  have hdropoff : { o.pickup mode n with kind := .dropoff (3 * n + 1) } =
    (o.pickup mode n).dropoff (3 * n + 1) := rfl
  simp only [World.provideAll, World.addStop_eq, hsize, Bind.bind, Except.bind]
  cases w.provide (.stop (o.pickup mode n) o.pickupAt) with
  | error halt => rfl
  | ok w₁ =>
    simp only [Except.map, hdropoff]
    cases w₁.provide (.stop ((o.pickup mode n).dropoff (3 * n + 1)) o.dropoffAt) <;> rfl

/-- To add a trip is to fill in the outing drawn for it. -/
theorem addTrip_eq (h : World.Planned d.mode before built w) (draws : Draws) (t : Trip) :
    d.addTrip draws w before.length t = d.outing draws before.length t >>= fun o =>
      w.provideAll (o.provisions d.mode before.length) := by
  obtain ⟨w₁, hw₁, hadded⟩ := World.exists_added h.now (.traveler
    { person := ⟨s!"person_{before.length}"⟩, link := t.source, plan := { legs := [d.leg t] } })
    (d.leg t).departure .departure (some (.traveler w.entities.length))
  have hfirst : w.addTraveler ⟨s!"person_{before.length}"⟩ t.source [d.leg t] =
      pure (w.entities.length, w₁) := by
    simp only [World.addTraveler, hw₁]
    rfl
  have hprovide : w.provide (.traveler ⟨s!"person_{before.length}"⟩ t.source [d.leg t]) = .ok w₁ :=
    congrArg (·.map Prod.snd) hfirst
  have hsize : w₁.entities.length = 3 * before.length + 1 := by
    rw [congrArg World.entities hadded.same, List.length_append, List.length_singleton, h.size]
  unfold leg at hfirst
  simp only [addTrip, outing, hfirst, bind_assoc, pure_bind]
  refine bind_congr fun delay => bind_congr fun pickupAt => bind_congr fun ride =>
    bind_congr fun dropoffAt => ?_
  show _ = (w.provide (.traveler ⟨s!"person_{before.length}"⟩ t.source [d.leg t])).bind _
  rw [hprovide]
  exact addStops_eq hsize (d.outingAt before.length t pickupAt dropoffAt)

/-- To add trips is to fill in the outings drawn for them. -/
theorem addTrips_eq (h : World.Planned d.mode before built w) (draws : Draws) (trips : List Trip) :
    d.addTrips draws w before.length trips = d.outingsFrom draws before.length trips >>=
      fun outings => w.provideAll (provisionsFrom d.mode before.length outings) := by
  induction trips generalizing before w with
  | nil => rfl
  | cons t rest ih =>
    simp only [addTrips, outingsFrom, addTrip_eq h, bind_assoc, pure_bind]
    refine bind_congr fun o => ?_
    obtain ⟨w₁, hw₁, hadded⟩ := h.provideAll o
    have hrest := ih hadded
    rw [List.length_append, List.length_singleton] at hrest
    simp only [provisionsFrom, World.provideAll_append, hw₁, Except.bind]
    exact hrest

/-- The traveler of the trip of a number, at the end of the journey. -/
def arrived (d : Demand) (n : Nat) (t : Trip) : Traveler where
  person := ⟨s!"person_{n}"⟩
  link := t.target
  plan :=
    { legs := [{ mode := d.mode, source := t.source, target := t.target, departure := t.departure }]
      position := 1 }
  state := .arrived

/-- No vehicle arrives later than this. -/
def latest (d : Demand) : Nat := d.window.toNat + d.pickupDelay.2.toNat + d.rideTime.2.toNat

/-- The number of events that the demand takes at most: the start and the steps, and for each
traveler two stops and a departure, which counts twice since it could call a stop. -/
def eventBound (d : Demand) (stepInterval : Time) : Nat :=
  4 * d.travelers + d.latest / stepInterval.toNat + 3

/-! ## What is drawn is in range -/

/-- The outing is one that can be drawn for the trip of a number. -/
structure Serves (d : Demand) (n : Nat) (t : Trip) (o : Outing) : Prop where
  person : o.person = ⟨s!"person_{n}"⟩
  source : o.source = t.source
  target : o.target = t.target
  departure : o.departure = t.departure
  timely : o.departure ≤ o.pickupAt ∧ o.pickupAt ≤ o.dropoffAt
  dropoffAt : o.dropoffAt.toNat ≤ t.departure.toNat + d.pickupDelay.2.toNat + d.rideTime.2.toNat

/-- An outing can be drawn for a trip unless a sum of times overflows. -/
theorem exists_outing (hpickup : d.pickupDelay.1 ≤ d.pickupDelay.2)
    (hride : d.rideTime.1 ≤ d.rideTime.2) (draws : Draws) (n : Nat) (t : Trip) :
    (d.outing draws n t = .error .overflow ∧ UInt64.size ≤
        t.departure.toNat + d.pickupDelay.2.toNat + d.rideTime.2.toNat) ∨
      ∃ o, d.outing draws n t = .ok o ∧ d.Serves n t o := by
  obtain ⟨delay, hdelay, hdelayed⟩ := Draws.exists_between hpickup draws (3 * d.travelers + 2 * n)
  obtain ⟨ride, hrode, hlong⟩ := Draws.exists_between hride draws (3 * d.travelers + 2 * n + 1)
  rw [UInt64.le_iff_toNat_le] at hdelayed hlong
  unfold outing
  simp only [hdelay, Bind.bind, Except.bind]
  rcases Time.plus_cases t.departure delay with ⟨hplus, hsize⟩ | ⟨pickupAt, hplus, hsum⟩
  · simp only [hplus]
    exact .inl ⟨trivial, by omega⟩
  · simp only [hplus, hrode]
    rcases Time.plus_cases pickupAt ride with ⟨hplus', hsize⟩ | ⟨dropoffAt, hplus', hsum'⟩
    · simp only [hplus']
      exact .inl ⟨trivial, by omega⟩
    · simp only [hplus']
      refine .inr ⟨_, rfl, rfl, rfl, rfl, rfl, ⟨?_, ?_⟩, ?_⟩
      · show t.departure ≤ pickupAt
        rw [UInt64.le_iff_toNat_le]
        omega
      · show pickupAt ≤ dropoffAt
        rw [UInt64.le_iff_toNat_le]
        omega
      · show dropoffAt.toNat ≤ _
        omega

/-- The outings of a list serve trips, both numbered from a number on. -/
structure ServeFrom (d : Demand) (n : Nat) (trips : List Trip) (outings : List Outing) : Prop where
  length : outings.length = trips.length
  serves : ∀ k t o, trips[k]? = some t → outings[k]? = some o → d.Serves (n + k) t o

/-- The traveler of an outing arrives where the trip leads. -/
theorem Serves.traveler_eq (h : d.Serves n t o) : o.traveler d.mode .arrived = d.arrived n t := by
  simp [Outing.traveler, Outing.leg, arrived, h.person, h.source, h.target, h.departure]

theorem ServeFrom.exists_trip {trips : List Trip} {outings : List Outing} {k : Nat}
    (h : d.ServeFrom n trips outings) (ho : outings[k]? = some o) :
    ∃ t, trips[k]? = some t ∧ d.Serves (n + k) t o := by
  have hk : k < trips.length := h.length ▸ (List.getElem?_eq_some_iff.1 ho).1
  have ht := List.getElem?_eq_getElem hk
  exact ⟨trips[k], ht, h.serves k _ o ht ho⟩

theorem ServeFrom.exists_of_mem {trips : List Trip} {outings : List Outing}
    (h : d.ServeFrom n trips outings) (ho : o ∈ outings) : ∃ k, ∃ t ∈ trips, d.Serves k t o := by
  obtain ⟨k, hk⟩ := List.mem_iff_getElem?.1 ho
  obtain ⟨t, ht, hserves⟩ := h.exists_trip hk
  exact ⟨n + k, t, List.mem_of_getElem? ht, hserves⟩

/-- The travelers of the outings arrive where the trips lead. -/
theorem ServeFrom.exists_arrived_iff {trips : List Trip} {outings : List Outing}
    (h : d.ServeFrom 0 trips outings) (id : Nat) (traveler : Traveler) :
    (∃ n o, outings[n]? = some o ∧ id = 3 * n ∧ traveler = o.traveler d.mode .arrived) ↔
      ∃ n t, trips[n]? = some t ∧ id = 3 * n ∧ traveler = d.arrived n t := by
  constructor
  · rintro ⟨n, o, ho, hid, rfl⟩
    obtain ⟨t, ht, hserves⟩ := h.exists_trip ho
    rw [Nat.zero_add] at hserves
    exact ⟨n, t, ht, hid, hserves.traveler_eq⟩
  · rintro ⟨n, t, ht, hid, rfl⟩
    have hn : n < outings.length := h.length ▸ (List.getElem?_eq_some_iff.1 ht).1
    have ho := List.getElem?_eq_getElem hn
    have hserves := h.serves n t _ ht ho
    rw [Nat.zero_add] at hserves
    exact ⟨n, outings[n], ho, hid, hserves.traveler_eq.symm⟩

/-- Outings are listed by departure if their trips are. -/
theorem ServeFrom.sorted {trips : List Trip} {outings : List Outing}
    (h : d.ServeFrom n trips outings)
    (hsorted : trips.Pairwise fun t t' => t.departure ≤ t'.departure) :
    outings.Pairwise fun o o' => o.departure ≤ o'.departure := by
  have hsame : outings.map (·.departure) = trips.map (·.departure) := by
    refine List.ext_getElem (by simp [h.length]) fun k hk hk' => ?_
    rw [List.length_map] at hk hk'
    rw [List.getElem_map, List.getElem_map]
    exact (h.serves k _ _ (List.getElem?_eq_getElem hk') (List.getElem?_eq_getElem hk)).departure
  rw [← List.pairwise_map (f := Outing.departure), hsame, List.pairwise_map]
  exact hsorted

/-- Outings can be drawn for trips unless a sum of times overflows. -/
theorem exists_outingsFrom (hpickup : d.pickupDelay.1 ≤ d.pickupDelay.2)
    (hride : d.rideTime.1 ≤ d.rideTime.2) (draws : Draws) (n : Nat) (trips : List Trip) :
    (d.outingsFrom draws n trips = .error .overflow ∧ ∃ t ∈ trips, UInt64.size ≤
        t.departure.toNat + d.pickupDelay.2.toNat + d.rideTime.2.toNat) ∨
      ∃ outings, d.outingsFrom draws n trips = .ok outings ∧ d.ServeFrom n trips outings := by
  induction trips generalizing n with
  | nil => exact .inr ⟨[], rfl, rfl, by simp⟩
  | cons t rest ih =>
    unfold outingsFrom
    rcases exists_outing hpickup hride draws n t with ⟨hover, hsize⟩ | ⟨o, hfirst, hserves⟩
    · rw [hover]
      exact .inl ⟨rfl, t, List.mem_cons_self, hsize⟩
    · rw [hfirst]
      rcases ih (n + 1) with ⟨hover, t', ht', hsize⟩ | ⟨outings, hrest, hserve⟩
      · rw [hover]
        exact .inl ⟨rfl, t', List.mem_cons_of_mem t ht', hsize⟩
      · rw [hrest]
        refine .inr ⟨o :: outings, rfl, by simp [hserve.length], fun k t' o' ht' ho' => ?_⟩
        cases k with
        | zero =>
          cases ht'
          cases ho'
          exact hserves
        | succ k =>
          rw [← Nat.add_assoc, Nat.add_right_comm]
          exact hserve.serves k t' o' ht' ho'

/-- A trip departs in the window, between two different links of the list. The offset is less than
the number of links, so it does not lead back. -/
theorem trip_mem {links : List LinkId} {htwo : 2 ≤ links.length} (hwindow : d.window ≠ 0)
    (hnodup : links.Nodup) (ht : t ∈ d.trips draws links htwo) :
    t.departure < d.window ∧ t.source ∈ links ∧ t.target ∈ links ∧ t.source ≠ t.target := by
  obtain ⟨n, -, rfl⟩ := List.mem_map.1 ((List.mergeSort_perm _ _).mem_iff.1 ht)
  refine ⟨?_, List.get_mem .., List.get_mem .., fun hsame => ?_⟩
  · have hpos : 0 < d.window.toNat :=
      Nat.pos_of_ne_zero fun hzero => hwindow (UInt64.toNat_inj.1 hzero)
    have hdrawn := Nat.mod_lt (draws (3 * n)) hpos
    have hsize := d.window.toNat_lt
    show UInt64.ofNat (draws (3 * n) % d.window.toNat) < d.window
    rw [UInt64.lt_iff_toNat_lt, UInt64.toNat_ofNat_of_lt' (Nat.lt_trans hdrawn hsize)]
    exact hdrawn
  · have hindex := Fin.mk.inj_iff.1 (List.nodup_iff_injective_get.1 hnodup hsame)
    have hfirst := Nat.mod_lt (draws (3 * n + 1)) (show 0 < links.length by omega)
    have hoffset := Nat.mod_lt (draws (3 * n + 2)) (show 0 < links.length - 1 by omega)
    generalize draws (3 * n + 1) % links.length = first at hindex hfirst
    generalize draws (3 * n + 2) % (links.length - 1) = offset at hindex hoffset
    rcases Nat.lt_or_ge (first + (1 + offset)) links.length with hlt | hge
    · rw [Nat.mod_eq_of_lt hlt] at hindex
      omega
    · rw [Nat.mod_eq_sub_mod hge, Nat.mod_eq_of_lt (by omega)] at hindex
      omega

/-- The trips are listed by departure. -/
theorem pairwise_trips (links : List LinkId) (htwo : 2 ≤ links.length) :
    (d.trips draws links htwo).Pairwise fun t t' => t.departure ≤ t'.departure := by
  refine (List.pairwise_mergeSort (fun a b c hab hbc => ?_) (fun a b => ?_) _).imp of_decide_eq_true
  · exact decide_eq_true (UInt64.le_trans (of_decide_eq_true hab) (of_decide_eq_true hbc))
  · rw [Bool.or_eq_true, decide_eq_true_eq, decide_eq_true_eq]
    exact UInt64.le_total ..

@[simp] theorem length_trips (links : List LinkId) (htwo : 2 ≤ links.length) :
    (d.trips draws links htwo).length = d.travelers := by
  simp [trips]

end Demand

/-- A link is known by its own name. -/
theorem Network.id_of_link?_ofLinks {roads : List Link} {id : LinkId} {link : Link}
    (h : (Network.ofLinks roads).link? id = some link) : link.id = id := by
  have hadd (rest : List Link) (n : Network) (hn : n.link? id = some link → link.id = id)
      (h : (rest.foldl Network.add n).link? id = some link) : link.id = id := by
    induction rest generalizing n with
    | nil => exact hn h
    | cons l rest ih =>
      refine ih (n.add l) (fun hl => ?_) h
      rw [link?_add] at hl
      split at hl
      · next hid =>
        cases hl
        exact hid
      · exact hn hl
  exact hadd roads {} (fun hnone => nomatch hnone) h

namespace Setup

variable {s : Setup} {d : Demand} {draws : Draws} {links : List LinkId} {built : World}

/-- A service that is set up has served nobody, and takes whoever wants to go somewhere else. -/
theorem service_vacant (s : Setup) (rule : ModeRule) :
    (s.service rule).network = s.network.forMode rule.mode ∧
      (s.service rule).naming = .proposed ∧ (s.service rule).ownOptimizer = false ∧
      (s.service rule).drawn = 0 ∧ (s.service rule).bound = .empty ∧
      (s.service rule).waitingStops = .empty ∧
      (∀ desk, (s.service rule).desk = some desk → desk.bookings = .empty) ∧
      ∀ r, r.source ≠ r.target → (s.service rule).screening.accepts r := by
  have hscreening (r : Request) (hr : r.source ≠ r.target) :
      (if rule.rejectEqualLinks then Screening.distinctLinks else .acceptAll).accepts r := by
    split
    · rw [Screening.accepts_distinctLinks]
      exact decide_eq_true hr
    · rfl
  by_cases hbooked : s.bookedMode = some rule.mode
  · have hopened : s.service rule = Service.withDesk _ := if_pos hbooked
    rw [hopened]
    refine ⟨rfl, rfl, rfl, rfl, rfl, rfl, fun desk hdesk => ?_, hscreening⟩
    cases hdesk
    rfl
  · have hopened : s.service rule = _ := if_neg hbooked
    rw [hopened]
    exact ⟨rfl, rfl, rfl, rfl, rfl, rfl, fun desk hdesk => (nomatch hdesk), hscreening⟩

/-- A configured mode has a service that is the first open one of the mode. -/
theorem exists_service (hbuilt : s.build = .ok built) {mode : ModeId}
    (hmode : ∃ rule ∈ s.config.modes, rule.mode = mode) :
    ∃ i rule, built.services.position? mode = some i ∧
      built.services.members[i]? = some (s.service rule) ∧ rule.mode = mode := by
  obtain ⟨-, hmembers, -, -⟩ := build_eq_ok hbuilt
  have hsome : (built.services.position? mode).isSome := by
    obtain ⟨rule, hrule, hserves⟩ := hmode
    obtain ⟨hopen, hsame, -⟩ := s.service_terms rule
    rw [Services.position?, hmembers, List.findIdx?_isSome, List.any_map]
    exact List.any_eq_true.2 ⟨rule, hrule, by simp [hopen, hsame, hserves]⟩
  obtain ⟨i, hi⟩ := Option.isSome_iff_exists.1 hsome
  obtain ⟨service, hservice, -, hserved⟩ := Services.position?_eq_some hi
  obtain ⟨rule, -, rfl⟩ : ∃ rule ∈ s.config.modes, s.service rule = service :=
    List.mem_map.1 (hmembers ▸ List.mem_of_getElem? hservice)
  exact ⟨i, rule, hi, hservice, (s.service_terms rule).2.1 ▸ hserved⟩

/-- Drawn trips on known links are a timetable. -/
theorem exists_timetable {roads : List Link} (hbuilt : s.build = .ok built)
    (hnetwork : s.network = .ofLinks roads) (hverdict : ∀ r, s.verdict r = none)
    (hmode : ∃ rule ∈ s.config.modes, rule.mode = d.mode)
    (hlinks : ∀ id ∈ links, ((s.network.forMode d.mode).link? id).isSome)
    {trips : List Trip} {outings : List Outing} (hserve : d.ServeFrom 0 trips outings)
    (hsorted : trips.Pairwise fun t t' => t.departure ≤ t'.departure)
    (htrips : ∀ t ∈ trips, t.source ∈ links ∧ t.target ∈ links ∧ t.source ≠ t.target) :
    ∃ tt : Timetable, tt.mode = d.mode ∧ tt.outings = outings ∧ tt.services = built.services := by
  obtain ⟨-, hmembers, -, -⟩ := build_eq_ok hbuilt
  obtain ⟨hsame, hunsubmitted, -⟩ := build_vacant hbuilt
  obtain ⟨i, rule, hi, hservice, hserved⟩ := exists_service hbuilt hmode
  obtain ⟨hopen, hproposed, hshared, hdrawn, hbound, hwaits, hdesk, hscreening⟩ :=
    s.service_vacant rule
  have hmailbox : ∀ u ∈ built.services.members, u.mailbox = [] := by
    intro u hu
    rw [hmembers] at hu
    obtain ⟨rule, -, rfl⟩ := List.mem_map.1 hu
    exact (s.service_terms rule).2.2.1
  have hlinked (id : LinkId) (hid : id ∈ links) :
      ∃ link, (s.service rule).network.link? id = some link ∧ link.id = id := by
    rw [hopen, hserved]
    obtain ⟨link, hlink⟩ := Option.isSome_iff_exists.1 (hlinks id hid)
    refine ⟨link, hlink, ?_⟩
    rw [Network.link?_forMode, hnetwork] at hlink
    exact Network.id_of_link?_ofLinks (Option.filter_eq_some_iff.1 hlink).1
  have hdistinct (o : Outing) (ho : o ∈ outings) : o.source ≠ o.target := by
    obtain ⟨_, t, ht, hserves⟩ := hserve.exists_of_mem ho
    rw [hserves.source, hserves.target]
    exact (htrips t ht).2.2
  have hknown (o : Outing) (ho : o ∈ outings) (id : LinkId) (hid : id ∈ [o.source, o.target]) :
      ∃ link, (s.service rule).network.link? id = some link ∧ link.id = id := by
    obtain ⟨_, t, ht, hserves⟩ := hserve.exists_of_mem ho
    rw [hserves.source, hserves.target, List.mem_pair] at hid
    rcases hid with rfl | rfl
    · exact hlinked _ (htrips t ht).1
    · exact hlinked _ (htrips t ht).2.1
  refine ⟨{
    mode := d.mode
    outings
    services := built.services
    position := i
    service := s.service rule
    sorted := hserve.sorted hsorted
    timely := fun o ho => ?_
    distinct := hdistinct
    linked := hknown
    member := hservice
    found := hi
    accepted := fun r => hsame ▸ hverdict r
    idle := hmailbox
    proposed := hproposed
    shared := hshared
    screening := hscreening
    unbooked := hdesk
    unawaited := hwaits
    unbound := hbound
    undrawn := hdrawn
    unsubmitted := hunsubmitted }, rfl, rfl, rfl⟩
  obtain ⟨_, _, _, hserves⟩ := hserve.exists_of_mem ho
  exact hserves.timely

/-- To add demand to a world that is set up is to fill in the outings that are drawn. -/
theorem addTo_eq (hbuilt : s.build = .ok built) (hwindow : d.window ≠ 0)
    (htwo : 2 ≤ links.length) (draws : Draws) : d.addTo draws links built =
      (d.outingsFrom draws 0 (d.trips draws links htwo) >>= fun outings =>
        built.provideAll (provisionsFrom d.mode 0 outings)).map (d.travelers, ·) := by
  have htrips : d.addTrips draws built 0 (d.trips draws links htwo) = _ :=
    Demand.addTrips_eq (planned_build hbuilt d.mode) draws _
  rw [Demand.addTo, dif_pos htwo, if_neg hwindow, htrips]
  cases d.outingsFrom draws 0 (d.trips draws links htwo) >>= _ <;> rfl

/-- Random demand is met, whatever numbers are drawn. It can be added to a world that is set up with
a service of its mode, and unless a sum of times overflows a run that takes as many events as there
are ends without a fault. Then every traveler has arrived, as many rides were completed as there are
travelers, and the requests were submitted in the order of their numbers. A sum of times overflows
only if an interval between steps does not fit between the latest arrival of a vehicle and the last
time. -/
theorem meets_demand {roads : List Link} (hbuilt : s.build = .ok built)
    (hnetwork : s.network = .ofLinks roads) (hshifts : s.config.shifts = none)
    (hend : s.endTime = none) (hverdict : ∀ r, s.verdict r = none)
    (hmode : ∃ rule ∈ s.config.modes, rule.mode = d.mode) (hwindow : d.window ≠ 0)
    (hpickup : d.pickupDelay.1 ≤ d.pickupDelay.2) (hride : d.rideTime.1 ≤ d.rideTime.2)
    (htwo : 2 ≤ links.length) (hnodup : links.Nodup)
    (hlinks : ∀ id ∈ links, ((s.network.forMode d.mode).link? id).isSome) (draws : Draws) :
    (d.addTo draws links built = .error .overflow ∧
        UInt64.size ≤ d.latest + s.config.stepInterval.toNat) ∨
      ∃ ready started, d.addTo draws links built = .ok (d.travelers, ready) ∧
        ready.start = .ok started ∧
        ∀ limit, d.eventBound s.config.stepInterval ≤ limit →
          (started.run limit = .error .overflow ∧
              UInt64.size ≤ d.latest + s.config.stepInterval.toNat) ∨
            ∃ taken w, started.run limit = .ok (taken, w) ∧ w.clock.isEmpty = true ∧
              w.fault = none ∧
              (∀ id t, w.traveler? id = some t ↔ ∃ n trip,
                (d.trips draws links htwo)[n]? = some trip ∧ id = 3 * n ∧ t = d.arrived n trip) ∧
              w.telemetry.rides.length = d.travelers ∧
              w.services.submitted.map (·.id) =
                (List.range d.travelers).map (requestName d.mode) := by
  have hlate {t : Trip} (ht : t ∈ d.trips draws links htwo) :
      t.departure.toNat + d.pickupDelay.2.toNat + d.rideTime.2.toNat ≤ d.latest := by
    have hdeparture := (Demand.trip_mem hwindow hnodup ht).1
    rw [UInt64.lt_iff_toNat_lt] at hdeparture
    unfold Demand.latest
    omega
  rw [addTo_eq hbuilt hwindow htwo draws]
  rcases Demand.exists_outingsFrom hpickup hride draws 0 (d.trips draws links htwo) with
    ⟨hover, t, ht, hsize⟩ | ⟨outings, hdrawn, hserve⟩
  · have hle := hlate ht
    rw [hover]
    exact .inl ⟨rfl, by omega⟩
  · obtain ⟨tt, hsame, rfl, hservices⟩ := exists_timetable hbuilt hnetwork hverdict hmode hlinks
      hserve (Demand.pairwise_trips links htwo) fun t ht =>
        (Demand.trip_mem hwindow hnodup ht).2
    have hlatest (o : Outing) (ho : o ∈ tt.outings) : o.dropoffAt.toNat ≤ d.latest := by
      obtain ⟨_, t, ht, hserves⟩ := hserve.exists_of_mem ho
      exact Nat.le_trans hserves.dropoffAt (hlate ht)
    have hlength : tt.outings.length = d.travelers := by
      rw [hserve.length, Demand.length_trips]
    obtain ⟨ready, started, hready, hstarted, hruns⟩ :=
      timetable_completed hbuilt hshifts hend hservices hlatest
    rw [hsame] at hready
    refine .inr ⟨ready, started, ?_, hstarted, fun limit hlimit => ?_⟩
    · rw [hdrawn]
      exact congrArg (·.map (d.travelers, ·)) hready
    · rcases hruns limit (hlength ▸ hlimit) with hover | ⟨taken, w, hrun, hempty, hfault, hdone⟩
      · exact .inl hover
      · refine .inr ⟨taken, w, hrun, hempty, hfault, fun id t => ?_, hdone.rides.trans hlength, ?_⟩
        · rw [hdone.traveler?_eq_some_iff, hsame, hserve.exists_arrived_iff]
        · rw [← hsame, ← hlength]
          exact hdone.submitted

end Setup

/-- Two travelers depart within one minute, and the only vehicle may be there at once. -/
def rushHour : Demand where
  travelers := 2
  vehicles := 1
  window := 60
  pickupDelay := (0, 30)
  rideTime := (0, 30)

/-- Both travelers of the rush hour arrive within thirteen events. -/
theorem rush_hour_met : ∃ built ready started taken w, commute.build = .ok built ∧
    rushHour.addTo (.seeded rushHour.seed) [⟨"home"⟩, ⟨"work"⟩] built = .ok (2, ready) ∧
      ready.start = .ok started ∧ rushHour.eventBound 60 = 13 ∧ started.run 13 = .ok (taken, w) ∧
      w.clock.isEmpty = true ∧ w.fault = none ∧ w.telemetry.rides.length = 2 ∧
      w.services.submitted.map (·.id) = [⟨"drt_0"⟩, ⟨"drt_1"⟩] := by
  have hbuilt : commute.build = .ok _ := rfl
  have hbound : rushHour.eventBound 60 = 13 := by decide
  have htime : ¬ UInt64.size ≤ rushHour.latest + commute.config.stepInterval.toNat := by decide
  have hlinks : ∀ id ∈ ([⟨"home"⟩, ⟨"work"⟩] : List LinkId),
      ((commute.network.forMode rushHour.mode).link? id).isSome := by decide
  rcases Setup.meets_demand hbuilt rfl rfl rfl (fun _ => rfl) ⟨_, List.mem_cons_self, rfl⟩
      (by decide) (by decide) (by decide) (by decide) (by decide) hlinks
      (.seeded rushHour.seed) with
    ⟨-, hsize⟩ | ⟨ready, started, hready, hstarted, hruns⟩
  · exact absurd hsize htime
  · rcases hruns 13 (Nat.le_of_eq hbound) with
      ⟨-, hsize⟩ | ⟨taken, w, hrun, hempty, hfault, -, hrides, hsubmitted⟩
    · exact absurd hsize htime
    · exact ⟨_, ready, started, taken, w, hbuilt, hready, hstarted, hbound, hrun, hempty, hfault,
        hrides, hsubmitted⟩

end DialARide
