import DialARide.Proofs.Ride.Submission

/-!
# The bookings of a desk

Calls on a desk are entered in a register: what is booked under which name, what is handed out, and
what is displaced because its leg is booked again while the booking stands. A name is entered once
as booked, and the bookings are those handed out, those displaced and those that stand at the
desk. No booking is lost exactly if none is displaced.
-/

namespace DialARide

/-- What is asked of a desk. -/
inductive DeskCall where
  | book (now : Time) (person : PersonId) (planned : PlannedLeg)
  | collect (key : LegKey)
  deriving DecidableEq, Repr

/-- The name of a request, with the leg that it is for. -/
abbrev Reservation := LegKey × RequestId

/-- What came of calls on a desk. -/
structure Register where
  /-- The bookings that were made. -/
  booked : List Reservation := []
  /-- The bookings that were handed out. -/
  handedOut : List Reservation := []
  /-- The bookings that gave way to another one of their leg. -/
  displaced : List Reservation := []
  deriving DecidableEq, Repr

/-- One register and a later one as one. -/
def Register.append (l m : Register) : Register where
  booked := l.booked ++ m.booked
  handedOut := l.handedOut ++ m.handedOut
  displaced := l.displaced ++ m.displaced

@[simp] theorem Register.append_empty (l : Register) : l.append {} = l := by
  simp [append]

theorem Register.append_assoc (l m n : Register) :
    (l.append m).append n = l.append (m.append n) := by
  simp [append]

namespace Desk

/-- The bookings that stand at a desk. -/
def standing (d : Desk) : List Reservation := d.bookings.entries.map fun e => (e.1, e.2.id)

/-- A request is booked if its name stands at the desk. -/
theorem isBooked_iff_mem_standing {d : Desk} {id : RequestId} :
    d.isBooked id ↔ id ∈ d.standing.map (·.2) := by
  simp [isBooked, standing, Table.values]

/-- The number of bookings is that of those that stand at the desk. -/
theorem size_eq_length_standing (d : Desk) : d.size = d.standing.length :=
  (List.length_map _).symm

/-- A booking stands at the desk in addition to the others, save the one of its leg. -/
private theorem perm_standing_insert (d : Desk) (key : LegKey) (r : Request) (drawn : Nat) :
    ((d.bookings.find? key).toList.map (fun q => (key, q.id)) ++
      { d with bookings := d.bookings.insert key r, drawn }.standing).Perm
        ((key, r.id) :: d.standing) := by
  have h := (d.bookings.perm_entries_insert key r).map fun e => (e.1, e.2.id)
  simpa [standing, Function.comp_def] using h

end Desk

/-- Every booking of a register stands at the desk, or it was handed out by one call, which was for
its leg, but not both. -/
def Register.Honoured (l : Register) (d : Desk) : Prop :=
  ∀ e ∈ l.booked, (d.isBooked e.2 ∧ l.handedOut.filter (·.2 = e.2) = []) ∨
    (¬ d.isBooked e.2 ∧ l.handedOut.filter (·.2 = e.2) = [e])

instance (l : Register) (d : Desk) : Decidable (l.Honoured d) :=
  inferInstanceAs (Decidable (∀ e ∈ l.booked, _))

namespace Service

/-- The desk of the service with a booking entered. -/
def enter (desk : Desk) (key : LegKey) (r : Request) : Desk :=
  { desk with bookings := desk.bookings.insert key r, drawn := desk.drawn + 1 }

/-- What comes of a call on the desk: the entries in the register, and the turn. A call that meets a
fault changes nothing. -/
def ask (s : Service) : DeskCall → Register × Turn
  | .book now person planned =>
    match s.book now person planned with
    | .ok (some id, t) =>
      let key : LegKey := ⟨person, planned.index⟩
      let before := s.desk.bind (·.bookings.find? key)
      ({ booked := [(key, id)], displaced := before.toList.map fun r => (key, r.id) }, t)
    | .ok (none, t) => ({}, t)
    | .error _ => ({}, { service := s })
  | .collect key =>
    match s.collect key with
    | some (r, s') => ({ handedOut := [(key, r.id)] }, { service := s' })
    | none => ({}, { service := s })

/-- What comes of calls on the desk, one after the other. -/
def askAll (s : Service) : List DeskCall → Register × Turn
  | [] => ({}, { service := s })
  | call :: rest =>
    let first := s.ask call
    let later := first.2.service.askAll rest
    (first.1.append later.1, first.2.andThen later.2)

variable {s : Service} {now : Time}

/-- A booking that is handed out does not stand at the desk any more. -/
private theorem perm_standing_handOut {d : Desk} {key : LegKey} {r : Request}
    (h : d.bookings.find? key = some r) :
    d.standing.Perm ((key, r.id) :: (handOut d key).standing) := by
  have herase := (Table.perm_entries_erase h).map fun e => (e.1, e.2.id)
  exact herase

/-! ## What a call does -/

/-- A service stays orderly when a booking is handed out. -/
theorem Orderly.collect (h : s.Orderly) {key : LegKey} {r : Request} {s' : Service}
    (hc : s.collect key = some (r, s')) : s'.Orderly := by
  obtain ⟨desk, hdesk, hr, rfl⟩ := collect_eq_some_iff.1 hc
  refine ⟨h.naming, fun id hup => ?_, fun d key' q hd hq => ?_,
    fun d key₁ key₂ q₁ q₂ hd h₁ h₂ => ?_⟩
  · exact h.unbound id (h.upcoming_handOut hup hdesk hr rfl rfl rfl).1
  · obtain rfl := Option.some.inj hd
    exact h.booked desk key' q hdesk (find?_handOut hq)
  · obtain rfl := Option.some.inj hd
    exact h.distinct desk key₁ key₂ q₁ q₂ hdesk (find?_handOut h₁) (find?_handOut h₂)

/-! ## The register -/

/-- The register of an orderly service agrees with its desk: no name was booked twice, names that
were booked are used up, and whatever was booked was handed out, gave way, or stands. -/
structure Balanced (s : Service) (d : Desk) (l : Register) : Prop where
  orderly : s.Orderly
  desk : s.desk = some d
  once : (l.booked.map (·.2)).Nodup
  issued : ∀ id ∈ l.booked.map (·.2), ¬ s.Unissued id
  account : l.booked.Perm (l.handedOut ++ l.displaced ++ d.standing)

variable {d : Desk} {l : Register}

/-- A service stays orderly whatever is booked. -/
theorem Orderly.book (h : s.Orderly) {person : PersonId} {planned : PlannedLeg}
    {name : Option RequestId} {t : Turn} (hbook : s.book now person planned = .ok (name, t)) :
    t.service.Orderly := by
  have hact : t = { service := s } ∨ s.Act now .other t := act_book hbook
  rcases hact with rfl | hact
  · exact h
  · exact h.act hact

/-- A booking that is not made uses up its name. -/
theorem Balanced.declined (h : s.Balanced d l)
    (horderly : { s with desk := some { d with drawn := d.drawn + 1 } }.Orderly) :
    { s with desk := some { d with drawn := d.drawn + 1 } }.Balanced
      { d with drawn := d.drawn + 1 } l :=
  ⟨horderly, rfl, h.once, fun id hid hissue => h.issued id hid
    (s.unissued_of_nextBooking hissue rfl rfl h.desk rfl rfl).1, h.account⟩

/-- A booking is entered under a name that none had, and the one of its leg gives way. -/
theorem Balanced.booked (h : s.Balanced d l) {key : LegKey} {r : Request}
    (hid : r.id = bookingName s.mode d.drawn)
    (horderly : { s with desk := some (enter d key r) }.Orderly) :
    { s with desk := some (enter d key r) }.Balanced (enter d key r) (l.append {
      booked := [(key, bookingName s.mode d.drawn)]
      displaced := (d.bookings.find? key).toList.map fun q : Request => (key, q.id) }) := by
  refine ⟨horderly, rfl, ?_, ?_, ?_⟩
  · have hnew : bookingName s.mode d.drawn ∉ l.booked.map (·.2) := fun hmem =>
      h.issued _ hmem (unissued_bookingName h.desk)
    rw [Register.append, List.map_append]
    exact List.nodup_append_comm.1 (List.nodup_cons.2 ⟨hnew, h.once⟩)
  · intro id hmem hissue
    have hbefore := s.unissued_of_nextBooking hissue rfl rfl h.desk rfl rfl
    rw [Register.append, List.map_append, List.mem_append] at hmem
    rcases hmem with hmem | hmem
    · exact h.issued id hmem hbefore.1
    · exact hbefore.2 (List.mem_singleton.1 hmem)
  · have hstanding := d.perm_standing_insert key r (d.drawn + 1)
    rw [hid] at hstanding
    refine List.perm_iff_count.2 fun e => ?_
    have hbefore := h.account.count_eq e
    have hnow := hstanding.count_eq e
    simp only [Register.append, enter, List.count_append, List.count_cons, List.count_nil]
      at hbefore hnow ⊢
    omega

/-- A booking that is handed out does not stand any more. -/
theorem Balanced.collected (h : s.Balanced d l) {key : LegKey} {r : Request} {s' : Service}
    (hcollect : s.collect key = some (r, s')) :
    s'.Balanced (handOut d key) (l.append { handedOut := [(key, r.id)] }) := by
  have horderly := h.orderly.collect hcollect
  obtain ⟨desk, hdesk, hr, rfl⟩ := collect_eq_some_iff.1 hcollect
  obtain rfl := Option.some.inj (h.desk.symm.trans hdesk)
  refine ⟨horderly, rfl, ?_, ?_, ?_⟩
  · simpa [Register.append] using h.once
  · intro id hmem hissue
    rw [Register.append, List.append_nil] at hmem
    exact h.issued id hmem (s.unissued_of_handOut hissue rfl rfl hdesk rfl)
  · refine List.perm_iff_count.2 fun e => ?_
    have hbefore := h.account.count_eq e
    have hnow := (perm_standing_handOut hr).count_eq e
    simp only [Register.append, List.count_append, List.count_cons, List.count_nil]
      at hbefore hnow ⊢
    omega

/-- The register agrees with the desk after a call. -/
theorem Balanced.ask (h : s.Balanced d l) (call : DeskCall) :
    ∃ d', (s.ask call).2.service.Balanced d' (l.append (s.ask call).1) := by
  cases call with
  | book now person planned =>
    cases hbook : s.book now person planned with
    | error fault => exact ⟨d, by simpa [Service.ask, hbook] using h⟩
    | ok outcome =>
      obtain ⟨name, t⟩ := outcome
      have horderly := h.orderly.book hbook
      rcases book_eq_ok hbook with ⟨rfl, rfl⟩ | ⟨desk, hdesk, hcases⟩
      · exact ⟨d, by simpa [Service.ask, hbook] using h⟩
      · obtain rfl := Option.some.inj (h.desk.symm.trans hdesk)
        rcases hcases with ⟨rfl, rfl⟩ | ⟨r, rfl, hid, -, -, rfl⟩
        · exact ⟨_, by simpa [Service.ask, hbook] using h.declined horderly⟩
        · rw [h.orderly.choose_eq] at hid
          refine ⟨enter d ⟨person, planned.index⟩ r, ?_⟩
          simp only [Service.ask, hbook, hdesk, Option.bind_some]
          exact h.booked hid horderly
  | collect key =>
    cases hcollect : s.collect key with
    | none => exact ⟨d, by simpa [Service.ask, hcollect] using h⟩
    | some outcome => exact ⟨_, by simpa [Service.ask, hcollect] using h.collected hcollect⟩

/-- The register agrees with the desk after all calls. -/
theorem Balanced.askAll (h : s.Balanced d l) (calls : List DeskCall) :
    ∃ d', (s.askAll calls).2.service.Balanced d' (l.append (s.askAll calls).1) := by
  induction calls generalizing s d l with
  | nil => exact ⟨d, by simpa [Service.askAll] using h⟩
  | cons call rest ih =>
    obtain ⟨d₁, hfirst⟩ := h.ask call
    obtain ⟨d₂, hlater⟩ := ih hfirst
    exact ⟨d₂, by rwa [Register.append_assoc] at hlater⟩

/-- A call submits what it books. -/
theorem Balanced.map_submitted_ask (h : s.Balanced d l) (call : DeskCall) :
    (s.ask call).2.submitted.map (·.id) = (s.ask call).1.booked.map (·.2) := by
  cases call with
  | book now person planned =>
    cases hbook : s.book now person planned with
    | error fault => simp [Service.ask, hbook]
    | ok outcome =>
      obtain ⟨name, t⟩ := outcome
      rcases book_eq_ok hbook with ⟨rfl, rfl⟩ | ⟨desk, -, ⟨rfl, rfl⟩ | ⟨r, rfl, hid, -, -, rfl⟩⟩
      · simp [Service.ask, hbook]
      · simp [Service.ask, hbook]
      · simpa [Service.ask, hbook] using hid.trans (h.orderly.choose_eq _)
  | collect key => cases hcollect : s.collect key <;> simp [Service.ask, hcollect]

theorem Balanced.map_submitted_askAll (h : s.Balanced d l) (calls : List DeskCall) :
    (s.askAll calls).2.submitted.map (·.id) = (s.askAll calls).1.booked.map (·.2) := by
  induction calls generalizing s d l with
  | nil => rfl
  | cons call rest ih =>
    obtain ⟨d', hfirst⟩ := h.ask call
    simp only [Service.askAll, Turn.andThen, Register.append, List.map_append,
      h.map_submitted_ask call, ih hfirst]

/-- Of the bookings handed out, displaced and standing no two have one name. -/
theorem Balanced.nodup_names (h : s.Balanced d l) :
    ((l.handedOut ++ l.displaced ++ d.standing).map (·.2)).Nodup :=
  (h.account.map (·.2)).nodup_iff.1 h.once

/-- Every booking is honoured exactly if none gave way to another one. -/
theorem Balanced.honoured_iff (h : s.Balanced d l) : l.Honoured d ↔ l.displaced = [] := by
  have hnames := h.nodup_names
  simp only [List.map_append, List.nodup_append', List.disjoint_append_left] at hnames
  obtain ⟨⟨hout, -, happart⟩, -, hstand, hgone⟩ := hnames
  constructor
  · intro hall
    refine List.eq_nil_iff_forall_not_mem.2 fun e he => ?_
    have hname : e.2 ∈ l.displaced.map (·.2) := List.mem_map_of_mem he
    have hmem : e ∈ l.booked := h.account.mem_iff.2 (by simp [he])
    rcases hall e hmem with ⟨hbooked, -⟩ | ⟨-, hfilter⟩
    · exact hgone hname (Desk.isBooked_iff_mem_standing.1 hbooked)
    · have hmem : e ∈ l.handedOut := List.mem_of_mem_filter (hfilter ▸ List.mem_cons_self)
      exact happart (List.mem_map_of_mem hmem) hname
  · intro hnone e he
    have hmem : e ∈ l.handedOut ∨ e ∈ d.standing := by
      simpa [hnone] using h.account.mem_iff.1 he
    rcases hmem with hmem | hmem
    · right
      have hname : e.2 ∈ l.handedOut.map (·.2) := List.mem_map_of_mem hmem
      obtain ⟨a, -, hfilter⟩ := List.exists_filter_eq_singleton hout hname
      have hself : e ∈ l.handedOut.filter (·.2 = e.2) := List.mem_filter.2 ⟨hmem, by simp⟩
      rw [hfilter, List.mem_singleton] at hself
      refine ⟨fun hbooked => ?_, hself ▸ hfilter⟩
      exact hstand hname (Desk.isBooked_iff_mem_standing.1 hbooked)
    · left
      have hname : e.2 ∈ d.standing.map (·.2) := List.mem_map_of_mem hmem
      refine ⟨Desk.isBooked_iff_mem_standing.2 hname, List.filter_eq_nil_iff.2 fun a ha => ?_⟩
      intro heq
      have haout : a.2 ∈ l.handedOut.map (·.2) := List.mem_map_of_mem ha
      rw [of_decide_eq_true heq] at haout
      exact hstand haout hname

/-- The bookings are as many as those handed out, displaced and standing together. -/
theorem Balanced.length_booked (h : s.Balanced d l) :
    l.booked.length = l.handedOut.length + l.displaced.length + d.size := by
  rw [h.account.length_eq, List.length_append, List.length_append, d.size_eq_length_standing]

/-- The register of a desk that was just opened is empty. -/
theorem balanced_opened (mode : ModeId) (network : Network) (screening advance : Screening) :
    (opened mode network .proposed screening (some { screening := advance })).Balanced
      { screening := advance } {} := by
  refine ⟨orderly_of_vacant rfl (fun _ => rfl) fun d key hd => ?_, rfl, .nil, by simp, .nil⟩
  obtain rfl := Option.some.inj hd
  rfl

/-- Whatever is asked of a desk that was just opened, and in whatever order: what is booked is
submitted, under names that are booked once, and whatever was booked was handed out, gave way to
another booking of its leg, or stands at the desk. Every booking stands until the one call that
hands it out, and the bookings are as many as those handed out and standing, exactly if no leg was
booked again while its booking stood. -/
theorem bookings_kept_iff (mode : ModeId) (network : Network) (screening advance : Screening)
    (calls : List DeskCall) :
    let s := opened mode network .proposed screening (some { screening := advance })
    let l := (s.askAll calls).1
    let t := (s.askAll calls).2
    ∃ d, t.service.desk = some d ∧
      t.submitted.map (·.id) = l.booked.map (·.2) ∧
      (l.booked.map (·.2)).Nodup ∧
      l.booked.Perm (l.handedOut ++ l.displaced ++ d.standing) ∧
      (l.Honoured d ↔ l.displaced = []) ∧
      (l.booked.length = l.handedOut.length + d.size ↔ l.displaced = []) := by
  intro s l t
  have hopened := balanced_opened mode network screening advance
  obtain ⟨d, h⟩ := hopened.askAll calls
  have hempty : ({} : Register).append l = l := by simp [Register.append]
  rw [hempty] at h
  refine ⟨d, h.desk, hopened.map_submitted_askAll calls, h.once, h.account, h.honoured_iff, ?_⟩
  rw [h.length_booked, ← List.length_eq_zero_iff]
  omega

/-- A trip is booked twice. The first booking was submitted as well, but it does not stand at the
desk and is never handed out. -/
theorem first_booking_displaced :
    let leg : Leg := ⟨⟨"drt"⟩, ⟨"home"⟩, ⟨"work"⟩, 100, none⟩
    let home : Link := { id := leg.source, source := ⟨0, 0⟩, target := ⟨1, 0⟩ }
    let work : Link := { id := leg.target, source := ⟨1, 0⟩, target := ⟨2, 0⟩ }
    let s := opened ⟨"drt"⟩ (.ofLinks [home, work]) .proposed .distinctLinks (some {})
    let outcome := s.askAll [.book 0 ⟨"alice"⟩ ⟨0, leg⟩, .book 10 ⟨"alice"⟩ ⟨0, leg⟩,
      .collect ⟨⟨"alice"⟩, 0⟩, .collect ⟨⟨"alice"⟩, 0⟩]
    outcome.2.submitted.map (·.id) = [⟨"drt_prebooked_0"⟩, ⟨"drt_prebooked_1"⟩] ∧
      outcome.1.handedOut = [(⟨⟨"alice"⟩, 0⟩, ⟨"drt_prebooked_1"⟩)] ∧
      outcome.2.service.desk.any fun d => ¬ outcome.1.Honoured d ∧
        outcome.1.booked.length ≠ outcome.1.handedOut.length + d.size := by
  decide +kernel

end Service

end DialARide
