import DialARide.Proofs.Shift.Queue
import DialARide.Proofs.Shift.Slots
import DialARide.Proofs.Table
import DialARide.Shift.Dispatcher

/-!
# What a dispatch decides

A dispatch is a sequence of decisions, each about one shift. The six kinds of decision are
written out here in full, with all that they depend on, and so are the loops that make them: the
functions of a dispatch are opened here once, and after that only to tell what they leave undone.
-/

namespace DialARide

namespace Dispatcher

/-! ## Changes of one vehicle -/

/-- The dispatcher with the slots and the record of one vehicle changed, and the change put
down. -/
def amend (d : Dispatcher) (facilities : Facilities) (v : Vehicle) (e : ShiftEvent) : Dispatcher :=
  (setVehicle { d with facilities } v).log e

section Amend

variable (d : Dispatcher) (facilities : Facilities) (v : Vehicle) (e : ShiftEvent)

@[simp] theorem amend_policy : (d.amend facilities v e).policy = d.policy := rfl

@[simp] theorem amend_network : (d.amend facilities v e).network = d.network := rfl

@[simp] theorem amend_facilities : (d.amend facilities v e).facilities = facilities := rfl

@[simp] theorem amend_vehicles : (d.amend facilities v e).vehicles = d.vehicles.insert v.id v := rfl

@[simp] theorem amend_unassigned : (d.amend facilities v e).unassigned = d.unassigned := rfl

@[simp] theorem amend_events : (d.amend facilities v e).events = d.events ++ [e] := rfl

@[simp] theorem amend_now : (d.amend facilities v e).now = d.now := rfl

end Amend

/-- Every vehicle is kept under its own name. -/
def Named (d : Dispatcher) : Prop := ∀ id v, d.vehicles.find? id = some v → v.id = id

/-- A vehicle that is found is found under its own name. -/
theorem Named.find?_id {d : Dispatcher} (h : d.Named) {id : VehicleId} {v : Vehicle}
    (hv : d.vehicles.find? id = some v) : d.vehicles.find? v.id = some v :=
  h id v hv ▸ hv

/-- Names are kept when the record of a vehicle is replaced. -/
theorem Named.setVehicle {d : Dispatcher} (h : d.Named) (v : Vehicle) :
    (d.setVehicle v).Named := by
  intro id u hu
  rw [Dispatcher.setVehicle, Table.find?_insert] at hu
  split at hu
  · next hid =>
    obtain rfl := Option.some.inj hu
    exact hid
  · exact h id u hu

/-- Names are kept when the record of a vehicle and the slots change. -/
theorem Named.amend {d : Dispatcher} (h : d.Named) (facilities : Facilities) (v : Vehicle)
    (e : ShiftEvent) : (d.amend facilities v e).Named :=
  h.setVehicle v

/-! ## Decisions -/

/-- One decision of a dispatch, and the instruction that tells the fleet of it. -/
inductive Decision (now : Time) (d : Dispatcher) : Dispatcher → Option Instruction → Prop
  /-- The time of the dispatch is noted. -/
  | tick : Decision now d { d with now } none
  /-- A shift that is over is dropped. -/
  | expire (before : List Shift) (s : Shift) (after : List Shift) :
      d.unassigned = before ++ s :: after → s.finish ≤ now →
      Decision now d { d with unassigned := before ++ after } none
  /-- A shift that starts soon is assigned to the vehicle selected for it. -/
  | assign (before : List Shift) (s : Shift) (after : List Shift) (horizon : Time) (v : Vehicle) :
      d.unassigned = before ++ s :: after → now < s.finish →
      Time.plus now d.policy.assignLookAhead = .ok horizon → s.start ≤ horizon →
      d.vehicles.find? v.id = some v → d.selectVehicle s = .ok (some v) →
      Decision now d
        (amend { d with unassigned := before ++ after } d.facilities (v.assign s)
          { time := now, kind := .assigned, vehicle := v.id, shift := s.id })
        (some (.assigned v.id s.id))
  /-- The first waiting shift of a vehicle is started. The vehicle gives up every slot. -/
  | start (v : Vehicle) (before : List Shift) (s : Shift) (after : List Shift) :
      d.vehicles.find? v.id = some v → v.runningShift? = none → v.shifts = before ++ s :: after →
      (∀ t ∈ before, t.state ≠ .waiting) → s.state = .waiting → s.start ≤ now →
      Decision now d
        (d.amend (d.facilities.deregisterEverywhere v.id)
          { v with shifts := before ++ { s with state := .started } :: after }
          { time := now, kind := .started, vehicle := v.id, shift := s.id })
        (some (.started v.id s.id))
  /-- The break of a shift is reserved. -/
  | planBreak (v : Vehicle) (before : List Shift) (s : Shift) (after : List Shift)
      (w : BreakWindow) (task : BreakTask) (facilities : Facilities) (facility : Facility) :
      d.vehicles.find? v.id = some v → Vehicle.ComesTo v.shifts before s after → d.now = now →
      d.decideOnBreak v s = .ok (some task.facility) → s.breakWindow = some w →
      d.facilities.register task.facility v.id = .ok (true, facilities) →
      facilities.find? task.facility = some facility → task.start = max w.earliestStart now →
      Time.plus task.start w.duration = .ok task.finish →
      Decision now d
        (d.amend facilities { v with shifts := before ++ s.planBreak task.facility :: after }
          { time := now, kind := .breakScheduled, vehicle := v.id, shift := s.id,
            facility := some task.facility })
        (some (.takeBreak v.id s.id facility.link task))
  /-- The end of a shift is reserved. -/
  | planEnd (v : Vehicle) (before : List Shift) (s : Shift) (after : List Shift) (horizon : Time)
      (facility : Facility) (facilities : Facilities) :
      d.vehicles.find? v.id = some v → Vehicle.ComesTo v.shifts before s after →
      s.state = .started → s.endFacility = none → s.breakPending = false →
      Time.plus now d.policy.endLookAhead = .ok horizon → s.finish ≤ horizon →
      d.endFacility? v s = some facility →
      d.facilities.register facility.id v.id = .ok (true, facilities) →
      Decision now d
        (d.amend facilities { v with shifts := before ++ s.planEnd facility.id :: after }
          { time := now, kind := .endScheduled, vehicle := v.id, shift := s.id,
            facility := some facility.id })
        (some (.endShift v.id s.id facility.id facility.link s.finish))

/-- Decisions of one dispatch, one after the other, with all instructions. -/
inductive Decisions (now : Time) : Dispatcher → Dispatcher → List Instruction → Prop
  | nil (d : Dispatcher) : Decisions now d d []
  | cons {d d₁ d₂ : Dispatcher} {i : Option Instruction} {out : List Instruction} :
      d.Decision now d₁ i → Decisions now d₁ d₂ out → Decisions now d d₂ (i.toList ++ out)

variable {d d' d'' : Dispatcher} {now horizon : Time} {out out' : List Instruction}

/-- No decision puts a vehicle under another name. -/
theorem Decision.named {i : Option Instruction} (h : d.Decision now d' i) (hd : d.Named) :
    d'.Named := by
  cases h with
  | tick | expire => exact hd
  | assign before s after horizon v =>
    have hd' : Named { d with unassigned := before ++ after } := hd
    exact hd'.amend d.facilities (v.assign s) _
  | start | planBreak | planEnd => exact hd.amend _ _ _

/-- No decision changes the policy. -/
theorem Decision.policy_eq {i : Option Instruction} (h : d.Decision now d' i) :
    d'.policy = d.policy := by
  cases h <;> rfl

/-- No decision takes time. -/
theorem Decision.now_eq {i : Option Instruction} (h : d.Decision now d' i) (hd : d.now = now) :
    d'.now = now := by
  cases h <;> first | rfl | exact hd

/-- Decisions may follow upon decisions. -/
theorem Decisions.append (h : Decisions now d d' out) (h' : Decisions now d' d'' out') :
    Decisions now d d'' (out ++ out') := by
  induction h with
  | nil => exact h'
  | cons hfirst _ ih =>
    rw [List.append_assoc]
    exact .cons hfirst (ih h')

/-- What every decision keeps is kept by all of them. -/
theorem Decisions.keeps {P : Dispatcher → Prop}
    (hP : ∀ d d' i, d.Decision now d' i → P d → P d') (h : Decisions now d d' out) (hd : P d) :
    P d' := by
  induction h with
  | nil => exact hd
  | cons hfirst _ ih => exact ih (hP _ _ _ hfirst hd)

/-! ## Selection of a vehicle -/

/-- The vehicles that may be selected are those of the list that are available and free. -/
theorem candidates_eq_ok {start : Time} {vs cs : List Vehicle}
    (h : d.candidates start vs = .ok cs) :
    cs.Sublist vs ∧ ∀ v ∈ vs, d.isCandidate start v = .ok (decide (v ∈ cs)) := by
  induction vs generalizing cs with
  | nil =>
    cases h
    simp
  | cons u rest ih =>
    unfold candidates at h
    cases hu : d.isCandidate start u with
    | error halt => simp [hu, Bind.bind, Except.bind] at h
    | ok b =>
      cases b with
      | false =>
        simp only [hu, Bind.bind, Except.bind, Bool.false_eq_true, if_false] at h
        obtain ⟨hsub, hrest⟩ := ih h
        refine ⟨hsub.cons u, fun v hv => ?_⟩
        rcases List.mem_cons.1 hv with rfl | hv
        · have hnot : v ∉ cs := fun hmem => by simp [hrest v (hsub.subset hmem), hmem] at hu
          simp [hu, hnot]
        · exact hrest v hv
      | true =>
        cases hcs : d.candidates start rest with
        | error halt => simp [hu, hcs, Bind.bind, Except.bind] at h
        | ok cs' =>
          simp only [hu, hcs, Bind.bind, Except.bind, if_true, Pure.pure, Except.pure,
            Except.ok.injEq] at h
          subst h
          obtain ⟨hsub, hrest⟩ := ih hcs
          refine ⟨hsub.cons_cons u, fun v hv => ?_⟩
          by_cases hvu : v = u
          · simp [hvu, hu]
          · simpa [hvu] using hrest v ((List.mem_cons.1 hv).resolve_left hvu)

/-- No vehicle before the first that is available and free for a shift is. -/
theorem firstCandidate_eq_ok {start : Time} {vs : List Vehicle} {selected : Option Vehicle}
    (h : d.firstCandidate start vs = .ok selected) : ∃ before after,
      vs = before ++ selected.toList ++ after ∧ (∀ v ∈ selected, d.isCandidate start v = .ok true) ∧
      (∀ u ∈ before, d.isCandidate start u = .ok false) ∧ (selected = none → after = []) := by
  induction vs with
  | nil =>
    cases h
    exact ⟨[], [], by simp⟩
  | cons u rest ih =>
    unfold firstCandidate at h
    cases hu : d.isCandidate start u with
    | error halt => simp [hu, Bind.bind, Except.bind] at h
    | ok b =>
      cases b with
      | false =>
        simp only [hu, Bind.bind, Except.bind, Bool.false_eq_true, if_false] at h
        obtain ⟨before, after, hsplit, hselected, hbefore, hnone⟩ := ih h
        refine ⟨u :: before, after, congrArg (u :: ·) hsplit, hselected, fun v hv => ?_, hnone⟩
        rcases List.mem_cons.1 hv with rfl | hv
        · exact hu
        · exact hbefore v hv
      | true =>
        simp only [hu, Bind.bind, Except.bind, if_true, Pure.pure, Except.pure,
          Except.ok.injEq] at h
        subst h
        exact ⟨[], rest, by simp, by simp [hu], by simp, by simp⟩

/-- The vehicle selected for a shift is one of the fleet, available and free for it. -/
theorem mem_of_selectVehicle {s : Shift} {v : Vehicle} (h : d.selectVehicle s = .ok (some v)) :
    v ∈ d.vehicles.values ∧ d.isCandidate s.start v = .ok true := by
  unfold selectVehicle at h
  split at h
  · next home _ =>
    cases hcs : d.candidates s.start d.vehicles.values with
    | error halt => simp [hcs, Bind.bind, Except.bind] at h
    | ok cs =>
      simp only [hcs, Bind.bind, Except.bind, Pure.pure, Except.pure, Except.ok.injEq] at h
      obtain ⟨hsub, hcandidate⟩ := candidates_eq_ok hcs
      have hmem := mem_of_firstLeast h
      exact ⟨hsub.subset hmem, by simpa [hmem] using hcandidate v (hsub.subset hmem)⟩
  · obtain ⟨before, after, hsplit, hselected, -⟩ := firstCandidate_eq_ok h
    exact ⟨by simp [hsplit], hselected v rfl⟩

/-- Who is a candidate does not depend on the open shifts. -/
theorem candidates_unassigned (d : Dispatcher) (unassigned : List Shift) (start : Time)
    (vs : List Vehicle) : candidates { d with unassigned } start vs = d.candidates start vs := by
  induction vs with
  | nil => rfl
  | cons v rest ih =>
    unfold candidates
    rw [ih]
    rfl

/-- Who is selected does not depend on the open shifts. -/
theorem firstCandidate_unassigned (d : Dispatcher) (unassigned : List Shift) (start : Time)
    (vs : List Vehicle) :
    firstCandidate { d with unassigned } start vs = d.firstCandidate start vs := by
  induction vs with
  | nil => rfl
  | cons v rest ih =>
    unfold firstCandidate
    rw [ih]
    rfl

/-- The shifts that are open do not matter for the selection. -/
theorem selectVehicle_unassigned (d : Dispatcher) (unassigned : List Shift) (s : Shift) :
    selectVehicle { d with unassigned } s = d.selectVehicle s := by
  unfold selectVehicle
  simp only [candidates_unassigned, firstCandidate_unassigned]
  rfl

/-! ## Dispatch -/

/-- The given shifts are taken up one after the other. One that is over is dropped, one for which
there is a vehicle in time is assigned to that, and any other stays open. -/
inductive Assigns (now horizon : Time) :
    Dispatcher → List Shift → Dispatcher → List Instruction → Prop
  | nil (d : Dispatcher) : Assigns now horizon d [] d []
  | expire {d d' : Dispatcher} {s : Shift} {rest : List Shift} {out : List Instruction} :
      s.finish ≤ now → Assigns now horizon d rest d' out → Assigns now horizon d (s :: rest) d' out
  | leave {d d' : Dispatcher} {s : Shift} {rest : List Shift} {out : List Instruction} :
      now < s.finish → (s.start ≤ horizon → d.selectVehicle s = .ok none) →
      Assigns now horizon d rest d' out →
      Assigns now horizon d (s :: rest) { d' with unassigned := s :: d'.unassigned } out
  | assign {d d' : Dispatcher} {s : Shift} {rest : List Shift} {out : List Instruction}
      (v : Vehicle) : now < s.finish → s.start ≤ horizon → d.selectVehicle s = .ok (some v) →
      Assigns now horizon (d.amend d.facilities (v.assign s)
        { time := now, kind := .assigned, vehicle := v.id, shift := s.id }) rest d' out →
      Assigns now horizon d (s :: rest) d' (.assigned v.id s.id :: out)

/-- The first phase takes up the open shifts one after the other. -/
theorem assigns_of_assignEach {rest : List Shift}
    (h : d.assignEach now horizon rest = .ok (d', out)) : Assigns now horizon d rest d' out := by
  induction rest generalizing d d' out with
  | nil =>
    cases h
    exact .nil d
  | cons s rest ih =>
    unfold assignEach at h
    split at h
    · next hover => exact .expire hover (ih h)
    · next hlasts =>
      rw [UInt64.not_le] at hlasts
      have hstays (hnone : s.start ≤ horizon → d.selectVehicle s = .ok none)
          (hx : (do
            let rest ← d.assignEach now horizon rest
            return ({ rest.1 with unassigned := s :: rest.1.unassigned }, rest.2)) =
              .ok (d', out)) : Assigns now horizon d (s :: rest) d' out := by
        cases hrest : d.assignEach now horizon rest with
        | error halt => simp [hrest, Bind.bind, Except.bind] at hx
        | ok outcome =>
          simp only [hrest, Bind.bind, Except.bind, Pure.pure, Except.pure, Except.ok.injEq,
            Prod.mk.injEq] at hx
          obtain ⟨rfl, rfl⟩ := hx
          exact .leave hlasts hnone (ih hrest)
      by_cases hbeyond : horizon < s.start
      · simp only [hbeyond, if_true, pure_bind] at h
        exact hstays (fun hsoon => absurd hbeyond (UInt64.not_lt.2 hsoon)) h
      · cases hselect : d.selectVehicle s with
        | error halt => simp [hbeyond, hselect, Bind.bind, Except.bind] at h
        | ok selected =>
          simp only [hbeyond, if_false, hselect] at h
          cases selected with
          | none => exact hstays (fun _ => hselect) h
          | some v =>
            simp only [Bind.bind, Except.bind] at h
            split at h
            · cases h
            · next outcome hrest =>
              simp only [Pure.pure, Except.pure, Except.ok.injEq, Prod.mk.injEq] at h
              obtain ⟨rfl, rfl⟩ := h
              exact .assign v hlasts (UInt64.not_lt.1 hbeyond) hselect (ih hrest)

/-- The assignment takes up all open shifts within one horizon. -/
theorem assigns_of_assignShifts (h : d.assignShifts now = .ok (d', out)) :
    ∃ horizon, Time.plus now d.policy.assignLookAhead = .ok horizon ∧
      Assigns now horizon { d with unassigned := [] } d.unassigned d' out := by
  unfold assignShifts at h
  cases hhorizon : Time.plus now d.policy.assignLookAhead with
  | error halt => simp [hhorizon, Bind.bind, Except.bind] at h
  | ok horizon =>
    simp only [hhorizon, Bind.bind, Except.bind] at h
    exact ⟨horizon, rfl, assigns_of_assignEach h⟩

/-- Shifts are taken from the open ones from left to right; those that stay are kept. -/
theorem Assigns.decisions {rest : List Shift} (h : Assigns now horizon d rest d' out)
    (kept : List Shift) (hd : d.Named) (hopen : d.unassigned = [])
    (hhorizon : Time.plus now d.policy.assignLookAhead = .ok horizon) :
    Decisions now { d with unassigned := kept ++ rest }
      { d' with unassigned := kept ++ d'.unassigned } out := by
  induction h generalizing kept with
  | nil d =>
    rw [hopen]
    exact .nil _
  | @expire d d' s rest out hover _ ih =>
    have hexpire : Decision now { d with unassigned := kept ++ s :: rest }
        { d with unassigned := kept ++ rest } none := .expire kept s rest rfl hover
    exact .cons hexpire (ih kept hd hopen hhorizon)
  | @leave d d' s rest out hlasts hnone _ ih =>
    have hmore := ih (kept ++ [s]) hd hopen hhorizon
    rw [List.append_assoc, List.append_assoc] at hmore
    exact hmore
  | @assign d d' s rest out v hlasts hsoon hselect _ ih =>
    obtain ⟨id, hid⟩ := Table.mem_values_iff.1 (mem_of_selectVehicle hselect).1
    have hassign : Decision now { d with unassigned := kept ++ s :: rest }
        { d.amend d.facilities (v.assign s)
            { time := now, kind := .assigned, vehicle := v.id, shift := s.id } with
          unassigned := kept ++ rest } (some (.assigned v.id s.id)) :=
      .assign kept s rest horizon v rfl hlasts hhorizon hsoon (hd.find?_id hid)
        ((d.selectVehicle_unassigned _ s).trans hselect)
    exact .cons hassign (ih kept (hd.amend _ _ _) hopen hhorizon)

/-- The first phase is a sequence of decisions. -/
theorem decisions_assignShifts (hd : d.Named) (h : d.assignShifts now = .ok (d', out)) :
    Decisions now d d' out := by
  obtain ⟨horizon, hhorizon, hassigns⟩ := assigns_of_assignShifts h
  exact hassigns.decisions [] hd rfl hhorizon

/-- What is done for a vehicle in each phase is one decision on a shift of that vehicle. -/
theorem decision_startShift {id : VehicleId} {i : Instruction} (hd : d.Named)
    (h : d.startShift now id = some (d', i)) :
    ∃ shift, i = .started id shift ∧ d.Decision now d' (some i) := by
  simp only [startShift, bind, Option.bind_eq_some_iff] at h
  obtain ⟨v, hv, h⟩ := h
  obtain rfl := hd id v hv
  split at h
  · cases h
  · next hrunning =>
    simp only [Option.bind_eq_some_iff] at h
    obtain ⟨i, hi, s, hs, h⟩ := h
    split at h
    · cases h
    · next hdue =>
      obtain ⟨before, t, after, hsplit, rfl, hwait, hbefore⟩ :=
        Vehicle.exists_split_of_waitingIndex? hi
      obtain rfl : t = s := by simpa [hsplit] using hs
      have hbegin : t.begin = .ok { t with state := .started } :=
        Shift.transition_eq_ok_iff.2 ⟨hwait, rfl, rfl⟩
      simp only [hbegin, Except.toOption, Option.bind_some, pure, Option.some.injEq,
        Prod.mk.injEq] at h
      obtain ⟨rfl, rfl⟩ := h
      have hset : v.shifts.set before.length { t with state := .started } =
          before ++ { t with state := .started } :: after := by
        rw [hsplit]
        simp
      rw [hset]
      exact ⟨t.id, rfl, .start v before t after hv (by simpa using hrunning) hsplit hbefore hwait
        (UInt64.not_lt.1 hdue)⟩

/-- A break is decided on for a started shift only, whose break is neither planned nor taken,
while it can start soon and not too late, and at the nearest facility with a slot free. -/
theorem decideOnBreak_eq_ok_some_iff {v : Vehicle} {s : Shift} {f : FacilityId} :
    d.decideOnBreak v s = .ok (some f) ↔
      (s.state = .started ∧ s.breakFacility = none ∧ s.breakTaken = false) ∧
      ∃ w horizon place facility, s.breakWindow = some w ∧
        Time.plus d.now d.policy.breakLookAhead = .ok horizon ∧ w.earliestStart ≤ horizon ∧
        d.now ≤ w.latestStart ∧ d.network.coord? v.link = some place ∧
        d.facilities.nearest? place (fun _ => true) = some facility ∧ facility.id = f := by
  constructor
  · intro h
    unfold decideOnBreak at h
    split at h
    · cases h
    · next hfree =>
      simp only [ne_eq, decide_not, Bool.or_eq_true, Bool.not_eq_eq_eq_not, Bool.not_true,
        decide_eq_false_iff_not, not_or, not_not, Bool.not_eq_true, Option.isSome_eq_false_iff,
        Option.isNone_iff_eq_none] at hfree
      obtain ⟨⟨hstate, hplan⟩, htaken⟩ := hfree
      refine ⟨⟨hstate, hplan, htaken⟩, ?_⟩
      split at h
      · cases h
      · next w hw =>
        cases hsum : Time.plus d.now d.policy.breakLookAhead with
        | error halt => simp [hsum, Bind.bind, Except.bind] at h
        | ok horizon =>
          simp only [hsum, Bind.bind, Except.bind] at h
          split at h
          · cases h
          · next hsoon =>
            split at h
            · cases h
            · next hlate =>
              simp only [Pure.pure, Except.pure, Except.ok.injEq, Option.bind_eq_some_iff,
                Option.map_eq_some_iff] at h
              obtain ⟨place, hplace, facility, hnearest, hf⟩ := h
              exact ⟨w, horizon, place, facility, hw, rfl, UInt64.not_lt.1 hsoon,
                UInt64.not_lt.1 hlate, hplace, hnearest, hf⟩
  · rintro ⟨⟨hstate, hplan, htaken⟩, w, horizon, place, facility, hw, hsum, hsoon, hlate, hplace,
      hnearest, rfl⟩
    simp [decideOnBreak, hstate, hplan, htaken, hw, hsum, UInt64.not_lt.2 hsoon,
      UInt64.not_lt.2 hlate, hplace, hnearest, Bind.bind, Except.bind, Pure.pure, Except.pure]

/-- A break is decided on for a started shift only, whose break is neither planned nor taken,
while it can start in time. -/
theorem decideOnBreak_eq_ok_some {v : Vehicle} {s : Shift} {f : FacilityId}
    (h : d.decideOnBreak v s = .ok (some f)) :
    s.state = .started ∧ s.breakFacility = none ∧ s.breakTaken = false ∧
      ∃ w, s.breakWindow = some w ∧ d.now ≤ w.latestStart := by
  obtain ⟨⟨hstate, hplan, htaken⟩, w, _, _, _, hw, -, -, hlate, -⟩ :=
    decideOnBreak_eq_ok_some_iff.1 h
  exact ⟨hstate, hplan, htaken, w, hw, hlate⟩

/-- A break that is scheduled is a decision, of which the vehicle is told. -/
theorem decision_scheduleBreak {id : VehicleId} {i : Instruction} (hd : d.Named)
    (hnow : d.now = now) (h : d.scheduleBreak now id = .ok (some (d', i))) :
    ∃ shift link task, i = .takeBreak id shift link task ∧ d.Decision now d' (some i) := by
  unfold scheduleBreak at h
  cases hv : d.vehicles.find? id with
  | none => simp [hv, Pure.pure, Except.pure] at h
  | some v =>
    obtain rfl := hd id v hv
    cases hs : v.currentShift? with
    | none => simp [hv, hs, Pure.pure, Except.pure] at h
    | some s =>
      cases hdecide : d.decideOnBreak v s with
      | error halt => simp [hv, hs, hdecide, Bind.bind, Except.bind] at h
      | ok decided =>
        cases decided with
        | none => simp [hv, hs, hdecide, Bind.bind, Except.bind, Pure.pure, Except.pure] at h
        | some f =>
          obtain ⟨hstate, -, -, w, hw, -⟩ := decideOnBreak_eq_ok_some hdecide
          obtain ⟨before, after, hcome⟩ := Vehicle.exists_comesTo hs (by simp [hstate])
          simp only [hv, hs, hdecide, hw, Bind.bind, Except.bind] at h
          split at h
          · next facilities hregister =>
            split at h
            · next facility hfacility =>
              cases hfinish : Time.plus (max w.earliestStart now) w.duration with
              | error halt => simp [hfinish] at h
              | ok finish =>
                simp only [hfinish, Pure.pure, Except.pure, Except.ok.injEq, Option.some.injEq,
                  Prod.mk.injEq] at h
                obtain ⟨rfl, rfl⟩ := h
                rw [hcome.setCurrentShift_eq]
                exact ⟨s.id, facility.link, _, rfl, .planBreak v before s after w
                  ⟨f, max w.earliestStart now, finish⟩ facilities facility hv hcome hnow hdecide hw
                  hregister hfacility rfl hfinish⟩
            · cases h
          · cases h

/-- A shift end that is scheduled is a decision, of which the vehicle is told. -/
theorem decision_scheduleEnd {id : VehicleId} {i : Instruction} (hd : d.Named)
    (hhorizon : Time.plus now d.policy.endLookAhead = .ok horizon)
    (h : d.scheduleEnd now horizon id = some (d', i)) : ∃ shift facility link time,
      i = .endShift id shift facility link time ∧ d.Decision now d' (some i) := by
  simp only [scheduleEnd, bind, Option.bind_eq_some_iff] at h
  obtain ⟨v, hv, s, hs, h⟩ := h
  obtain rfl := hd id v hv
  split at h
  · cases h
  · next hfree =>
    simp only [ne_eq, decide_not, Bool.or_eq_true, Bool.not_eq_eq_eq_not, Bool.not_true,
      decide_eq_false_iff_not, not_or, not_not, Bool.not_eq_true, Option.isSome_eq_false_iff,
      Option.isNone_iff_eq_none, decide_eq_true_eq, UInt64.not_lt] at hfree
    obtain ⟨⟨⟨hstate, hend⟩, hpending⟩, hsoon⟩ := hfree
    simp only [Option.bind_eq_some_iff] at h
    obtain ⟨facility, hfacility, outcome, hregister, h⟩ := h
    split at h
    · next facilities =>
      simp only [pure, Option.some.injEq, Prod.mk.injEq] at h
      obtain ⟨rfl, rfl⟩ := h
      have hok : d.facilities.register facility.id v.id = .ok (true, facilities) := by
        cases hr : d.facilities.register facility.id v.id with
        | error fault => simp [hr, Except.toOption] at hregister
        | ok outcome => simpa [hr, Except.toOption] using hregister
      obtain ⟨before, after, hcome⟩ := Vehicle.exists_comesTo hs (by simp [hstate])
      rw [hcome.setCurrentShift_eq]
      exact ⟨s.id, facility.id, facility.link, s.finish, rfl, .planEnd v before s after horizon
        facility facilities hv hcome hstate hend hpending hhorizon hsoon hfacility hok⟩
    · cases h

/-- The vehicles of the given names are taken one after the other; for some of them something is
done, and for the others nothing. -/
inductive Sweeps
    (step : Dispatcher → VehicleId → Except Halt (Option (Dispatcher × Instruction))) :
    Dispatcher → List VehicleId → Dispatcher → List Instruction → Prop
  | nil (d : Dispatcher) : Sweeps step d [] d []
  | pass {d d' : Dispatcher} {id : VehicleId} {rest : List VehicleId} {out : List Instruction} :
      step d id = .ok none → Sweeps step d rest d' out → Sweeps step d (id :: rest) d' out
  | act {d d₁ d' : Dispatcher} {id : VehicleId} {i : Instruction} {rest : List VehicleId}
      {out : List Instruction} : step d id = .ok (some (d₁, i)) → Sweeps step d₁ rest d' out →
      Sweeps step d (id :: rest) d' (i :: out)

section Sweep

variable {step : Dispatcher → VehicleId → Except Halt (Option (Dispatcher × Instruction))}
  {ids : List VehicleId} {P : Dispatcher → Prop}

/-- A sweep takes the vehicles one after the other. -/
theorem sweeps_of_sweep (h : sweep step d ids = .ok (d', out)) : Sweeps step d ids d' out := by
  induction ids generalizing d out with
  | nil =>
    cases h
    exact .nil _
  | cons id rest ih =>
    unfold sweep at h
    cases hone : step d id with
    | error halt => simp [hone, Bind.bind, Except.bind] at h
    | ok outcome =>
      simp only [hone, Bind.bind, Except.bind] at h
      cases outcome with
      | none => exact .pass hone (ih h)
      | some change =>
        simp only at h
        split at h
        · cases h
        · next outcome hrest =>
          simp only [Pure.pure, Except.pure, Except.ok.injEq, Prod.mk.injEq] at h
          obtain ⟨rfl, rfl⟩ := h
          exact .act hone (ih hrest)

/-- What is done for each vehicle is one decision, while something holds that each decision needs
and keeps. -/
theorem Sweeps.decisions
    (hstep : ∀ d id d' i, P d → step d id = .ok (some (d', i)) → d.Decision now d' (some i))
    (hkeep : ∀ d d' i, d.Decision now d' i → P d → P d') (hd : P d)
    (h : Sweeps step d ids d' out) : Decisions now d d' out := by
  induction h with
  | nil d => exact .nil d
  | pass _ _ ih => exact ih hd
  | act hone _ ih =>
    have hfirst := hstep _ _ _ _ hd hone
    exact .cons hfirst (ih (hkeep _ _ _ hfirst hd))

end Sweep

/-- A dispatch does nothing but at a boundary, where it goes through four phases. -/
theorem phases_of_dispatch (h : d.dispatch now = .ok (d', out)) :
    (d.isBoundary now = false ∧ d' = d ∧ out = []) ∨
      ∃ d₁ d₂ d₃ assigned started breaks ends, d.isBoundary now = true ∧
        assignShifts { d with now } now = .ok (d₁, assigned) ∧
        d₁.startShifts now = .ok (d₂, started) ∧ d₂.scheduleBreaks now = .ok (d₃, breaks) ∧
        d₃.scheduleEnds now = .ok (d', ends) ∧ out = assigned ++ started ++ breaks ++ ends := by
  unfold dispatch at h
  split at h
  · next hoff =>
    cases h
    exact .inl ⟨by simpa using hoff, rfl, rfl⟩
  · next hon =>
    right
    cases hassign : assignShifts { d with now } now with
    | error halt => simp [hassign, Bind.bind, Except.bind] at h
    | ok outcome₁ =>
      obtain ⟨d₁, assigned⟩ := outcome₁
      cases hstart : d₁.startShifts now with
      | error halt => simp [hassign, hstart, Bind.bind, Except.bind] at h
      | ok outcome₂ =>
        obtain ⟨d₂, started⟩ := outcome₂
        cases hbreaks : d₂.scheduleBreaks now with
        | error halt => simp [hassign, hstart, hbreaks, Bind.bind, Except.bind] at h
        | ok outcome₃ =>
          obtain ⟨d₃, breaks⟩ := outcome₃
          cases hends : d₃.scheduleEnds now with
          | error halt => simp [hassign, hstart, hbreaks, hends, Bind.bind, Except.bind] at h
          | ok outcome₄ =>
            obtain ⟨d₄, ends⟩ := outcome₄
            simp only [hassign, hstart, hbreaks, hends, Bind.bind, Except.bind, Pure.pure,
              Except.pure, Except.ok.injEq, Prod.mk.injEq] at h
            obtain ⟨rfl, rfl⟩ := h
            exact ⟨d₁, d₂, d₃, assigned, started, breaks, ends, by simpa using hon, rfl, hstart,
              hbreaks, hends, rfl⟩

/-- The second phase takes the vehicles of the fleet one after the other. -/
theorem sweeps_of_startShifts (h : d.startShifts now = .ok (d', out)) :
    Sweeps (fun d id => .ok (d.startShift now id)) d d.vehicles.keys d' out :=
  sweeps_of_sweep h

/-- The third phase takes the vehicles of the fleet one after the other. -/
theorem sweeps_of_scheduleBreaks (h : d.scheduleBreaks now = .ok (d', out)) :
    Sweeps (fun d id => d.scheduleBreak now id) d d.vehicles.keys d' out :=
  sweeps_of_sweep h

/-- The ends are reserved up to one horizon. -/
theorem sweeps_of_scheduleEnds (h : d.scheduleEnds now = .ok (d', out)) :
    ∃ horizon, Time.plus now d.policy.endLookAhead = .ok horizon ∧
      Sweeps (fun d id => .ok (d.scheduleEnd now horizon id)) d d.vehicles.keys d' out := by
  unfold scheduleEnds at h
  cases hhorizon : Time.plus now d.policy.endLookAhead with
  | error halt => simp [hhorizon, Bind.bind, Except.bind] at h
  | ok horizon =>
    simp only [hhorizon, Bind.bind, Except.bind] at h
    exact ⟨horizon, rfl, sweeps_of_sweep h⟩

/-- A dispatch is a sequence of decisions. The horizon is fixed before the sweep, and no decision
changes the policy. -/
theorem decisions_dispatch (hd : d.Named) (h : d.dispatch now = .ok (d', out)) :
    Decisions now d d' out := by
  let P (d : Dispatcher) : Prop := d.Named ∧ d.now = now
  have hkeep : ∀ d d' i, d.Decision now d' i → P d → P d' :=
    fun d d' i hdecision hP => ⟨hdecision.named hP.1, hdecision.now_eq hP.2⟩
  rcases phases_of_dispatch h with ⟨-, rfl, rfl⟩ | ⟨d₁, d₂, d₃, assigned, started, breaks, ends, -,
    hassign, hstart, hbreaks, hends, rfl⟩
  · exact .nil d'
  · have h₀ : P { d with now } := ⟨hd, rfl⟩
    have ha := decisions_assignShifts h₀.1 hassign
    have h₁ : P d₁ := ha.keeps hkeep h₀
    have hs : Decisions now d₁ d₂ started := by
      refine (sweeps_of_startShifts hstart).decisions (fun d id d' i hP hi => ?_) hkeep h₁
      obtain ⟨_, -, hdecision⟩ := decision_startShift hP.1 (Except.ok.inj hi)
      exact hdecision
    have h₂ : P d₂ := hs.keeps hkeep h₁
    have hb : Decisions now d₂ d₃ breaks := by
      refine (sweeps_of_scheduleBreaks hbreaks).decisions (fun d id d' i hP hi => ?_) hkeep h₂
      obtain ⟨_, _, _, -, hdecision⟩ := decision_scheduleBreak hP.1 hP.2 hi
      exact hdecision
    have h₃ : P d₃ := hb.keeps hkeep h₂
    have he : Decisions now d₃ d' ends := by
      obtain ⟨horizon, hhorizon, hends⟩ := sweeps_of_scheduleEnds hends
      refine hends.decisions (P := fun d => P d ∧ d.policy = d₃.policy)
        (fun d id d' i hP hi => ?_) (fun d d' i hdecision hP => ?_) ⟨h₃, rfl⟩
      · obtain ⟨_, _, _, _, -, hdecision⟩ :=
          decision_scheduleEnd hP.1.1 (hP.2 ▸ hhorizon) (Except.ok.inj hi)
        exact hdecision
      · exact ⟨hkeep d d' i hdecision hP.1, hdecision.policy_eq.trans hP.2⟩
    exact .cons .tick (((ha.append hs).append hb).append he)

end Dispatcher

end DialARide
