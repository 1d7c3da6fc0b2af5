import DialARide.Proofs.Shift.Operation

/-!
# Reports leave no trace of a fault

A report changes the shift, the log, the vehicle and the facilities one after the other, and each
change could be followed by a fault. The reports are written here as procedures that change a
dispatcher in place and, when they meet a fault, leave it as it is by then. They do what the reports
do: whatever can fail has been looked at before the first change, so a fault leaves the dispatcher
as it was.
-/

namespace DialARide

/-- A vehicle keeps its name when its current shift changes. -/
@[simp] theorem Vehicle.setCurrentShift_id (v : Vehicle) (s : Shift) :
    (v.setCurrentShift s).id = v.id := by
  unfold setCurrentShift
  split <;> rfl

namespace Dispatcher

/-! ## Procedures -/

/-- A procedure changes a dispatcher in place. What it has changed stays changed if it meets a
fault. -/
abbrev Procedure (α : Type) := ExceptT Fault (StateM Dispatcher) α

variable {α β : Type} {d d' : Dispatcher} {id : VehicleId} {link : LinkId} {now : Time}
  {task : BreakTask} {available : Bool}

/-- The result of a procedure, or the fault that it meets, and what has become of the dispatcher. -/
def after (d : Dispatcher) (p : Procedure α) : Except Fault α × Dispatcher := p.run d

/-- Looks something up that may be missing. -/
def ask (f : Dispatcher → Except Fault α) : Procedure α := ExceptT.mk fun d => (f d, d)

/-- Changes the dispatcher. -/
def change (f : Dispatcher → Dispatcher) : Procedure Unit := ExceptT.mk fun d => (.ok (), f d)

@[simp] theorem after_pure (d : Dispatcher) (a : α) : d.after (pure a) = (.ok a, d) := rfl

@[simp] theorem after_ask (d : Dispatcher) (f : Dispatcher → Except Fault α) :
    d.after (ask f) = (f d, d) := rfl

@[simp] theorem after_change (d : Dispatcher) (f : Dispatcher → Dispatcher) :
    d.after (change f) = (.ok (), f d) := rfl

/-- A procedure goes on with what the one before it has left, unless that met a fault. -/
theorem after_bind (d : Dispatcher) (p : Procedure α) (q : α → Procedure β) :
    d.after (p >>= q) = match d.after p with
      | (.ok a, d') => d'.after (q a)
      | (.error fault, d') => (.error fault, d') := by
  show (ExceptT.bindCont q (p.run d).1).run (p.run d).2 = _
  unfold after
  cases p.run d with
  | mk result d' => cases result <;> rfl

/-- Changes the record of a vehicle where it stands. -/
def changeVehicle (id : VehicleId) (f : Vehicle → Vehicle) : Procedure Unit :=
  change fun d => { d with vehicles := d.vehicles.adjust id f }

/-- Changes the current shift of a vehicle where it stands. -/
def changeShift (id : VehicleId) (step : Shift → Except Fault Shift) : Procedure Shift := do
  let (_, s) ← ask fun d => d.requireShift id
  let s ← ask fun _ => step s
  changeVehicle id fun v => v.setCurrentShift s
  return s

/-- Puts down a change in the log. -/
def note (e : ShiftEvent) : Procedure Unit := change fun d => d.log e

/-- Takes the slot of a vehicle at a facility away from it. -/
def giveUpSlot (facility : FacilityId) (id : VehicleId) : Procedure Unit := do
  let (_, facilities) ← ask fun d => d.facilities.deregister facility id
  change fun d => { d with facilities }

/-- The link and then the availability of a vehicle are changed. -/
def updateVehicleInPlace (id : VehicleId) (link : LinkId) (available : Bool) : Procedure Unit := do
  let _ ← ask fun d => d.requireVehicle id
  changeVehicle id fun v => { v with link }
  changeVehicle id fun v => { v with available }

/-- The shift moves on, the start of the break is put down, and the vehicle is on its link. -/
def startBreakInPlace (id : VehicleId) (link : LinkId) (now : Time) : Procedure Unit := do
  let s ← changeShift id Shift.startBreak
  note { time := now, kind := .breakStarted, vehicle := id, shift := s.id,
         facility := s.breakFacility }
  changeVehicle id fun v => { v with link }

/-- The shift moves on, the end of the break is put down, and the slot is given up. -/
def endBreakInPlace (id : VehicleId) (task : BreakTask) (now : Time) : Procedure Unit := do
  let _ ← ask fun d => d.facilities.require task.facility
  let s ← changeShift id Shift.endBreak
  note { time := now, kind := .breakEnded, vehicle := id, shift := s.id,
         facility := some task.facility }
  giveUpSlot task.facility id

/-- The facility for a break that was not taken must be known. -/
def checkBreak (d : Dispatcher) (s : Shift) : Except Fault Unit :=
  match s.breakFacility.filter fun _ => !s.breakTaken with
  | some facility => (fun _ => ()) <$> d.facilities.require facility
  | none => .ok ()

/-- The shift ends, a break that was not taken is struck out of it, the end is put down, the vehicle
is on its link, and the slot for the break is given up. -/
def endShiftInPlace (id : VehicleId) (link : LinkId) (now : Time) : Procedure Unit := do
  let (_, s) ← ask fun d => d.requireShift id
  let _ ← ask fun d => d.checkBreak s
  let ended ← changeShift id Shift.finishWork
  let s ← changeShift id fun s => .ok s.cancelBreak.2
  note { time := now, kind := .ended, vehicle := id, shift := s.id, facility := s.endFacility }
  changeVehicle id fun v => { v with link }
  match ended.cancelBreak.1 with
  | some facility => giveUpSlot facility id
  | none => return

/-! ## The same as the reports -/

/-- What a report leaves: the dispatcher that it gives, or the one that there was before. -/
def outcome (d : Dispatcher) : Except Fault Dispatcher → Except Fault Unit × Dispatcher
  | .ok d' => (.ok (), d')
  | .error fault => (.error fault, d)

@[simp] theorem after_note (d : Dispatcher) (e : ShiftEvent) :
    d.after (note e) = (.ok (), d.log e) := rfl

/-- A record is changed where it stands as it is replaced by the changed one. -/
theorem after_changeVehicle {v : Vehicle} (hv : d.vehicles.find? v.id = some v)
    {f : Vehicle → Vehicle} (hf : (f v).id = v.id) :
    d.after (changeVehicle v.id f) = (.ok (), d.setVehicle (f v)) := by
  have htable : d.vehicles.adjust v.id f = d.vehicles.insert (f v).id (f v) := by
    refine Table.ext_find? fun j => ?_
    by_cases hj : v.id = j
    · subst hj
      simp [hv, hf]
    · simp [hf, hj]
  simp only [changeVehicle, after_change, htable, setVehicle]

/-- A record that was just replaced is changed further. -/
private theorem after_changeVehicle_again (d : Dispatcher) {v u : Vehicle} (hu : u.id = v.id)
    {f : Vehicle → Vehicle} (hf : (f u).id = v.id) :
    (d.setVehicle u).after (changeVehicle v.id f) = (.ok (), d.setVehicle (f u)) := by
  simp only [changeVehicle, after_change, setVehicle, hu, hf, Table.adjust_insert]

/-- It makes no difference what is put down in between. -/
private theorem after_changeVehicle_log (e : ShiftEvent) {f : Vehicle → Vehicle}
    (h : d.after (changeVehicle id f) = (.ok (), d')) :
    (d.log e).after (changeVehicle id f) = (.ok (), d'.log e) := by
  obtain rfl : _ = d' := congrArg Prod.snd h
  rfl

/-- A slot that can be given up is given up. -/
theorem after_giveUpSlot {facility : FacilityId} {had : Bool} {facilities : Facilities}
    (h : d.facilities.deregister facility id = .ok (had, facilities)) :
    d.after (giveUpSlot facility id) = (.ok (), { d with facilities }) := by
  simp only [giveUpSlot, after_bind, after_ask, after_change, h]

/-- A current shift that moves on has done so in its queue. -/
theorem after_changeShift {v : Vehicle} {s t : Shift} {step : Shift → Except Fault Shift}
    (hd : d.Named) (hrequire : d.requireShift id = .ok (v, s)) (hstep : step s = .ok t) :
    d.after (changeShift id step) = (.ok t, d.setVehicle (v.setCurrentShift t)) := by
  obtain ⟨hv, -⟩ := requireShift_eq_ok_iff.1 hrequire
  obtain rfl := hd id v hv
  have hset := after_changeVehicle (f := fun v => v.setCurrentShift t) hv (v.setCurrentShift_id t)
  simp only [changeShift, after_bind, after_ask, after_pure, hrequire, hstep, hset]

/-- The update of a vehicle goes step by step as the report says. -/
theorem after_updateVehicle (hd : d.Named) : d.after (updateVehicleInPlace id link available) =
    d.outcome (d.updateVehicle id link available) := by
  cases hv : d.vehicles.find? id with
  | none =>
    have hmissing : d.requireVehicle id = .error (.unknownVehicle id) := by
      simp [requireVehicle, hv]
    have hreport : d.updateVehicle id link available = .error (.unknownVehicle id) := by
      simp [updateVehicle, hmissing, Bind.bind, Except.bind]
    simp only [updateVehicleInPlace, after_bind, after_ask, hmissing, hreport, outcome]
  | some v =>
    obtain rfl := hd id v hv
    have hfound : d.requireVehicle v.id = .ok v := by simp [requireVehicle, hv]
    have hreport : d.updateVehicle v.id link available =
        .ok (d.setVehicle { v with link, available }) := by
      simp [updateVehicle, hfound, Bind.bind, Except.bind, Pure.pure, Except.pure]
    have hmoved := after_changeVehicle (f := fun v => { v with link }) hv rfl
    have hset := d.after_changeVehicle_again (v := v) (u := { v with link })
      (f := fun v => { v with available }) rfl rfl
    simp only [updateVehicleInPlace, after_bind, after_ask, hfound, hmoved, hset, hreport, outcome]

/-- A break starts step by step as the report says. -/
theorem after_startBreak (hd : d.Named) :
    d.after (startBreakInPlace id link now) = d.outcome (d.startBreak id link now) := by
  cases hrequire : d.requireShift id with
  | error fault =>
    have hreport : d.startBreak id link now = .error fault := by
      simp [startBreak, hrequire, Bind.bind, Except.bind]
    simp only [startBreakInPlace, changeShift, after_bind, after_ask, hrequire, hreport, outcome]
  | ok found =>
    obtain ⟨v, s⟩ := found
    obtain ⟨hv, -⟩ := requireShift_eq_ok_iff.1 hrequire
    obtain rfl := hd id v hv
    cases hbreak : s.startBreak with
    | error fault =>
      have hreport : d.startBreak v.id link now = .error fault := by
        simp [startBreak, hrequire, hbreak, Bind.bind, Except.bind]
      simp only [startBreakInPlace, changeShift, after_bind, after_ask, hrequire, hbreak, hreport,
        outcome]
    | ok t =>
      have hreport : d.startBreak v.id link now =
          .ok ((d.setVehicle { v.setCurrentShift t with link }).log
            { time := now, kind := .breakStarted, vehicle := v.id, shift := t.id,
              facility := t.breakFacility }) := by
        simp [startBreak, hrequire, hbreak, Bind.bind, Except.bind, Pure.pure, Except.pure]
      have hmoved := after_changeVehicle_log
        { time := now, kind := .breakStarted, vehicle := v.id, shift := t.id,
          facility := t.breakFacility }
        (d.after_changeVehicle_again (f := fun v => { v with link }) (v.setCurrentShift_id t)
          (v.setCurrentShift_id t))
      simp only [startBreakInPlace, after_bind, after_changeShift hd hrequire hbreak, after_note,
        hmoved, hreport, outcome]

/-- A break ends step by step as the report says. The slot is looked up after the shift has moved
on, among the same facilities. -/
theorem after_endBreak (hd : d.Named) :
    d.after (endBreakInPlace id task now) = d.outcome (d.endBreak id task now) := by
  cases hknown : d.facilities.require task.facility with
  | error fault =>
    have hreport : d.endBreak id task now = .error fault := by
      simp [endBreak, hknown, Bind.bind, Except.bind]
    simp only [endBreakInPlace, after_bind, after_ask, hknown, hreport, outcome]
  | ok f =>
    cases hrequire : d.requireShift id with
    | error fault =>
      have hreport : d.endBreak id task now = .error fault := by
        simp [endBreak, hknown, hrequire, Bind.bind, Except.bind]
      simp only [endBreakInPlace, changeShift, after_bind, after_ask, hknown, hrequire, hreport,
        outcome]
    | ok found =>
      obtain ⟨v, s⟩ := found
      cases hbreak : s.endBreak with
      | error fault =>
        have hreport : d.endBreak id task now = .error fault := by
          simp [endBreak, hknown, hrequire, hbreak, Bind.bind, Except.bind]
        simp only [endBreakInPlace, changeShift, after_bind, after_ask, hknown, hrequire, hbreak,
          hreport, outcome]
      | ok t =>
        obtain ⟨had, facilities, hslot⟩ :=
          Facilities.exists_deregister (Facilities.knows_of_require hknown) id
        have hreport : d.endBreak id task now =
            .ok ((setVehicle { d with facilities } (v.setCurrentShift t)).log
              { time := now, kind := .breakEnded, vehicle := id, shift := t.id,
                facility := some task.facility }) := by
          simp [endBreak, hknown, hrequire, hbreak, hslot, Bind.bind, Except.bind, Pure.pure,
            Except.pure]
        have hgiven : ((d.setVehicle (v.setCurrentShift t)).log
            { time := now, kind := .breakEnded, vehicle := id, shift := t.id,
              facility := some task.facility }).after (giveUpSlot task.facility id) = _ :=
          after_giveUpSlot hslot
        simp only [endBreakInPlace, after_bind, after_ask, hknown,
          after_changeShift hd hrequire hbreak, after_note, hgiven, hreport, outcome]
        rfl

/-- A break that is not planned, or was taken, needs no facility. -/
private theorem checkBreak_of_settled {s : Shift} (h : s.breakPending = false) :
    d.checkBreak s = .ok () := by
  unfold checkBreak
  unfold Shift.breakPending at h
  cases hplan : s.breakFacility with
  | none => rfl
  | some f =>
    have htaken : s.breakTaken = true := by simpa [hplan] using h
    simp [Option.filter, htaken]

/-- A break that was not taken needs its facility. -/
private theorem checkBreak_of_pending {s : Shift} {f : FacilityId}
    (hplan : s.breakFacility = some f)
    (htaken : s.breakTaken = false) :
    d.checkBreak s = (fun _ => ()) <$> d.facilities.require f := by
  simp [checkBreak, Option.filter, hplan, htaken]

/-- The check is passed exactly if the facility for a break that was not taken is known. -/
theorem checkBreak_eq_ok_iff {s : Shift} : d.checkBreak s = .ok () ↔
    (s.breakTaken = false → ∀ f ∈ s.breakFacility, d.facilities.knows f) := by
  cases hpending : s.breakPending with
  | false =>
    rw [checkBreak_of_settled hpending]
    refine iff_of_true rfl fun htaken f hf => ?_
    have hplan : s.breakFacility = some f := hf
    simp [Shift.breakPending, htaken, hplan] at hpending
  | true =>
    obtain ⟨hplan, htaken⟩ : s.breakFacility.isSome ∧ s.breakTaken = false := by
      simpa [Shift.breakPending] using hpending
    obtain ⟨f, hplan⟩ := Option.isSome_iff_exists.1 hplan
    rw [checkBreak_of_pending hplan htaken]
    unfold Facilities.require Facilities.knows
    cases hf : d.facilities.find? f <;> simp [hplan, htaken, hf, Functor.map, Except.map]

/-- The end of a shift meets a fault if the facility for its break is not known, and else if the
shift cannot end. -/
private theorem endShift_eq_error {v : Vehicle} {s : Shift} {fault : Fault}
    (hrequire : d.requireShift id = .ok (v, s))
    (h : (do d.checkBreak s; s.finishWork) = .error fault) :
    d.endShift id link now = .error fault := by
  cases hplan : s.breakFacility with
  | none =>
    rw [checkBreak_of_settled (by simp [Shift.breakPending, hplan])] at h
    have hfinish : s.finishWork = .error fault := h
    simp [endShift, hrequire, hplan, hfinish, Bind.bind, Except.bind]
  | some f =>
    cases htaken : s.breakTaken with
    | true =>
      rw [checkBreak_of_settled (by simp [Shift.breakPending, htaken])] at h
      have hfinish : s.finishWork = .error fault := h
      simp [endShift, hrequire, hplan, htaken, hfinish, Bind.bind, Except.bind]
    | false =>
      rw [checkBreak_of_pending hplan htaken] at h
      cases hknown : d.facilities.require f with
      | error fault' =>
        obtain rfl : fault' = fault := by
          simpa [hknown, Functor.map, Except.map, Bind.bind, Except.bind] using h
        simp [endShift, hrequire, hplan, htaken, hknown, Bind.bind, Except.bind]
      | ok facility =>
        have hfinish : s.finishWork = .error fault := by
          simpa [hknown, Functor.map, Except.map, Bind.bind, Except.bind] using h
        simp [endShift, hrequire, hplan, htaken, hknown, hfinish, Bind.bind, Except.bind]

/-- An ended shift out of which its break is struck. -/
private theorem cancelBreak_ended (s : Shift) : Shift.cancelBreak { s with state := .ended } =
    (if s.breakTaken then none else s.breakFacility, s.over) := by
  unfold Shift.cancelBreak Shift.over
  cases s.breakTaken <;> rfl

/-- When a shift ends, its vehicle gives up the slot for a break that was not taken. -/
theorem after_release {s : Shift} {facilities : Facilities} (h : d.Released id s facilities) :
    d.after (match (Shift.cancelBreak { s with state := .ended }).1 with
      | some facility => giveUpSlot facility id
      | none => return) = (.ok (), { d with facilities }) := by
  rw [cancelBreak_ended]
  unfold Released Shift.breakPending at h
  cases htaken : s.breakTaken with
  | true =>
    obtain rfl : facilities = d.facilities := by simpa [htaken] using h
    rfl
  | false =>
    cases hplan : s.breakFacility with
    | none =>
      obtain rfl : facilities = d.facilities := by simpa [hplan] using h
      rfl
    | some f =>
      obtain ⟨had, hslot⟩ : ∃ had, d.facilities.deregister f id = .ok (had, facilities) := by
        simpa [htaken, hplan] using h
      exact after_giveUpSlot hslot

/-- A started shift whose slot can be given up ends step by step as the report says. The queue has
come to the shift that has just ended, out of which the break is struck. -/
private theorem after_endShift_ok {v : Vehicle} {before behind : List Shift} {s : Shift}
    {facilities : Facilities} (hd : d.Named) (hv : d.vehicles.find? v.id = some v)
    (hcome : Vehicle.ComesTo v.shifts before s behind) (hstate : s.state = .started)
    (hcheck : d.checkBreak s = .ok ()) (hslot : d.Released v.id s facilities) :
    d.after (endShiftInPlace v.id link now) = (.ok (), d.amend facilities
      { v with link, shifts := before ++ s.over :: behind }
      { time := now, kind := .ended, vehicle := v.id, shift := s.id,
        facility := s.endFacility }) := by
  have hrequire := requireShift_eq_ok_iff.2 ⟨hv, hcome.currentShift?_eq⟩
  let t : Shift := { s with state := .ended }
  let u : Vehicle := { v with shifts := before ++ t :: behind }
  have hfinish : s.finishWork = .ok t := Shift.transition_eq_ok_iff.2 ⟨hstate, rfl, rfl⟩
  have hended : d.after (changeShift v.id Shift.finishWork) = (.ok t, d.setVehicle u) := by
    rw [after_changeShift hd hrequire hfinish, hcome.setCurrentShift_eq]
  have hcome' : Vehicle.ComesTo u.shifts before t behind := hcome.replace (by simp [t])
  have hrequire' : (d.setVehicle u).requireShift v.id = .ok (u, t) :=
    requireShift_eq_ok_iff.2 ⟨by simp [setVehicle, u], hcome'.currentShift?_eq⟩
  let w : Vehicle := { v with shifts := before ++ s.over :: behind }
  have hstruck : (d.setVehicle u).after (changeShift v.id fun s => .ok s.cancelBreak.2) =
      (.ok s.over, d.setVehicle w) := by
    have hover : t.cancelBreak.2 = s.over := congrArg Prod.snd (cancelBreak_ended s)
    have hchange : (d.setVehicle u).after (changeShift v.id fun s => .ok s.cancelBreak.2) =
        (.ok s.over, (d.setVehicle u).setVehicle (u.setCurrentShift s.over)) :=
      after_changeShift (hd.setVehicle u) hrequire' (by rw [hover])
    rw [hchange, hcome'.setCurrentShift_eq]
    simp only [setVehicle, Table.insert_insert, u, w]
  have hmoved (e : ShiftEvent) :
      ((d.setVehicle w).log e).after (changeVehicle v.id fun v => { v with link }) =
        (.ok (), (d.setVehicle { w with link }).log e) :=
    after_changeVehicle_log e (d.after_changeVehicle_again rfl rfl)
  have hslot' (e : ShiftEvent) :
      ((d.setVehicle { w with link }).log e).Released v.id s facilities := hslot
  simp only [endShiftInPlace, after_bind, after_ask, hrequire, hcheck, hended, hstruck, after_note,
    hmoved]
  exact after_release (hslot' _)

/-- A shift ends step by step as the report says. -/
theorem after_endShift (hd : d.Named) :
    d.after (endShiftInPlace id link now) = d.outcome (d.endShift id link now) := by
  cases hrequire : d.requireShift id with
  | error fault =>
    have hreport : d.endShift id link now = .error fault := by
      simp [endShift, hrequire, Bind.bind, Except.bind]
    simp only [endShiftInPlace, after_bind, after_ask, hrequire, hreport, outcome]
  | ok found =>
    obtain ⟨v, s⟩ := found
    obtain ⟨hv, hs⟩ := requireShift_eq_ok_iff.1 hrequire
    obtain rfl := hd id v hv
    cases hcheck : d.checkBreak s with
    | error fault =>
      have hreport : d.endShift v.id link now = .error fault :=
        endShift_eq_error hrequire (by simp [hcheck, Bind.bind, Except.bind])
      simp only [endShiftInPlace, after_bind, after_ask, hrequire, hcheck, hreport, outcome]
    | ok _ =>
      cases hfinish : s.finishWork with
      | error fault =>
        have hreport : d.endShift v.id link now = .error fault :=
          endShift_eq_error hrequire (by simp [hcheck, hfinish, Bind.bind, Except.bind])
        simp only [endShiftInPlace, changeShift, after_bind, after_ask, hrequire, hcheck, hfinish,
          hreport, outcome]
      | ok t =>
        have hstate := (Shift.transition_eq_ok_iff.1 hfinish).1
        obtain ⟨before, behind, hcome⟩ := Vehicle.exists_comesTo hs (by simp [hstate])
        obtain ⟨facilities, hslot⟩ := exists_released (checkBreak_eq_ok_iff.1 hcheck) v.id
        rw [endShift_eq hv hcome hstate hslot link now]
        exact after_endShift_ok hd hv hcome hstate hcheck hslot

/-! ## All or nothing -/

/-- A vehicle is known and its current shift has a property. -/
def HasCurrent (d : Dispatcher) (id : VehicleId) (P : Shift → Prop) : Prop :=
  ∃ v s, d.vehicles.find? id = some v ∧ v.currentShift? = some s ∧ P s

/-- A procedure does what a report does. If it meets a fault it leaves the dispatcher as it was, and
it meets none exactly if it is possible. -/
structure AllOrNothing (d : Dispatcher) (p : Procedure Unit) (report : Except Fault Dispatcher)
    (possible : Prop) : Prop where
  same : d.after p = d.outcome report
  untouched : ∀ fault, (d.after p).1 = .error fault → (d.after p).2 = d
  succeeds : (d.after p).1 = .ok () ↔ possible

/-- A procedure that goes as a report says leaves nothing behind where the report is a fault. -/
theorem allOrNothing_of_same {p : Procedure Unit} {report : Except Fault Dispatcher}
    {possible : Prop} (hsame : d.after p = d.outcome report)
    (hpossible : (∃ d', report = .ok d') ↔ possible) : d.AllOrNothing p report possible := by
  refine ⟨hsame, fun fault hfault => ?_, ?_⟩
  · rw [hsame] at hfault ⊢
    cases report with
    | error fault' => rfl
    | ok d' => cases hfault
  · rw [hsame, ← hpossible]
    cases report <;> simp [outcome]

/-- Just the vehicles of the fleet can be updated. -/
theorem exists_updateVehicle_iff (hd : d.Named) :
    (∃ d', d.updateVehicle id link available = .ok d') ↔ d.vehicles.contains id := by
  unfold Table.contains
  constructor
  · rintro ⟨d', h⟩
    obtain ⟨v, rfl, hv, -⟩ := updateVehicle_eq_ok hd h
    simp [hv]
  · intro hknown
    obtain ⟨v, hv⟩ := Option.isSome_iff_exists.1 hknown
    exact ⟨_, by simp only [updateVehicle, requireVehicle, hv]; rfl⟩

/-- A break can start exactly while the current shift is started. -/
theorem exists_startBreak_iff (hd : d.Named) : (∃ d', d.startBreak id link now = .ok d') ↔
    d.HasCurrent id fun s => s.state = .started := by
  constructor
  · rintro ⟨d', h⟩
    obtain ⟨v, before, s, after, rfl, hv, hcome, hstate⟩ := comesTo_of_startBreak hd h
    exact ⟨v, s, hv, hcome.currentShift?_eq, hstate⟩
  · rintro ⟨v, s, hv, hs, hstate⟩
    obtain rfl := hd id v hv
    obtain ⟨before, after, hcome⟩ := Vehicle.exists_comesTo hs (by simp [hstate])
    exact ⟨_, startBreak_eq hv hcome hstate link now⟩

/-- A break can end exactly while the current shift stands still for it, at a facility that is
known. -/
theorem exists_endBreak_iff (hd : d.Named) : (∃ d', d.endBreak id task now = .ok d') ↔
    d.HasCurrent id (fun s => s.state = .onBreak) ∧ d.facilities.knows task.facility := by
  constructor
  · rintro ⟨d', h⟩
    obtain ⟨v, before, s, after, had, facilities, rfl, hv, hcome, hstate, hslot⟩ :=
      comesTo_of_endBreak hd h
    obtain ⟨f, hf, -, -⟩ := Facilities.deregister_eq_ok_iff.1 hslot
    exact ⟨⟨v, s, hv, hcome.currentShift?_eq, hstate⟩, by simp [Facilities.knows, hf]⟩
  · rintro ⟨⟨v, s, hv, hs, hstate⟩, hknown⟩
    obtain rfl := hd id v hv
    obtain ⟨before, after, hcome⟩ := Vehicle.exists_comesTo hs (by simp [hstate])
    obtain ⟨had, facilities, hslot⟩ := Facilities.exists_deregister hknown v.id
    exact ⟨_, endBreak_eq hv hcome hstate hslot now⟩

/-- A shift can end exactly while it is started and the facility for a break that was not taken is
known. -/
theorem exists_endShift_iff (hd : d.Named) : (∃ d', d.endShift id link now = .ok d') ↔
    d.HasCurrent id fun s => s.state = .started ∧
      (s.breakTaken = false → ∀ f ∈ s.breakFacility, d.facilities.knows f) := by
  constructor
  · rintro ⟨d', h⟩
    obtain ⟨v, before, s, after, facilities, rfl, hv, hcome, hstate, -⟩ := comesTo_of_endShift hd h
    refine ⟨v, s, hv, hcome.currentShift?_eq, hstate, checkBreak_eq_ok_iff.1 ?_⟩
    cases hcheck : d.checkBreak s with
    | ok _ => rfl
    | error fault =>
      have hrequire := requireShift_eq_ok_iff.2 ⟨hv, hcome.currentShift?_eq⟩
      have hreport : d.endShift v.id link now = .error fault :=
        endShift_eq_error hrequire (by simp [hcheck, Bind.bind, Except.bind])
      rw [hreport] at h
      cases h
  · rintro ⟨v, s, hv, hs, hstate, hknown⟩
    obtain rfl := hd id v hv
    obtain ⟨before, after, hcome⟩ := Vehicle.exists_comesTo hs (by simp [hstate])
    obtain ⟨facilities, hslot⟩ := exists_released hknown v.id
    exact ⟨_, endShift_eq hv hcome hstate hslot link now⟩

/-- Whatever was asked of a dispatcher before, a report that meets a fault leaves all of it as it
was, though it changes the dispatcher step by step. The link and availability of every known vehicle
can be reported. A break can start, and a shift end, exactly if the current shift of a known vehicle
is started, and a break can end exactly if it is on break; besides, the facility that the break took
place at, or the one that is reserved for a break which was not taken, must be known. -/
theorem reports_all_or_nothing {policy : ShiftPolicy} {network : Network}
    {sites : List FacilitySite} {os : List Operation}
    (hrun : (opened policy network sites).run os = .ok d) (id : VehicleId) (link : LinkId)
    (available : Bool) (task : BreakTask) (now : Time) :
    d.AllOrNothing (updateVehicleInPlace id link available) (d.updateVehicle id link available)
      (d.vehicles.contains id) ∧
    d.AllOrNothing (startBreakInPlace id link now) (d.startBreak id link now)
      (d.HasCurrent id fun s => s.state = .started) ∧
    d.AllOrNothing (endBreakInPlace id task now) (d.endBreak id task now)
      (d.HasCurrent id (fun s => s.state = .onBreak) ∧ d.facilities.knows task.facility) ∧
    d.AllOrNothing (endShiftInPlace id link now) (d.endShift id link now)
      (d.HasCurrent id fun s => s.state = .started ∧
        (s.breakTaken = false → ∀ f ∈ s.breakFacility, d.facilities.knows f)) := by
  have hd := (sound_run (sound_opened policy network sites) hrun).named
  exact ⟨allOrNothing_of_same (after_updateVehicle hd) (exists_updateVehicle_iff hd),
    allOrNothing_of_same (after_startBreak hd) (exists_startBreak_iff hd),
    allOrNothing_of_same (after_endBreak hd) (exists_endBreak_iff hd),
    allOrNothing_of_same (after_endShift hd) (exists_endShift_iff hd)⟩

/-- A shift with a break ahead can end; its break cannot, and an attempt to end it changes nothing.
-/
theorem break_ahead_cannot_end :
    let network : Network := .ofLinks [{ id := ⟨"yard"⟩, source := ⟨0, 0⟩, target := ⟨0, 10⟩ }]
    let sites : List FacilitySite := [⟨⟨"hub"⟩, .hub, ⟨"yard"⟩, ⟨0, 5⟩, 1⟩]
    let os : List Operation := [.addVehicle { id := ⟨"bus"⟩, link := ⟨"yard"⟩ },
      .addShift { id := ⟨"day"⟩, start := 0, finish := 7200, breakWindow := some ⟨600, 3600, 600⟩ },
      .dispatch 0]
    ∃ d fault, (opened {} network sites).run os = .ok d ∧
      d.after (endBreakInPlace ⟨"bus"⟩ ⟨⟨"hub"⟩, 600, 1200⟩ 1200) = (.error fault, d) ∧
      (d.after (endShiftInPlace ⟨"bus"⟩ ⟨"yard"⟩ 1200)).1 = .ok () := by
  intro network sites os
  have hstate : ((opened {} network sites).run os).toOption.bind (fun d =>
      (d.vehicles.find? ⟨"bus"⟩).bind fun v => v.currentShift?.map fun s =>
        (s.state, s.breakFacility, d.facilities.knows ⟨"hub"⟩)) =
      some (.started, some ⟨"hub"⟩, true) := by
    decide +kernel
  cases hrun : (opened {} network sites).run os with
  | error halt => simp [hrun, Except.toOption] at hstate
  | ok d =>
    simp only [hrun, Except.toOption, Option.bind_some] at hstate
    obtain ⟨v, hv, hstate⟩ := Option.bind_eq_some_iff.1 hstate
    obtain ⟨s, hs, hstate⟩ := Option.map_eq_some_iff.1 hstate
    simp only [Prod.mk.injEq] at hstate
    obtain ⟨hstate, hplan, hknown⟩ := hstate
    obtain ⟨-, -, hbreak, hend⟩ := reports_all_or_nothing hrun ⟨"bus"⟩ ⟨"yard"⟩ true
      ⟨⟨"hub"⟩, 600, 1200⟩ 1200
    have hended : (d.after (endShiftInPlace ⟨"bus"⟩ ⟨"yard"⟩ 1200)).1 = .ok () :=
      hend.succeeds.2 ⟨v, s, hv, hs, hstate, fun _ f hf => by
        obtain rfl := Option.some.inj (hplan.symm.trans hf)
        exact hknown⟩
    cases hbroken : (d.after (endBreakInPlace ⟨"bus"⟩ ⟨⟨"hub"⟩, 600, 1200⟩ 1200)).1 with
    | error fault =>
      exact ⟨d, fault, rfl, Prod.ext hbroken (hbreak.untouched fault hbroken), hended⟩
    | ok _ =>
      obtain ⟨⟨u, t, hu, ht, hbegun⟩, -⟩ := hbreak.succeeds.1 hbroken
      obtain rfl := Option.some.inj (hv.symm.trans hu)
      obtain rfl := Option.some.inj (hs.symm.trans ht)
      simp [hstate] at hbegun

end Dispatcher

end DialARide
