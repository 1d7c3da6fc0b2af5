import DialARide.Proofs.Shift.Current
import DialARide.Proofs.Shift.Office

/-!
# The slot for the end of a shift

A vehicle holds one slot of a facility at most, whatever it was reserved for. The log tells what
was reserved for the shift that a vehicle started last and what was given up. The slot that was
reserved for the end of that shift is held exactly as long as the log does not tell that the
break was held at the same facility and was over, or was called off, after the end had been
reserved: the slot for the end is then given up along with the one for the break.
-/

namespace DialARide

/-- The shift that a vehicle started last: the running one or else the last that has ended. -/
def Vehicle.latestShift? (v : Vehicle) : Option Shift :=
  v.runningShift?.or (v.shifts.filter fun s => s.state = .ended).getLast?

/-- What is put down of a shift: the kind of change and the facility concerned. -/
abbrev Mark := ShiftEventKind × Option FacilityId

/-- The mark of an event. -/
def ShiftEvent.mark (e : ShiftEvent) : Mark := (e.kind, e.facility)

/-- A slot for the end of a shift was given up with the one for its break: the break at the facility
was over after the end had been reserved there, or the shift ended before its break was over. -/
def GivenUp (f : FacilityId) (marks : List Mark) : Prop :=
  [(.endScheduled, some f), (.breakEnded, some f)].Sublist marks ∨
    (∃ g, (.ended, g) ∈ marks) ∧ (.breakScheduled, some f) ∈ marks ∧ ∀ g, (.breakEnded, g) ∉ marks

/-- The events of a vehicle from its last start on, with one more event. -/
def noteEvent (id : VehicleId) (tale : List ShiftEvent) (e : ShiftEvent) : List ShiftEvent :=
  if e.vehicle = id then
    if e.kind = .started then [e] else tale ++ [e]
  else tale

/-- The events of a vehicle from its last start on. -/
def Dispatcher.tale (d : Dispatcher) (id : VehicleId) : List ShiftEvent :=
  d.events.foldl (noteEvent id) []

/-! ## What the marks tell of a shift -/

/-- The record of a shift agrees with what was put down since it was started. -/
structure Shift.Told (s : Shift) (holds : FacilityId → Prop) (marks : List Mark) : Prop where
  endFacility : ∀ f, s.endFacility = some f ↔ (.endScheduled, some f) ∈ marks
  breakFacility : s.state ≠ .ended →
    ∀ f, s.breakFacility = some f ↔ (.breakScheduled, some f) ∈ marks
  taken : s.breakTaken ↔ ∃ g, (.breakEnded, g) ∈ marks
  ended : s.state = .ended ↔ ∃ g, (.ended, g) ∈ marks
  slot : ∀ f, s.endFacility = some f → (holds f ↔ ¬ GivenUp f marks)

section Told

variable {s : Shift} {holds holds' : FacilityId → Prop} {marks : List Mark} {f g : FacilityId}
  {x : Option FacilityId}

/-- As long as no break was over and the shift has not ended, nothing is given up. -/
theorem not_givenUp (hbreak : ∀ g, (.breakEnded, g) ∉ marks) (hover : ∀ g, (.ended, g) ∉ marks) :
    ¬ GivenUp f marks := by
  rintro (hpair | ⟨⟨g, hg⟩, -⟩)
  · exact hbreak (some f) (hpair.subset (by simp))
  · exact hover g hg

namespace Shift.Told

/-- Nothing was put down of a shift that was just started. -/
theorem of_fresh (hs : s.Fresh) : Told { s with state := .started } holds [] := by
  have hend := hs.endFacility_eq
  rw [hs]
  constructor <;> simp

/-- What is told of a shift that has not ended has no end. -/
theorem not_mem_ended (h : s.Told holds marks) (hs : s.state ≠ .ended) (g : Option FacilityId) :
    (.ended, g) ∉ marks :=
  fun hg => hs (h.ended.2 ⟨g, hg⟩)

/-- What is told of a shift whose break was not taken has no end of a break. -/
theorem not_mem_breakEnded (h : s.Told holds marks) (hs : s.breakTaken = false)
    (g : Option FacilityId) : (.breakEnded, g) ∉ marks := fun hg => by
  simp [h.taken.2 ⟨g, hg⟩] at hs

/-- The assignment of another shift does not matter. -/
theorem assigned (h : s.Told holds marks) (hslot : ∀ f, holds' f ↔ holds f) :
    s.Told holds' (marks ++ [(.assigned, x)]) := by
  refine ⟨?_, ?_, ?_, ?_, fun f hf => ?_⟩
  · simpa using h.endFacility
  · simpa using h.breakFacility
  · simpa using h.taken
  · simpa using h.ended
  · rw [hslot, h.slot f hf]
    simp [GivenUp, List.pair_sublist_append_singleton]

/-- The start of a break does not matter. -/
theorem breakStarted (h : s.Told holds marks) (hs : s.state = .started) :
    Told { s with state := .onBreak } holds (marks ++ [(.breakStarted, x)]) := by
  have hopen : s.state ≠ .ended := by simp [hs]
  refine ⟨?_, fun _ => ?_, ?_, ?_, fun f hf => ?_⟩
  · simpa using h.endFacility
  · simpa using h.breakFacility hopen
  · simpa using h.taken
  · simpa using h.not_mem_ended hopen
  · rw [h.slot f hf]
    simp [GivenUp, List.pair_sublist_append_singleton]

/-- A break is reserved before any is over, so nothing is given up yet. -/
theorem breakScheduled (h : s.Told holds marks) (hs : s.state = .started)
    (hplan : s.breakFacility = none) (htaken : s.breakTaken = false)
    (hslot : ∀ g, holds' g ↔ g = f ∨ holds g) :
    (s.planBreak f).Told holds' (marks ++ [(.breakScheduled, some f)]) := by
  have hopen : s.state ≠ .ended := by simp [hs]
  have hbreak := h.not_mem_breakEnded htaken
  have hover := h.not_mem_ended hopen
  have hnone : ∀ g, (.breakScheduled, some g) ∉ marks := fun g hg => by
    simp [(h.breakFacility hopen g).2 hg] at hplan
  refine ⟨?_, fun _ => ?_, ?_, ?_, fun g hg => ?_⟩
  · simpa [planBreak] using h.endFacility
  · simp [planBreak, hnone, eq_comm]
  · simpa [planBreak] using h.taken
  · simpa [planBreak] using h.ended
  · have hheld : holds g := (h.slot g hg).2 (not_givenUp hbreak hover)
    have hkept : ¬ GivenUp g (marks ++ [(.breakScheduled, some f)]) :=
      not_givenUp (by simpa using hbreak) (by simpa using hover)
    exact iff_of_true ((hslot g).2 (.inr hheld)) hkept

/-- The slot for the end is held once it is reserved. -/
theorem endScheduled (h : s.Told holds marks) (hs : s.state = .started)
    (hend : s.endFacility = none) (hslot : ∀ g, holds' g ↔ g = f ∨ holds g) :
    (s.planEnd f).Told holds' (marks ++ [(.endScheduled, some f)]) := by
  have hopen : s.state ≠ .ended := by simp [hs]
  have hover := h.not_mem_ended hopen
  have hnone : ∀ g, (.endScheduled, some g) ∉ marks := fun g hg => by
    simp [(h.endFacility g).2 hg] at hend
  refine ⟨?_, fun _ => ?_, ?_, ?_, fun g hg => ?_⟩
  · simp [planEnd, hnone, eq_comm]
  · simpa [planEnd] using h.breakFacility hopen
  · simpa [planEnd] using h.taken
  · simpa [planEnd] using h.ended
  · obtain rfl : f = g := Option.some.inj hg
    refine iff_of_true ((hslot f).2 (.inl rfl)) ?_
    rintro (hpair | ⟨⟨x, hx⟩, -⟩)
    · rw [List.pair_sublist_append_singleton] at hpair
      rcases hpair with hpair | ⟨hmem, -⟩
      · exact hnone f (hpair.subset (by simp))
      · exact hnone f hmem
    · exact hover x (by simpa using hx)

/-- The slot for the end is given up with the one for the break if that was held there. -/
theorem breakEnded (h : s.Told holds marks) (hs : s.state = .onBreak)
    (hslot : ∀ g, holds' g ↔ holds g ∧ g ≠ f) :
    Told { s with state := .started, breakTaken := true } holds'
      (marks ++ [(.breakEnded, some f)]) := by
  have hopen : s.state ≠ .ended := by simp [hs]
  have hover := h.not_mem_ended hopen
  refine ⟨?_, fun _ => ?_, ?_, ?_, fun g hg => ?_⟩
  · simpa using h.endFacility
  · simpa using h.breakFacility hopen
  · simp
  · simpa using hover
  · have hmem := (h.endFacility g).1 hg
    have hgiven : GivenUp g (marks ++ [(.breakEnded, some f)]) ↔ GivenUp g marks ∨ g = f := by
      simp [GivenUp, List.pair_sublist_append_singleton, hover, hmem]
    rw [hslot, h.slot g hg, hgiven, not_or]

/-- The slot for the end is given up with the one for a break that is called off. -/
theorem shiftEnded (h : s.Told holds marks) (hs : s.state = .started)
    (hslot : ∀ g, holds' g ↔ holds g ∧ ¬ (s.breakFacility = some g ∧ s.breakTaken = false)) :
    s.over.Told holds' (marks ++ [(.ended, x)]) := by
  have hopen : s.state ≠ .ended := by simp [hs]
  have hover := h.not_mem_ended hopen
  refine ⟨?_, fun hended => absurd rfl hended, ?_, ?_, fun g hg => ?_⟩
  · simpa [Shift.over] using h.endFacility
  · simpa [Shift.over] using h.taken
  · simp [Shift.over]
  · have htaken : s.breakTaken = false ↔ ∀ g, (.breakEnded, g) ∉ marks := by
      rw [← Bool.not_eq_true, h.taken, not_exists]
    rw [hslot, h.slot g hg, h.breakFacility hopen, htaken]
    simp [GivenUp, List.pair_sublist_append_singleton, hover]

end Shift.Told

end Told

/-! ## The latest shift -/

namespace Vehicle

variable {v : Vehicle} {before after : List Shift} {s t : Shift}

/-- The shift that runs is the latest, if it is the only one. -/
theorem latestShift?_of_running (hsplit : v.shifts = before ++ t :: after) (ht : t.isRunning)
    (hbefore : ∀ a ∈ before, ¬ a.isRunning) : v.latestShift? = some t := by
  have hrun : v.runningShift? = some t := by
    rw [runningShift?, hsplit, List.find?_append, List.find?_eq_none.2 hbefore]
    simp [ht]
  rw [latestShift?, hrun, Option.some_or]

/-- The shift that has just ended is the latest, if it was the only one to run and all behind it
are waiting. -/
theorem latestShift?_of_ended (hsplit : v.shifts = before ++ t :: after) (ht : t.state = .ended)
    (hbefore : ∀ a ∈ before, ¬ a.isRunning) (hafter : ∀ b ∈ after, b.state = .waiting) :
    v.latestShift? = some t := by
  have hidle : ∀ a ∈ v.shifts, ¬ a.isRunning := by
    intro a ha
    rw [hsplit, List.mem_append, List.mem_cons] at ha
    rcases ha with ha | rfl | ha
    · exact hbefore a ha
    · exact Shift.not_running_iff.2 (.inr ht)
    · exact Shift.not_running_iff.2 (.inl (hafter a ha))
  have hnone : after.filter (fun s => s.state = .ended) = [] :=
    List.filter_eq_nil_iff.2 fun b hb => by simp [hafter b hb]
  rw [latestShift?, runningShift?, List.find?_eq_none.2 hidle, Option.none_or, hsplit,
    List.filter_append, List.filter_cons_of_pos (by simpa using ht), hnone,
    List.getLast?_append_cons]
  rfl

/-- A shift that is assigned does not matter for the latest one. -/
theorem latestShift?_assign (v : Vehicle) (hs : s.state = .waiting) :
    (v.assign s).latestShift? = v.latestShift? := by
  have hidle : ¬ s.isRunning := Shift.not_running_iff.2 (.inl hs)
  obtain ⟨before, after, hsplit, hinsert⟩ := exists_split_of_insertByStart s v.shifts
  rw [hsplit] at hinsert
  simp [latestShift?, runningShift?, assign, hinsert, hsplit, hidle, hs]

/-- The shift that the queue has come to is the latest while it runs, and so is what becomes of
it. -/
theorem ComesTo.latestShift?_eq {v' : Vehicle} (h : ComesTo v.shifts before s after)
    (hv : InOrder v.shifts) (hv' : v'.shifts = before ++ t :: after) (hgoes : s.Goes t) :
    v.latestShift? = some s ∧ v'.latestShift? = some t := by
  have hfront := (inOrder_append_cons.1 (h.split ▸ hv)).2.1
  have hbefore : ∀ a ∈ before, ¬ a.isRunning := fun a ha hrun =>
    (hfront a ha).alone ⟨hrun, hgoes.running⟩
  refine ⟨latestShift?_of_running h.split hgoes.running hbefore, ?_⟩
  rcases hgoes.next with hrun | hended
  · exact latestShift?_of_running hv' hrun hbefore
  · exact latestShift?_of_ended hv' hended hbefore h.waiting

end Vehicle

/-! ## The log and the slots -/

namespace Dispatcher

variable {d d' : Dispatcher} {now : Time} {id : VehicleId}

/-- The tale of a vehicle begins with the start of a shift, and agrees with the record of the
shift and with the slots. -/
def Tells (d : Dispatcher) (id : VehicleId) (s : Shift) : Prop :=
  ∃ start rest, d.tale id = start :: rest ∧ start.kind = .started ∧ start.shift = s.id ∧
    s.Told (fun f => d.facilities.holdsAt f id) (rest.map ShiftEvent.mark)

/-- The log agrees with the shift that each vehicle started last. -/
def Recorded (d : Dispatcher) : Prop :=
  ∀ id v s, d.vehicles.find? id = some v → v.latestShift? = some s → d.Tells id s

variable {v v' : Vehicle} {before after : List Shift} {s t : Shift} {facilities : Facilities}
  {e : ShiftEvent}

/-- The tale of the vehicle goes on with what is put down. -/
theorem tale_amend (d : Dispatcher) (facilities : Facilities) (v : Vehicle) (e : ShiftEvent)
    (id : VehicleId) : (d.amend facilities v e).tale id = noteEvent id (d.tale id) e := by
  rw [tale, tale, amend_events, List.foldl_append]
  rfl

/-- What is done to one vehicle leaves the tales and the slots of all others alone. -/
theorem Recorded.amend (h : d.Recorded) (hid : e.vehicle = v.id)
    (hothers : ∀ f u, u ≠ v.id → (facilities.holdsAt f u ↔ d.facilities.holdsAt f u))
    (hown : ∀ s, v.latestShift? = some s → (d.amend facilities v e).Tells v.id s) :
    (d.amend facilities v e).Recorded := by
  intro id u s hu hs
  rw [amend_vehicles, Table.find?_insert] at hu
  split at hu
  · next heq =>
    obtain rfl := Option.some.inj hu
    exact heq ▸ hown s hs
  · next hne =>
    obtain ⟨start, rest, htale, hkind, hshift, htold⟩ := h id u s hu hs
    have hholds : (fun f => facilities.holdsAt f id = true) =
        fun f => d.facilities.holdsAt f id = true :=
      funext fun f => propext (hothers f id (Ne.symm hne))
    refine ⟨start, rest, ?_, hkind, hshift, ?_⟩
    · rw [tale_amend, noteEvent, if_neg (by rwa [hid]), htale]
    · rw [amend_facilities, hholds]
      exact htold

/-- What is put down of a shift that was started adds to its tale. -/
theorem Tells.amend (h : d.Tells v.id s) (hid : e.vehicle = v.id) (hkind : e.kind ≠ .started)
    (hs : t.id = s.id) (htold : ∀ marks, s.Told (fun f => d.facilities.holdsAt f v.id) marks →
      t.Told (fun f => facilities.holdsAt f v.id) (marks ++ [e.mark])) :
    (d.amend facilities v e).Tells v.id t := by
  obtain ⟨start, rest, htale, hstart, hshift, htells⟩ := h
  refine ⟨start, rest ++ [e], ?_, hstart, hshift.trans hs.symm, ?_⟩
  · rw [tale_amend, noteEvent, if_pos hid, if_neg hkind, htale]
    rfl
  · rw [List.map_append]
    exact htold _ htells

/-- A step of the shift that a queue has come to is told if its marks are. -/
theorem Recorded.go (h : d.Recorded) (hv : d.vehicles.find? v.id = some v)
    (hin : Vehicle.InOrder v.shifts) (hcome : Vehicle.ComesTo v.shifts before s after)
    (hv' : v'.shifts = before ++ t :: after) (hgoes : s.Goes t) (hsame : v'.id = v.id)
    (hid : e.vehicle = v.id) (hkind : e.kind ≠ .started)
    (hothers : ∀ f u, u ≠ v.id → (facilities.holdsAt f u ↔ d.facilities.holdsAt f u))
    (htold : ∀ marks, s.Told (fun f => d.facilities.holdsAt f v.id) marks →
      t.Told (fun f => facilities.holdsAt f v.id) (marks ++ [e.mark])) :
    (d.amend facilities v' e).Recorded := by
  obtain ⟨hbefore, hafter⟩ := hcome.latestShift?_eq hin hv' hgoes
  have htells := h v.id v s hv hbefore
  rw [← hsame] at hid hothers htold htells
  refine h.amend hid hothers fun u hu => ?_
  obtain rfl := Option.some.inj (hafter.symm.trans hu)
  exact htells.amend hid hkind (congrArg ShiftPlan.id hgoes.plan) htold

/-- Queues stand in order, nothing has become of a shift that waits, and the log agrees with the
shift that each vehicle started last. -/
structure Accounted (d : Dispatcher) : Prop where
  sound : d.Sound
  inOrder : d.InOrder
  fresh : ∀ id v, d.vehicles.find? id = some v → ∀ s ∈ v.shifts, s.state = .waiting → s.Fresh
  recorded : d.Recorded

/-- Only shifts of which nothing has become wait in a queue. -/
theorem Act.fresh (h : d.Act d') (hd : d.Sound)
    (hfresh : ∀ id v, d.vehicles.find? id = some v → ∀ s ∈ v.shifts, s.state = .waiting → s.Fresh) :
    ∀ id v, d'.vehicles.find? id = some v → ∀ s ∈ v.shifts, s.state = .waiting → s.Fresh := by
  intro id v' hv' s hs hwait
  rcases h.queue hd hv' with hnone | ⟨v, hv, hsame | hmoves⟩
  · simp [hnone] at hs
  · exact hfresh id v hv s (hsame ▸ hs) hwait
  · exact hmoves.fresh (hfresh id v hv) s hs hwait

/-- A decision is recorded in the log. -/
theorem Decision.recorded {i : Option Instruction} (h : d.Decision now d' i) (hd : d.Accounted) :
    d'.Recorded := by
  have hrecorded := hd.recorded
  cases h with
  | tick | expire => exact hrecorded
  | assign before s after horizon v hopen hlasts hhorizon hstart hv =>
    have hfresh : s.Fresh := hd.sound.fresh s (by simp [hopen])
    have hrecorded' : Recorded { d with unassigned := before ++ after } := hrecorded
    refine hrecorded'.amend rfl (fun _ _ _ => Iff.rfl) fun u hu => ?_
    rw [v.latestShift?_assign hfresh.state_eq] at hu
    have htells : Tells { d with unassigned := before ++ after } v.id u := hrecorded v.id v u hv hu
    exact htells.amend rfl (by simp) rfl fun marks htold => htold.assigned fun _ => Iff.rfl
  | start v before s after hv hrunning hsplit hbefore hwait hdue =>
    have hidle : ∀ t ∈ v.shifts, ¬ t.isRunning := List.find?_eq_none.1 hrunning
    have hfresh : s.Fresh := hd.fresh v.id v hv s (by simp [hsplit]) hwait
    refine hrecorded.amend rfl (fun f u hu => ?_) fun u hu => ?_
    · rw [Facilities.holdsAt_deregisterEverywhere]
      exact and_iff_left hu
    · have hfront : ∀ a ∈ before, ¬ a.isRunning := fun a ha => hidle a (by simp [hsplit, ha])
      have hlatest := Vehicle.latestShift?_of_running
        (v := { v with shifts := before ++ { s with state := .started } :: after }) rfl rfl hfront
      obtain rfl := Option.some.inj (hlatest.symm.trans hu)
      refine ⟨{ time := now, kind := .started, vehicle := v.id, shift := s.id }, [], ?_, rfl, rfl,
        Shift.Told.of_fresh hfresh⟩
      rw [tale_amend, noteEvent, if_pos rfl, if_pos rfl]
  | planBreak v before s after w task facilities facility hv hcome hnow hdecide hw hregister =>
    obtain ⟨hstate, hplan, htaken, -⟩ := decideOnBreak_eq_ok_some hdecide
    have hrun := Shift.isRunning_iff.2 (.inl hstate)
    refine hrecorded.go hv (hd.inOrder v.id v hv) hcome rfl ⟨rfl, hrun, .inl hrun⟩ rfl rfl
      (by simp) (fun f u hu => ?_) fun marks htold => ?_
    · simp [Facilities.holdsAt_of_register hregister, hu]
    · refine htold.breakScheduled hstate hplan htaken fun g => ?_
      simp [Facilities.holdsAt_of_register hregister]
  | planEnd v before s after horizon facility facilities hv hcome hstate hend hpending hhorizon
      hsoon hfacility hregister =>
    have hrun := Shift.isRunning_iff.2 (.inl hstate)
    refine hrecorded.go hv (hd.inOrder v.id v hv) hcome rfl ⟨rfl, hrun, .inl hrun⟩ rfl rfl
      (by simp) (fun f u hu => ?_) fun marks htold => ?_
    · simp [Facilities.holdsAt_of_register hregister, hu]
    · refine htold.endScheduled hstate hend fun g => ?_
      simp [Facilities.holdsAt_of_register hregister]

/-- A report is recorded in the log. -/
theorem Report.recorded (h : d.Report now d') (hd : d.Accounted) : d'.Recorded := by
  have hrecorded := hd.recorded
  cases h with
  | breakStarted v before s after link hv hcome hstate =>
    have hrun := Shift.isRunning_iff.2 (.inl hstate)
    exact hrecorded.go hv (hd.inOrder v.id v hv) hcome rfl ⟨rfl, hrun, .inl rfl⟩ rfl rfl (by simp)
      (fun _ _ _ => Iff.rfl) fun marks htold => htold.breakStarted hstate
  | breakEnded v before s after task had facilities hv hcome hstate hslot =>
    have hrun := Shift.isRunning_iff.2 (.inr hstate)
    refine hrecorded.go hv (hd.inOrder v.id v hv) hcome rfl ⟨rfl, hrun, .inl rfl⟩ rfl rfl (by simp)
      (fun f u hu => ?_) fun marks htold => ?_
    · simp [Facilities.holdsAt_of_deregister hslot, hu]
    · refine htold.breakEnded hstate fun g => ?_
      simp [Facilities.holdsAt_of_deregister hslot]
  | shiftEnded v before s after link facilities hv hcome hstate hslot =>
    have hrun := Shift.isRunning_iff.2 (.inl hstate)
    refine hrecorded.go hv (hd.inOrder v.id v hv) hcome rfl ⟨rfl, hrun, .inr rfl⟩ rfl rfl (by simp)
      (fun f u hu => ?_) fun marks htold => ?_
    · simp [hslot.holdsAt_iff, hu]
    · refine htold.shiftEnded hstate fun g => ?_
      simp [hslot.holdsAt_iff]

/-- What the log says of the shifts stays right after every decision. -/
theorem Accounted.decided {i : Option Instruction} (h : d.Decision now d' i) (hd : d.Accounted) :
    d'.Accounted :=
  have hact : d.Act d' := .decided h
  ⟨hact.sound hd.sound, hact.inOrder hd.sound hd.inOrder, hact.fresh hd.sound hd.fresh,
    h.recorded hd⟩

/-- What the log says of the shifts stays right after every report. -/
theorem Accounted.reported (h : d.Report now d') (hd : d.Accounted) : d'.Accounted :=
  have hact : d.Act d' := .reported h
  ⟨hact.sound hd.sound, hact.inOrder hd.sound hd.inOrder, hact.fresh hd.sound hd.fresh,
    h.recorded hd⟩

/-- Where no vehicle has a shift there is nothing to account for. -/
theorem Untouched.accounted {plans : List ShiftPlan} (h : d.Untouched plans) : d.Accounted := by
  refine ⟨h.sound, fun id v hv => ?_, fun id v hv s hs => ?_, fun id v s hv hs => ?_⟩
  · rw [h.idle id v hv]
    exact .nil
  · simp [h.idle id v hv] at hs
  · simp [Vehicle.latestShift?, Vehicle.runningShift?, h.idle id v hv] at hs

end Dispatcher

/-- Whatever errands an office has done, and in whatever order: the log of a vehicle begins with
the start of the shift that it started last, and the slot reserved for the end of that shift is
held exactly as long as the log does not tell that it was given up with the slot for the
break. -/
theorem Setup.holdsAt_end_iff {s : Setup} {policy : ShiftPolicy} {errands : List Errand}
    {o : ShiftOffice} {id : VehicleId} {v : Vehicle} {shift : Shift} {f : FacilityId}
    (h : ShiftOffice.tendAll { dispatcher := s.dispatcher policy } errands = .ok o)
    (hv : o.dispatcher.vehicles.find? id = some v) (hs : v.latestShift? = some shift)
    (hf : shift.endFacility = some f) :
    ∃ start rest, o.dispatcher.tale id = start :: rest ∧ start.kind = .started ∧
      start.shift = shift.id ∧
      (o.dispatcher.facilities.holdsAt f id ↔ ¬ GivenUp f (rest.map ShiftEvent.mark)) := by
  have huntouched := s.untouched_dispatcher policy
  have haccounted : o.dispatcher.Accounted :=
    ShiftOffice.keeps_tendAll (fun _ _ _ _ hdecision hd => hd.decided hdecision)
      (fun _ _ _ hreport hd => hd.reported hreport) huntouched.sound.named huntouched.accounted h
  obtain ⟨start, rest, htale, hkind, hshift, htold⟩ := haccounted.recorded id v shift hv hs
  exact ⟨start, rest, htale, hkind, hshift, htold.slot f hf⟩

/-- A bus whose break and whose shift end are both held at the one hub. -/
def depot : Setup where
  config := .standard
  network := .ofLinks [{ id := ⟨"yard"⟩, source := ⟨0, 0⟩, target := ⟨0, 10⟩ }]
  facilities := [⟨⟨"hub"⟩, .hub, ⟨"yard"⟩, ⟨0, 5⟩, 2⟩]
  vehicles := [{ id := ⟨"bus"⟩, link := ⟨"yard"⟩ }]
  shifts := [{ id := ⟨"day"⟩, start := 0, finish := 3600, breakWindow := some ⟨1800, 3600, 600⟩ }]

/-- After the break the bus no longer holds the slot that is reserved for the end of its shift. -/
theorem end_slot_given_up_with_break :
    let errands : List Errand := [.dispatch 0, .carryOut 0, .dispatch 1200, .carryOut 1200,
      .dispatch 1800, .carryOut 1800, .dispatch 2400, .carryOut 2400]
    ∃ o v shift start rest,
      ShiftOffice.tendAll { dispatcher := depot.dispatcher {} } errands = .ok o ∧
      o.dispatcher.vehicles.find? ⟨"bus"⟩ = some v ∧ v.latestShift? = some shift ∧
      shift.state = .started ∧ shift.endFacility = some ⟨"hub"⟩ ∧
      o.dispatcher.facilities.holdsAt ⟨"hub"⟩ ⟨"bus"⟩ = false ∧
      o.dispatcher.tale ⟨"bus"⟩ = start :: rest ∧ GivenUp ⟨"hub"⟩ (rest.map ShiftEvent.mark) := by
  intro errands
  have hlost : (ShiftOffice.tendAll { dispatcher := depot.dispatcher {} } errands).toOption.bind
      (fun o => (o.dispatcher.vehicles.find? ⟨"bus"⟩).bind fun v => v.latestShift?.bind fun shift =>
        if shift.state = .started ∧ shift.endFacility = some ⟨"hub"⟩ ∧
            o.dispatcher.facilities.holdsAt ⟨"hub"⟩ ⟨"bus"⟩ = false then some () else none) =
        some () := by
    decide +kernel
  cases hrun : ShiftOffice.tendAll { dispatcher := depot.dispatcher {} } errands with
  | error halt => simp [hrun, Except.toOption] at hlost
  | ok o =>
    simp only [hrun, Except.toOption, Option.bind_some] at hlost
    obtain ⟨v, hv, hlost⟩ := Option.bind_eq_some_iff.1 hlost
    obtain ⟨shift, hs, hlost⟩ := Option.bind_eq_some_iff.1 hlost
    split at hlost
    · next hstate =>
      obtain ⟨start, rest, htale, -, -, hiff⟩ := Setup.holdsAt_end_iff hrun hv hs hstate.2.1
      refine ⟨o, v, shift, start, rest, rfl, hv, hs, hstate.1, hstate.2.1, hstate.2.2, htale, ?_⟩
      by_contra hkept
      simp [hiff.2 hkept] at hstate
    · cases hlost

end DialARide
