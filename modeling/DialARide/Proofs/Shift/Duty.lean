import DialARide.Proofs.Shift.Current
import DialARide.Proofs.Shift.Office
import DialARide.Proofs.Shift.Window

/-!
# Tasks that can be carried out

A task is queued for the current shift of its vehicle: at most one break, which suits the shift
and is over before the shift ends, and at most one shift end. Where every break fits into its
window and every window into its shift, this is kept by all decisions, and whatever is due can be
carried out: breaks that are due are over before the end of their shift is reported.
-/

namespace DialARide

/-- The break of a planned shift, if there is one, fits into its window, and the window into the
shift. -/
def ShiftPlan.BreakFits (p : ShiftPlan) : Prop :=
  ∀ w ∈ p.breakWindow,
    w.earliestStart.toNat + w.duration.toNat ≤ w.latestEnd.toNat ∧ w.latestEnd ≤ p.finish

/-- The tasks of one vehicle. -/
def TaskQueue.of (q : TaskQueue) (id : VehicleId) : TaskQueue where
  breaks := q.breaks.filter (·.vehicle = id)
  ends := q.ends.filter (·.vehicle = id)

/-- A break suits a shift at which it is reserved. -/
structure PlannedBreak.Suits (b : PlannedBreak) (s : Shift) : Prop where
  state : s.state = if b.started then .onBreak else .started
  facility : s.breakFacility = some b.task.facility
  lasts : b.task.start ≤ b.task.finish
  inTime : b.task.finish ≤ s.finish

/-- A shift end suits a running shift that has it reserved. -/
structure PlannedEnd.Suits (e : PlannedEnd) (s : Shift) : Prop where
  running : s.isRunning
  reserved : s.endFacility ≠ none
  time : e.time = s.finish

/-- A break suits a shift only while it is running. -/
theorem PlannedBreak.Suits.running {b : PlannedBreak} {s : Shift} (h : b.Suits s) :
    s.isRunning := by
  have hstate := h.state
  cases hb : b.started <;> simp [hb] at hstate <;> simp [Shift.isRunning, hstate]

/-- The tasks of a vehicle suit its current shift. -/
structure Vehicle.Duty (v : Vehicle) (knows : FacilityId → Bool) (q : TaskQueue) : Prop where
  inOrder : InOrder v.shifts
  fits : ∀ s ∈ v.shifts, s.BreakFits
  known : ∀ s ∈ v.shifts, ∀ f ∈ s.breakFacility, knows f
  resting : ∀ s ∈ v.shifts, s.state = .onBreak → ∃ b, q.breaks = [b] ∧ b.started
  breaks : q.breaks = [] ∨ ∃ b s, q.breaks = [b] ∧ v.currentShift? = some s ∧ b.Suits s
  ends : q.ends = [] ∨ ∃ e s, q.ends = [e] ∧ v.currentShift? = some s ∧ e.Suits s

/-- All tasks suit, and every break fits. -/
structure Dispatcher.OnDuty (d : Dispatcher) (q : TaskQueue) : Prop where
  sound : d.Sound
  fits : ∀ s ∈ d.unassigned, s.BreakFits
  duty : ∀ id v, d.vehicles.find? id = some v → v.Duty d.facilities.knows (q.of id)
  nobody : ∀ id, d.vehicles.find? id = none → q.of id = {}

namespace Vehicle

variable {v v' : Vehicle} {knows : FacilityId → Bool} {q q' : TaskQueue}
  {before after : List Shift} {s t : Shift}

/-! ## The duty of one vehicle -/

/-- A shift that is assigned does not become the current one while another has begun. -/
theorem currentShift?_assign (hs : s.state = .waiting) (h : v.currentShift? = some t)
    (ht : t.state ≠ .waiting) : (v.assign s).currentShift? = some t := by
  obtain ⟨before, after, hsplit, hbegun, hwait⟩ := exists_comesTo h ht
  obtain ⟨front, back, hcut, hinsert⟩ := exists_split_of_insertByStart s v.shifts
  suffices hcome : ∃ before' after', ComesTo (v.assign s).shifts before' t after' by
    obtain ⟨before', after', hcome⟩ := hcome
    exact hcome.currentShift?_eq
  rcases List.append_eq_append_iff.1 (hcut.symm.trans hsplit) with
    ⟨middle, hbefore, hback⟩ | ⟨middle, hfront, hrest⟩
  · refine ⟨front ++ s :: middle, after, ?_, hbegun, hwait⟩
    simp [assign, hinsert, hback]
  · rcases List.cons_eq_append_iff.1 hrest with ⟨rfl, hback⟩ | ⟨middle', rfl, hafter⟩
    · refine ⟨before ++ [s], after, ?_, hbegun, hwait⟩
      simpa [assign, hinsert, hback] using hfront
    · refine ⟨before, middle' ++ s :: back, ?_, hbegun, fun b hb => ?_⟩
      · simp [assign, hinsert, hfront]
      · rw [List.mem_append, List.mem_cons] at hb
        rcases hb with hb | rfl | hb
        · exact hwait b (by simp [hafter, hb])
        · exact hs
        · exact hwait b (by simp [hafter, hb])

/-- The tasks of a vehicle suit its current shift also when one more is assigned. -/
theorem Duty.assign (h : v.Duty knows q) (hs : s.Fresh) (hfits : s.BreakFits) :
    (v.assign s).Duty knows q := by
  have hmoves : Moves v.shifts (v.assign s).shifts := .joined s hs
  have hmem {u : Shift} (hu : u ∈ (v.assign s).shifts) : u = s ∨ u ∈ v.shifts :=
    mem_insertByStart.1 hu
  have hbegun {u : Shift} (hu : u.isRunning) : u.state ≠ .waiting := fun hwait =>
    Shift.not_running_iff.2 (.inl hwait) hu
  refine ⟨hmoves.inOrder h.inOrder, fun u hu => ?_, fun u hu f hf => ?_, fun u hu hrest => ?_,
    ?_, ?_⟩
  · rcases hmem hu with rfl | hu
    · exact hfits
    · exact h.fits u hu
  · rcases hmem hu with rfl | hu
    · rw [hs] at hf
      cases hf
    · exact h.known u hu f hf
  · rcases hmem hu with rfl | hu
    · simp [hs.state_eq] at hrest
    · exact h.resting u hu hrest
  · rcases h.breaks with hnone | ⟨b, t, hb, ht, hsuits⟩
    · exact .inl hnone
    · exact .inr ⟨b, t, hb, currentShift?_assign hs.state_eq ht (hbegun hsuits.running), hsuits⟩
  · rcases h.ends with hnone | ⟨e, t, he, ht, hsuits⟩
    · exact .inl hnone
    · exact .inr ⟨e, t, he, currentShift?_assign hs.state_eq ht (hbegun hsuits.running), hsuits⟩

/-- A vehicle without a running shift has no task. -/
theorem Duty.idle (h : v.Duty knows q) (hidle : ∀ t ∈ v.shifts, ¬ t.isRunning) : q = {} := by
  obtain ⟨breaks, ends⟩ := q
  have hbreaks : breaks = [] := by
    rcases h.breaks with hnone | ⟨b, t, -, ht, hsuits⟩
    · exact hnone
    · exact absurd hsuits.running (hidle t (mem_of_currentShift? ht))
  have hends : ends = [] := by
    rcases h.ends with hnone | ⟨e, t, -, ht, hsuits⟩
    · exact hnone
    · exact absurd hsuits.running (hidle t (mem_of_currentShift? ht))
  rw [hbreaks, hends]

/-- A vehicle of which no shift was running has no tasks, so that they suit the shift that begins.
-/
theorem Duty.begin (h : v.Duty knows q) (hmoves : Moves v.shifts v'.shifts)
    (hidle : ∀ t ∈ v.shifts, ¬ t.isRunning) (hsplit : v.shifts = before ++ s :: after)
    (hsplit' : v'.shifts = before ++ { s with state := .started } :: after) :
    v'.Duty knows q := by
  have hempty := h.idle hidle
  subst hempty
  have hmem {u : Shift} (hu : u ∈ v'.shifts) :
      u = { s with state := .started } ∨ u ∈ v.shifts := by
    rw [hsplit', List.mem_append, List.mem_cons] at hu
    rcases hu with hu | hu | hu
    · exact .inr (by simp [hsplit, hu])
    · exact .inl hu
    · exact .inr (by simp [hsplit, hu])
  have hs : s ∈ v.shifts := by simp [hsplit]
  refine ⟨hmoves.inOrder h.inOrder, fun u hu => ?_, fun u hu f hf => ?_, fun u hu hrest => ?_,
    .inl rfl, .inl rfl⟩
  · rcases hmem hu with rfl | hu
    · exact h.fits s hs
    · exact h.fits u hu
  · rcases hmem hu with rfl | hu
    · exact h.known s hs f hf
    · exact h.known u hu f hf
  · rcases hmem hu with rfl | hu
    · cases hrest
    · exact absurd (Shift.isRunning_iff.2 (.inr hrest)) (hidle u hu)

/-- The tasks of a vehicle suit the shift that its queue has come to. -/
theorem Duty.suits (h : v.Duty knows q) (hcome : ComesTo v.shifts before s after) :
    (q.breaks = [] ∨ ∃ b, q.breaks = [b] ∧ b.Suits s) ∧
      (q.ends = [] ∨ ∃ e, q.ends = [e] ∧ e.Suits s) := by
  have hcurrent := hcome.currentShift?_eq
  constructor
  · refine h.breaks.imp_right ?_
    rintro ⟨b, t, hb, ht, hsuits⟩
    obtain rfl := Option.some.inj (hcurrent.symm.trans ht)
    exact ⟨b, hb, hsuits⟩
  · refine h.ends.imp_right ?_
    rintro ⟨e, t, he, ht, hsuits⟩
    obtain rfl := Option.some.inj (hcurrent.symm.trans ht)
    exact ⟨e, he, hsuits⟩

/-- When the shift that a queue has come to goes on or ends, the tasks have to suit what becomes
of it, and nothing else is to be shown. -/
theorem Duty.go (h : v.Duty knows q) (hcome : ComesTo v.shifts before s after)
    (hsplit : v'.shifts = before ++ t :: after) (hgoes : s.Goes t)
    (hknown : ∀ f ∈ t.breakFacility, knows f)
    (hresting : t.state = .onBreak → ∃ b, q'.breaks = [b] ∧ b.started)
    (hbreaks : q'.breaks = [] ∨ ∃ b, q'.breaks = [b] ∧ b.Suits t)
    (hends : q'.ends = [] ∨ ∃ e, q'.ends = [e] ∧ e.Suits t) : v'.Duty knows q' := by
  have hmoves : Moves v.shifts v'.shifts := hsplit ▸ .went before s t after hcome hgoes
  have hbegun : t.state ≠ .waiting := by
    rcases hgoes.next with hrun | hended
    · exact fun hwait => Shift.not_running_iff.2 (.inl hwait) hrun
    · simp [hended]
  have hcurrent : v'.currentShift? = some t :=
    ComesTo.currentShift?_eq ⟨hsplit, hbegun, hcome.waiting⟩
  have hothers {u : Shift} (hu : u ∈ v'.shifts) :
      u = t ∨ (u ∈ v.shifts ∧ ¬ u.isRunning) := by
    obtain ⟨-, hfront, -⟩ := inOrder_append_cons.1 (hcome.split ▸ h.inOrder)
    rw [hsplit, List.mem_append, List.mem_cons] at hu
    rcases hu with hu | hu | hu
    · exact .inr ⟨by simp [hcome.split, hu], fun hrun => (hfront u hu).alone ⟨hrun, hgoes.running⟩⟩
    · exact .inl hu
    · exact .inr ⟨by simp [hcome.split, hu], Shift.not_running_iff.2 (.inl (hcome.waiting u hu))⟩
  have hs : s ∈ v.shifts := by simp [hcome.split]
  refine ⟨hmoves.inOrder h.inOrder, fun u hu => ?_, fun u hu => ?_, fun u hu hrest => ?_, ?_, ?_⟩
  · rcases hothers hu with rfl | ⟨hu, -⟩
    · exact hgoes.plan ▸ h.fits s hs
    · exact h.fits u hu
  · rcases hothers hu with rfl | ⟨hu, -⟩
    · exact hknown
    · exact h.known u hu
  · rcases hothers hu with rfl | ⟨-, hstill⟩
    · exact hresting hrest
    · exact absurd (Shift.isRunning_iff.2 (.inr hrest)) hstill
  · exact hbreaks.imp_right fun ⟨b, hb, hsuits⟩ => ⟨b, t, hb, hcurrent, hsuits⟩
  · exact hends.imp_right fun ⟨e, he, hsuits⟩ => ⟨e, t, he, hcurrent, hsuits⟩

/-- A break that is reserved for a started shift, which had none, suits it and is its only one. What
is planned already would have its facility reserved. -/
theorem Duty.planBreak (h : v.Duty knows q) (hcome : ComesTo v.shifts before s after)
    (hstate : s.state = .started) (hplan : s.breakFacility = none) (b : PlannedBreak)
    (hahead : b.started = false) (hknown : knows b.task.facility)
    (hlasts : b.task.start ≤ b.task.finish) (hinTime : b.task.finish ≤ s.finish) :
    Duty { v with shifts := before ++ s.planBreak b.task.facility :: after } knows
      { q with breaks := q.breaks ++ [b] } := by
  obtain ⟨hbreaks, hends⟩ := h.suits hcome
  have hrun := Shift.isRunning_iff.2 (.inl hstate)
  have hnone : q.breaks = [] := by
    refine hbreaks.resolve_right ?_
    rintro ⟨b', -, hsuits⟩
    simp [hsuits.facility] at hplan
  refine h.go hcome rfl ⟨rfl, hrun, .inl hrun⟩ ?_ ?_ (.inr ⟨b, by simp [hnone], ?_⟩) ?_
  · rintro f ⟨⟩
    exact hknown
  · intro hrest
    simp [Shift.planBreak, hstate] at hrest
  · exact ⟨by simp [Shift.planBreak, hstate, hahead], rfl, hlasts, hinTime⟩
  · exact hends.imp_right fun ⟨e, he, hsuits⟩ =>
      ⟨e, he, hsuits.running, hsuits.reserved, hsuits.time⟩

/-- A shift end that is reserved for a started shift, which had none, suits it and is its only one.
-/
theorem Duty.planEnd (h : v.Duty knows q) (hcome : ComesTo v.shifts before s after)
    (hstate : s.state = .started) (hend : s.endFacility = none) {e : PlannedEnd}
    (htime : e.time = s.finish) (facility : FacilityId) :
    Duty { v with shifts := before ++ s.planEnd facility :: after } knows
      { q with ends := q.ends ++ [e] } := by
  obtain ⟨hbreaks, hends⟩ := h.suits hcome
  have hrun := Shift.isRunning_iff.2 (.inl hstate)
  have hnone : q.ends = [] := by
    refine hends.resolve_right ?_
    rintro ⟨e', -, hsuits⟩
    exact hsuits.reserved hend
  refine h.go hcome rfl ⟨rfl, hrun, .inl hrun⟩ ?_ ?_ ?_ (.inr ⟨e, by simp [hnone], ?_⟩)
  · exact h.known s (by simp [hcome.split])
  · intro hrest
    simp [Shift.planEnd, hstate] at hrest
  · exact hbreaks.imp_right fun ⟨b, hb, hsuits⟩ =>
      ⟨b, hb, hsuits.state, hsuits.facility, hsuits.lasts, hsuits.inTime⟩
  · exact ⟨hrun, by simp [Shift.planEnd], htime⟩

end Vehicle

/-! ## Decisions -/

namespace TaskQueue

variable {q : TaskQueue} {id : VehicleId}

/-- A break is queued for the vehicle that is told to take it. -/
theorem of_accept_takeBreak (q : TaskQueue) (vehicle id : VehicleId) (shift : ShiftId)
    (link : LinkId) (task : BreakTask) :
    (q.accept (.takeBreak vehicle shift link task)).of id = if vehicle = id then
      { q.of id with breaks := (q.of id).breaks ++ [{ vehicle, link, task }] } else q.of id := by
  by_cases hid : vehicle = id <;> simp [accept, of, hid]

/-- A shift end is queued for the vehicle that is told of it. -/
theorem of_accept_endShift (q : TaskQueue) (vehicle id : VehicleId) (shift : ShiftId)
    (facility : FacilityId) (link : LinkId) (time : Time) :
    (q.accept (.endShift vehicle shift facility link time)).of id = if vehicle = id then
      { q.of id with ends := (q.of id).ends ++ [{ vehicle, link, time }] } else q.of id := by
  by_cases hid : vehicle = id <;> simp [accept, of, hid]

end TaskQueue

namespace Dispatcher

variable {d d' : Dispatcher} {now : Time} {q q' : TaskQueue} {facilities : Facilities}
  {v v' : Vehicle} {e : ShiftEvent}

/-- What is done to one vehicle leaves the duty of all others alone. -/
theorem OnDuty.amend (h : d.OnDuty q) (hsound : (d.amend facilities v' e).Sound)
    (hknows : ∀ f, facilities.knows f = d.facilities.knows f)
    (hothers : ∀ id, id ≠ v'.id → q'.of id = q.of id)
    (hown : v'.Duty d.facilities.knows (q'.of v'.id)) : (d.amend facilities v' e).OnDuty q' := by
  refine ⟨hsound, h.fits, fun id u hu => ?_, fun id hnone => ?_⟩
  · rw [amend_facilities, funext hknows]
    rw [amend_vehicles, Table.find?_insert] at hu
    split at hu
    · next hid =>
      obtain rfl := Option.some.inj hu
      exact hid ▸ hown
    · next hid => exact hothers id (Ne.symm hid) ▸ h.duty id u hu
  · rw [amend_vehicles, Table.find?_insert] at hnone
    split at hnone
    · cases hnone
    · next hid => exact (hothers id (Ne.symm hid)).trans (h.nobody id hnone)

/-- The tasks suit as before when an open shift is dropped. -/
theorem OnDuty.drop {before after : List Shift} {s : Shift} (h : d.OnDuty q)
    (hopen : d.unassigned = before ++ s :: after) :
    OnDuty { d with unassigned := before ++ after } q := by
  have hsub : ∀ t ∈ before ++ after, t ∈ d.unassigned := by
    rw [hopen]
    exact fun t ht => ((List.sublist_cons_self s after).append_left before).subset ht
  exact ⟨⟨h.sound.named, fun t ht => h.sound.fresh t (hsub t ht)⟩,
    fun t ht => h.fits t (hsub t ht), h.duty, h.nobody⟩

/-- A decision that is accepted keeps all tasks suited. -/
theorem Decision.onDuty {i : Option Instruction} (h : d.Decision now d' i) (hd : d.OnDuty q) :
    d'.OnDuty (i.toList.foldl TaskQueue.accept q) := by
  have hsound : d'.Sound := (Act.decided h).sound hd.sound
  cases h with
  | tick => exact ⟨hsound, hd.fits, hd.duty, hd.nobody⟩
  | expire before s after hopen => exact hd.drop hopen
  | assign before s after horizon v hopen hlasts hhorizon hstart hv =>
    have hs : s ∈ d.unassigned := by simp [hopen]
    refine (hd.drop hopen).amend hsound (fun _ => rfl) (fun _ _ => rfl) ?_
    exact (hd.duty v.id v hv).assign (hd.sound.fresh s hs) (hd.fits s hs)
  | start v before s after hv hrunning hsplit hbefore hwait hdue =>
    have hidle : ∀ t ∈ v.shifts, ¬ t.isRunning := List.find?_eq_none.1 hrunning
    refine hd.amend hsound (by simp) (fun _ _ => rfl) ?_
    have hbegun := Vehicle.Moves.begun before s after hsplit hbefore hwait hidle
    exact (hd.duty v.id v hv).begin hbegun hidle hsplit rfl
  | planBreak v before s after w task facilities facility hv hcome hnow hdecide hw hregister
      hfacility hbegin hfinish =>
    obtain ⟨hstate, hplan, -, w', hw', hlate⟩ := decideOnBreak_eq_ok_some hdecide
    obtain rfl := Option.some.inj (hw.symm.trans hw')
    have hduty := hd.duty v.id v hv
    have hfits := hduty.fits s (by simp [hcome.split]) w hw
    have hinWindow := (w.finish_le_iff (hnow ▸ hlate) hbegin hfinish).2 hfits.1
    have hlasts : task.start ≤ task.finish :=
      UInt64.le_iff_toNat_le.2 (Nat.le.intro (Time.plus_eq_ok_iff.1 hfinish))
    refine hd.amend hsound (Facilities.knows_of_register hregister) (fun id hid => ?_) ?_
    · exact (q.of_accept_takeBreak v.id id s.id facility.link task).trans (if_neg (Ne.symm hid))
    · have hof := (q.of_accept_takeBreak v.id v.id s.id facility.link task).trans (if_pos rfl)
      have hknown := Facilities.knows_of_register_self hregister
      exact hof ▸ hduty.planBreak hcome hstate hplan
        { vehicle := v.id, link := facility.link, task } rfl hknown hlasts
        (UInt64.le_trans hinWindow hfits.2)
  | planEnd v before s after horizon facility facilities hv hcome hstate hend hpending hhorizon
      hsoon hfacility hregister =>
    refine hd.amend hsound (Facilities.knows_of_register hregister) (fun id hid => ?_) ?_
    · exact (q.of_accept_endShift v.id id s.id facility.id facility.link s.finish).trans
        (if_neg (Ne.symm hid))
    · have hof := (q.of_accept_endShift v.id v.id s.id facility.id facility.link s.finish).trans
        (if_pos rfl)
      exact hof ▸ (hd.duty v.id v hv).planEnd hcome hstate hend rfl facility.id

/-- Decisions that are all accepted keep all tasks suited. -/
theorem Decisions.onDuty {out : List Instruction} (h : Decisions now d d' out) (hd : d.OnDuty q) :
    d'.OnDuty (out.foldl TaskQueue.accept q) := by
  induction h generalizing q with
  | nil => exact hd
  | cons hfirst _ ih =>
    rw [List.foldl_append]
    exact ih (hfirst.onDuty hd)

/-! ## Carrying out -/

variable {done rest : List PlannedBreak} {b b' : PlannedBreak} {ends : List PlannedEnd}

/-- The vehicle of a queued break, whose current shift the break suits. No other break is queued
for it. -/
theorem OnDuty.vehicle_of_break (h : d.OnDuty ⟨done ++ b :: rest, ends⟩) :
    ∃ v before s after, v.id = b.vehicle ∧ d.vehicles.find? v.id = some v ∧
      Vehicle.ComesTo v.shifts before s after ∧ b.Suits s ∧
      done.filter (·.vehicle = v.id) = [] ∧ rest.filter (·.vehicle = v.id) = [] := by
  have hmem : b ∈ (TaskQueue.of ⟨done ++ b :: rest, ends⟩ b.vehicle).breaks := by
    simp [TaskQueue.of]
  cases hv : d.vehicles.find? b.vehicle with
  | none =>
    rw [h.nobody b.vehicle hv] at hmem
    cases hmem
  | some v =>
    have hid := h.sound.named b.vehicle v hv
    rcases (h.duty b.vehicle v hv).breaks with hnone | ⟨c, s, hone, hs, hsuits⟩
    · rw [hnone] at hmem
      cases hmem
    · obtain ⟨rfl, hfront, hback⟩ := List.eq_of_filter_eq_singleton (by simp) hone
      have hbegun : s.state ≠ .waiting := fun hwait =>
        Shift.not_running_iff.2 (.inl hwait) hsuits.running
      obtain ⟨before, after, hcome⟩ := Vehicle.exists_comesTo hs hbegun
      exact ⟨v, before, s, after, hid, hid ▸ hv, hcome, hsuits, hid ▸ hfront, hid ▸ hback⟩

/-- A queued break that has not started can start. -/
theorem OnDuty.startBreak (h : d.OnDuty ⟨done ++ b :: rest, ends⟩) (hb : b.started = false)
    (now : Time) : ∃ d', d.startBreak b.vehicle b.link now = .ok d' ∧
      d'.OnDuty ⟨done ++ { b with started := true } :: rest, ends⟩ := by
  obtain ⟨v, before, s, after, hid, hv, hcome, hsuits, hfront, hback⟩ := h.vehicle_of_break
  obtain ⟨vehicle, link, task, started⟩ := b
  obtain rfl : v.id = vehicle := hid
  obtain rfl : started = false := hb
  have hstate : s.state = .started := hsuits.state
  have hrun := Shift.isRunning_iff.2 (.inl hstate)
  have hreport : d.Report now _ := .breakStarted v before s after link hv hcome hstate
  have hduty := h.duty v.id v hv
  refine ⟨_, startBreak_eq hv hcome hstate link now, ?_⟩
  refine h.amend ((Act.reported hreport).sound h.sound) (fun _ => rfl) (fun id hne => ?_) ?_
  · simp [TaskQueue.of, Ne.symm hne]
  · have hof : TaskQueue.of ⟨done ++ ⟨v.id, link, task, true⟩ :: rest, ends⟩ v.id =
        ⟨[⟨v.id, link, task, true⟩], ends.filter (·.vehicle = v.id)⟩ := by
      simp [TaskQueue.of, hfront, hback]
    refine hof ▸ hduty.go hcome rfl ⟨rfl, hrun, .inl rfl⟩ ?_ (fun _ => ⟨_, rfl, rfl⟩)
      (.inr ⟨_, rfl, ?_⟩) ?_
    · exact hduty.known s (by simp [hcome.split])
    · exact ⟨rfl, hsuits.facility, hsuits.lasts, hsuits.inTime⟩
    · exact (hduty.suits hcome).2.imp_right fun ⟨e, he, hsuits⟩ =>
        ⟨e, he, rfl, hsuits.reserved, hsuits.time⟩

/-- A queued break that has started can end. -/
theorem OnDuty.endBreak (h : d.OnDuty ⟨done ++ b :: rest, ends⟩) (hb : b.started = true)
    (now : Time) : ∃ d', d.endBreak b.vehicle b.task now = .ok d' ∧
      d'.OnDuty ⟨done ++ rest, ends⟩ := by
  obtain ⟨v, before, s, after, hid, hv, hcome, hsuits, hfront, hback⟩ := h.vehicle_of_break
  obtain ⟨vehicle, link, task, started⟩ := b
  obtain rfl : v.id = vehicle := hid
  obtain rfl : started = true := hb
  have hstate : s.state = .onBreak := hsuits.state
  have hrun := Shift.isRunning_iff.2 (.inr hstate)
  have hduty := h.duty v.id v hv
  have hs : s ∈ v.shifts := by simp [hcome.split]
  obtain ⟨had, facilities, hslot⟩ :=
    Facilities.exists_deregister (hduty.known s hs task.facility hsuits.facility) v.id
  have hreport : d.Report now _ :=
    .breakEnded v before s after task had facilities hv hcome hstate hslot
  refine ⟨_, endBreak_eq hv hcome hstate hslot now, ?_⟩
  refine h.amend ((Act.reported hreport).sound h.sound) (Facilities.knows_of_deregister hslot)
    (fun id hne => ?_) ?_
  · simp [TaskQueue.of, Ne.symm hne]
  · have hof : TaskQueue.of ⟨done ++ rest, ends⟩ v.id = ⟨[], ends.filter (·.vehicle = v.id)⟩ := by
      simp [TaskQueue.of, hfront, hback]
    refine hof ▸ hduty.go hcome rfl ⟨rfl, hrun, .inl rfl⟩ ?_ (fun hrest => ?_) (.inl rfl) ?_
    · exact hduty.known s hs
    · cases hrest
    · exact (hduty.suits hcome).2.imp_right fun ⟨e, he, hsuits⟩ =>
        ⟨e, he, rfl, hsuits.reserved, hsuits.time⟩

variable {front back : List PlannedEnd} {e : PlannedEnd} {breaks : List PlannedBreak}

/-- A shift end that is due can be carried out, if every break that is due is over. A break of the
shift would be over before the shift ends, and so would be gone. -/
theorem OnDuty.endShift (h : d.OnDuty ⟨breaks, front ++ e :: back⟩) (hdue : e.time ≤ now)
    (hover : ∀ b ∈ breaks, now < b.task.finish) :
    ∃ d', d.endShift e.vehicle e.link now = .ok d' ∧ d'.OnDuty ⟨breaks, front ++ back⟩ := by
  have hmem : e ∈ (TaskQueue.of ⟨breaks, front ++ e :: back⟩ e.vehicle).ends := by
    simp [TaskQueue.of]
  obtain ⟨vehicle, link, time⟩ := e
  cases hv : d.vehicles.find? vehicle with
  | none =>
    rw [h.nobody vehicle hv] at hmem
    cases hmem
  | some v =>
    obtain rfl := h.sound.named vehicle v hv
    have hduty := h.duty v.id v hv
    rcases hduty.ends with hnone | ⟨c, s, hone, hs, hsuits⟩
    · rw [hnone] at hmem
      cases hmem
    obtain ⟨rfl, hfront, hback⟩ := List.eq_of_filter_eq_singleton (by simp) hone
    have hbegun : s.state ≠ .waiting := fun hwait =>
      Shift.not_running_iff.2 (.inl hwait) hsuits.running
    obtain ⟨before, after, hcome⟩ := Vehicle.exists_comesTo hs hbegun
    have hmemShift : s ∈ v.shifts := by simp [hcome.split]
    have hbreaks :
        (TaskQueue.of ⟨breaks, front ++ ⟨v.id, link, time⟩ :: back⟩ v.id).breaks = [] := by
      refine (hduty.suits hcome).1.resolve_right ?_
      rintro ⟨b, hb, hbsuits⟩
      have hbmem : b ∈ breaks := by
        have hone : breaks.filter (·.vehicle = v.id) = [b] := hb
        exact (List.mem_filter.1 (hone ▸ List.mem_singleton_self b)).1
      have hlate := hover b hbmem
      have hin := UInt64.le_trans hbsuits.inTime (hsuits.time ▸ hdue)
      exact UInt64.not_le.2 hlate hin
    have hstate : s.state = .started := by
      refine (Shift.isRunning_iff.1 hsuits.running).resolve_right fun hrest => ?_
      obtain ⟨b, hb, -⟩ := hduty.resting s hmemShift hrest
      simp [hbreaks] at hb
    obtain ⟨facilities, hslot⟩ := exists_released (fun _ => hduty.known s hmemShift) v.id
    have hreport : d.Report now _ :=
      .shiftEnded v before s after link facilities hv hcome hstate hslot
    refine ⟨_, endShift_eq hv hcome hstate hslot link now, ?_⟩
    refine h.amend ((Act.reported hreport).sound h.sound) hslot.knows_eq (fun id hne => ?_) ?_
    · simp [TaskQueue.of, Ne.symm hne]
    · have hof : TaskQueue.of ⟨breaks, front ++ back⟩ v.id = ⟨[], []⟩ := by
        have hbreaks' : breaks.filter (·.vehicle = v.id) = [] := hbreaks
        simp [TaskQueue.of, hfront, hback, hbreaks']
      refine hof ▸ hduty.go hcome rfl ⟨rfl, hsuits.running, .inr rfl⟩ (fun f hf => ?_)
        (fun hrest => ?_) (.inl rfl) (.inl rfl)
      · refine hduty.known s hmemShift f ?_
        cases htaken : s.breakTaken <;> simp [Shift.over, htaken] at hf
        exact hf
      · cases hrest

end Dispatcher

namespace TaskQueue

variable {d : Dispatcher} {now : Time} {done rest : List PlannedBreak} {b : PlannedBreak}
  {ends : List PlannedEnd}

/-- The breaks that are left when those that were finished are struck off. -/
def left (marked : List (PlannedBreak × Bool)) : List PlannedBreak :=
  (marked.filter fun m => !m.2).map (·.1)

/-- A break that has started is ended without fault if its end is due. -/
private theorem onDuty_finishBreak (h : d.OnDuty ⟨done ++ b :: rest, ends⟩) (hb : b.started = true)
    (now : Time) :
    let o := finishBreak d now b
    o.fault = none ∧
      o.dispatcher.OnDuty ⟨done ++ (if o.finished then rest else o.planned :: rest), ends⟩ ∧
      (o.finished = false → now < o.planned.task.finish) := by
  by_cases hdue : b.task.finish ≤ now
  · obtain ⟨d', hend, hd'⟩ := h.endBreak hb now
    simpa [finishBreak, hb, hdue, hend] using hd'
  · simpa [finishBreak, hb, hdue] using ⟨h, UInt64.not_le.1 hdue⟩

/-- What is due of a break is carried out without fault, and a break that stays is not over
yet. -/
private theorem onDuty_runBreak (h : d.OnDuty ⟨done ++ b :: rest, ends⟩) (now : Time) :
    let o := runBreak d now b
    o.fault = none ∧
      o.dispatcher.OnDuty ⟨done ++ (if o.finished then rest else o.planned :: rest), ends⟩ ∧
      (o.finished = false → now < o.planned.task.finish) := by
  cases hb : b.started with
  | true =>
    have hrun : runBreak d now b = finishBreak d now b := by simp [runBreak, hb]
    rw [hrun]
    exact onDuty_finishBreak h hb now
  | false =>
    by_cases hdue : b.task.start ≤ now
    · obtain ⟨d', hstart, hd'⟩ := h.startBreak hb now
      have hrun : runBreak d now b = finishBreak d' now { b with started := true } := by
        simp [runBreak, hb, hdue, hstart]
      rw [hrun]
      exact onDuty_finishBreak hd' rfl now
    · obtain ⟨_, _, _, _, -, -, -, hsuits, -⟩ := h.vehicle_of_break
      have hlate := UInt64.lt_of_lt_of_le (UInt64.not_le.1 hdue) hsuits.lasts
      simpa [runBreak, finishBreak, hb, hdue] using ⟨h, hlate⟩

/-- All breaks that are due are carried out without fault, and none that stays is over yet. -/
theorem onDuty_runBreaks (done bs : List PlannedBreak) (h : d.OnDuty ⟨done ++ bs, ends⟩)
    (hdone : ∀ b ∈ done, now < b.task.finish) :
    let (marked, d', fault) := runBreaks now d bs
    fault = none ∧ d'.OnDuty ⟨done ++ left marked, ends⟩ ∧
      ∀ b ∈ done ++ left marked, now < b.task.finish := by
  induction bs generalizing d done with
  | nil => exact ⟨rfl, h, by simpa [left, runBreaks] using hdone⟩
  | cons b rest ih =>
    obtain ⟨hfault, hd', hlate⟩ := onDuty_runBreak h now
    unfold runBreaks
    simp only [hfault]
    cases hfinished : (runBreak d now b).finished with
    | true =>
      simp only [hfinished, if_true] at hd'
      simpa [left] using ih done hd' hdone
    | false =>
      simp only [hfinished, Bool.false_eq_true, if_false] at hd'
      rw [List.append_cons] at hd'
      have hdone' : ∀ c ∈ done ++ [(runBreak d now b).planned], now < c.task.finish := by
        simpa [or_imp, forall_and] using ⟨hdone, hlate hfinished⟩
      simpa [left] using ih (done ++ [(runBreak d now b).planned]) hd' hdone'

/-- All shift ends that are due are carried out without fault once the breaks that are due are
over. -/
theorem onDuty_runEnds {breaks : List PlannedBreak} {due later : List PlannedEnd}
    (h : d.OnDuty ⟨breaks, due ++ later⟩) (hover : ∀ b ∈ breaks, now < b.task.finish)
    (hdue : ∀ e ∈ due, e.time ≤ now) :
    let (d', fault) := runEnds now d due
    fault = none ∧ d'.OnDuty ⟨breaks, later⟩ := by
  induction due generalizing d with
  | nil => exact ⟨rfl, h⟩
  | cons e rest ih =>
    have hfirst : d.OnDuty ⟨breaks, [] ++ e :: (rest ++ later)⟩ := h
    obtain ⟨d', hend, hd'⟩ := hfirst.endShift (hdue e List.mem_cons_self) hover
    unfold runEnds
    simp only [hend]
    exact ih hd' fun c hc => hdue c (List.mem_cons_of_mem e hc)

/-- The order in which shift ends are queued does not matter, as no vehicle has two. -/
theorem onDuty_of_perm {breaks : List PlannedBreak} {es es' : List PlannedEnd}
    (h : d.OnDuty ⟨breaks, es⟩) (hperm : es.Perm es') : d.OnDuty ⟨breaks, es'⟩ := by
  have hsame (id : VehicleId) : of ⟨breaks, es'⟩ id = of ⟨breaks, es⟩ id := by
    have hfilter := hperm.filter fun e : PlannedEnd => decide (e.vehicle = id)
    have hfew : es.filter (·.vehicle = id) = [] ∨ ∃ e, es.filter (·.vehicle = id) = [e] := by
      cases hv : d.vehicles.find? id with
      | none => exact .inl (congrArg TaskQueue.ends (h.nobody id hv))
      | some v => exact (h.duty id v hv).ends.imp_right fun ⟨e, _, he, _⟩ => ⟨e, he⟩
    suffices hes : es'.filter (·.vehicle = id) = es.filter (·.vehicle = id) by
      simp only [of, hes]
    rcases hfew with hnone | ⟨e, he⟩
    · rw [hnone] at hfilter ⊢
      exact List.nil_perm.1 hfilter
    · rw [he] at hfilter ⊢
      exact List.singleton_perm.1 hfilter |>.symm
  exact ⟨h.sound, h.fits, fun id v hv => hsame id ▸ h.duty id v hv,
    fun id hv => (hsame id).trans (h.nobody id hv)⟩

/-- Whatever is due is carried out without fault, and the tasks that are left suit. -/
theorem onDuty_executeDue {q : TaskQueue} (h : d.OnDuty q) (now : Time) :
    let (q', d', fault) := q.executeDue d now
    fault = none ∧ d'.OnDuty q' := by
  have hnone : ∀ b ∈ ([] : List PlannedBreak), now < b.task.finish := by simp
  have hbreaks := onDuty_runBreaks [] q.breaks h hnone
  unfold executeDue
  revert hbreaks
  rcases runBreaks now d q.breaks with ⟨marked, d₁, fault⟩
  intro hbreaks
  obtain ⟨rfl, hd₁, hover⟩ := hbreaks
  have hperm := (List.filter_append_perm (·.time ≤ now) q.ends).symm
  have hdue : ∀ e ∈ q.ends.filter (·.time ≤ now), e.time ≤ now :=
    fun e he => of_decide_eq_true (List.mem_filter.1 he).2
  have hends := onDuty_runEnds (onDuty_of_perm hd₁ hperm) hover hdue
  simp only [List.partition_eq_filter_filter]
  exact hends

end TaskQueue

/-- Where nothing has been done, all tasks suit if every break fits: there are none. -/
theorem Dispatcher.Untouched.onDuty {d : Dispatcher} {plans : List ShiftPlan}
    (h : d.Untouched plans) (hfits : ∀ plan ∈ plans, plan.BreakFits) : d.OnDuty {} := by
  refine ⟨h.sound, fun t ht => hfits _ (h.planned t ht), fun id v hv => ?_, fun _ _ => rfl⟩
  have hnone : ∀ t, t ∉ v.shifts := by simp [h.idle id v hv]
  refine ⟨?_, fun t ht => absurd ht (hnone t), fun t ht => absurd ht (hnone t),
    fun t ht => absurd ht (hnone t), .inl rfl, .inl rfl⟩
  rw [h.idle id v hv]
  exact .nil

end DialARide
