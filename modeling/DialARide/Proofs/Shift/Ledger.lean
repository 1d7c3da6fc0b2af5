import DialARide.Proofs.Shift.History
import DialARide.Proofs.Shift.Tour

/-!
# The shift that a task was asked for

The queue of an office keeps the vehicle of a task and not the shift, and what falls due is
carried out on whatever shift of the vehicle is the current one. Here every task is followed from
the instruction that asks for it to the report by which it is carried out. A shift end always
meets the shift that it was asked for. A break goes astray exactly when that shift has ended in
the meantime: the break is given up with the shift, but its task stays in the queue.
-/

namespace DialARide

/-! ## Tasks with their tours -/

/-- The queue with the tour that each task was asked for. -/
structure Ledger where
  breaks : List (Tour × PlannedBreak) := []
  ends : List (Tour × PlannedEnd) := []

/-- A task that was carried out: what was put down, the tour that it was asked for, and the tour
that it met. -/
structure Deed where
  kind : ShiftEventKind
  asked : Tour
  met : Tour
  deriving DecidableEq, Repr

/-- The kind, the vehicle and the name of the shift of what was put down. -/
def ShiftEvent.note (e : ShiftEvent) : ShiftEventKind × VehicleId × ShiftId :=
  (e.kind, e.vehicle, e.shift)

/-- What a deed says of what was put down. -/
def Deed.note (x : Deed) : ShiftEventKind × VehicleId × ShiftId :=
  (x.kind, x.met.vehicle, x.met.shift)

/-- What a task led to, told from what was put down. -/
def Deed.between (asked : Tour) (d d' : Dispatcher) : List Deed :=
  (d'.events.drop d.events.length).map fun e =>
    ⟨e.kind, asked, ⟨e.vehicle, e.shift, d.endedBy e.vehicle⟩⟩

namespace Ledger

/-- The queue without the tours. -/
def tasks (l : Ledger) : TaskQueue := ⟨l.breaks.map (·.2), l.ends.map (·.2)⟩

/-- Queues what an instruction asks to be done later, for the shift that it names. -/
def accept (endedBy : VehicleId → Nat) (l : Ledger) : Instruction → Ledger
  | .takeBreak vehicle shift link task =>
    { l with breaks := l.breaks ++ [(⟨vehicle, shift, endedBy vehicle⟩, { vehicle, link, task })] }
  | .endShift vehicle shift _ link time =>
    { l with ends := l.ends ++ [(⟨vehicle, shift, endedBy vehicle⟩, { vehicle, link, time })] }
  | .assigned .. | .started .. => l

/-- The breaks when what is due of them was carried out, up to the first fault, each with a mark
if it is done with. -/
def markBreaks (now : Time) :
    Dispatcher → List (Tour × PlannedBreak) → List ((Tour × PlannedBreak) × Bool)
  | _, [] => []
  | d, (t, b) :: rest =>
    let outcome := TaskQueue.runBreak d now b
    ((t, outcome.planned), outcome.finished) ::
      match outcome.fault with
      | some _ => rest.map (·, false)
      | none => markBreaks now outcome.dispatcher rest

/-- What is carried out of breaks, up to the first fault. -/
def breakDeeds (now : Time) : Dispatcher → List (Tour × PlannedBreak) → List Deed
  | _, [] => []
  | d, (t, b) :: rest =>
    let outcome := TaskQueue.runBreak d now b
    Deed.between t d outcome.dispatcher ++
      match outcome.fault with
      | some _ => []
      | none => breakDeeds now outcome.dispatcher rest

/-- What is carried out of shift ends, up to the first fault. -/
def endDeeds (now : Time) : Dispatcher → List (Tour × PlannedEnd) → List Deed
  | _, [] => []
  | d, (t, e) :: rest =>
    match d.endShift e.vehicle e.link now with
    | .ok d' => Deed.between t d d' ++ endDeeds now d' rest
    | .error _ => []

/-- What is left when whatever is due was carried out, and what was carried out. -/
def carryOut (l : Ledger) (d : Dispatcher) (now : Time) : Ledger × List Deed :=
  let marked := markBreaks now d l.breaks
  match TaskQueue.runBreaks now d l.tasks.breaks with
  | (_, _, some _) => ({ l with breaks := marked.map (·.1) }, breakDeeds now d l.breaks)
  | (_, d', none) =>
    let (due, later) := l.ends.partition (·.2.time ≤ now)
    ({ breaks := (marked.filter fun m => !m.2).map (·.1), ends := later },
      breakDeeds now d l.breaks ++ endDeeds now d' due)

end Ledger

/-! ## Tours change nothing -/

namespace Ledger

variable {l : Ledger} {d : Dispatcher} {now : Time}

/-- A ledger accepts what its queue accepts. -/
theorem tasks_accept (endedBy : VehicleId → Nat) (l : Ledger) (i : Instruction) :
    (l.accept endedBy i).tasks = l.tasks.accept i := by
  cases i <;> simp [accept, tasks, TaskQueue.accept]

/-- A ledger accepts what its queue accepts, for any number of instructions. -/
theorem tasks_foldl_accept (endedBy : VehicleId → Nat) (l : Ledger) (out : List Instruction) :
    (out.foldl (accept endedBy) l).tasks = out.foldl TaskQueue.accept l.tasks := by
  induction out generalizing l with
  | nil => rfl
  | cons i rest ih => rw [List.foldl_cons, List.foldl_cons, ih, tasks_accept]

/-- A break that is queued is asked for the shift that its vehicle has come to. -/
theorem number_of_accepted {endedBy : VehicleId → Nat} {out : List Instruction}
    {p : Tour × PlannedBreak} (hp : p ∈ (out.foldl (accept endedBy) l).breaks) :
    p ∈ l.breaks ∨ p.1.number = endedBy p.1.vehicle := by
  induction out generalizing l with
  | nil => exact .inl hp
  | cons i rest ih =>
    rcases ih hp with hp | hnumber
    · cases i with
      | takeBreak vehicle shift link task =>
        rcases List.mem_append.1 hp with hp | hp
        · exact .inl hp
        · obtain rfl := List.mem_singleton.1 hp
          exact .inr rfl
      | assigned | started | endShift => exact .inl hp
    · exact .inr hnumber

/-- The breaks are marked as they are without their tours. -/
theorem map_markBreaks (now : Time) (d : Dispatcher) (bs : List (Tour × PlannedBreak)) :
    (markBreaks now d bs).map (fun m => (m.1.2, m.2)) =
      (TaskQueue.runBreaks now d (bs.map (·.2))).1 := by
  induction bs generalizing d with
  | nil => rfl
  | cons p rest ih =>
    cases hfault : (TaskQueue.runBreak d now p.2).fault with
    | none => simp [markBreaks, TaskQueue.runBreaks, hfault, ih]
    | some fault => simp [markBreaks, TaskQueue.runBreaks, hfault, Function.comp_def]

/-- A ledger is carried out as its queue is. -/
theorem tasks_carryOut (l : Ledger) (d : Dispatcher) (now : Time) :
    (l.carryOut d now).1.tasks = (l.tasks.executeDue d now).1 := by
  have hmarked : _ = (TaskQueue.runBreaks now d l.tasks.breaks).1 := map_markBreaks now d l.breaks
  unfold carryOut TaskQueue.executeDue
  revert hmarked
  rcases TaskQueue.runBreaks now d l.tasks.breaks with ⟨marked, d', _ | fault⟩
  · rintro rfl
    simp [tasks, List.partition_eq_filter_filter, List.filter_map, List.map_map, Function.comp_def]
  · rintro rfl
    simp [tasks, List.map_map, Function.comp_def]

end Ledger

/-! ## What the ledger tells -/

/-- The tasks of a ledger belong to the vehicles of their tours. The tour of a break is under way
or has ended, and that of a shift end is under way with its end reserved. No vehicle has two shift
ends. -/
structure Ledger.Follows (l : Ledger) (d : Dispatcher) : Prop where
  breaks : ∀ p ∈ l.breaks, p.1.vehicle = p.2.vehicle ∧ p.1.Begun d
  ends : ∀ p ∈ l.ends, p.1.vehicle = p.2.vehicle ∧ ∃ s, p.1.UnderWay d s ∧ s.endFacility ≠ none
  alone : (l.ends.map (·.2.vehicle)).Nodup

/-- What was carried out met the tour that it was asked for, or it was a break, and that tour had
ended before. -/
def Deed.Fair (x : Deed) : Prop :=
  x.met.vehicle = x.asked.vehicle ∧
    (x.met = x.asked ∨ x.kind ≠ .ended ∧ x.asked.number < x.met.number)

namespace Dispatcher

variable {d d' d'' : Dispatcher} {now : Time} {id : VehicleId} {l : Ledger}

/-- A decision that is accepted leaves the ledger true. An end that is planned already would have
its facility reserved. -/
theorem Decision.follows {i : Option Instruction} (h : d.Decision now d' i) (hd : d.Sound)
    (hl : l.Follows d) : (i.toList.foldl (Ledger.accept d'.endedBy) l).Follows d' := by
  have hkept : l.Follows d' := by
    refine ⟨fun p hp => (hl.breaks p hp).imp_right (h.begun hd), fun p hp => ?_, hl.alone⟩
    obtain ⟨hid, s, hs, hend⟩ := hl.ends p hp
    obtain ⟨s', hs', hend'⟩ := h.underWay hd hs
    exact ⟨hid, s', hs', hend' hend⟩
  cases h with
  | tick | expire | assign | start => exact hkept
  | planBreak v before s after w task facilities facility hv hcome hnow hdecide =>
    have hstate := (decideOnBreak_eq_ok_some hdecide).1
    have hrun : (s.planBreak task.facility).isRunning := Shift.isRunning_iff.2 (.inl hstate)
    have hcome' := hcome.replace (t := s.planBreak task.facility)
      (by simp [Shift.planBreak, hstate])
    refine ⟨fun p hp => ?_, hkept.ends, hkept.alone⟩
    rcases List.mem_append.1 hp with hp | hp
    · exact hkept.breaks p hp
    · obtain rfl := List.mem_singleton.1 hp
      exact ⟨rfl, .inr ⟨s.planBreak task.facility, rfl, rfl, hrun, _, find?_amend_self ..,
        hcome'.currentShift?_eq⟩⟩
  | planEnd v before s after horizon facility facilities hv hcome hstate hend =>
    have hrun : (s.planEnd facility.id).isRunning := Shift.isRunning_iff.2 (.inl hstate)
    have hcome' := hcome.replace (t := s.planEnd facility.id) (by simp [Shift.planEnd, hstate])
    have hnew : v.id ∉ l.ends.map (·.2.vehicle) := by
      rintro hmem
      obtain ⟨p, hp, hid⟩ := List.mem_map.1 hmem
      obtain ⟨hsame, c, hc, hreserved⟩ := hl.ends p hp
      obtain rfl := eq_of_comesTo hc hv (hid.symm.trans hsame.symm) hcome
      exact hreserved hend
    refine ⟨hkept.breaks, fun p hp => ?_, ?_⟩
    · rcases List.mem_append.1 hp with hp | hp
      · exact hkept.ends p hp
      · obtain rfl := List.mem_singleton.1 hp
        exact ⟨rfl, s.planEnd facility.id, ⟨rfl, rfl, hrun, _, find?_amend_self ..,
          hcome'.currentShift?_eq⟩, by simp [Shift.planEnd]⟩
    · refine ((List.perm_append_singleton _ l.ends).map (·.2.vehicle)).nodup_iff.2 ?_
      exact List.nodup_cons.2 ⟨hnew, hkept.alone⟩

/-- No decision ends a shift. -/
theorem Decisions.endedBy_eq {out : List Instruction} (h : Decisions now d d' out) :
    d'.endedBy = d.endedBy := by
  induction h with
  | nil => rfl
  | cons hfirst _ ih => exact ih.trans hfirst.endedBy_eq

/-- Decisions that are all accepted leave the ledger true. -/
theorem Decisions.follows {out : List Instruction} (h : Decisions now d d' out) (hd : d.Sound)
    (hl : l.Follows d) : (out.foldl (Ledger.accept d'.endedBy) l).Follows d' := by
  induction h generalizing l with
  | nil => exact hl
  | cons hfirst hrest ih =>
    have hone := hfirst.follows hd hl
    rw [← hrest.endedBy_eq] at hone
    rw [List.foldl_append]
    exact ih ((Act.decided hfirst).sound hd) hone

/-! ## Carrying out -/

/-- What was put down from one state to another tells of one vehicle. No shift of it has ended,
and all of it is under the name of the tour that was under way, if one was. -/
structure Logged (now : Time) (d d' : Dispatcher) (id : VehicleId) (es : List ShiftEvent) :
    Prop where
  reports : Reports now d d'
  events : d'.events = d.events ++ es
  own : ∀ e ∈ es, e.vehicle = id ∧ e.kind ≠ .ended
  named : ∀ (t : Tour) (s : Shift), t.UnderWay d s → t.vehicle = id → ∀ e ∈ es, e.shift = t.shift

variable {es es' : List ShiftEvent}

theorem Logged.nil (d : Dispatcher) (id : VehicleId) : Logged now d d id [] :=
  ⟨.nil d, by simp, by simp, by simp⟩

/-- A report that ends no shift tells of the vehicle that made it. -/
theorem Report.logged {e : ShiftEvent} (h : d.Report now d') (hevents : d'.events = d.events ++ [e])
    (hid : e.vehicle = id) (hkind : e.kind ≠ .ended) : Logged now d d' id [e] := by
  refine ⟨h.reports, hevents, by simp [hid, hkind], fun t s ht hown => ?_⟩
  simpa using h.shift_eq hevents ht (hid.trans hown.symm)

/-- Where no shift has ended, the tours count as before. -/
theorem Logged.endedBy_eq (h : Logged now d d' id es) : d'.endedBy = d.endedBy :=
  funext fun _ => endedBy_append h.events fun e he _ => (h.own e he).2

/-- What was put down of a vehicle goes on with what is put down of it next. -/
theorem Logged.append (h : Logged now d d' id es) (h' : Logged now d' d'' id es') :
    Logged now d d'' id (es ++ es') := by
  refine ⟨h.reports.append h'.reports, ?_, fun e he => ?_, fun t s ht hown e he => ?_⟩
  · rw [h'.events, h.events, List.append_assoc]
  · exact (List.mem_append.1 he).elim (h.own e) (h'.own e)
  · obtain ⟨s', ht', -⟩ := h.reports.underWay ht (congrFun h.endedBy_eq t.vehicle)
    exact (List.mem_append.1 he).elim (h.named t s ht hown e) (h'.named t s' ht' hown e)

/-- What is put down at the end of a break tells of the vehicle of the break. -/
theorem logged_finishBreak (hd : d.Named) (now : Time) (b : PlannedBreak) :
    ∃ es, Logged now d (TaskQueue.finishBreak d now b).dispatcher b.vehicle es := by
  unfold TaskQueue.finishBreak
  split
  · split
    · next h =>
      obtain ⟨e, hevents, hkind, hid, -⟩ := events_endBreak hd h
      exact ⟨[e], (report_of_endBreak hd h).logged hevents hid (by simp [hkind])⟩
    · exact ⟨[], .nil d b.vehicle⟩
  · exact ⟨[], .nil d b.vehicle⟩

/-- What is due of a break is put down of its vehicle, and under the name of the tour that is
under way. -/
theorem logged_runBreak (hd : d.Named) (now : Time) (b : PlannedBreak) :
    ∃ es, Logged now d (TaskQueue.runBreak d now b).dispatcher b.vehicle es := by
  unfold TaskQueue.runBreak
  split
  · split
    · next d₁ h =>
      obtain ⟨e, hevents, hkind, hid⟩ := events_startBreak hd h
      have hreport := report_of_startBreak hd h
      have hstart := hreport.logged hevents hid (by simp [hkind])
      obtain ⟨es, hfinish⟩ := logged_finishBreak (hreport.named hd) now { b with started := true }
      exact ⟨[e] ++ es, hstart.append hfinish⟩
    · exact ⟨[], .nil d b.vehicle⟩
  · exact logged_finishBreak hd now b

end Dispatcher

namespace Ledger

open Dispatcher (Logged Reports)

variable {d d' : Dispatcher} {now : Time} {t : Tour} {l : Ledger}

/-- A deed is told of an event that was put down. -/
theorem mem_between {x : Deed} {es : List ShiftEvent} (hevents : d'.events = d.events ++ es)
    (hx : x ∈ Deed.between t d d') :
    ∃ e ∈ es, x = ⟨e.kind, t, ⟨e.vehicle, e.shift, d.endedBy e.vehicle⟩⟩ := by
  rw [Deed.between, hevents, List.drop_left] at hx
  obtain ⟨e, he, rfl⟩ := List.mem_map.1 hx
  exact ⟨e, he, rfl⟩

/-- What is carried out of a break meets the tour that it was asked for, or that has ended. -/
private theorem fair_of_logged {id : VehicleId} {es : List ShiftEvent} (h : Logged now d d' id es)
    (hid : t.vehicle = id) (ht : t.Begun d) {x : Deed} (hx : x ∈ Deed.between t d d') :
    x.Fair ∧ x.asked = t ∧ x.met.number = d.endedBy t.vehicle := by
  obtain ⟨e, he, rfl⟩ := mem_between h.events hx
  obtain ⟨hown, hkind⟩ := h.own e he
  have hsame : e.vehicle = t.vehicle := hown.trans hid.symm
  refine ⟨⟨hsame, ?_⟩, rfl, congrArg d.endedBy hsame⟩
  rcases ht with hover | ⟨s, ht⟩
  · exact .inr ⟨hkind, by simpa [Tour.Over, hsame] using hover⟩
  · refine .inl ?_
    simp [hsame, h.named t s ht hid e he, ← ht.number]

/-- What is carried out of breaks meets the tours that they were asked for, or those have ended. -/
theorem fair_breakDeeds (hd : d.Named) {bs : List (Tour × PlannedBreak)}
    (hbs : ∀ p ∈ bs, p.1.vehicle = p.2.vehicle ∧ p.1.Begun d) {x : Deed}
    (hx : x ∈ breakDeeds now d bs) :
    x.Fair ∧ ∃ p ∈ bs, x.asked = p.1 ∧ x.met.number = d.endedBy p.1.vehicle := by
  induction bs generalizing d with
  | nil => cases hx
  | cons p rest ih =>
    obtain ⟨es, hlogged⟩ := Dispatcher.logged_runBreak hd now p.2
    obtain ⟨hid, hbegun⟩ := hbs p List.mem_cons_self
    rcases List.mem_append.1 hx with hx | hx
    · obtain ⟨hfair, hasked, hnumber⟩ := fair_of_logged hlogged hid hbegun hx
      exact ⟨hfair, p, List.mem_cons_self, hasked, hnumber⟩
    · split at hx
      · cases hx
      · have hd' := hlogged.reports.keeps (fun _ _ h => h.named) hd
        obtain ⟨hfair, q, hq, hasked, hnumber⟩ := ih hd' (fun q hq => by
          exact (hbs q (List.mem_cons_of_mem p hq)).imp_right hlogged.reports.begun) hx
        exact ⟨hfair, q, List.mem_cons_of_mem p hq, hasked, hlogged.endedBy_eq ▸ hnumber⟩

/-- A break stays with its vehicle when it is over. -/
private theorem vehicle_finishBreak (d : Dispatcher) (now : Time) (b : PlannedBreak) :
    (TaskQueue.finishBreak d now b).planned.vehicle = b.vehicle := by
  unfold TaskQueue.finishBreak
  split
  · split <;> rfl
  · rfl

/-- A break stays with its vehicle when it is carried out. -/
private theorem vehicle_runBreak (d : Dispatcher) (now : Time) (b : PlannedBreak) :
    (TaskQueue.runBreak d now b).planned.vehicle = b.vehicle := by
  unfold TaskQueue.runBreak
  split
  · split
    · exact vehicle_finishBreak _ _ _
    · rfl
  · exact vehicle_finishBreak _ _ _

/-- Marking leaves each break with its tour and its vehicle. -/
private theorem mem_markBreaks {bs : List (Tour × PlannedBreak)} {m : (Tour × PlannedBreak) × Bool}
    (hm : m ∈ markBreaks now d bs) : ∃ p ∈ bs, m.1.1 = p.1 ∧ m.1.2.vehicle = p.2.vehicle := by
  induction bs generalizing d with
  | nil => cases hm
  | cons p rest ih =>
    rcases List.mem_cons.1 hm with rfl | hm
    · exact ⟨p, List.mem_cons_self, rfl, vehicle_runBreak d now p.2⟩
    · split at hm
      · obtain ⟨q, hq, rfl⟩ := List.mem_map.1 hm
        exact ⟨q, List.mem_cons_of_mem p hq, rfl, rfl⟩
      · obtain ⟨q, hq, hsame⟩ := ih hm
        exact ⟨q, List.mem_cons_of_mem p hq, hsame⟩

/-- What is carried out of shift ends meets the tours that they were asked for. -/
theorem met_endDeeds (hd : d.Named) {es : List (Tour × PlannedEnd)}
    (hes : ∀ p ∈ es, p.1.vehicle = p.2.vehicle ∧ ∃ s, p.1.UnderWay d s)
    (halone : (es.map (·.2.vehicle)).Nodup) {x : Deed} (hx : x ∈ endDeeds now d es) :
    x.met = x.asked := by
  induction es generalizing d with
  | nil => cases hx
  | cons p rest ih =>
    unfold endDeeds at hx
    split at hx
    · next d' h =>
      obtain ⟨e, hevents, hkind, hown⟩ := Dispatcher.events_endShift hd h
      have hreport := Dispatcher.report_of_endShift hd h
      obtain ⟨hid, s, ht⟩ := hes p List.mem_cons_self
      have hsame : e.vehicle = p.1.vehicle := hown.trans hid.symm
      rcases List.mem_append.1 hx with hx | hx
      · obtain ⟨e', he', rfl⟩ := mem_between hevents hx
        obtain rfl := List.mem_singleton.1 he'
        simp [hsame, hreport.shift_eq hevents ht hsame, ← ht.number]
      · obtain ⟨hnew, hrest⟩ := List.nodup_cons.1 halone
        refine ih (hreport.named hd) (fun q hq => ?_) hrest hx
        obtain ⟨hidq, c, hc⟩ := hes q (List.mem_cons_of_mem p hq)
        have hother : e.vehicle ≠ q.1.vehicle := by
          intro heq
          refine hnew (List.mem_map.2 ⟨q, hq, ?_⟩)
          rw [← hidq, ← heq, hown]
        have hsame : d'.endedBy q.1.vehicle = d.endedBy q.1.vehicle :=
          Dispatcher.endedBy_append hevents (by simp [hother])
        obtain ⟨c', hc', -⟩ := hreport.reports.underWay hc hsame
        exact ⟨hidq, c', hc'⟩
    · cases hx

end Ledger

namespace Dispatcher

variable {d : Dispatcher} {now : Time} {id : VehicleId}

/-- The shift ends of others leave the number of ended shifts of a vehicle as it is. -/
theorem endedBy_runEnds (hd : d.Named) {es : List PlannedEnd} (hid : ∀ e ∈ es, e.vehicle ≠ id) :
    (TaskQueue.runEnds now d es).1.endedBy id = d.endedBy id := by
  induction es generalizing d with
  | nil => rfl
  | cons e rest ih =>
    unfold TaskQueue.runEnds
    split
    · next d' h =>
      obtain ⟨f, hevents, -, hown⟩ := events_endShift hd h
      have hother : f.vehicle ≠ id := hown ▸ hid e List.mem_cons_self
      have hrest := ih ((report_of_endShift hd h).named hd) fun c hc =>
        hid c (List.mem_cons_of_mem e hc)
      exact hrest.trans (endedBy_append hevents (by simp [hother]))
    · rfl

/-- No shift ends while breaks are carried out. -/
theorem endedBy_runBreaks (hd : d.Named) (now : Time) (bs : List PlannedBreak) :
    (TaskQueue.runBreaks now d bs).2.1.endedBy = d.endedBy := by
  induction bs generalizing d with
  | nil => rfl
  | cons b rest ih =>
    obtain ⟨es, hlogged⟩ := logged_runBreak hd now b
    unfold TaskQueue.runBreaks
    simp only
    split
    · exact hlogged.endedBy_eq
    · exact (ih (hlogged.reports.keeps (fun _ _ h => h.named) hd)).trans hlogged.endedBy_eq

end Dispatcher

namespace Ledger

variable {d d' : Dispatcher} {now : Time} {l : Ledger}

/-- What is due is told from what is not due by its vehicle. -/
theorem Follows.vehicle_ne (hl : l.Follows d) {p q : Tour × PlannedEnd} (hp : p ∈ l.ends)
    (hq : q ∈ l.ends) (hlater : ¬ p.2.time ≤ now) (hdue : q.2.time ≤ now) :
    q.2.vehicle ≠ p.2.vehicle := by
  intro heq
  obtain rfl := List.inj_on_of_nodup_map hl.alone hq hp heq
  exact hlater hdue

/-- Where a break meets a fault, no shift ends. -/
private theorem carryOut_of_fault {marked : List (PlannedBreak × Bool)} {fault : Fault}
    (h : TaskQueue.runBreaks now d l.tasks.breaks = (marked, d', some fault)) :
    l.carryOut d now = ({ l with breaks := (markBreaks now d l.breaks).map (·.1) },
        breakDeeds now d l.breaks) ∧
      (l.tasks.executeDue d now).2.1 = d' := by
  simp [carryOut, TaskQueue.executeDue, h]

/-- Where no break meets a fault, the shift ends that are due follow. -/
private theorem carryOut_of_done {marked : List (PlannedBreak × Bool)}
    (h : TaskQueue.runBreaks now d l.tasks.breaks = (marked, d', none)) :
    l.carryOut d now = (
        { breaks := ((markBreaks now d l.breaks).filter fun m => !m.2).map (·.1)
          ends := l.ends.filter fun p => !decide (p.2.time ≤ now) },
        breakDeeds now d l.breaks ++ endDeeds now d' (l.ends.filter (·.2.time ≤ now))) ∧
      (l.tasks.executeDue d now).2.1 =
        (TaskQueue.runEnds now d' ((l.ends.filter (·.2.time ≤ now)).map (·.2))).1 := by
  have hdue : l.tasks.ends.filter (·.time ≤ now) =
      (l.ends.filter (·.2.time ≤ now)).map (·.2) := by
    simp [tasks, List.filter_map, Function.comp_def]
  simp [carryOut, TaskQueue.executeDue, h, List.partition_eq_filter_filter, hdue,
    Function.comp_def]

/-- No break is left that was not there before. -/
theorem tour_of_carryOut {p : Tour × PlannedBreak} (hp : p ∈ (l.carryOut d now).1.breaks) :
    ∃ q ∈ l.breaks, p.1 = q.1 := by
  have hmarked : ∃ m ∈ markBreaks now d l.breaks, m.1 = p := by
    rcases hrun : TaskQueue.runBreaks now d l.tasks.breaks with ⟨marked, d', _ | fault⟩
    · rw [(carryOut_of_done hrun).1] at hp
      obtain ⟨m, hm, hsame⟩ := List.mem_map.1 hp
      exact ⟨m, (List.mem_filter.1 hm).1, hsame⟩
    · rw [(carryOut_of_fault hrun).1] at hp
      exact List.mem_map.1 hp
  obtain ⟨m, hm, rfl⟩ := hmarked
  obtain ⟨q, hq, htour, -⟩ := mem_markBreaks hm
  exact ⟨q, hq, htour⟩

/-- Carrying out whatever is due leaves the ledger true. -/
theorem Follows.carriedOut (hl : l.Follows d) (hd : d.Named) (now : Time) :
    (l.carryOut d now).1.Follows (l.tasks.executeDue d now).2.1 := by
  have hreports := TaskQueue.reports_executeDue hd l.tasks now
  have hbreaks := TaskQueue.reports_runBreaks hd now l.tasks.breaks
  have hquiet := Dispatcher.endedBy_runBreaks hd now l.tasks.breaks
  have hmarked : ∀ m ∈ markBreaks now d l.breaks, m.1.1.vehicle = m.1.2.vehicle ∧
      m.1.1.Begun (l.tasks.executeDue d now).2.1 := by
    intro m hm
    obtain ⟨p, hp, htour, hvehicle⟩ := mem_markBreaks hm
    rw [htour, hvehicle]
    exact (hl.breaks p hp).imp_right hreports.begun
  have hstays : ∀ p ∈ l.ends,
      (l.tasks.executeDue d now).2.1.endedBy p.1.vehicle = d.endedBy p.1.vehicle →
      p.1.vehicle = p.2.vehicle ∧
        ∃ s, p.1.UnderWay (l.tasks.executeDue d now).2.1 s ∧ s.endFacility ≠ none := by
    intro p hp hsame
    obtain ⟨hid, s, ht, hend⟩ := hl.ends p hp
    obtain ⟨s', ht', hend'⟩ := hreports.underWay ht hsame
    exact ⟨hid, s', ht', hend' hend⟩
  rcases hrun : TaskQueue.runBreaks now d l.tasks.breaks with ⟨marked, d', _ | fault⟩
  · rw [hrun] at hbreaks hquiet
    obtain ⟨hledger, hafter⟩ := carryOut_of_done hrun
    rw [hledger]
    refine ⟨fun p hp => ?_, fun p hp => ?_, ?_⟩
    · obtain ⟨m, hm, rfl⟩ := List.mem_map.1 hp
      exact hmarked m (List.mem_filter.1 hm).1
    · obtain ⟨hp, hlater⟩ := List.mem_filter.1 hp
      refine hstays p hp ?_
      rw [hafter, ← hquiet]
      refine Dispatcher.endedBy_runEnds (hbreaks.keeps (fun _ _ h => h.named) hd) fun e he => ?_
      obtain ⟨q, hq, rfl⟩ := List.mem_map.1 he
      obtain ⟨hq, hdue⟩ := List.mem_filter.1 hq
      rw [(hl.ends p hp).1]
      exact hl.vehicle_ne hp hq (by simpa using hlater) (by simpa using hdue)
    · exact hl.alone.sublist (List.filter_sublist.map _)
  · rw [hrun] at hquiet
    obtain ⟨hledger, hafter⟩ := carryOut_of_fault hrun
    rw [hledger]
    refine ⟨fun p hp => ?_, fun p hp => ?_, hl.alone⟩
    · obtain ⟨m, hm, rfl⟩ := List.mem_map.1 hp
      exact hmarked m hm
    · exact hstays p hp (by rw [hafter, ← hquiet])

/-- Whatever is carried out met the tour that it was asked for, or it was a break of a tour that
had ended before. -/
theorem Follows.fair_carryOut (hl : l.Follows d) (hd : d.Named) {x : Deed}
    (hx : x ∈ (l.carryOut d now).2) : x.Fair ∧
      (x.met = x.asked ∨ ∃ p ∈ l.breaks, x.asked = p.1 ∧ x.met.number = d.endedBy p.1.vehicle) := by
  have hbreaks := TaskQueue.reports_runBreaks hd now l.tasks.breaks
  have hquiet := Dispatcher.endedBy_runBreaks hd now l.tasks.breaks
  rcases hrun : TaskQueue.runBreaks now d l.tasks.breaks with ⟨marked, d', _ | fault⟩
  · rw [hrun] at hbreaks hquiet
    rw [(carryOut_of_done hrun).1] at hx
    rcases List.mem_append.1 hx with hx | hx
    · exact (fair_breakDeeds hd hl.breaks hx).imp_right .inr
    · have hends : ∀ p ∈ l.ends.filter (·.2.time ≤ now),
          p.1.vehicle = p.2.vehicle ∧ ∃ s, p.1.UnderWay d' s := by
        intro p hp
        obtain ⟨hid, s, ht, -⟩ := hl.ends p (List.mem_filter.1 hp).1
        obtain ⟨s', ht', -⟩ := hbreaks.underWay ht (congrFun hquiet p.1.vehicle)
        exact ⟨hid, s', ht'⟩
      have hmet := met_endDeeds (hbreaks.keeps (fun _ _ h => h.named) hd) hends
        (hl.alone.sublist (List.filter_sublist.map _)) hx
      exact ⟨⟨congrArg Tour.vehicle hmet, .inl hmet⟩, .inl hmet⟩
  · rw [(carryOut_of_fault hrun).1] at hx
    exact (fair_breakDeeds hd hl.breaks hx).imp_right .inr

/-! ## Nothing escapes -/

/-- The deeds of a task say what was put down. -/
theorem note_between {es : List ShiftEvent} (t : Tour) (hevents : d'.events = d.events ++ es) :
    (Deed.between t d d').map Deed.note = es.map ShiftEvent.note := by
  simp [Deed.between, hevents, Deed.note, ShiftEvent.note, Function.comp_def]

/-- The deeds of the breaks say what was put down. -/
theorem note_breakDeeds (hd : d.Named) (now : Time) (bs : List (Tour × PlannedBreak)) :
    ∃ es, (TaskQueue.runBreaks now d (bs.map (·.2))).2.1.events = d.events ++ es ∧
      (breakDeeds now d bs).map Deed.note = es.map ShiftEvent.note := by
  induction bs generalizing d with
  | nil => exact ⟨[], by simp [TaskQueue.runBreaks], rfl⟩
  | cons p rest ih =>
    obtain ⟨es, hlogged⟩ := Dispatcher.logged_runBreak hd now p.2
    have hnote := note_between p.1 hlogged.events
    cases hfault : (TaskQueue.runBreak d now p.2).fault with
    | some fault =>
      exact ⟨es, by simp [TaskQueue.runBreaks, hfault, hlogged.events],
        by simp [breakDeeds, hfault, hnote]⟩
    | none =>
      obtain ⟨es', hevents, hmore⟩ := ih (hlogged.reports.keeps (fun _ _ h => h.named) hd)
      exact ⟨es ++ es', by simp [TaskQueue.runBreaks, hfault, hevents, hlogged.events],
        by simp [breakDeeds, hfault, hnote, hmore]⟩

/-- The deeds of the shift ends say what was put down. -/
theorem note_endDeeds (hd : d.Named) (now : Time) (ends : List (Tour × PlannedEnd)) :
    ∃ es, (TaskQueue.runEnds now d (ends.map (·.2))).1.events = d.events ++ es ∧
      (endDeeds now d ends).map Deed.note = es.map ShiftEvent.note := by
  induction ends generalizing d with
  | nil => exact ⟨[], by simp [TaskQueue.runEnds], rfl⟩
  | cons p rest ih =>
    cases h : d.endShift p.2.vehicle p.2.link now with
    | error fault => exact ⟨[], by simp [TaskQueue.runEnds, h], by simp [endDeeds, h]⟩
    | ok d' =>
      obtain ⟨e, hevents, -⟩ := Dispatcher.events_endShift hd h
      obtain ⟨es, hrest, hmore⟩ := ih ((Dispatcher.report_of_endShift hd h).named hd)
      exact ⟨e :: es, by simp [TaskQueue.runEnds, h, hrest, hevents],
        by simp [endDeeds, h, hmore, note_between p.1 hevents]⟩

/-- The deeds are all that is put down while what is due is carried out. -/
theorem note_carryOut (hd : d.Named) (l : Ledger) (now : Time) :
    ∃ es, (l.tasks.executeDue d now).2.1.events = d.events ++ es ∧
      (l.carryOut d now).2.map Deed.note = es.map ShiftEvent.note := by
  have hbreaks := TaskQueue.reports_runBreaks hd now l.tasks.breaks
  obtain ⟨es, hevents, hnote⟩ := note_breakDeeds hd now l.breaks
  change (TaskQueue.runBreaks now d l.tasks.breaks).2.1.events = _ at hevents
  rcases hrun : TaskQueue.runBreaks now d l.tasks.breaks with ⟨marked, d', _ | fault⟩
  · rw [hrun] at hbreaks hevents
    obtain ⟨hledger, hafter⟩ := carryOut_of_done hrun
    obtain ⟨es', hends, hmore⟩ := note_endDeeds (hbreaks.keeps (fun _ _ h => h.named) hd) now
      (l.ends.filter (·.2.time ≤ now))
    refine ⟨es ++ es', ?_, ?_⟩
    · rw [hafter, hends, hevents, List.append_assoc]
    · rw [hledger, List.map_append, List.map_append, hnote, hmore]
  · rw [hrun] at hevents
    obtain ⟨hledger, hafter⟩ := carryOut_of_fault hrun
    exact ⟨es, by rw [hafter, hevents], by rw [hledger, hnote]⟩

end Ledger

end DialARide
