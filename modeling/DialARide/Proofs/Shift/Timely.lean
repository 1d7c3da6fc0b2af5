import DialARide.Proofs.Shift.Due
import Mathlib.Data.List.Induction
import Mathlib.Data.List.Perm.Basic

/-!
# Tasks are carried out in time

A queue of tasks accepts instructions and is carried out again and again, each time on whatever
the dispatcher has become, and at times that do not decrease. As long as no fault is met, what it
holds and what is reported depend only on the instructions that were accepted and on the times
since then: a break starts and is over, and a shift ends, at the first time at which it can.
-/

namespace DialARide

/-- A use of a queue: an instruction is accepted, or what is due is carried out on the dispatcher
as it stands then. -/
inductive TaskUse where
  | accept (i : Instruction)
  | carryOut (d : Dispatcher) (now : Time)

/-- The queue after some uses, unless one of them meets a fault. -/
def TaskQueue.use : TaskQueue → List TaskUse → Except Fault TaskQueue
  | q, [] => .ok q
  | q, .accept i :: rest => (q.accept i).use rest
  | q, .carryOut d now :: rest =>
    match q.executeDue d now with
    | (q', _, none) => q'.use rest
    | (_, _, some fault) => .error fault

/-- The reports that are made in the course of some uses, each with its time. -/
def TaskQueue.reported : TaskQueue → List TaskUse → List (Time × TaskReport)
  | _, [] => []
  | q, .accept i :: rest => (q.accept i).reported rest
  | q, .carryOut d now :: rest =>
    (q.dueReports now).map (now, ·) ++ (q.executeDue d now).1.reported rest

/-- The break that an instruction asks for. -/
def PlannedBreak.of? : Instruction → Option PlannedBreak
  | .takeBreak vehicle _ link task => some { vehicle, link, task }
  | _ => none

/-- The shift end that an instruction asks for. -/
def PlannedEnd.of? : Instruction → Option PlannedEnd
  | .endShift vehicle _ _ link time => some { vehicle, link, time }
  | _ => none

/-! ## The time of a report -/

/-- This is the first time at which something can be done, after the given ones. -/
def firstAt (can : Time → Bool) (before : List Time) (now : Time) : Bool :=
  can now && !before.any can

/-- A report at the first of the given times at which it can be made, if there is one. -/
def once (can : Time → Bool) (r : TaskReport) (ts : List Time) : List (Time × TaskReport) :=
  ((ts.find? can).map (·, r)).toList

namespace PlannedBreak

/-- The break can be started. -/
def canStart (b : PlannedBreak) (now : Time) : Bool := b.task.start ≤ now

/-- The break can be over. -/
def canEnd (b : PlannedBreak) (now : Time) : Bool := b.task.start ≤ now && b.task.finish ≤ now

/-- The reports of an accepted break at a time, after the queue was carried out at others. -/
def reportsAt (b : PlannedBreak) (before : List Time) (now : Time) : List TaskReport :=
  (if firstAt b.canStart before now then [.breakStarts b.vehicle b.link] else []) ++
    if firstAt b.canEnd before now then [.breakEnds b.vehicle b.task] else []

/-- All reports of an accepted break when the queue is carried out at the given times: it starts
once and is over once, if its times come. -/
def allReports (b : PlannedBreak) (ts : List Time) : List (Time × TaskReport) :=
  once b.canStart (.breakStarts b.vehicle b.link) ts ++
    once b.canEnd (.breakEnds b.vehicle b.task) ts

/-- What the queue holds of an accepted break after it was carried out at the given times. -/
def after? (b : PlannedBreak) (ts : List Time) : Option PlannedBreak :=
  if ts.any b.canEnd then none else some { b with started := ts.any b.canStart }

end PlannedBreak

namespace PlannedEnd

/-- The shift can end. -/
def canEnd (e : PlannedEnd) (now : Time) : Bool := e.time ≤ now

/-- The report of an accepted shift end at a time, after the queue was carried out at others. -/
def reportsAt (e : PlannedEnd) (before : List Time) (now : Time) : List TaskReport :=
  if firstAt e.canEnd before now then [.shiftEnds e.vehicle e.link] else []

/-- All reports of an accepted shift end when the queue is carried out at the given times: there
is one, if its time comes. -/
def allReports (e : PlannedEnd) (ts : List Time) : List (Time × TaskReport) :=
  once e.canEnd (.shiftEnds e.vehicle e.link) ts

/-- What the queue holds of an accepted shift end after it was carried out at the given times. -/
def after? (e : PlannedEnd) (ts : List Time) : Option PlannedEnd :=
  if ts.any e.canEnd then none else some e

end PlannedEnd

section OneTask

variable {ts : List Time} {now : Time}

/-- A break that can be over can be started. -/
theorem PlannedBreak.canStart_of_canEnd {b : PlannedBreak} (h : b.canEnd now) : b.canStart now :=
  (Bool.and_eq_true_iff.1 h).1

/-- A break that could be over at some time could be started then. -/
theorem PlannedBreak.any_canStart {b : PlannedBreak} (h : ts.any b.canEnd) :
    ts.any b.canStart := by
  obtain ⟨t, ht, hend⟩ := List.any_eq_true.1 h
  exact List.any_eq_true.2 ⟨t, ht, canStart_of_canEnd hend⟩

/-- A further time adds a report if it is the first at which that can be made. -/
private theorem once_snoc (can : Time → Bool) (r : TaskReport) (ts : List Time) (now : Time) :
    once can r (ts ++ [now]) =
      once can r ts ++ (if firstAt can ts now then [r] else []).map (now, ·) := by
  unfold once firstAt
  rw [List.find?_append]
  cases hfirst : ts.find? can with
  | some t =>
    have hany : ts.any can := List.any_eq_true.2
      ⟨t, List.mem_of_find?_eq_some hfirst, List.find?_some hfirst⟩
    simp [hany]
  | none =>
    have hnone : ts.any can = false := by simpa using hfirst
    cases hnow : can now <;> simp [hnone, hnow]

/-- At one more time a break is reported as is first possible then. -/
theorem PlannedBreak.allReports_snoc (b : PlannedBreak) (ts : List Time) (now : Time) :
    (b.allReports (ts ++ [now])).Perm
      (b.allReports ts ++ (b.reportsAt ts now).map (now, ·)) := by
  rw [List.perm_iff_count]
  intro x
  simp only [allReports, reportsAt, once_snoc, List.map_append, List.count_append]
  omega

/-- At one more time a shift end is reported if that is first possible then. -/
theorem PlannedEnd.allReports_snoc (e : PlannedEnd) (ts : List Time) (now : Time) :
    e.allReports (ts ++ [now]) = e.allReports ts ++ (e.reportsAt ts now).map (now, ·) :=
  once_snoc _ _ ts now

/-- A break that could start before can start now. -/
theorem PlannedBreak.start_le_of_any {b : PlannedBreak} (hpast : ∀ t ∈ ts, t ≤ now)
    (h : ts.any b.canStart) : b.task.start ≤ now := by
  obtain ⟨t, ht, hstart⟩ := List.any_eq_true.1 h
  exact UInt64.le_trans (of_decide_eq_true hstart) (hpast t ht)

/-- Of what the queue holds of a break, those reports are due that its time has come for. -/
theorem PlannedBreak.dueReports_after? (b : PlannedBreak) (hpast : ∀ t ∈ ts, t ≤ now) :
    (b.after? ts).toList.flatMap (·.dueReports now) = b.reportsAt ts now := by
  cases hover : ts.any b.canEnd with
  | true => simp [after?, reportsAt, firstAt, hover, any_canStart hover]
  | false =>
    cases hany : ts.any b.canStart with
    | true =>
      simp [after?, reportsAt, firstAt, hover, hany, dueReports, canEnd,
        start_le_of_any hpast hany]
    | false =>
      by_cases hstart : b.task.start ≤ now <;>
        simp [after?, reportsAt, firstAt, hover, hany, dueReports, canEnd, canStart, hstart]

/-- A shift end that is left is due when it is first possible. -/
theorem PlannedEnd.dueReports_after? (e : PlannedEnd) (ts : List Time) (now : Time) :
    (e.after? ts).toList.flatMap (·.dueReports now) = e.reportsAt ts now := by
  cases hover : ts.any e.canEnd <;> by_cases hend : e.time ≤ now <;>
    simp [after?, reportsAt, firstAt, hover, dueReports, canEnd, hend]

/-- When all that is due of a break went well, it is over, or stays and is marked if its start has
come. -/
theorem PlannedBreak.left?_dueReports (b : PlannedBreak) (now : Time) :
    b.left? (b.dueReports now) =
      if (b.started || b.task.start ≤ now) && b.task.finish ≤ now then none
      else some { b with started := b.started || b.task.start ≤ now } := by
  by_cases hstart : b.task.start ≤ now <;> by_cases hfinish : b.task.finish ≤ now <;>
    cases hbegun : b.started <;> simp [left?, told, dueReports, hstart, hfinish, hbegun]

/-- What is carried out without fault makes of a break what its times ask for. -/
theorem PlannedBreak.left?_after? (b : PlannedBreak) (hpast : ∀ t ∈ ts, t ≤ now) :
    (b.after? ts).bind (fun b => b.left? (b.dueReports now)) = b.after? (ts ++ [now]) := by
  simp only [left?_dueReports]
  cases hover : ts.any b.canEnd with
  | true => simp [after?, hover]
  | false =>
    cases hany : ts.any b.canStart with
    | true => simp [after?, hover, hany, canEnd, start_le_of_any hpast hany]
    | false =>
      by_cases hstart : b.task.start ≤ now <;>
        simp [after?, hover, hany, canEnd, canStart, hstart]

/-- A shift end is left until it is possible. -/
theorem PlannedEnd.filter_after? (e : PlannedEnd) (ts : List Time) (now : Time) :
    (e.after? ts).filter (now < ·.time) = e.after? (ts ++ [now]) := by
  by_cases hend : e.time ≤ now
  · cases hover : ts.any e.canEnd <;> simp [after?, hover, canEnd, hend]
  · have hlater : now < e.time := UInt64.not_le.1 hend
    cases hover : ts.any e.canEnd <;> simp [after?, hover, canEnd, hend, hlater]

end OneTask

/-! ## Uses of a queue -/

namespace TaskUse

/-- The times at which a queue was carried out. -/
def times : List TaskUse → List Time
  | [] => []
  | .accept _ :: rest => times rest
  | .carryOut _ now :: rest => now :: times rest

/-- The tasks that the accepted instructions ask for, each with the times at which the queue was
carried out since then. -/
def accepted {α : Type} (task? : Instruction → Option α) : List TaskUse → List (α × List Time)
  | [] => []
  | .accept i :: rest => ((task? i).map (·, times rest)).toList ++ accepted task? rest
  | .carryOut .. :: rest => accepted task? rest

/-- The tasks that were accepted and are not finished, in the order of acceptance. -/
def unfinished (uses : List TaskUse) : TaskQueue where
  breaks := (accepted PlannedBreak.of? uses).filterMap fun a => a.1.after? a.2
  ends := (accepted PlannedEnd.of? uses).filterMap fun a => a.1.after? a.2

/-- The reports at a time after some uses: those of the breaks before those of the shift ends, in
the order of acceptance. -/
def reportsAfter (uses : List TaskUse) (now : Time) : List TaskReport :=
  ((accepted PlannedBreak.of? uses).flatMap fun a => a.1.reportsAt a.2 now) ++
    (accepted PlannedEnd.of? uses).flatMap fun a => a.1.reportsAt a.2 now

/-- All reports that the accepted tasks ask for, each with its time. -/
def allReports (uses : List TaskUse) : List (Time × TaskReport) :=
  ((accepted PlannedBreak.of? uses).flatMap fun a => a.1.allReports a.2) ++
    (accepted PlannedEnd.of? uses).flatMap fun a => a.1.allReports a.2

variable {α : Type} {task? : Instruction → Option α}

theorem times_append (uses more : List TaskUse) :
    times (uses ++ more) = times uses ++ times more := by
  induction uses with
  | nil => rfl
  | cons u rest ih => cases u <;> simp [times, ih]

/-- What was accepted before sees the times of all later uses. -/
theorem accepted_append (task? : Instruction → Option α) (uses more : List TaskUse) :
    accepted task? (uses ++ more) =
      (accepted task? uses).map (fun a => (a.1, a.2 ++ times more)) ++ accepted task? more := by
  induction uses with
  | nil => rfl
  | cons u rest ih =>
    cases u with
    | accept i => cases hi : task? i <;> simp [accepted, hi, ih, times_append]
    | carryOut d now => simp [accepted, ih]

/-- Carrying out tasks lets all of them see one more time. -/
theorem accepted_carryOut (task? : Instruction → Option α) (uses : List TaskUse) (d : Dispatcher)
    (now : Time) :
    accepted task? (uses ++ [.carryOut d now]) =
      (accepted task? uses).map fun a => (a.1, a.2 ++ [now]) := by
  simp [accepted_append, accepted, times]

/-- The times that a task has seen are times of the uses. -/
theorem mem_times_of_mem_accepted {uses : List TaskUse} {a : α × List Time}
    (ha : a ∈ accepted task? uses) : ∀ t ∈ a.2, t ∈ times uses := by
  induction uses with
  | nil => cases ha
  | cons u rest ih =>
    cases u with
    | accept i =>
      rcases List.mem_append.1 ha with hnew | hold
      · obtain ⟨b, -, rfl⟩ : ∃ b, task? i = some b ∧ (b, times rest) = a := by simpa using hnew
        exact fun t ht => ht
      · exact ih hold
    | carryOut d now => exact fun t ht => List.mem_cons_of_mem now (ih ha t ht)

/-- When an instruction is accepted there is nothing to be reported yet. -/
theorem allReports_accept (uses : List TaskUse) (i : Instruction) :
    allReports (uses ++ [.accept i]) = allReports uses := by
  cases i <;>
    simp [allReports, accepted_append, accepted, times, PlannedBreak.of?, PlannedEnd.of?,
      PlannedBreak.allReports, PlannedEnd.allReports, once]

/-- If one more time adds to the reports of each task, it adds to all of them together. -/
private theorem perm_flatMap_snoc {all : α → List Time → List (Time × TaskReport)}
    {reportsAt : α → List Time → List TaskReport} {now : Time}
    (hsnoc : ∀ b ts, (all b (ts ++ [now])).Perm (all b ts ++ (reportsAt b ts).map (now, ·)))
    (l : List (α × List Time)) :
    ((l.map fun a => (a.1, a.2 ++ [now])).flatMap fun a => all a.1 a.2).Perm
      ((l.flatMap fun a => all a.1 a.2) ++
        (l.flatMap fun a => reportsAt a.1 a.2).map (now, ·)) := by
  rw [List.flatMap_map, List.map_flatMap]
  exact (List.Perm.flatMap_left l fun a _ => hsnoc a.1 a.2).trans
    (List.flatMap_append_perm l _ _).symm

/-- When the queue is carried out, those reports are added whose time has come. -/
theorem allReports_carryOut (uses : List TaskUse) (d : Dispatcher) (now : Time) :
    (allReports (uses ++ [.carryOut d now])).Perm
      (allReports uses ++ (reportsAfter uses now).map (now, ·)) := by
  have hbreaks := perm_flatMap_snoc (fun b ts => PlannedBreak.allReports_snoc b ts now)
    (accepted PlannedBreak.of? uses)
  have hends := perm_flatMap_snoc (fun e ts => .of_eq (PlannedEnd.allReports_snoc e ts now))
    (accepted PlannedEnd.of? uses)
  unfold allReports reportsAfter
  rw [accepted_carryOut, accepted_carryOut, List.map_append]
  refine (hbreaks.append hends).trans ?_
  rw [List.perm_iff_count]
  intro x
  simp only [List.count_append]
  omega

end TaskUse

namespace TaskQueue

open TaskUse (times accepted unfinished reportsAfter allReports)

variable {q q' : TaskQueue} {d d' : Dispatcher} {now : Time} {uses more : List TaskUse}

/-- Uses go well if the first ones do and the others do from there. -/
theorem use_append_eq_ok :
    q.use (uses ++ more) = .ok q' ↔ ∃ q₁, q.use uses = .ok q₁ ∧ q₁.use more = .ok q' := by
  induction uses generalizing q with
  | nil => simp [use]
  | cons u rest ih =>
    cases u with
    | accept i => exact ih
    | carryOut d now =>
      simp only [List.cons_append, use]
      split
      · exact ih
      · simp

/-- A queue is carried out with success, and the uses behind go well from there. -/
theorem use_carryOut_eq_ok :
    q.use (.carryOut d now :: more) = .ok q' ↔
      ∃ q₁ d₁, q.executeDue d now = (q₁, d₁, none) ∧ q₁.use more = .ok q' := by
  rw [use]
  rcases q.executeDue d now with ⟨q₁, d₁, _ | fault⟩ <;> simp

/-- What is reported later is what the queue makes of it that is left. -/
theorem reported_append (h : q.use uses = .ok q') :
    q.reported (uses ++ more) = q.reported uses ++ q'.reported more := by
  induction uses generalizing q with
  | nil =>
    obtain rfl := Except.ok.inj h
    rfl
  | cons u rest ih =>
    cases u with
    | accept i => exact ih h
    | carryOut d now =>
      obtain ⟨q₁, d₁, hrun, h⟩ := use_carryOut_eq_ok.1 h
      simp only [List.cons_append, reported, hrun, ih h, List.append_assoc]

/-- The reports that are due of what is not finished are those whose time has come. -/
theorem dueReports_unfinished (hpast : ∀ t ∈ times uses, t ≤ now) :
    (unfinished uses).dueReports now = reportsAfter uses now := by
  unfold dueReports breakReports endReports unfinished reportsAfter
  simp only [List.filterMap_eq_flatMap_toList, List.flatMap_assoc]
  congr 1
  · refine List.flatMap_congr fun a ha => a.1.dueReports_after? fun t ht => ?_
    exact hpast t (TaskUse.mem_times_of_mem_accepted ha t ht)
  · exact List.flatMap_congr fun a _ => a.1.dueReports_after? a.2 now

/-- A task that is accepted is put behind those that are not finished. -/
theorem accept_unfinished (uses : List TaskUse) (i : Instruction) :
    (unfinished uses).accept i = unfinished (uses ++ [.accept i]) := by
  cases i <;>
    simp [accept, unfinished, TaskUse.accepted_append, accepted, times, PlannedBreak.of?,
      PlannedEnd.of?, PlannedBreak.after?, PlannedEnd.after?]

/-- What is carried out without fault leaves what is not finished. -/
theorem eq_unfinished_of_executeDue (hpast : ∀ t ∈ times uses, t ≤ now)
    (h : (unfinished uses).executeDue d now = (q', d', none)) :
    q' = unfinished (uses ++ [.carryOut d now]) := by
  rw [eq_of_executeDue h]
  simp only [unfinished, TaskUse.accepted_carryOut, List.filterMap_map, List.filterMap_filterMap,
    List.filter_filterMap, Function.comp_def]
  congr 1
  · refine List.filterMap_congr fun a ha => a.1.left?_after? fun t ht => ?_
    exact hpast t (TaskUse.mem_times_of_mem_accepted ha t ht)
  · exact List.filterMap_congr fun a _ => a.1.filter_after? a.2 now

/-- As long as no fault is met, a queue that was empty holds what is not finished, and whatever
the accepted tasks ask for was reported. -/
theorem use_spec (h : ({} : TaskQueue).use uses = .ok q)
    (htimes : (times uses).Pairwise (· ≤ ·)) :
    q = unfinished uses ∧ (({} : TaskQueue).reported uses).Perm (allReports uses) := by
  induction uses using List.reverseRecOn generalizing q with
  | nil => exact ⟨(Except.ok.inj h).symm, .refl []⟩
  | append_singleton uses u ih =>
    obtain ⟨q₁, hq₁, hlast⟩ := use_append_eq_ok.1 h
    rw [TaskUse.times_append] at htimes
    obtain ⟨hbefore, -, hpast⟩ := List.pairwise_append.1 htimes
    obtain ⟨rfl, hreported⟩ := ih hq₁ hbefore
    rw [reported_append hq₁]
    cases u with
    | accept i =>
      obtain rfl := Except.ok.inj hlast
      refine ⟨accept_unfinished uses i, ?_⟩
      simpa [reported, TaskUse.allReports_accept] using hreported
    | carryOut d now =>
      have hpast : ∀ t ∈ times uses, t ≤ now := fun t ht => hpast t ht now List.mem_cons_self
      obtain ⟨q₂, d₂, hrun, hnil⟩ := use_carryOut_eq_ok.1 hlast
      obtain rfl := Except.ok.inj hnil
      refine ⟨eq_unfinished_of_executeDue hpast hrun, ?_⟩
      simp only [reported, List.append_nil, dueReports_unfinished hpast]
      exact (hreported.append_right _).trans (TaskUse.allReports_carryOut uses d now).symm

/-- A queue that was empty is used in any way, at times that do not decrease, and no fault is met.
Each time it is carried out, on whatever dispatcher, just those reports are made whose time has
come for the first time since the instruction was accepted, those of the breaks before those of
the shift ends and each kind in the order of acceptance. All in all every accepted break is
reported to start and to be over, and every accepted shift end is reported, once each at the first
time at which it can be, or not at all. In the end the queue holds the accepted tasks that are not
finished, in the order of acceptance. -/
theorem each_task_carried_out_once (h : ({} : TaskQueue).use uses = .ok q)
    (htimes : (times uses).Pairwise (· ≤ ·)) :
    (∀ before d now after, uses = before ++ .carryOut d now :: after →
      ∃ q₀ q₁ d₁, ({} : TaskQueue).use before = .ok q₀ ∧
        q₀.executeDue d now = (q₁, d₁, none) ∧ q₁.use after = .ok q ∧
        q₀.dueReports now = reportsAfter before now ∧
        ∀ d', (q₀.executeDue d' now).2 = d'.hearAll now (reportsAfter before now)) ∧
      (({} : TaskQueue).reported uses).Perm (allReports uses) ∧ q = unfinished uses := by
  refine ⟨fun before d now after hsplit => ?_, (use_spec h htimes).2, (use_spec h htimes).1⟩
  subst hsplit
  obtain ⟨q₀, hq₀, hrest⟩ := use_append_eq_ok.1 h
  obtain ⟨q₁, d₁, hrun, hafter⟩ := use_carryOut_eq_ok.1 hrest
  rw [TaskUse.times_append] at htimes
  obtain ⟨hbefore, -, hpast⟩ := List.pairwise_append.1 htimes
  obtain ⟨rfl, -⟩ := use_spec hq₀ hbefore
  have hdue := dueReports_unfinished fun t ht => hpast t ht now List.mem_cons_self
  exact ⟨_, q₁, d₁, hq₀, hrun, hafter, hdue, fun d' => hdue ▸ executeDue_outcome _ d' now⟩

/-- A bus whose break and shift end were accepted together starts its break at the second of three
times and, at the third, is back and ends its shift. -/
theorem break_and_end_on_time :
    let bus (state : ShiftState) : Vehicle := { id := ⟨"bus"⟩, link := ⟨"yard"⟩, shifts := [
      { id := ⟨"day"⟩, start := 0, finish := 30, state, breakFacility := some ⟨"hub"⟩ }] }
    let office (state : ShiftState) : Dispatcher :=
      { facilities := .ofSites [⟨⟨"hub"⟩, .hub, ⟨"yard"⟩, ⟨0, 5⟩, 2⟩]
        vehicles := Table.empty.insert ⟨"bus"⟩ (bus state) }
    let uses : List TaskUse := [.accept (.takeBreak ⟨"bus"⟩ ⟨"day"⟩ ⟨"yard"⟩ ⟨⟨"hub"⟩, 10, 20⟩),
      .accept (.endShift ⟨"bus"⟩ ⟨"day"⟩ ⟨"hub"⟩ ⟨"yard"⟩ 30), .carryOut (office .started) 5,
      .carryOut (office .started) 12, .carryOut (office .onBreak) 31]
    ({} : TaskQueue).use uses = .ok {} ∧ (times uses).Pairwise (· ≤ ·) ∧
      (({} : TaskQueue).reported uses).Perm [(12, .breakStarts ⟨"bus"⟩ ⟨"yard"⟩),
        (31, .breakEnds ⟨"bus"⟩ ⟨⟨"hub"⟩, 10, 20⟩), (31, .shiftEnds ⟨"bus"⟩ ⟨"yard"⟩)] := by
  intro bus office uses
  have huse : ({} : TaskQueue).use uses = .ok {} := by decide +kernel
  have htimes : (times uses).Pairwise (· ≤ ·) := by decide +kernel
  have hall : allReports uses = [(12, .breakStarts ⟨"bus"⟩ ⟨"yard"⟩),
      (31, .breakEnds ⟨"bus"⟩ ⟨⟨"hub"⟩, 10, 20⟩), (31, .shiftEnds ⟨"bus"⟩ ⟨"yard"⟩)] := by
    decide +kernel
  exact ⟨huse, htimes, hall ▸ (each_task_carried_out_once huse htimes).2.1⟩

end TaskQueue

end DialARide
