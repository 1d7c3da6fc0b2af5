import DialARide.Shift.Tasks

/-!
# The reports that are due

To carry out a task is to make one or two reports for its vehicle: that a break starts, that it
is over, that a shift ends. Whatever is carried out of a queue is the reports that are due, those
of the breaks before those of the shift ends, up to the first that meets a fault. What becomes of
the breaks can be told from the number of reports that were taken.
-/

namespace DialARide

/-- What a vehicle reports when a task is carried out. -/
inductive TaskReport where
  | breakStarts (vehicle : VehicleId) (link : LinkId)
  | breakEnds (vehicle : VehicleId) (task : BreakTask)
  | shiftEnds (vehicle : VehicleId) (link : LinkId)
  deriving DecidableEq, Repr

/-! ## Reports one after the other -/

namespace Dispatcher

/-- The dispatcher after a report. -/
def hear (d : Dispatcher) (now : Time) : TaskReport → Except Fault Dispatcher
  | .breakStarts vehicle link => d.startBreak vehicle link now
  | .breakEnds vehicle task => d.endBreak vehicle task now
  | .shiftEnds vehicle link => d.endShift vehicle link now

/-- The dispatcher after the given reports up to the first that meets a fault, and that fault. -/
def hearAll (now : Time) : Dispatcher → List TaskReport → Dispatcher × Option Fault
  | d, [] => (d, none)
  | d, r :: rest =>
    match d.hear now r with
    | .ok d => hearAll now d rest
    | .error fault => (d, some fault)

/-- How many of the given reports are taken before the first that meets a fault. -/
def heard (now : Time) : Dispatcher → List TaskReport → Nat
  | _, [] => 0
  | d, r :: rest =>
    match d.hear now r with
    | .ok d => heard now d rest + 1
    | .error _ => 0

variable {d d' : Dispatcher} {now : Time} {rs : List TaskReport} {fault : Fault}

/-- Where no fault is met, all reports are heard. -/
theorem heard_eq_length (h : d.hearAll now rs = (d', none)) : d.heard now rs = rs.length := by
  induction rs generalizing d with
  | nil => rfl
  | cons r rest ih =>
    unfold hearAll at h
    unfold heard
    cases hr : d.hear now r with
    | ok d₁ =>
      simp only [hr] at h
      simp [ih h]
    | error fault => simp [hr] at h

/-- After reports without fault the others are heard as usual. -/
theorem hearAll_append (h : d.hearAll now rs = (d', none)) (rs' : List TaskReport) :
    d.hearAll now (rs ++ rs') = d'.hearAll now rs' ∧
      d.heard now (rs ++ rs') = rs.length + d'.heard now rs' := by
  induction rs generalizing d with
  | nil =>
    cases h
    simp
  | cons r rest ih =>
    unfold hearAll at h
    cases hr : d.hear now r with
    | ok d₁ =>
      simp only [hr] at h
      obtain ⟨hall, hcount⟩ := ih h
      simp only [List.cons_append, hearAll, heard, hr, hall, hcount, List.length_cons, true_and]
      omega
    | error fault => simp [hr] at h

/-- Nothing is reported after a fault. -/
theorem hearAll_append_of_fault (h : d.hearAll now rs = (d', some fault))
    (rs' : List TaskReport) :
    d.hearAll now (rs ++ rs') = (d', some fault) ∧
      d.heard now (rs ++ rs') = d.heard now rs := by
  induction rs generalizing d with
  | nil => cases h
  | cons r rest ih =>
    unfold hearAll at h
    cases hr : d.hear now r with
    | ok d₁ =>
      simp only [hr] at h
      obtain ⟨hall, hcount⟩ := ih h
      simp [hearAll, heard, hr, hall, hcount]
    | error fault =>
      simp only [hr] at h
      simp [hearAll, heard, hr, h]

/-- A fault is met at one report, and all those before it were taken. -/
theorem exists_split_of_fault (h : d.hearAll now rs = (d', some fault)) :
    ∃ made r rest, rs = made ++ r :: rest ∧ d.hearAll now made = (d', none) ∧
      d'.hear now r = .error fault ∧ d.heard now rs = made.length := by
  induction rs generalizing d with
  | nil => cases h
  | cons r rest ih =>
    unfold hearAll at h
    cases hr : d.hear now r with
    | ok d₁ =>
      simp only [hr] at h
      obtain ⟨made, r', rest', rfl, hmade, hfault, hcount⟩ := ih h
      refine ⟨r :: made, r', rest', rfl, ?_, hfault, ?_⟩
      · simp only [hearAll, hr, hmade]
      · simp only [heard, hr, hcount, List.length_cons]
    | error fault' =>
      simp only [hr, Prod.mk.injEq, Option.some.injEq] at h
      obtain ⟨rfl, rfl⟩ := h
      exact ⟨[], r, rest, rfl, rfl, hr, by simp [heard, hr]⟩

end Dispatcher

/-! ## The share of each task -/

/-- The given tasks, each with those of its reports that are among the first so many of all. -/
def shares {α : Type} (reports : α → List TaskReport) :
    Nat → List α → List (α × List TaskReport)
  | _, [] => []
  | n, a :: rest =>
    (a, (reports a).take n) :: shares reports (n - (reports a).length) rest

section Shares

variable {α : Type} (reports : α → List TaskReport)

theorem shares_zero (l : List α) : shares reports 0 l = l.map (·, []) := by
  induction l with
  | nil => rfl
  | cons a rest ih => simp [shares, ih]

/-- When all reports are taken, each task has all of its own. -/
theorem shares_of_le {n : Nat} {l : List α} (h : (l.flatMap reports).length ≤ n) :
    shares reports n l = l.map fun a => (a, reports a) := by
  induction l generalizing n with
  | nil => rfl
  | cons a rest ih =>
    rw [List.flatMap_cons, List.length_append] at h
    rw [shares, ih (by omega), List.take_of_length_le (by omega), List.map_cons]

/-- A share is made of the first reports of its task. -/
theorem exists_take_of_mem_shares {n : Nat} {l : List α} {s : α × List TaskReport}
    (h : s ∈ shares reports n l) : ∃ k, s.2 = (reports s.1).take k := by
  induction l generalizing n with
  | nil => cases h
  | cons a rest ih =>
    rcases List.mem_cons.1 h with rfl | h
    · exact ⟨n, rfl⟩
    · exact ih h

/-- The shares of all tasks are the reports that were taken, in their order. -/
theorem flatMap_shares (n : Nat) (l : List α) :
    (shares reports n l).flatMap (·.2) = (l.flatMap reports).take n := by
  induction l generalizing n with
  | nil => simp [shares]
  | cons a rest ih => simp [shares, ih, List.take_append]

end Shares

/-! ## Reports of the tasks -/

/-- The reports of a break that are due: it starts when its start has come, and is over when its
finish has come and it has started. -/
def PlannedBreak.dueReports (now : Time) (b : PlannedBreak) : List TaskReport :=
  (if !b.started && b.task.start ≤ now then [.breakStarts b.vehicle b.link] else []) ++
    if (b.started || b.task.start ≤ now) && b.task.finish ≤ now then
      [.breakEnds b.vehicle b.task]
    else []

/-- The report of a shift end, if that is due. -/
def PlannedEnd.dueReports (now : Time) (e : PlannedEnd) : List TaskReport :=
  if e.time ≤ now then [.shiftEnds e.vehicle e.link] else []

/-- The reports of all breaks that are due. -/
def TaskQueue.breakReports (q : TaskQueue) (now : Time) : List TaskReport :=
  q.breaks.flatMap (·.dueReports now)

/-- The reports of all shift ends that are due. -/
def TaskQueue.endReports (q : TaskQueue) (now : Time) : List TaskReport :=
  q.ends.flatMap (·.dueReports now)

/-- All reports that are due, in their order. -/
def TaskQueue.dueReports (q : TaskQueue) (now : Time) : List TaskReport :=
  q.breakReports now ++ q.endReports now

/-- The break as it stands when the given reports of it were taken. -/
def PlannedBreak.told (b : PlannedBreak) (made : List TaskReport) : PlannedBreak :=
  { b with started := b.started || .breakStarts b.vehicle b.link ∈ made }

/-- The break, unless the report that it is over was taken. -/
def PlannedBreak.left? (b : PlannedBreak) (made : List TaskReport) : Option PlannedBreak :=
  if .breakEnds b.vehicle b.task ∈ made then none else some (b.told made)

/-- The shift end, unless its report was taken. -/
def PlannedEnd.left? (e : PlannedEnd) (made : List TaskReport) : Option PlannedEnd :=
  if .shiftEnds e.vehicle e.link ∈ made then none else some e

/-- What is due of a break is its start or its end. -/
theorem PlannedBreak.eq_of_mem_dueReports {now : Time} {b : PlannedBreak} {r : TaskReport}
    (h : r ∈ b.dueReports now) :
    r = .breakStarts b.vehicle b.link ∨ r = .breakEnds b.vehicle b.task := by
  rcases List.mem_append.1 h with h | h <;> split at h
  · exact .inl (List.mem_singleton.1 h)
  · cases h
  · exact .inr (List.mem_singleton.1 h)
  · cases h

/-- What is due of a shift end is the end. -/
theorem PlannedEnd.eq_of_mem_dueReports {now : Time} {e : PlannedEnd} {r : TaskReport}
    (h : r ∈ e.dueReports now) : r = .shiftEnds e.vehicle e.link := by
  unfold dueReports at h
  split at h
  · exact List.mem_singleton.1 h
  · cases h

theorem PlannedBreak.told_nil (b : PlannedBreak) : b.told [] = b := by
  simp [told]

namespace TaskQueue

variable {d d' : Dispatcher} {now : Time} {fault : Fault}

/-- A break as it stands when the given reports of it were taken, with a mark if it is over. -/
def mark (s : PlannedBreak × List TaskReport) : PlannedBreak × Bool :=
  (s.1.told s.2, decide (.breakEnds s.1.vehicle s.1.task ∈ s.2))

/-- What is carried out of a break is its reports that are due, up to the first fault. -/
theorem runBreak_eq (d : Dispatcher) (now : Time) (b : PlannedBreak) :
    runBreak d now b =
      let rs := b.dueReports now
      let marked := mark (b, rs.take (d.heard now rs))
      ⟨marked.1, marked.2, (d.hearAll now rs).1, (d.hearAll now rs).2⟩ := by
  obtain ⟨vehicle, link, task, started⟩ := b
  have hfinish (d : Dispatcher) :
      finishBreak d now ⟨vehicle, link, task, true⟩ =
        let rs : List TaskReport := if task.finish ≤ now then [.breakEnds vehicle task] else []
        ⟨⟨vehicle, link, task, true⟩, decide (.breakEnds vehicle task ∈ rs.take (d.heard now rs)),
          (d.hearAll now rs).1, (d.hearAll now rs).2⟩ := by
    by_cases hdue : task.finish ≤ now
    · cases hend : d.endBreak vehicle task now <;>
        simp [finishBreak, Dispatcher.hearAll, Dispatcher.heard, Dispatcher.hear, hdue, hend]
    · simp [finishBreak, Dispatcher.hearAll, Dispatcher.heard, hdue]
  cases started with
  | true =>
    simp only [runBreak, hfinish]
    simp [PlannedBreak.dueReports, mark, PlannedBreak.told]
  | false =>
    by_cases hbegin : task.start ≤ now
    · cases hstart : d.startBreak vehicle link now with
      | error fault =>
        simp [runBreak, PlannedBreak.dueReports, mark, PlannedBreak.told, Dispatcher.hearAll,
          Dispatcher.heard, Dispatcher.hear, hbegin, hstart]
      | ok d₁ =>
        simp only [runBreak, hfinish]
        simp [PlannedBreak.dueReports, mark, PlannedBreak.told, Dispatcher.hearAll,
          Dispatcher.heard, Dispatcher.hear, hbegin, hstart]
    · simp [runBreak, finishBreak, PlannedBreak.dueReports, mark, PlannedBreak.told,
        Dispatcher.hearAll, Dispatcher.heard, hbegin]

/-- What is carried out of the breaks is their reports that are due, up to the first fault. -/
theorem runBreaks_eq (d : Dispatcher) (now : Time) (bs : List PlannedBreak) :
    runBreaks now d bs =
      let rs := bs.flatMap (·.dueReports now)
      ((shares (·.dueReports now) (d.heard now rs) bs).map mark, d.hearAll now rs) := by
  induction bs generalizing d with
  | nil => rfl
  | cons b rest ih =>
    rcases hone : d.hearAll now (b.dueReports now) with ⟨d₁, _ | fault⟩
    · obtain ⟨hall, hcount⟩ := Dispatcher.hearAll_append hone (rest.flatMap (·.dueReports now))
      have htake : (b.dueReports now).take ((b.dueReports now).length +
          d₁.heard now (rest.flatMap (·.dueReports now))) = b.dueReports now :=
        List.take_of_length_le (Nat.le_add_right _ _)
      simp only [runBreaks, runBreak_eq, hone, ih, List.flatMap_cons, hall, hcount, shares,
        Dispatcher.heard_eq_length hone, List.take_length, htake, Nat.add_sub_cancel_left,
        List.map_cons]
    · obtain ⟨hall, hcount⟩ :=
        Dispatcher.hearAll_append_of_fault hone (rest.flatMap (·.dueReports now))
      obtain ⟨made, r, _, hsplit, -, -, hmade⟩ := Dispatcher.exists_split_of_fault hone
      have hnone : d.heard now (b.dueReports now) - (b.dueReports now).length = 0 := by
        rw [hmade, hsplit, List.length_append]
        omega
      simp only [runBreaks, runBreak_eq, hone, List.flatMap_cons, hall, hcount, shares, hnone,
        shares_zero, List.map_cons, List.map_map]
      simp [Function.comp_def, mark, PlannedBreak.told_nil]

/-- The shift ends are carried out by their reports, up to the first fault. -/
theorem runEnds_eq (d : Dispatcher) (now : Time) (es : List PlannedEnd) :
    runEnds now d (es.filter (·.time ≤ now)) =
      d.hearAll now (es.flatMap (·.dueReports now)) := by
  induction es generalizing d with
  | nil => rfl
  | cons e rest ih =>
    by_cases hdue : e.time ≤ now
    · have hreports : e.dueReports now = [.shiftEnds e.vehicle e.link] := by
        simp [PlannedEnd.dueReports, hdue]
      rw [List.filter_cons_of_pos (by simpa using hdue), List.flatMap_cons, hreports]
      cases hend : d.endShift e.vehicle e.link now <;>
        simp [runEnds, Dispatcher.hearAll, Dispatcher.hear, hend, ih]
    · have hreports : e.dueReports now = [] := by simp [PlannedEnd.dueReports, hdue]
      rw [List.filter_cons_of_neg (by simpa using hdue), List.flatMap_cons, hreports, ih]
      rfl

/-- Whatever is carried out of a queue is the reports that are due, up to the first fault. -/
theorem executeDue_outcome (q : TaskQueue) (d : Dispatcher) (now : Time) :
    (q.executeDue d now).2 = d.hearAll now (q.dueReports now) := by
  unfold executeDue dueReports breakReports
  rw [runBreaks_eq]
  rcases hbreaks : d.hearAll now (q.breaks.flatMap (·.dueReports now)) with ⟨d₁, _ | fault⟩
  · simp only [hbreaks, (Dispatcher.hearAll_append hbreaks _).1,
      List.partition_eq_filter_filter, runEnds_eq, endReports]
  · simp only [hbreaks, (Dispatcher.hearAll_append_of_fault hbreaks _).1]

/-- The breaks that are left are those that were not reported to be over. -/
theorem filter_mark (ss : List (PlannedBreak × List TaskReport)) :
    ((ss.map mark).filter fun m => !m.2).map (·.1) = ss.filterMap fun s => s.1.left? s.2 := by
  induction ss with
  | nil => rfl
  | cons s rest ih =>
    by_cases hover : .breakEnds s.1.vehicle s.1.task ∈ s.2
    · have hleft : s.1.left? s.2 = none := if_pos hover
      simpa [mark, hover, hleft] using ih
    · have hleft : s.1.left? s.2 = some (s.1.told s.2) := if_neg hover
      simpa [mark, hover, hleft] using ih

/-- Once the breaks went well, those that are over are struck off, and all shift ends that were
due. -/
theorem executeDue_of_breaks {q : TaskQueue}
    (h : d.hearAll now (q.breakReports now) = (d', none)) :
    (q.executeDue d now).1 =
      { breaks := q.breaks.filterMap fun b => b.left? (b.dueReports now)
        ends := q.ends.filter (now < ·.time) } := by
  have hlater : (not ∘ fun e : PlannedEnd => decide (e.time ≤ now)) =
      fun e => decide (now < e.time) := by
    funext e
    simp [← UInt64.not_le]
  unfold breakReports at h
  unfold executeDue
  rw [runBreaks_eq]
  simp only [h, Dispatcher.heard_eq_length h, shares_of_le _ (Nat.le_refl _), filter_mark,
    List.partition_eq_filter_filter, hlater, List.filterMap_map, Function.comp_def]

/-- When no fault is met, the breaks that are over are struck off, and all shift ends that were
due. -/
theorem eq_of_executeDue {q q' : TaskQueue} (h : q.executeDue d now = (q', d', none)) :
    q' =
      { breaks := q.breaks.filterMap fun b => b.left? (b.dueReports now)
        ends := q.ends.filter (now < ·.time) } := by
  have houtcome : d.hearAll now (q.breakReports now ++ q.endReports now) = (d', none) :=
    (executeDue_outcome q d now).symm.trans (congrArg (·.2) h)
  rcases hbreaks : d.hearAll now (q.breakReports now) with ⟨d₁, _ | fault⟩
  · rw [← executeDue_of_breaks hbreaks, h]
  · cases (Dispatcher.hearAll_append_of_fault hbreaks _).1.symm.trans houtcome

/-- After a fault at a break none is struck off, and each one that was begun is marked. -/
theorem executeDue_of_fault_at_break {q : TaskQueue}
    (h : d.hearAll now (q.breakReports now) = (d', some fault)) :
    (q.executeDue d now).1 =
      { q with
        breaks := (shares (·.dueReports now) (d.heard now (q.breakReports now)) q.breaks).map
          fun s => s.1.told s.2 } := by
  unfold executeDue breakReports at *
  rw [runBreaks_eq]
  simp only [h, List.map_map]
  rfl

end TaskQueue

end DialARide
