import DialARide.Proofs.Shift.Due
import Mathlib.Data.List.Basic

/-!
# What a fault leaves of a queue

When a fault is met, what is owed is whatever was due or is yet to come and was not reported with
success. A queue that holds just that can be carried out once more: the report that met the fault
is made again, with those behind it, and no other. A queue does so after a fault at a break, if no
break was over before. Otherwise breaks that are over still stand in it and will be reported a
second time, or the shift ends that were due are gone from it, reported or not.
-/

namespace DialARide

/-! ## What is owed -/

namespace TaskQueue

/-- What is owed when the first so many of the reports that are due were taken: the breaks that
are not over, marked if they were begun, and the shift ends that were not reported. -/
def owed (q : TaskQueue) (now : Time) (n : Nat) : TaskQueue where
  breaks := (shares (·.dueReports now) n q.breaks).filterMap fun s => s.1.left? s.2
  ends := (shares (·.dueReports now) (n - (q.breakReports now).length) q.ends).filterMap
    fun s => s.1.left? s.2

/-- All breaks, marked if they were begun when the first so many reports were taken. -/
def toldBreaks (q : TaskQueue) (now : Time) (n : Nat) : List PlannedBreak :=
  (shares (·.dueReports now) n q.breaks).map fun s => s.1.told s.2

end TaskQueue

/-- Of a break that is owed, those reports are due that were not taken. -/
theorem PlannedBreak.flatMap_left? (b : PlannedBreak) (now : Time) (n : Nat) :
    (b.left? ((b.dueReports now).take n)).toList.flatMap (·.dueReports now) =
      (b.dueReports now).drop n := by
  obtain ⟨vehicle, link, task, started⟩ := b
  by_cases hstart : task.start ≤ now <;> by_cases hfinish : task.finish ≤ now <;>
    cases started <;> rcases n with _ | _ | n <;>
    simp [left?, told, dueReports, hstart, hfinish]

/-- Of a shift end that is owed, the report is due if it was not taken. -/
theorem PlannedEnd.flatMap_left? (e : PlannedEnd) (now : Time) (n : Nat) :
    (e.left? ((e.dueReports now).take n)).toList.flatMap (·.dueReports now) =
      (e.dueReports now).drop n := by
  by_cases hdue : e.time ≤ now <;> rcases n with _ | n <;> simp [left?, dueReports, hdue]

/-- If of each task those reports are left that were not taken, so it is with all of them. -/
theorem flatMap_filterMap_shares {α : Type} {reports : α → List TaskReport}
    {left : α → List TaskReport → Option α}
    (hleft : ∀ a n, (left a ((reports a).take n)).toList.flatMap reports = (reports a).drop n)
    (n : Nat) (l : List α) :
    ((shares reports n l).filterMap fun s => left s.1 s.2).flatMap reports =
      (l.flatMap reports).drop n := by
  induction l generalizing n with
  | nil => simp [shares]
  | cons a rest ih =>
    rw [shares, List.flatMap_cons, List.drop_append, ← hleft, ← ih]
    cases hone : left a ((reports a).take n) <;> simp [hone]

namespace TaskQueue

variable {d d' : Dispatcher} {now : Time} {fault : Fault} {q q' : TaskQueue} {n : Nat}

/-- Of what is owed, just those reports are due that were not taken. -/
theorem dueReports_owed (q : TaskQueue) (now : Time) (n : Nat) :
    (q.owed now n).dueReports now = (q.dueReports now).drop n := by
  simp only [dueReports, breakReports, endReports, owed]
  rw [flatMap_filterMap_shares fun b n => b.flatMap_left? now n,
    flatMap_filterMap_shares fun e n => e.flatMap_left? now n, List.drop_append]

/-- No shift end has been reported while there are breaks to be reported. -/
theorem owed_ends (h : n ≤ (q.breakReports now).length) : (q.owed now n).ends = q.ends := by
  have hleft (e : PlannedEnd) : e.left? [] = some e := by simp [PlannedEnd.left?]
  simp only [owed, Nat.sub_eq_zero_of_le h, shares_zero, List.filterMap_map, Function.comp_def,
    hleft, List.filterMap_some]

/-- All breaks that were due are over once a shift end is to be reported. -/
theorem owed_breaks (h : (q.breakReports now).length ≤ n) :
    (q.owed now n).breaks = q.breaks.filterMap fun b => b.left? (b.dueReports now) := by
  simp only [owed, shares_of_le _ h, List.filterMap_map, Function.comp_def]

/-! ## What a fault leaves -/

/-- No break is missing from those that are owed just if none was reported to be over. -/
private theorem owed_breaks_eq_iff :
    (q.owed now n).breaks = q.toldBreaks now n ↔
      ∀ v t, .breakEnds v t ∉ (q.breakReports now).take n := by
  unfold owed toldBreaks breakReports
  rw [List.filterMap_eq_map_iff_forall_eq_some, ← flatMap_shares]
  constructor
  · intro h v t hover
    obtain ⟨s, hs, hmem⟩ := List.mem_flatMap.1 hover
    obtain ⟨k, hk⟩ := exists_take_of_mem_shares _ hs
    have hdue := List.mem_of_mem_take (hk ▸ hmem)
    rcases PlannedBreak.eq_of_mem_dueReports hdue with heq | heq <;> cases heq
    have hleft := h s hs
    simp [PlannedBreak.left?, hmem] at hleft
  · intro h s hs
    exact if_neg fun hover => h _ _ (List.mem_flatMap.2 ⟨s, hs, hover⟩)

/-- No shift end is reported among the breaks. -/
theorem ne_shiftEnds_of_mem_breakReports {r : TaskReport} (h : r ∈ q.breakReports now) :
    ∀ v l, r ≠ .shiftEnds v l := by
  rintro v l rfl
  obtain ⟨b, -, hb⟩ := List.mem_flatMap.1 h
  rcases PlannedBreak.eq_of_mem_dueReports hb with heq | heq <;> cases heq

/-- After the breaks only shift ends are reported. -/
theorem exists_shiftEnds_of_mem_endReports {r : TaskReport} (h : r ∈ q.endReports now) :
    ∃ v l, r = .shiftEnds v l := by
  obtain ⟨e, -, he⟩ := List.mem_flatMap.1 h
  exact ⟨_, _, PlannedEnd.eq_of_mem_dueReports he⟩

/-- Of the shift ends that are yet to come none is due. -/
private theorem endReports_later {bs : List PlannedBreak} {es : List PlannedEnd} :
    endReports ⟨bs, es.filter (now < ·.time)⟩ now = [] := by
  refine List.flatMap_eq_nil_iff.2 fun e he => ?_
  have hlater : now < e.time := by simpa using (List.mem_filter.1 he).2
  exact if_neg (UInt64.not_le.2 hlater)

/-- After a fault at a break all breaks stand in the queue. That is what is owed if no break was
over before. -/
theorem queue_after_fault_at_break {made rest : List TaskReport} {r : TaskReport}
    (h : d.hearAll now (q.breakReports now) = (d', some fault))
    (hcount : d.heard now (q.breakReports now) = made.length)
    (hsplit : q.breakReports now = made ++ r :: rest) :
    (q.executeDue d now).1 = { q with breaks := q.toldBreaks now made.length } ∧
      ((q.executeDue d now).1 = q.owed now made.length ↔ ∀ v t, .breakEnds v t ∉ made) := by
  have hqueue : (q.executeDue d now).1 = { q with breaks := q.toldBreaks now made.length } := by
    rw [executeDue_of_fault_at_break h, hcount, toldBreaks]
  have htake : (q.breakReports now).take made.length = made := by
    rw [hsplit, List.take_left]
  have hends : (q.owed now made.length).ends = q.ends := owed_ends (by simp [hsplit])
  refine ⟨hqueue, ?_⟩
  rw [hqueue, ← htake, ← owed_breaks_eq_iff, htake]
  constructor
  · intro heq
    exact (congrArg TaskQueue.breaks heq).symm
  · intro hbreaks
    rw [← hbreaks, ← hends]

/-- After a fault at a shift end none that was due stands in the queue, although at least that one
is owed. -/
theorem queue_after_fault_at_end {made rest : List TaskReport} {r : TaskReport}
    (h : d.hearAll now (q.breakReports now) = (d', none))
    (hsplit : q.endReports now = made ++ r :: rest) :
    let n := (q.breakReports now ++ made).length
    (q.executeDue d now).1 = { q.owed now n with ends := q.ends.filter (now < ·.time) } ∧
      (q.executeDue d now).1 ≠ q.owed now n := by
  intro n
  have hn : (q.breakReports now).length ≤ n := by simp [n]
  have hqueue := executeDue_of_breaks h
  refine ⟨by rw [hqueue, ← owed_breaks hn], fun heq => ?_⟩
  have hdue : (q.owed now n).dueReports now = r :: rest := by
    rw [dueReports_owed, dueReports, hsplit, ← List.append_assoc, List.drop_left]
  have hnone : (q.owed now n).dueReports now = (q.owed now n).breakReports now := by
    rw [dueReports, ← heq, hqueue, endReports_later, List.append_nil]
  have howed : (q.owed now n).breakReports now = (q.breakReports now).drop n :=
    flatMap_filterMap_shares (fun b n => b.flatMap_left? now n) n q.breaks
  rw [hnone, howed, List.drop_eq_nil_of_le hn] at hdue
  cases hdue

/-- A fault is met, and all reports before it were taken. What is owed is what a queue should
hold, so that just the report that met the fault and those behind it are made once more. The queue
holds this if the fault was met at a break and no break was over before. After any fault at a
break, all breaks and all shift ends stand in it, also the breaks that are over; after a fault at
a shift end, the breaks that are owed and only those shift ends that were not due. -/
theorem queue_after_fault (h : q.executeDue d now = (q', d', some fault)) :
    ∃ made r rest, q.dueReports now = made ++ r :: rest ∧ d.hearAll now made = (d', none) ∧
      d'.hear now r = .error fault ∧ (q.owed now made.length).dueReports now = r :: rest ∧
      (q' = q.owed now made.length ↔
        (∀ v l, r ≠ .shiftEnds v l) ∧ ∀ v t, .breakEnds v t ∉ made) ∧
      ((∀ v l, r ≠ .shiftEnds v l) → q' = { q with breaks := q.toldBreaks now made.length }) ∧
      ((∃ v l, r = .shiftEnds v l) →
        q' = { q.owed now made.length with ends := q.ends.filter (now < ·.time) }) := by
  have houtcome : d.hearAll now (q.dueReports now) = (d', some fault) :=
    (executeDue_outcome q d now).symm.trans (congrArg (·.2) h)
  obtain rfl : (q.executeDue d now).1 = q' := congrArg (·.1) h
  have howed {made rest : List TaskReport} {r : TaskReport}
      (hsplit : q.dueReports now = made ++ r :: rest) :
      (q.owed now made.length).dueReports now = r :: rest := by
    rw [dueReports_owed, hsplit, List.drop_left]
  rcases hbreaks : d.hearAll now (q.breakReports now) with ⟨d₁, _ | fault'⟩
  · have hall := (Dispatcher.hearAll_append hbreaks (q.endReports now)).1
    obtain ⟨made, r, rest, hends, hmade, hfault, -⟩ :=
      Dispatcher.exists_split_of_fault (hall.symm.trans houtcome)
    obtain ⟨v, l, rfl⟩ : ∃ v l, r = .shiftEnds v l :=
      exists_shiftEnds_of_mem_endReports (hends ▸ List.mem_append_right made List.mem_cons_self)
    have hsplit : q.dueReports now = (q.breakReports now ++ made) ++ .shiftEnds v l :: rest := by
      rw [dueReports, hends, List.append_assoc]
    obtain ⟨hqueue, hne⟩ := queue_after_fault_at_end hbreaks hends
    exact ⟨_, _, rest, hsplit, (Dispatcher.hearAll_append hbreaks made).1.trans hmade, hfault,
      howed hsplit, iff_of_false hne fun hkind => hkind.1 v l rfl,
      fun hkind => absurd rfl (hkind v l), fun _ => hqueue⟩
  · have hall := (Dispatcher.hearAll_append_of_fault hbreaks (q.endReports now)).1
    obtain ⟨rfl, rfl⟩ : d₁ = d' ∧ fault' = fault := by
      simpa using hall.symm.trans houtcome
    obtain ⟨made, r, rest, hreports, hmade, hfault, hcount⟩ :=
      Dispatcher.exists_split_of_fault hbreaks
    have hkind : ∀ v l, r ≠ .shiftEnds v l :=
      ne_shiftEnds_of_mem_breakReports (hreports ▸ List.mem_append_right made List.mem_cons_self)
    have hsplit : q.dueReports now = made ++ r :: (rest ++ q.endReports now) := by
      rw [dueReports, hreports, List.append_assoc, List.cons_append]
    obtain ⟨hqueue, hiff⟩ := queue_after_fault_at_break hbreaks hcount hreports
    exact ⟨made, r, _, hsplit, hmade, hfault, howed hsplit,
      hiff.trans (and_iff_right hkind).symm, fun _ => hqueue,
      fun ⟨v, l, hr⟩ => absurd hr (hkind v l)⟩

/-- While the bus is on its break its shift cannot end. After that fault the queue is empty, and
the end of the shift of the van, which nobody has reported, is gone from it as well. -/
theorem shift_ends_gone_after_fault :
    let bus : Vehicle := { id := ⟨"bus"⟩, link := ⟨"yard"⟩, shifts := [
      { id := ⟨"early"⟩, start := 0, finish := 3600, state := .onBreak }] }
    let van : Vehicle := { id := ⟨"van"⟩, link := ⟨"yard"⟩, shifts := [
      { id := ⟨"late"⟩, start := 0, finish := 3600, state := .started }] }
    let d : Dispatcher := { vehicles := (Table.empty.insert van.id van).insert bus.id bus }
    let q : TaskQueue := { ends := [⟨bus.id, bus.link, 3600⟩, ⟨van.id, van.link, 3600⟩] }
    ∃ d' fault, q.executeDue d 3600 = ({}, d', some fault) ∧
      ∃ made r rest, q.dueReports 3600 = made ++ r :: rest ∧ d.hearAll 3600 made = (d', none) ∧
        (q.owed 3600 made.length).dueReports 3600 = r :: rest ∧
        ({} : TaskQueue) ≠ q.owed 3600 made.length := by
  intro bus van d q
  let fault := Fault.illegalTransition ⟨"early"⟩ .onBreak .ended
  have hgone : q.executeDue d 3600 = ({}, (q.executeDue d 3600).2.1, some fault) :=
    Prod.ext (by decide +kernel) (Prod.ext rfl (by decide +kernel))
  obtain ⟨made, r, rest, hsplit, hmade, -, hretry, hiff, -⟩ := queue_after_fault hgone
  refine ⟨_, fault, hgone, made, r, rest, hsplit, hmade, hretry, fun heq => ?_⟩
  have hall : ∀ r ∈ q.dueReports 3600, ∃ v l, r = .shiftEnds v l :=
    fun r hr => exists_shiftEnds_of_mem_endReports hr
  obtain ⟨v, l, hr⟩ := hall r (hsplit ▸ List.mem_append_right made List.mem_cons_self)
  exact (hiff.1 heq).1 v l hr

end TaskQueue

end DialARide
