import DialARide.Proofs.Shift.Conservation
import DialARide.Proofs.Shift.EndSlot
import Mathlib.Data.List.Chain

/-!
# The log determines the shifts

Whatever becomes of a shift is put down in the log, and nothing else is. What was put down of a
shift is replayed to get the shift as it is, whether or not the log was taken away since, and
comes in the order in which the life of a shift goes. A dispatch tells the fleet what it puts
down, and nothing else.
-/

namespace DialARide

/-! ## The life of a shift -/

/-- The shift after what a mark tells of it. -/
def Shift.replay (s : Shift) : Mark → Shift
  | (.assigned, _) => { s with state := .waiting }
  | (.started, _) => { s with state := .started }
  | (.breakScheduled, facility) => { s with breakFacility := facility }
  | (.breakStarted, _) => { s with state := .onBreak }
  | (.breakEnded, _) => { s with state := .started, breakTaken := true }
  | (.endScheduled, facility) => { s with endFacility := facility }
  | (.ended, _) =>
    { s with state := .ended, breakFacility := if s.breakTaken then s.breakFacility else none }

/-- The shift that marks tell of, as it was planned. -/
def ShiftPlan.replay (p : ShiftPlan) (marks : List Mark) : Shift :=
  marks.foldl Shift.replay { toShiftPlan := p }

/-- What is put down along with an instruction. -/
def Instruction.event (now : Time) : Instruction → ShiftEvent
  | .assigned vehicle shift => { time := now, kind := .assigned, vehicle, shift }
  | .started vehicle shift => { time := now, kind := .started, vehicle, shift }
  | .takeBreak vehicle shift _ task =>
    { time := now, kind := .breakScheduled, vehicle, shift, facility := some task.facility }
  | .endShift vehicle shift facility _ _ =>
    { time := now, kind := .endScheduled, vehicle, shift, facility := some facility }

/-- It is a start or an end of a break that is put down. -/
def ShiftEventKind.isTurn (k : ShiftEventKind) : Bool := k = .breakStarted || k = .breakEnded

/-- What is put down of a shift comes in the order in which the life of a shift goes. -/
structure Orderly (kinds : List ShiftEventKind) : Prop where
  opening : kinds <+: [.assigned, .started] ∨ [.assigned, .started] <+: kinds
  break_once : kinds.count .breakScheduled ≤ 1
  end_once : kinds.count .endScheduled ≤ 1
  turns : (kinds.filter ShiftEventKind.isTurn).IsChain (· ≠ ·)
  first_turn : (kinds.filter ShiftEventKind.isTurn).head? ≠ some .breakEnded
  closing : .ended ∉ kinds.dropLast

/-- The life of a shift of which nothing is put down is in order. -/
theorem Orderly.nil : Orderly [] :=
  ⟨.inl List.nil_prefix, by simp, by simp, .nil, by simp, by simp⟩

/-- Marks tell all that has become of a shift since it was assigned. -/
inductive Recounts (p : ShiftPlan) : List Mark → Shift → Prop
  | assigned : Recounts p [(.assigned, none)] { toShiftPlan := p }
  | turn {marks : List Mark} {s t : Shift} {kind : ShiftEventKind}
      {facility : Option FacilityId} : Recounts p marks s → s.Change kind facility t →
      Recounts p (marks ++ [(kind, facility)]) t

section Recounts

variable {p : ShiftPlan} {marks : List Mark} {s t : Shift} {kind : ShiftEventKind}
  {facility : Option FacilityId}

/-- The mark of a change tells what the change does. -/
theorem Shift.Change.replay_eq (h : s.Change kind facility t) : s.replay (kind, facility) = t := by
  cases h <;> rfl

namespace Recounts

/-- Marks are replayed to get the shift as it is. -/
theorem replay_eq (h : Recounts p marks s) : p.replay marks = s := by
  induction h with
  | assigned => rfl
  | turn _ hchange ih =>
    rw [ShiftPlan.replay, List.foldl_append, ← ShiftPlan.replay, ih]
    exact hchange.replay_eq

/-- The marks begin with the assignment, and with the start behind it once the shift is no longer
waiting. -/
theorem opening (h : Recounts p marks s) :
    (s.state = .waiting ∧ marks.map (·.1) = [.assigned]) ∨
      s.state ≠ .waiting ∧ [.assigned, .started] <+: marks.map (·.1) := by
  induction h with
  | assigned => exact .inl ⟨rfl, rfl⟩
  | turn _ hchange ih =>
    rw [List.map_append]
    rcases ih with ⟨hwait, hkinds⟩ | ⟨hbegun, hprefix⟩
    · rw [hkinds]
      cases hchange with
      | started => exact .inr ⟨by simp, List.prefix_refl _⟩
      | _ => simp_all
    · refine .inr ⟨?_, hprefix.trans (List.prefix_append _ _)⟩
      cases hchange <;> simp_all [Shift.planBreak, Shift.planEnd, Shift.over]

/-- What is put down only of a shift with a property that it then loses for good is put down once at
most. -/
theorem count_le_one {k : ShiftEventKind} {P : Shift → Prop} (hk : k ≠ .assigned)
    (hput : ∀ {s t facility}, Shift.Change s k facility t → P s ∧ ¬ P t)
    (hkept : ∀ {s t kind facility}, Shift.Change s kind facility t → P t → P s)
    (h : Recounts p marks s) :
    (marks.map (·.1)).count k ≤ 1 ∧ (P s → k ∉ marks.map (·.1)) := by
  induction h with
  | assigned => simp [hk, hk.symm]
  | @turn marks s t kind facility _ hchange ih =>
    rw [List.map_append, List.count_append]
    by_cases hkind : kind = k
    · subst hkind
      obtain ⟨hfree, htaken⟩ := hput hchange
      have hnone := List.count_eq_zero.2 (ih.2 hfree)
      exact ⟨by simp [hnone], fun hfree' => absurd hfree' htaken⟩
    · refine ⟨by simpa [hkind] using ih.1, fun hfree => ?_⟩
      simpa [Ne.symm hkind] using ih.2 (hkept hchange hfree)

/-- The facility of a break stays with the shift until it has ended. -/
theorem break_once (h : Recounts p marks s) : (marks.map (·.1)).count .breakScheduled ≤ 1 := by
  refine (h.count_le_one (P := fun s => s.state ≠ .ended ∧ s.breakFacility = none) (by simp)
    (fun hchange => ?_) fun hchange hfree => ⟨hchange.not_ended, ?_⟩).1
  · cases hchange with
    | breakScheduled f hstate hplan => exact ⟨⟨by simp [hstate], hplan⟩, by simp [Shift.planBreak]⟩
  · cases hchange with
    | breakScheduled f hstate hplan => exact hplan
    | ended => exact absurd rfl hfree.1
    | _ => exact hfree.2

/-- The facility of the end stays with the shift for good. -/
theorem end_once (h : Recounts p marks s) : (marks.map (·.1)).count .endScheduled ≤ 1 := by
  refine (h.count_le_one (P := fun s => s.endFacility = none) (by simp) (fun hchange => ?_)
    fun hchange hfree => ?_).1
  · cases hchange with
    | endScheduled f hstate hend => exact ⟨hend, by simp [Shift.planEnd]⟩
  · cases hchange with
    | endScheduled f hstate hend => exact hend
    | _ => exact hfree

/-- Breaks start and end by turns. A start came last exactly while the shift stands still. Of the
starts and ends of breaks only the last one and the first one matter from there on. -/
theorem turns (h : Recounts p marks s) :
    ((marks.map (·.1)).filter ShiftEventKind.isTurn).IsChain (· ≠ ·) ∧
      ((marks.map (·.1)).filter ShiftEventKind.isTurn).head? ≠ some .breakEnded ∧
      (((marks.map (·.1)).filter ShiftEventKind.isTurn).getLast? = some .breakStarted ↔
        s.state = .onBreak) := by
  induction h with
  | assigned => simp [ShiftEventKind.isTurn]
  | @turn marks s t kind facility _ hchange ih =>
    obtain ⟨hchain, hhead, hlast⟩ := ih
    rw [List.map_append, List.filter_append]
    generalize (marks.map (·.1)).filter ShiftEventKind.isTurn = before at *
    cases hchange with
    | breakStarted hstate =>
      have hback : before.getLast? ≠ some .breakStarted := fun hb => by simp [hlast.1 hb] at hstate
      refine ⟨List.isChain_append.2 ⟨hchain, .singleton _, ?_⟩, ?_, by simp [ShiftEventKind.isTurn]⟩
      · rintro k hk _ ⟨⟩ rfl
        exact hback hk
      · cases before <;> simp_all [ShiftEventKind.isTurn]
    | breakEnded f hstate =>
      have hstill := hlast.2 hstate
      refine ⟨List.isChain_append.2 ⟨hchain, .singleton _, ?_⟩, ?_, by simp [ShiftEventKind.isTurn]⟩
      · rintro k hk _ ⟨⟩ rfl
        simp [hstill] at hk
      · cases before <;> simp_all
    | _ => simp_all [ShiftEventKind.isTurn, Shift.planBreak, Shift.planEnd, Shift.over]

/-- The end of a shift is put down once it has ended, and nothing after it. -/
theorem closing (h : Recounts p marks s) : (.ended ∈ marks.map (·.1) ↔ s.state = .ended) ∧
    .ended ∉ (marks.map (·.1)).dropLast := by
  induction h with
  | assigned => simp
  | turn _ hchange ih =>
    have hopen := mt ih.1.1 hchange.not_ended
    rw [List.map_append]
    refine ⟨?_, by simpa using hopen⟩
    cases hchange <;> simp_all [Shift.planBreak, Shift.planEnd, Shift.over]

/-- What marks tell of a shift comes in the order of its life. -/
theorem orderly (h : Recounts p marks s) : Orderly (marks.map (·.1)) where
  opening := by
    rcases h.opening with ⟨-, hkinds⟩ | ⟨-, hprefix⟩
    · exact .inl (hkinds ▸ List.prefix_append [ShiftEventKind.assigned] [.started])
    · exact .inr hprefix
  break_once := h.break_once
  end_once := h.end_once
  turns := h.turns.1
  first_turn := h.turns.2.1
  closing := h.closing.2

end Recounts

end Recounts

/-! ## Shifts with one name -/

namespace Dispatcher

variable {d d' : Dispatcher} {now : Time} {os : List Operation} {o : Operation} {v w : Vehicle}
  {i j : VehicleId} {s t : Shift}

/-- No two shifts that are open or assigned have one name. -/
def Distinct (d : Dispatcher) : Prop := ((d.unassigned ++ d.queued).map (·.id)).Nodup

/-- Names are distinct when no plan that is kept has the name of another. -/
theorem distinct_iff : d.Distinct ↔ (d.kept.map (·.id)).Nodup := by
  rw [kept, List.map_map]
  rfl

/-- No two shifts that are assigned have one name. -/
theorem Distinct.nodup_queued (h : d.Distinct) : (d.queued.map (·.id)).Nodup := by
  rw [Distinct, List.map_append] at h
  exact h.of_append_right

/-- An open shift has another name than one that is assigned. -/
theorem Distinct.open_ne (h : d.Distinct) (hs : s ∈ d.unassigned) (ht : t ∈ d.queued) :
    s.id ≠ t.id := by
  rw [Distinct, List.map_append] at h
  intro hid
  exact List.disjoint_of_nodup_append h (List.mem_map_of_mem hs) (hid ▸ List.mem_map_of_mem ht)

/-- Shifts of different vehicles have different names. -/
theorem Distinct.ne_of_ne (h : d.Distinct) (hv : d.vehicles.find? i = some v)
    (hw : d.vehicles.find? j = some w) (hne : v ≠ w) (hs : s ∈ v.shifts) (ht : t ∈ w.shifts) :
    s.id ≠ t.id := by
  have hnodup := h.nodup_queued
  rw [queued, List.map_flatMap, List.nodup_flatMap] at hnodup
  have hsymm : Std.Symm (Function.onFun List.Disjoint fun u : Vehicle => u.shifts.map (·.id)) :=
    ⟨fun _ _ hdisjoint => List.disjoint_symm hdisjoint⟩
  have hapart := hnodup.2.forall (Table.mem_values_iff.2 ⟨i, hv⟩)
    (Table.mem_values_iff.2 ⟨j, hw⟩) hne
  exact fun hid => hapart (List.mem_map_of_mem hs) (hid ▸ List.mem_map_of_mem ht)

/-- No two shifts of one vehicle have one name. -/
theorem Distinct.nodup_shifts (h : d.Distinct) (hv : d.vehicles.find? i = some v) :
    (v.shifts.map (·.id)).Nodup := by
  have hnodup := h.nodup_queued
  rw [queued, List.map_flatMap, List.nodup_flatMap] at hnodup
  exact hnodup.1 v (Table.mem_values_iff.2 ⟨i, hv⟩)

/-- Names stay distinct, whatever is done to the shifts. -/
theorem Effect.distinct (h : d.Effect now d') (hd : d.Distinct) : d'.Distinct := by
  rcases h.kept_or_dropped with hkept | ⟨-, s, -, -, hdropped⟩
  · exact distinct_iff.2 ((hkept.map ShiftPlan.id).nodup_iff.1 (distinct_iff.1 hd))
  · have hall := (hdropped.map ShiftPlan.id).nodup_iff.1 (distinct_iff.1 hd)
    exact distinct_iff.2 (List.nodup_cons.1 hall).2

/-! ## The log and the shifts -/

/-- What a log tells of the shift of a name. -/
def taleOf (log : List ShiftEvent) (shift : ShiftId) : List ShiftEvent :=
  log.filter (·.shift = shift)

@[simp] theorem taleOf_concat (log : List ShiftEvent) (e : ShiftEvent) (shift : ShiftId) :
    taleOf (log ++ [e]) shift = taleOf log shift ++ if e.shift = shift then [e] else [] := by
  by_cases he : e.shift = shift <;> simp [taleOf, he]

/-- A log tells all that has become of the shifts of all vehicles. -/
def Recounted (log : List ShiftEvent) (d : Dispatcher) : Prop :=
  ∀ i v, d.vehicles.find? i = some v → ∀ s ∈ v.shifts,
    Recounts s.toShiftPlan ((taleOf log s.id).map ShiftEvent.mark) s

variable {log taken : List ShiftEvent} {before after : List Shift} {u : Vehicle} {e : ShiftEvent}
  {facilities : Facilities}

/-- Nothing is told of a shift that has no vehicle. -/
theorem Attributed.taleOf_eq_nil (h : Attributed log d) {shift : ShiftId}
    (hnone : shift ∉ d.queued.map (·.id)) : taleOf log shift = [] := by
  refine List.filter_eq_nil_iff.2 fun e he => ?_
  obtain ⟨v, hv, hmem⟩ := h e he
  obtain ⟨x, hx, hxid⟩ := List.mem_map.1 hmem
  have hqueued : e.shift ∈ d.queued.map (·.id) :=
    List.mem_map.2 ⟨x, mem_queued_iff.2 ⟨e.vehicle, v, hv, hx⟩, hxid⟩
  simpa using fun heq : e.shift = shift => hnone (heq ▸ hqueued)

/-- Of one shift things are put down for one vehicle only. -/
theorem Attributed.vehicle_eq {e' : ShiftEvent} (h : Attributed log d) (hd : d.Named)
    (hdistinct : d.Distinct) (he : e ∈ log) (he' : e' ∈ log) (hshift : e.shift = e'.shift) :
    e.vehicle = e'.vehicle := by
  obtain ⟨v, hv, hvmem⟩ := h e he
  obtain ⟨w, hw, hwmem⟩ := h e' he'
  obtain ⟨x, hx, hxid⟩ := List.mem_map.1 hvmem
  obtain ⟨y, hy, hyid⟩ := List.mem_map.1 hwmem
  by_contra hne
  have hdiffer : v ≠ w := fun heq =>
    hne ((hd e.vehicle v hv).symm.trans (heq ▸ hd e'.vehicle w hw))
  exact hdistinct.ne_of_ne hv hw hdiffer hx hy (hxid.trans (hshift.trans hyid.symm))

/-- What is put down of one shift does not concern any other. -/
theorem Recounted.amend (h : Recounted log d) (hd : (d.amend facilities u e).Sound)
    (hdistinct : (d.amend facilities u e).Distinct) (hv : d.vehicles.find? u.id = some v)
    (hsplit : u.shifts = before ++ t :: after) (hrest : ∀ x ∈ before ++ after, x ∈ v.shifts)
    (hshift : e.shift = t.id)
    (htold : Recounts t.toShiftPlan ((taleOf log t.id).map ShiftEvent.mark ++ [e.mark]) t) :
    Recounted (log ++ [e]) (d.amend facilities u e) := by
  have hu : (d.amend facilities u e).vehicles.find? u.id = some u := by simp
  intro i w hw x hx
  rcases find?_amend hw with ⟨rfl, rfl⟩ | ⟨hid, hold⟩
  · rw [hsplit, List.perm_middle.mem_iff, List.mem_cons] at hx
    rcases hx with rfl | hx
    · simpa [hshift] using htold
    · have hnodup := hdistinct.nodup_shifts hu
      rw [hsplit, (List.perm_middle.map _).nodup_iff] at hnodup
      have hne : t.id ≠ x.id := fun heq =>
        (List.nodup_cons.1 hnodup).1 (List.mem_map.2 ⟨x, hx, heq.symm⟩)
      simpa [hshift, hne] using h w.id v hv x (hrest x hx)
  · have hdiffer : u ≠ w := fun heq => hid (heq ▸ hd.named i w hw)
    have hne : t.id ≠ x.id := hdistinct.ne_of_ne hu hw hdiffer (by simp [hsplit]) hx
    simpa [hshift, hne] using h i w hold x hx

/-- What a dispatcher does to its shifts it tells of. The tale of a shift starts with its
assignment, as long as no other shift has its name. -/
theorem Effect.recounted (h : d.Effect now d') (hd : d.Sound) (hd' : d'.Sound)
    (hdistinct : d.Distinct) (hlog : Attributed (taken ++ d.events) d)
    (hrecounted : Recounted (taken ++ d.events) d) : Recounted (taken ++ d'.events) d' := by
  have hdistinct' := h.distinct hdistinct
  cases h with
  | tick | expire => exact hrecounted
  | assign before s after v hopen hv =>
    have hs : s ∈ d.unassigned := by simp [hopen]
    have hfresh : s.Fresh := hd.fresh s hs
    have hnone : taleOf (taken ++ d.events) s.id = [] := by
      refine hlog.taleOf_eq_nil fun hmem => ?_
      obtain ⟨x, hx, hxid⟩ := List.mem_map.1 hmem
      exact hdistinct.open_ne hs hx hxid.symm
    obtain ⟨front, back, hsplit, hinsert⟩ := Vehicle.exists_split_of_insertByStart s v.shifts
    have hrecounted' : Recounted (taken ++ d.events) { d with unassigned := before ++ after } :=
      hrecounted
    rw [amend_events, ← List.append_assoc]
    refine hrecounted'.amend hd' hdistinct' hv hinsert (fun x hx => hsplit ▸ hx) rfl ?_
    rw [hnone, hfresh]
    exact .assigned
  | change v u before s t after facilities e hv hid hsplit hsplit' hvehicle hshift hchange =>
    have hsame : t.id = s.id := congrArg ShiftPlan.id hchange.plan_eq
    have hs : s ∈ v.shifts := by simp [hsplit]
    have hrest : ∀ x ∈ before ++ after, x ∈ v.shifts := fun x hx => by
      rw [hsplit, List.perm_middle.mem_iff]
      exact List.mem_cons_of_mem s hx
    rw [amend_events, ← List.append_assoc]
    refine hrecounted.amend hd' hdistinct' (hid ▸ hv) hsplit' hrest (hshift.trans hsame.symm) ?_
    rw [hsame, hchange.plan_eq]
    exact (hrecounted v.id v hv s hs).turn hchange

/-- An operation that does not take the log away puts down all that it does to the shifts. -/
theorem Performed.recounted (h : d.Performed o d') (hd : d.Sound) (hdistinct : d.Distinct)
    (ho : o ≠ .drain) (hlog : Attributed (taken ++ d.events) d)
    (hrecounted : Recounted (taken ++ d.events) d) : Recounted (taken ++ d'.events) d' := by
  cases h with
  | refused | offered => exact hrecounted
  | joined entry facilities =>
    intro i w hw
    rcases Table.find?_insert_eq_some_iff.1 hw with ⟨-, rfl⟩ | ⟨-, hold⟩
    · intro x hx
      cases hx
    · exact hrecounted i w hold
  | moved v link available hv =>
    intro i w hw
    rcases Table.find?_insert_eq_some_iff.1 hw with ⟨-, rfl⟩ | ⟨-, hold⟩
    · exact hrecounted v.id v hv
    · exact hrecounted i w hold
  | dispatched now _ out hboundary hdecisions =>
    have hkept := hdecisions.keeps (P := fun d => d.Sound ∧ d.Distinct ∧
      Attributed (taken ++ d.events) d ∧ Recounted (taken ++ d.events) d) ?_
      ⟨hd, hdistinct, hlog, hrecounted⟩
    · exact hkept.2.2.2
    · rintro d d' i hdecision ⟨hd, hdistinct, hlog, hrecounted⟩
      have hact : d.Act d' := .decided hdecision
      exact ⟨hact.sound hd, hdecision.effect.distinct hdistinct, hdecision.effect.attributed hlog,
        hdecision.effect.recounted hd (hact.sound hd) hdistinct hlog hrecounted⟩
  | reported _ now _ e hreport =>
    have hact : d.Act d' := .reported hreport
    exact hreport.effect.recounted hd (hact.sound hd) hdistinct hlog hrecounted
  | drained => exact absurd rfl ho

/-! ## Instructions -/

/-- A decision puts down what its instruction says. -/
theorem Decision.events_eq {i : Option Instruction} (h : d.Decision now d' i) :
    d'.events = d.events ++ i.toList.map (Instruction.event now) := by
  cases h <;> simp [Instruction.event]

/-- Decisions put down what their instructions say, in order. -/
theorem Decisions.events_eq {out : List Instruction} (h : Decisions now d d' out) :
    d'.events = d.events ++ out.map (Instruction.event now) := by
  induction h with
  | nil => simp
  | cons hfirst _ ih => rw [ih, hfirst.events_eq, List.map_append, List.append_assoc]

/-! ## Runs -/

section Runs

variable {policy : ShiftPolicy} {network : Network} {sites : List FacilitySite}

/-- Names are distinct in every run in which nothing is added twice. -/
theorem distinct_run (h : (opened policy network sites).run os = .ok d) (hnew : AddsAnew os) :
    d.Distinct := by
  have hnodup := (((perm_offered h hnew).1.map (·.id)).nodup_iff).2 hnew.shifts
  rw [List.map_append] at hnodup
  exact distinct_iff.2 hnodup.of_append_left

/-- The log of every run tells all that has become of the shifts, if nothing was added twice. -/
theorem recounted_history (h : (opened policy network sites).run os = .ok d)
    (hnew : AddsAnew os) : Recounted ((opened policy network sites).history os d) d := by
  refine (history_induction
    (P := fun os d log => AddsAnew os → Attributed log d ∧ Recounted log d)
    (sound_opened policy network sites) (fun _ => ⟨fun _ he => absurd he List.not_mem_nil,
      fun _ _ hv => absurd hv (by simp [opened])⟩) ?_
    (fun os d log _ hP hnew => hP hnew.of_concat) h hnew).2
  intro os o d d' taken hrun _ hd hperformed ho hP hnew
  obtain ⟨hlog, hrecounted⟩ := hP hnew.of_concat
  exact ⟨hperformed.attributed (find?_eq_none_of_joins hrun hnew.vehicles) ho hlog,
    hperformed.recounted hd (distinct_run hrun hnew.of_concat) ho hlog hrecounted⟩

/-- Whatever is asked of a dispatcher, what was put down of a shift is replayed to get the shift
as it is, comes in the order in which the life of a shift goes, and names one vehicle. A dispatch
puts down what it tells the fleet, and nothing else. -/
theorem log_determines_shifts (h : (opened policy network sites).run os = .ok d)
    (hnew : AddsAnew os) :
    let log := (opened policy network sites).history os d
    (∀ p ∈ offered os,
      (∀ s ∈ d.unassigned ++ d.queued, s.id = p.id →
        s = p.replay ((taleOf log p.id).map ShiftEvent.mark)) ∧
      Orderly ((taleOf log p.id).map (·.kind)) ∧
      ∀ e ∈ taleOf log p.id, ∀ e' ∈ taleOf log p.id, e.vehicle = e'.vehicle) ∧
    ∀ now d' out, d.dispatch now = .ok (d', out) →
      d'.events = d.events ++ out.map (Instruction.event now) := by
  intro log
  have hd : d.Sound := sound_run (sound_opened policy network sites) h
  have hdistinct := distinct_run h hnew
  have hlog := attributed_history h hnew.vehicles
  have hrecounted := recounted_history h hnew
  refine ⟨fun p hp => ⟨fun s hs hid => ?_, ?_, ?_⟩, fun now d' out hdispatch =>
    (decisions_dispatch hd.named hdispatch).events_eq⟩
  · have hplan : s.toShiftPlan = p := by
      have hkept : s.toShiftPlan ∈ offered os :=
        (perm_offered h hnew).1.subset (List.mem_append_left _ (List.mem_map_of_mem hs))
      exact List.inj_on_of_nodup_map hnew.shifts hkept hp hid
    rw [← hid, ← hplan]
    rcases List.mem_append.1 hs with hopen | hqueued
    · have hnone : s.id ∉ d.queued.map (·.id) := fun hmem => by
        obtain ⟨x, hx, hxid⟩ := List.mem_map.1 hmem
        exact hdistinct.open_ne hopen hx hxid.symm
      rw [hlog.taleOf_eq_nil hnone]
      exact hd.fresh s hopen
    · obtain ⟨i, v, hv, hs⟩ := mem_queued_iff.1 hqueued
      exact (hrecounted i v hv s hs).replay_eq.symm
  · by_cases hqueued : p.id ∈ d.queued.map (·.id)
    · obtain ⟨x, hx, hxid⟩ := List.mem_map.1 hqueued
      obtain ⟨i, v, hv, hx⟩ := mem_queued_iff.1 hx
      have horderly := (hrecounted i v hv x hx).orderly
      rw [List.map_map] at horderly
      exact hxid ▸ horderly
    · rw [hlog.taleOf_eq_nil hqueued]
      exact .nil
  · intro e he e' he'
    obtain ⟨hmem, hid⟩ := List.mem_filter.1 he
    obtain ⟨hmem', hid'⟩ := List.mem_filter.1 he'
    exact hlog.vehicle_eq hd.named hdistinct hmem hmem'
      ((of_decide_eq_true hid).trans (of_decide_eq_true hid').symm)

/-- The tale of a shift with a break, of which a part was taken away before the break was over. -/
theorem replay_day_with_break :
    let plan : ShiftPlan :=
      { id := ⟨"day"⟩, start := 0, finish := 3600, breakWindow := some ⟨1800, 3600, 600⟩ }
    let os : List Operation := [.addVehicle { id := ⟨"bus"⟩, link := ⟨"yard"⟩ }, .addShift plan,
      .dispatch 0, .dispatch 1200, .startBreak ⟨"bus"⟩ ⟨"yard"⟩ 1800, .drain,
      .endBreak ⟨"bus"⟩ ⟨⟨"hub"⟩, 1800, 2400⟩ 2400, .endShift ⟨"bus"⟩ ⟨"yard"⟩ 3600]
    let office := opened {} depot.network depot.facilities
    ∃ d s, office.run os = .ok d ∧ AddsAnew os ∧ s ∈ d.queued ∧ s.id = plan.id ∧
      s.state = .ended ∧ d.events.map (·.kind) = [.breakEnded, .ended] ∧
      (taleOf (office.history os d) plan.id).map (·.kind) =
        [.assigned, .started, .endScheduled, .breakScheduled, .breakStarted, .breakEnded, .ended] ∧
      s = plan.replay ((taleOf (office.history os d) plan.id).map ShiftEvent.mark) := by
  intro plan os office
  have htale : (office.run os).toOption.bind (fun d => d.queued.head?.map fun s =>
      (s.id, s.state, d.events.map (·.kind),
        (taleOf (office.history os d) plan.id).map (·.kind))) =
      some (plan.id, .ended, [.breakEnded, .ended],
        [.assigned, .started, .endScheduled, .breakScheduled, .breakStarted, .breakEnded,
          .ended]) := by
    decide +kernel
  have hnew : AddsAnew os := ⟨by decide, by decide⟩
  cases hrun : office.run os with
  | error halt => simp [hrun, Except.toOption] at htale
  | ok d =>
    simp only [hrun, Except.toOption, Option.bind_some] at htale
    obtain ⟨s, hs, htale⟩ := Option.map_eq_some_iff.1 htale
    simp only [Prod.mk.injEq] at htale
    obtain ⟨hid, hstate, hevents, hkinds⟩ := htale
    have hqueued := List.mem_of_mem_head? hs
    have hreplay := ((log_determines_shifts hrun hnew).1 plan (by simp [offered, os,
      Operation.plan?])).1 s (List.mem_append_right _ hqueued) hid
    exact ⟨d, s, rfl, hnew, hqueued, hid, hstate, hevents, hkinds, hreplay⟩

end Runs

end Dispatcher

end DialARide
