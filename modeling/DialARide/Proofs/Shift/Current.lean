import DialARide.Proofs.Shift.Operation

/-!
# The current shift and the running one

A queue stands in the order of start, and one shift of it is running at most. Shifts that start
together are taken up in the order in which they stand. The running shift is therefore the
current one, unless a shift that starts later has ended before: the queue has then come to that
one for good, and what is reported of the vehicle is taken to concern a shift that is over.
-/

namespace DialARide

/-- How a shift stands to one behind it in a queue. -/
structure Shift.Precedes (a b : Shift) : Prop where
  start_le : a.start ≤ b.start
  alone : ¬ (a.isRunning ∧ b.isRunning)
  inTurn : a.start = b.start → a.state ≠ .ended → b.state = .waiting

namespace Vehicle

variable {l l' before after : List Shift} {s : Shift}

/-- The queue stands in order. -/
def InOrder (l : List Shift) : Prop := l.Pairwise Shift.Precedes

/-- Of two shifts in a queue that stands in order the one in front precedes the other. -/
theorem inOrder_append_cons : InOrder (before ++ s :: after) ↔
    InOrder (before ++ after) ∧ (∀ a ∈ before, a.Precedes s) ∧ ∀ b ∈ after, s.Precedes b := by
  unfold InOrder
  rw [List.pairwise_append, List.pairwise_append, List.pairwise_cons]
  constructor
  · rintro ⟨hbefore, ⟨hs, hafter⟩, hacross⟩
    exact ⟨⟨hbefore, hafter, fun a ha b hb => hacross a ha b (List.mem_cons_of_mem s hb)⟩,
      fun a ha => hacross a ha s List.mem_cons_self, hs⟩
  · rintro ⟨⟨hbefore, hafter, hacross⟩, hfront, hs⟩
    refine ⟨hbefore, ⟨hs, hafter⟩, fun a ha b hb => ?_⟩
    rcases List.mem_cons.1 hb with rfl | hb
    · exact hfront a ha
    · exact hacross a ha b hb

/-- A step of a queue keeps it in order. A shift in front is neither waiting nor running, so it has
ended. -/
theorem Moves.inOrder (h : Moves l l') (hl : InOrder l) : InOrder l' := by
  cases h with
  | joined s hs =>
    have hidle : ¬ s.isRunning := Shift.not_running_iff.2 (.inl hs.state_eq)
    refine pairwise_insertByStart hl (fun a b hab => hab.start_le) (fun a _ hle => ?_)
      fun a _ hlt => ?_
    · exact ⟨hle, fun hrun => hidle hrun.2, fun _ _ => hs.state_eq⟩
    · exact ⟨UInt64.le_of_lt hlt, fun hrun => hidle hrun.1,
        fun heq => absurd (heq ▸ hlt) (UInt64.lt_irrefl a.start)⟩
  | begun before s after hsplit hbefore hwait hidle =>
    subst hsplit
    obtain ⟨hrest, hfront, hback⟩ := inOrder_append_cons.1 hl
    refine inOrder_append_cons.2 ⟨hrest, fun a ha => ?_, fun b hb => ?_⟩
    · have hstill := hidle a (List.mem_append_left _ ha)
      have hended := (Shift.not_running_iff.1 hstill).resolve_left (hbefore a ha)
      exact ⟨(hfront a ha).start_le, fun hrun => hstill hrun.1,
        fun _ hopen => absurd hended hopen⟩
    · have hstill := hidle b (by simp [hb])
      exact ⟨(hback b hb).start_le, fun hrun => hstill hrun.2,
        fun heq _ => (hback b hb).inTurn heq (by simp [hwait])⟩
  | went before s t after hcome hgoes =>
    obtain ⟨rfl, hbegun, hwait⟩ := hcome
    obtain ⟨hrest, hfront, hback⟩ := inOrder_append_cons.1 hl
    refine inOrder_append_cons.2 ⟨hrest, fun a ha => ?_, fun b hb => ?_⟩
    · refine ⟨hgoes.start_eq ▸ (hfront a ha).start_le,
        fun hrun => (hfront a ha).alone ⟨hrun.1, hgoes.running⟩, fun heq hopen => ?_⟩
      exact absurd ((hfront a ha).inTurn (heq.trans hgoes.start_eq) hopen) hbegun
    · have hidle : ¬ b.isRunning := Shift.not_running_iff.2 (.inl (hwait b hb))
      exact ⟨hgoes.start_eq ▸ (hback b hb).start_le, fun hrun => hidle hrun.2,
        fun _ _ => hwait b hb⟩

theorem isRunning_of_runningShift? {v : Vehicle} (h : v.runningShift? = some s) :
    s ∈ v.shifts ∧ s.isRunning :=
  ⟨List.mem_of_find?_eq_some h, List.find?_some h⟩

/-- In a queue in order the running shift is the current one, unless the queue has come to a
shift that starts later and has ended. -/
theorem InOrder.current_or_passed {v : Vehicle} (h : InOrder v.shifts)
    (hs : v.runningShift? = some s) : v.currentShift? = some s ∨
      ∃ t, v.currentShift? = some t ∧ t.state = .ended ∧ s.start < t.start := by
  obtain ⟨hmem, hrun⟩ := isRunning_of_runningShift? hs
  have hopen : s.state ≠ .waiting ∧ s.state ≠ .ended := by
    rcases Shift.isRunning_iff.1 hrun with hstate | hstate <;> simp [hstate]
  obtain ⟨before, t, after, hcome⟩ := exists_comesTo_of_mem hmem hopen.1
  have hfront := (inOrder_append_cons.1 (hcome.split ▸ h)).2.1
  rw [hcome.split, List.mem_append, List.mem_cons] at hmem
  rcases hmem with hbefore | rfl | hafter
  · have hprecedes := hfront s hbefore
    have hstill : ¬ t.isRunning := fun ht => hprecedes.alone ⟨hrun, ht⟩
    have hended := (Shift.not_running_iff.1 hstill).resolve_left hcome.begun
    have hne : s.start ≠ t.start := fun heq => hcome.begun (hprecedes.inTurn heq hopen.2)
    exact .inr ⟨t, hcome.currentShift?_eq, hended,
      UInt64.lt_of_le_of_ne hprecedes.start_le hne⟩
  · exact .inl hcome.currentShift?_eq
  · exact absurd (hcome.waiting s hafter) hopen.1

/-- In a queue in order the running shift is the current one as long as no shift that starts
later has ended. -/
theorem InOrder.currentShift?_eq_iff {v : Vehicle} (h : InOrder v.shifts)
    (hs : v.runningShift? = some s) :
    v.currentShift? = some s ↔ ∀ t ∈ v.shifts, t.state = .ended → t.start ≤ s.start := by
  obtain ⟨-, hrun⟩ := isRunning_of_runningShift? hs
  constructor
  · intro hcurrent t ht hended
    have hbegun : s.state ≠ .waiting := fun hwait =>
      Shift.not_running_iff.2 (.inl hwait) hrun
    obtain ⟨before, after, hcome⟩ := exists_comesTo hcurrent hbegun
    have hfront := (inOrder_append_cons.1 (hcome.split ▸ h)).2.1
    rw [hcome.split, List.mem_append, List.mem_cons] at ht
    rcases ht with hbefore | rfl | hafter
    · exact (hfront t hbefore).start_le
    · exact UInt64.le_refl t.start
    · simp [hcome.waiting t hafter] at hended
  · intro hlate
    rcases h.current_or_passed hs with hcurrent | ⟨t, ht, hended, hlt⟩
    · exact hcurrent
    · exact absurd (hlate t (mem_of_currentShift? ht) hended) (UInt64.not_le.2 hlt)

end Vehicle

namespace Dispatcher

/-- Every queue stands in order. -/
def InOrder (d : Dispatcher) : Prop :=
  ∀ id v, d.vehicles.find? id = some v → Vehicle.InOrder v.shifts

variable {d d' : Dispatcher}

theorem Act.inOrder (h : d.Act d') (hd : d.Sound) (hin : d.InOrder) : d'.InOrder := by
  intro id v' hv'
  rcases h.queue hd hv' with hnone | ⟨v, hv, hsame | hmoves⟩
  · rw [hnone]
    exact .nil
  · rw [hsame]
    exact hin id v hv
  · exact hmoves.inOrder (hin id v hv)

/-- Whatever is asked of a dispatcher, the queues of its vehicles stand in order. -/
theorem inOrder_run {policy : ShiftPolicy} {network : Network} {sites : List FacilitySite}
    {os : List Operation} (h : (opened policy network sites).run os = .ok d) : d.InOrder :=
  (keeps_run (fun _ _ hd ha => ha.inOrder hd) (sound_opened policy network sites)
    (fun _ _ hv => (nomatch hv)) h).2

/-- Whatever is asked of a dispatcher, a running shift is the current one exactly as long as no
shift of its vehicle that starts later has ended; if one has, an ended shift is the current
one. -/
theorem currentShift?_eq_running_iff {policy : ShiftPolicy} {network : Network}
    {sites : List FacilitySite} {os : List Operation} {id : VehicleId} {v : Vehicle} {s : Shift}
    (h : (opened policy network sites).run os = .ok d) (hv : d.vehicles.find? id = some v)
    (hs : v.runningShift? = some s) :
    (v.currentShift? = some s ↔ ∀ t ∈ v.shifts, t.state = .ended → t.start ≤ s.start) ∧
      (v.currentShift? ≠ some s →
        ∃ t, v.currentShift? = some t ∧ t.state = .ended ∧ s.start < t.start) :=
  have hin := inOrder_run h id v hv
  ⟨hin.currentShift?_eq_iff hs, (hin.current_or_passed hs).resolve_left⟩

/-- A shift ends, and then one is assigned and started that was to start earlier. -/
theorem running_shift_passed_over :
    let os : List Operation := [.addVehicle { id := ⟨"bus"⟩, link := ⟨"road"⟩ },
      .addShift { id := ⟨"late"⟩, start := 120, finish := 180 }, .dispatch 120,
      .endShift ⟨"bus"⟩ ⟨"road"⟩ 180,
      .addShift { id := ⟨"early"⟩, start := 60, finish := 600 }, .dispatch 180]
    ∃ d v s t, (opened {} {} []).run os = .ok d ∧ d.vehicles.find? ⟨"bus"⟩ = some v ∧
      v.runningShift? = some s ∧ v.currentShift? = some t ∧ t.state = .ended ∧
      s.start < t.start := by
  intro os
  have hpassed : ((opened {} {} []).run os).toOption.bind (fun d =>
      (d.vehicles.find? ⟨"bus"⟩).bind fun v => v.runningShift?.bind fun s =>
        if v.currentShift? ≠ some s then some () else none) = some () := by
    decide +kernel
  cases hrun : (opened {} {} []).run os with
  | error halt => simp [hrun, Except.toOption] at hpassed
  | ok d =>
    simp only [hrun, Except.toOption, Option.bind_some] at hpassed
    obtain ⟨v, hv, hpassed⟩ := Option.bind_eq_some_iff.1 hpassed
    obtain ⟨s, hs, hpassed⟩ := Option.bind_eq_some_iff.1 hpassed
    split at hpassed
    · next hne =>
      obtain ⟨t, ht, hended, hlt⟩ := (currentShift?_eq_running_iff hrun hv hs).2 hne
      exact ⟨d, v, s, t, rfl, hv, hs, ht, hended, hlt⟩
    · cases hpassed

end Dispatcher

end DialARide
