import DialARide.Proofs.Shift.Current
import DialARide.Proofs.Shift.Effect

/-!
# Shifts of one vehicle lie apart

A shift is assigned to a vehicle only if all its shifts that have not ended are over, and the
vehicle changed over, by the start of the new one. Shifts are never planned anew, so of any two
shifts of a vehicle that have not ended one makes way for the other, however they were assigned.
-/

namespace DialARide

namespace Shift

/-- A shift is over, and its vehicle changed over, by the start of another one. -/
def MakesWay (changeover : Time) (a b : Shift) : Prop :=
  a.finish.toNat + changeover.toNat ≤ b.start.toNat

/-- Unless one of them has ended, one of two shifts makes way for the other. -/
def Apart (changeover : Time) (a b : Shift) : Prop :=
  a.state ≠ .ended → b.state ≠ .ended → a.MakesWay changeover b ∨ b.MakesWay changeover a

variable {changeover : Time} {a b s t : Shift} {kind : ShiftEventKind}
  {facility : Option FacilityId}

theorem Apart.symm (h : Apart changeover a b) : Apart changeover b a :=
  fun hb ha => (h ha hb).symm

/-- A shift that changes stays apart from all others. -/
theorem Change.apart (h : s.Change kind facility t) (hs : Apart changeover s a) :
    Apart changeover t a := by
  intro _ ha
  have hstart : t.start = s.start := congrArg ShiftPlan.start h.plan_eq
  have hfinish : t.finish = s.finish := congrArg ShiftPlan.finish h.plan_eq
  unfold MakesWay
  rw [hstart, hfinish]
  exact hs h.not_ended ha

end Shift

namespace Vehicle

variable {l before after : List Shift} {s t : Shift} {start changeover : Time} {v : Vehicle}

/-- All shifts end early enough if the changeover behind each of them is over by the start. -/
theorem allEndBefore_iff {b : Bool} (h : allEndBefore start changeover l = .ok b) :
    b ↔ ∀ a ∈ l, a.finish.toNat + changeover.toNat ≤ start.toNat := by
  induction l with
  | nil =>
    cases h
    simp
  | cons a rest ih =>
    unfold allEndBefore at h
    cases hsum : Time.plus a.finish changeover with
    | error halt => simp [hsum, Bind.bind, Except.bind] at h
    | ok sum =>
      simp only [hsum, Bind.bind, Except.bind] at h
      rw [List.forall_mem_cons, Time.plus_eq_ok_iff.1 hsum, ← UInt64.le_iff_toNat_le]
      split at h
      · next hle => simpa [hle] using ih h
      · next hlate =>
        cases h
        simp [hlate]

/-- A vehicle is free for a shift if all its shifts that have not ended make way for it. -/
theorem isFreeFor_iff {b : Bool} (h : v.isFreeFor s.start changeover = .ok b) :
    b ↔ ∀ a ∈ v.shifts, a.state ≠ .ended → a.MakesWay changeover s := by
  rw [allEndBefore_iff h]
  simp [Shift.MakesWay]

/-- Any two shifts of a queue lie apart. -/
def Spaced (changeover : Time) (l : List Shift) : Prop := l.Pairwise (Shift.Apart changeover)

/-- The order of a queue does not matter for whether its shifts lie apart. -/
theorem spaced_iff_of_perm {l' : List Shift} (h : l.Perm l') :
    Spaced changeover l ↔ Spaced changeover l' :=
  h.pairwise_iff fun hab => hab.symm

/-- A shift for which the vehicle is free keeps its distance from the others. -/
theorem Spaced.assign (hv : Spaced changeover v.shifts)
    (h : v.isFreeFor s.start changeover = .ok true) : Spaced changeover (v.assign s).shifts := by
  refine (spaced_iff_of_perm (perm_insertByStart s v.shifts)).2 (List.pairwise_cons.2 ⟨?_, hv⟩)
  intro a ha _ hopen
  exact .inr ((isFreeFor_iff h).1 rfl a ha hopen)

/-- A shift that changes keeps its distance, since it keeps its times. -/
theorem Spaced.change {kind : ShiftEventKind} {facility : Option FacilityId}
    (hl : Spaced changeover (before ++ s :: after)) (h : s.Change kind facility t) :
    Spaced changeover (before ++ t :: after) := by
  obtain ⟨hs, hrest⟩ := List.pairwise_cons.1 ((spaced_iff_of_perm List.perm_middle).1 hl)
  refine (spaced_iff_of_perm List.perm_middle).2 (List.pairwise_cons.2 ⟨?_, hrest⟩)
  exact fun a ha => h.apart (hs a ha)

/-- In a queue in order one shift is running at most. -/
theorem InOrder.countP_isRunning_le (h : InOrder l) : l.countP (·.isRunning) ≤ 1 := by
  induction l with
  | nil => simp
  | cons a rest ih =>
    obtain ⟨ha, hrest⟩ := List.pairwise_cons.1 h
    by_cases hrun : a.isRunning
    · have hnone : rest.countP (·.isRunning) = 0 :=
        List.countP_eq_zero.2 fun b hb hb' => (ha b hb).alone ⟨hrun, hb'⟩
      rw [List.countP_cons_of_pos hrun, hnone]
    · rw [List.countP_cons_of_neg hrun]
      exact ih hrest

end Vehicle

namespace Dispatcher

/-- The shifts of every vehicle lie apart. -/
def Spaced (d : Dispatcher) : Prop :=
  ∀ id v, d.vehicles.find? id = some v → Vehicle.Spaced d.policy.changeover v.shifts

variable {d d' : Dispatcher} {now : Time}

/-- Shifts keep their distance whatever is done to them. -/
theorem Effect.spaced (h : d.Effect now d') (hd : d.Spaced) : d'.Spaced := by
  intro id w hw
  cases h with
  | tick | expire => exact hd id w hw
  | assign before s after v hopen hv hfree =>
    rcases find?_amend hw with ⟨rfl, rfl⟩ | ⟨-, hold⟩
    · exact (hd v.id v hv).assign hfree
    · exact hd id w hold
  | change v u before s t after facilities e hv hid hsplit hsplit' _ _ hchange =>
    rcases find?_amend hw with ⟨rfl, rfl⟩ | ⟨-, hold⟩
    · rw [hsplit']
      exact (hsplit ▸ hd v.id v hv).change hchange
    · exact hd id w hold

theorem Effect.policy_eq (h : d.Effect now d') : d'.policy = d.policy := by
  cases h <;> rfl

theorem Act.policy_eq (h : d.Act d') : d'.policy = d.policy := by
  cases h with
  | decided hdecision => exact hdecision.effect.policy_eq
  | reported hreport => exact hreport.effect.policy_eq
  | joined | offered | moved | drained => rfl

/-- Every change of a dispatcher leaves the shifts at a distance. -/
theorem Act.spaced (h : d.Act d') (hd : d.Spaced) : d'.Spaced := by
  cases h with
  | decided hdecision => exact hdecision.effect.spaced hd
  | reported hreport => exact hreport.effect.spaced hd
  | joined entry facilities =>
    intro id w hw
    rcases Table.find?_insert_eq_some_iff.1 hw with ⟨-, rfl⟩ | ⟨-, hold⟩
    · exact .nil
    · exact hd id w hold
  | moved v link available hv =>
    intro id w hw
    rcases Table.find?_insert_eq_some_iff.1 hw with ⟨-, rfl⟩ | ⟨-, hold⟩
    · exact hd v.id v hv
    · exact hd id w hold
  | offered | drained => exact hd

/-- Whatever is asked of a dispatcher, the shifts of a vehicle stand in the order of their start,
one of them is running at most, and of any two that have not ended one is over, and the vehicle
changed over, by the start of the other. -/
theorem shifts_apart_run {policy : ShiftPolicy} {network : Network} {sites : List FacilitySite}
    {os : List Operation} {id : VehicleId} {v : Vehicle}
    (h : (opened policy network sites).run os = .ok d) (hv : d.vehicles.find? id = some v) :
    v.shifts.Pairwise (fun a b => a.start ≤ b.start) ∧ v.shifts.countP (·.isRunning) ≤ 1 ∧
      v.shifts.Pairwise (Shift.Apart policy.changeover) := by
  have hin := inOrder_run h id v hv
  obtain ⟨-, hpolicy, hspaced⟩ :=
    keeps_run (P := fun d => d.policy = policy ∧ d.Spaced)
      (fun _ _ _ hact hP => ⟨hact.policy_eq.trans hP.1, hact.spaced hP.2⟩)
      (sound_opened policy network sites) ⟨rfl, fun _ _ hv => (nomatch hv)⟩ h
  refine ⟨hin.imp fun hab => hab.start_le, hin.countP_isRunning_le, ?_⟩
  exact hpolicy ▸ hspaced id v hv

/-- A shift that is to end before it starts makes way for one that starts before it does. -/
theorem backward_shift_makes_way :
    let os : List Operation := [.addVehicle { id := ⟨"bus"⟩, link := ⟨"road"⟩ },
      .addShift { id := ⟨"back"⟩, start := 1000, finish := 50 }, .dispatch 0,
      .addShift { id := ⟨"day"⟩, start := 960, finish := 2000 }, .dispatch 0]
    ∃ d v, (opened {} {} []).run os = .ok d ∧ d.vehicles.find? ⟨"bus"⟩ = some v ∧
      v.shifts.map (·.id) = [⟨"day"⟩, ⟨"back"⟩] ∧ v.shifts.Pairwise (Shift.Apart 900) := by
  intro os
  have hqueue : ((opened {} {} []).run os).toOption.bind (fun d =>
      (d.vehicles.find? ⟨"bus"⟩).map fun v => v.shifts.map (·.id)) =
        some [⟨"day"⟩, ⟨"back"⟩] := by
    decide +kernel
  cases hrun : (opened {} {} []).run os with
  | error halt => simp [hrun, Except.toOption] at hqueue
  | ok d =>
    simp only [hrun, Except.toOption, Option.bind_some] at hqueue
    obtain ⟨v, hv, hqueue⟩ := Option.map_eq_some_iff.1 hqueue
    exact ⟨d, v, rfl, hv, hqueue, (shifts_apart_run hrun hv).2.2⟩

end Dispatcher

end DialARide
