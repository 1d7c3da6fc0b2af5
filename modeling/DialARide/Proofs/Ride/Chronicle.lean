import DialARide.Proofs.Ride.Course
import DialARide.Proofs.Ride.History

/-!
# What the observations tell of a request

All services put down what they observe in one log. There a request is known by its name and its
mode, and what is put down of it is the course of one ride. A request whose passenger boarded is
bound until the passenger alights or is rejected on board.
-/

namespace DialARide

/-- The stages of a request of a mode that are put down, in order. -/
def course (mode : ModeId) (id : RequestId) (log : List Observation) : List ObservationKind :=
  (log.filter fun o => o.mode = mode ∧ o.request = id).map (·.kind)

@[simp] theorem course_append (mode : ModeId) (id : RequestId) (log more : List Observation) :
    course mode id (log ++ more) = course mode id log ++ course mode id more := by
  simp [course]

theorem mem_course_iff {mode : ModeId} {id : RequestId} {log : List Observation}
    {kind : ObservationKind} :
    kind ∈ course mode id log ↔ ∃ o ∈ log, o.mode = mode ∧ o.request = id ∧ o.kind = kind := by
  simp [course, and_assoc]

theorem stages_eq (id : RequestId) (calls : List Call) :
    stages id calls = ((observed calls).filter (·.request = id)).map (·.kind) := by
  induction calls with
  | nil => rfl
  | cons c calls ih =>
    cases c with
    | observe o =>
      rw [stages, List.filterMap_cons, ← stages, observed_cons_observe, List.filter_cons, ih]
      by_cases hid : o.request = id <;> simp [Call.stage?, hid]
    | ready | board | alight | abort => exact ih

/-- The ride of a passenger who boarded goes on, or is over in one of two ways. -/
theorem IsRide.eq_of_pickedUp {l : List ObservationKind} (h : IsRide l) (hboarded : .pickedUp ∈ l) :
    l = [.waiting, .pickedUp] ∨ l = [.waiting, .pickedUp, .droppedOff] ∨
      l = [.waiting, .pickedUp, .rejected] := by
  obtain ⟨whole, hwhole, hprefix⟩ := h
  simp only [rideCourses, List.mem_cons, List.not_mem_nil, or_false] at hwhole
  rcases hwhole with rfl | rfl | rfl | rfl <;>
    simp only [List.prefix_cons_iff, List.prefix_nil] at hprefix <;> grind

/-- Nothing comes before a passenger waits. -/
theorem IsRide.eq_nil_of_waiting {l more : List ObservationKind}
    (h : IsRide (l ++ .waiting :: more)) : l = [] := by
  obtain ⟨whole, hwhole, hprefix⟩ := h
  cases l with
  | nil => rfl
  | cons first rest =>
    have hlater : .waiting ∈ whole.tail := by
      obtain ⟨after, rfl⟩ := hprefix
      simp
    simp only [rideCourses, List.mem_cons, List.not_mem_nil, or_false] at hwhole
    rcases hwhole with rfl | rfl | rfl | rfl <;> simp at hlater

namespace Service

variable {s : Service} {now : Time} {occasion : Occasion} {t : Turn} {log : List Observation}
  {id : RequestId}

/-- What an act puts down concerns requests of the mode of the service only. -/
theorem course_act (ha : s.Act now occasion t) (mode : ModeId) (id : RequestId) :
    course mode id (observed t.calls) = if s.mode = mode then stages id t.calls else [] := by
  split
  · next hmode =>
    rw [stages_eq, course]
    congr 1
    refine List.filter_congr fun o ho => ?_
    simp [ha.mode_of_observed ho, hmode]
  · next hmode =>
    rw [course, List.map_eq_nil_iff, List.filter_eq_nil_iff]
    intro o ho
    simp [ha.mode_of_observed ho, hmode]

/-- Nobody is bound to a request after an act if nobody was, or if the ride ends by it. -/
theorem Effect.unbound (h : s.Effect occasion t) (hnone : t.service.bound.find? id = none) :
    (s.bound.find? id = none ∧ (stages id t.calls = [] ∨ stages id t.calls = [.waiting])) ∨
      stages id t.calls = [.droppedOff] ∨ stages id t.calls = [.rejected] := by
  cases h with
  | quiet hbound hcalls =>
    rw [hbound] at hnone
    exact .inl ⟨hnone, .inl (by rw [hcalls]; rfl)⟩
  | bound o b ready hwho hup hkind hstatus hbound hcalls hready =>
    rw [hbound, Table.find?_insert] at hnone
    split at hnone
    · cases hnone
    · next hid =>
      refine .inl ⟨hnone, .inl ?_⟩
      rw [hcalls, stages, List.filterMap_cons, ← stages, (report_ready occasion hready).1]
      simp [Call.stage?, hid]
  | declined o traveler hwho hup hnot hkind hbound hcalls =>
    rw [hbound] at hnone
    refine .inl ⟨hnone, ?_⟩
    by_cases hid : o.request = id <;> simp [hcalls, stages, Call.stage?, hid, hkind]
  | boarded o b vehicle hb hstatus hkind hvehicle hbound hcalls =>
    rw [hbound, Table.find?_insert] at hnone
    split at hnone
    · cases hnone
    · next hid =>
      refine .inl ⟨hnone, .inl ?_⟩
      simp [hcalls, stages, Call.stage?, hid]
  | alighted o b vehicle hb hkind hvehicle hbound hcalls =>
    by_cases hid : o.request = id
    · refine .inr (.inl ?_)
      simp [hcalls, stages, Call.stage?, hid, hkind]
    · rw [hbound, Table.find?_erase, if_neg hid] at hnone
      refine .inl ⟨hnone, .inl ?_⟩
      simp [hcalls, stages, Call.stage?, hid]
  | aborted o b hb hkind hbound hcalls =>
    by_cases hid : o.request = id
    · refine .inr (.inr ?_)
      simp [hcalls, stages, Call.stage?, hid, hkind]
    · rw [hbound, Table.find?_erase, if_neg hid] at hnone
      refine .inl ⟨hnone, .inl ?_⟩
      simp [hcalls, stages, Call.stage?, hid]

/-- The log tells what a service has on record. -/
structure Chronicled (s : Service) (log : List Observation) : Prop where
  recorded : ∃ gone told, s.Recorded gone told ∧ ∀ id, stages id told = course s.mode id log
  aboard : ∀ id, course s.mode id log = [.waiting, .pickedUp] → s.bound.find? id ≠ none

/-- Every act is put down. -/
theorem Chronicled.act (h : s.Chronicled log) (ha : s.Act now occasion t) :
    t.service.Chronicled (log ++ observed t.calls) := by
  obtain ⟨gone, told, hrecorded, htold⟩ := h.recorded
  have hcourse (id : RequestId) : course t.service.mode id (log ++ observed t.calls) =
      course s.mode id log ++ stages id t.calls := by
    rw [course_append, course_act ha, ha.terms.1, if_pos rfl]
  refine ⟨⟨_, _, hrecorded.act ha, fun id => ?_⟩, fun id haboard hnone => ?_⟩
  · rw [stages_append, htold, hcourse]
  · rw [hcourse] at haboard
    have hlast := congrArg List.getLast? haboard
    rcases (hrecorded.orderly.effect ha).unbound hnone with ⟨hbefore, hquiet | hwaits⟩ | hend | hend
    · rw [hquiet, List.append_nil] at haboard
      exact h.aboard id haboard hbefore
    · simp [hwaits] at hlast
    · simp [hend] at hlast
    · simp [hend] at hlast

theorem Chronicled.hear (h : s.Chronicled log) (published : List Rejection) :
    (s.hear published).Chronicled log := by
  obtain ⟨more, heq, -⟩ := s.exists_hear published
  obtain ⟨gone, told, hrecorded, htold⟩ := h.recorded
  have horderly := hrecorded.orderly.hear published
  rw [heq] at horderly ⊢
  exact ⟨⟨gone, told, { hrecorded with orderly := horderly }, htold⟩, h.aboard⟩

/-- What is not put down by a service of the mode leaves the log of the service as it is. -/
theorem Chronicled.congr {log' : List Observation} (h : s.Chronicled log)
    (hsame : ∀ id, course s.mode id log' = course s.mode id log) : s.Chronicled log' := by
  obtain ⟨gone, told, hrecorded, htold⟩ := h.recorded
  refine ⟨⟨gone, told, hrecorded, fun id => (htold id).trans (hsame id).symm⟩, fun id haboard => ?_⟩
  rw [hsame] at haboard
  exact h.aboard id haboard

/-- A passenger who boarded and is not bound any more alighted or was rejected on board. -/
theorem Chronicled.course_of_unbound (h : s.Chronicled log) (hnone : s.bound.find? id = none)
    (hboarded : .pickedUp ∈ course s.mode id log) :
    course s.mode id log = [.waiting, .pickedUp, .droppedOff] ∨
      course s.mode id log = [.waiting, .pickedUp, .rejected] := by
  obtain ⟨gone, told, hrecorded, htold⟩ := h.recorded
  have hride := hrecorded.ride id
  rw [htold] at hride
  exact (hride.eq_of_pickedUp hboarded).resolve_left fun haboard => h.aboard id haboard hnone

/-- Nobody is bound to a request whose ride is over. -/
theorem Chronicled.unbound_of_rejected (h : s.Chronicled log)
    (hrejected : .rejected ∈ course s.mode id log) : s.bound.find? id = none := by
  obtain ⟨gone, told, hrecorded, htold⟩ := h.recorded
  by_contra hbound
  obtain ⟨b, hb⟩ := Option.ne_none_iff_exists'.1 hbound
  rw [← htold, (hrecorded.bound id b hb).2] at hrejected
  split at hrejected <;> simp at hrejected

end Service

namespace Services

variable {h h' : Services} {now : Time} {occasion : Occasion} {log : List Observation}

/-- Nothing but rejections is observed when the services step. -/
theorem kind_of_stepEach {positions ns : List Nat} {calls : List Call} {o : Observation}
    (hstep : stepEach now h positions = (ns, h', calls)) (ho : o ∈ observed calls) :
    o.kind = .rejected := by
  induction positions generalizing h ns calls with
  | nil =>
    cases hstep
    cases ho
  | cons i rest ih =>
    unfold stepEach at hstep
    rcases hfirst : h.stepAt i now with ⟨n, h₁, first⟩
    rcases hmore : stepEach now h₁ rest with ⟨ms, h₂, more⟩
    simp only [hfirst, hmore, Prod.mk.injEq] at hstep
    obtain ⟨-, rfl, rfl⟩ := hstep
    rw [observed_append, List.mem_append] at ho
    rcases ho with ho | ho
    · unfold stepAt at hfirst
      split at hfirst <;> cases hfirst
      · cases ho
      · exact Service.kind_of_applyRejections ho
    · exact ih hmore ho

/-- The log tells what the services have on record, each of which is open and serves a mode of its
own. -/
structure Chronicled (h : Services) (log : List Observation) : Prop where
  modes : (h.members.map Service.mode).Nodup
  allOpen : ∀ s ∈ h.members, s.closed = false
  members : ∀ s ∈ h.members, s.Chronicled log
  served : ∀ o ∈ log, o.mode ∈ h.members.map Service.mode

/-- Nothing is put down of orderly services to which nobody is bound. -/
theorem chronicled_of_vacant (hmodes : (h.members.map Service.mode).Nodup)
    (hopen : ∀ s ∈ h.members, s.closed = false) (horderly : ∀ s ∈ h.members, s.Orderly)
    (hvacant : ∀ s ∈ h.members, ∀ id, s.bound.find? id = none) : h.Chronicled [] := by
  refine ⟨hmodes, hopen, fun s hs => ⟨?_, ?_⟩, fun o ho => by cases ho⟩
  · exact ⟨[], [], Service.recorded_of_vacant (horderly s hs) (hvacant s hs), fun id => rfl⟩
  · intro id haboard
    cases haboard

/-- The log goes on to tell what the services have on record after a turn. -/
theorem Chronicled.commit {i : Nat} {s : Service} {t : Turn} (hh : h.Chronicled log)
    (hs : h.members[i]? = some s) (ha : s.Act now occasion t) :
    (h.commit i t).Chronicled (log ++ observed t.calls) := by
  have hturns := turns_of_act hs ha
  refine ⟨?_, ?_, fun s' hs' => ?_, fun o ho => ?_⟩
  · rw [hturns.modes]
    exact hh.modes
  · exact hturns.forall_members (fun u v hu hv => hv.terms.2.2.1.trans hu)
      (fun u l hu => (u.closed_hear l).trans hu) hh.allOpen
  · obtain ⟨j, hj⟩ := List.mem_iff_getElem?.1 hs'
    obtain ⟨u, rfl, rfl | ⟨hne, hu⟩⟩ := exists_of_getElem?_commit hj
    · exact ((hh.members s (List.mem_of_getElem? hs)).act ha).hear _
    · refine ((hh.members u (List.mem_of_getElem? hu)).congr fun id => ?_).hear _
      have hother : s.mode ≠ u.mode := fun hmode =>
        hne (position_eq_of_modes hh.modes hs hu hmode.symm)
      rw [course_append, Service.course_act ha, if_neg hother, List.append_nil]
  · rw [hturns.modes]
    rcases List.mem_append.1 ho with ho | ho
    · exact hh.served o ho
    · rw [ha.mode_of_observed ho]
      exact List.mem_map_of_mem (List.mem_of_getElem? hs)

/-- All that the services do is put down. -/
theorem Chronicled.turns {calls : List Call} (hh : h.Chronicled log)
    (ht : Turns now occasion h h' calls) : h'.Chronicled (log ++ observed calls) := by
  induction ht generalizing log with
  | nil =>
    rw [observed, List.filterMap_nil, List.append_nil]
    exact hh
  | cons hs ha _ ih =>
    rw [observed_append, ← List.append_assoc]
    exact ih (hh.commit hs ha)

/-- What is put down of a request is the course of one ride. -/
theorem Chronicled.ride (hh : h.Chronicled log) (mode : ModeId) (id : RequestId) :
    IsRide (course mode id log) := by
  by_cases hmode : mode ∈ h.members.map Service.mode
  · obtain ⟨s, hs, rfl⟩ := List.mem_map.1 hmode
    obtain ⟨gone, told, hrecorded, htold⟩ := (hh.members s hs).recorded
    rw [← htold]
    exact hrecorded.ride id
  · have hnone : course mode id log = [] := by
      rw [course, List.map_eq_nil_iff, List.filter_eq_nil_iff]
      intro o ho hthis
      exact hmode ((of_decide_eq_true hthis).1 ▸ hh.served o ho)
    rw [hnone]
    decide

/-- What is published is no part of the record. -/
theorem Chronicled.publish (hh : h.Chronicled log) (r : Rejection) :
    (h.publish r).Chronicled log := by
  constructor
  · rw [modes_publish]
    exact hh.modes
  · exact forall_members_publish (fun s l hs => (s.closed_hear l).trans hs) r hh.allOpen
  · exact forall_members_publish (fun s l hs => hs.hear l) r hh.members
  · rw [modes_publish]
    exact hh.served

end Services

end DialARide
