import DialARide.Proofs.Shift.History

/-!
# Shifts are conserved

A shift that was added is open, assigned to one vehicle, or was dropped, and it is in one of these
places only. It goes from the open shifts to the queue of a vehicle and stays there, and it is
dropped by a dispatch only, when its end has come and no vehicle has it. Whatever becomes of it,
it stays as it was planned.
-/

namespace DialARide

namespace Dispatcher

/-- The shifts of all vehicles. -/
def queued (d : Dispatcher) : List Shift := d.vehicles.values.flatMap (·.shifts)

/-- The plans of all shifts that are open or assigned. -/
def kept (d : Dispatcher) : List ShiftPlan := (d.unassigned ++ d.queued).map (·.toShiftPlan)

/-- The plans of the shifts that a step drops: they are kept before it and not after it. -/
def Step.dropped (s : Step) : List ShiftPlan := s.before.kept.filter (· ∉ s.after.kept)

/-- What a step drops is dropped by a dispatch at a boundary, when it is over and still open. -/
def Step.DropsMissed (s : Step) : Prop :=
  ∀ p ∈ s.dropped, ∃ now, s.operation = .dispatch now ∧ s.before.isBoundary now ∧
    p ∈ s.before.unassigned.map (·.toShiftPlan) ∧ p.finish ≤ now

variable {d d' : Dispatcher} {now : Time} {os : List Operation} {o : Operation} {v : Vehicle}

/-! ## Queues -/

/-- A change of one vehicle leaves all other queues where they are. -/
theorem exists_split_queued (hv : d.vehicles.find? v.id = some v) : ∃ front back,
    d.queued = front ++ v.shifts ++ back ∧
      ∀ u : Vehicle, u.id = v.id → (d.setVehicle u).queued = front ++ u.shifts ++ back := by
  obtain ⟨front, back, hsplit, hinsert⟩ := Table.exists_split_values hv
  refine ⟨front.flatMap (·.shifts), back.flatMap (·.shifts), ?_, fun u hu => ?_⟩
  · simp [queued, hsplit]
  · simp [queued, setVehicle, hu, hinsert u]

/-- A shift is queued exactly if it is one of a vehicle of the fleet. -/
theorem mem_queued_iff {s : Shift} :
    s ∈ d.queued ↔ ∃ id v, d.vehicles.find? id = some v ∧ s ∈ v.shifts := by
  simp only [queued, List.mem_flatMap, Table.mem_values_iff]
  constructor
  · rintro ⟨v, ⟨id, hv⟩, hs⟩
    exact ⟨id, v, hv, hs⟩
  · rintro ⟨id, v, hv, hs⟩
    exact ⟨v, ⟨id, hv⟩, hs⟩

/-- A shift that changes stays in its queue as it was planned. -/
private theorem kept_change {u : Vehicle} {before after : List Shift} {s t : Shift}
    (hv : d.vehicles.find? v.id = some v) (hid : u.id = v.id)
    (hsplit : v.shifts = before ++ s :: after) (hsplit' : u.shifts = before ++ t :: after)
    (hplan : t.toShiftPlan = s.toShiftPlan) : (d.setVehicle u).kept = d.kept := by
  obtain ⟨front, back, hqueued, hqueued'⟩ := exists_split_queued hv
  have hopen : (d.setVehicle u).unassigned = d.unassigned := rfl
  simp [kept, hopen, hqueued, hqueued' u hid, hsplit, hsplit', hplan]

/-- A shift that is assigned goes from the open shifts to a queue. -/
theorem perm_assign {before after : List Shift} {s : Shift}
    (hv : d.vehicles.find? v.id = some v) (hopen : d.unassigned = before ++ s :: after) :
    d.kept.Perm (setVehicle { d with unassigned := before ++ after } (v.assign s)).kept := by
  obtain ⟨front, back, hqueued, hqueued'⟩ := exists_split_queued hv
  have hassigned : (setVehicle { d with unassigned := before ++ after } (v.assign s)).queued =
      front ++ Vehicle.insertByStart s v.shifts ++ back := hqueued' (v.assign s) rfl
  have hopen' : (setVehicle { d with unassigned := before ++ after } (v.assign s)).unassigned =
      before ++ after := rfl
  unfold kept
  rw [hopen, hqueued, hassigned, hopen']
  refine List.Perm.map _ (List.perm_iff_count.2 fun a => ?_)
  simp only [List.count_append, List.count_cons,
    (Vehicle.perm_insertByStart s v.shifts).count_eq]
  omega

/-! ## One dispatch -/

/-- A decision or a report keeps all shifts, or drops one that is over and without a vehicle and
does not put that down. -/
theorem Effect.kept_or_dropped (h : d.Effect now d') : d.kept.Perm d'.kept ∨
    d'.events = d.events ∧
      ∃ s ∈ d.unassigned, s.finish ≤ now ∧ d.kept.Perm (s.toShiftPlan :: d'.kept) := by
  cases h with
  | tick => exact .inl (.refl _)
  | expire before s after hopen hover =>
    refine .inr ⟨rfl, s, by simp [hopen], hover, ?_⟩
    simp only [kept, hopen, List.append_assoc, List.cons_append, List.map_append, List.map_cons]
    exact List.perm_middle
  | assign before s after v hopen hv => exact .inl (perm_assign hv hopen)
  | change v u before s t after facilities e hv hid hsplit hsplit' _ _ hchange =>
    exact .inl (.of_eq (kept_change hv hid hsplit hsplit' hchange.plan_eq).symm)

/-- A dispatch drops no shift but those that are over and without a vehicle. -/
theorem Decisions.perm_kept {out : List Instruction} (h : Decisions now d d' out) :
    ∃ lost, d.kept.Perm (lost ++ d'.kept) ∧
      ∀ p ∈ lost, p ∈ d.unassigned.map (·.toShiftPlan) ∧ p.finish ≤ now := by
  induction h with
  | nil d => exact ⟨[], .refl _, by simp⟩
  | @cons d d₁ d₂ i out hfirst _ ih =>
    obtain ⟨lost, hperm, hlost⟩ := ih
    have hsub := hfirst.effect.unassigned_sublist.map (·.toShiftPlan)
    have hlost' : ∀ p ∈ lost, p ∈ d.unassigned.map (·.toShiftPlan) ∧ p.finish ≤ now :=
      fun p hp => ⟨hsub.subset (hlost p hp).1, (hlost p hp).2⟩
    rcases hfirst.effect.kept_or_dropped with hkept | ⟨-, s, hs, hover, hdropped⟩
    · exact ⟨lost, hkept.trans hperm, hlost'⟩
    · refine ⟨s.toShiftPlan :: lost, hdropped.trans (hperm.cons _), fun p hp => ?_⟩
      rcases List.mem_cons.1 hp with rfl | hp
      · exact ⟨List.mem_map_of_mem hs, hover⟩
      · exact hlost' p hp

/-! ## One operation -/

/-- The open shifts are those there were and the one that is put in, whatever the order. -/
theorem perm_insertUnassigned (s : Shift) (l : List Shift) :
    (insertUnassigned s l).Perm (s :: l) := by
  rw [insertUnassigned_eq_orderedInsert]
  exact List.perm_orderedInsert _ s l

/-- An operation adds the shift that it brings, and drops shifts only if it is a dispatch. -/
theorem Performed.perm_kept (h : d.Performed o d')
    (hnew : ∀ id, o.vehicle? = some id → d.vehicles.find? id = none) :
    ∃ lost, (o.plan?.toList ++ d.kept).Perm (lost ++ d'.kept) ∧
      ∀ p ∈ lost, ∃ now, o = .dispatch now ∧ d.isBoundary now ∧
        p ∈ d.unassigned.map (·.toShiftPlan) ∧ p.finish ≤ now := by
  suffices hnone : (o.plan?.toList ++ d.kept).Perm d'.kept ∨ ∃ now out, o = .dispatch now ∧
      d.isBoundary now ∧ Decisions now d d' out by
    rcases hnone with hnone | ⟨now, out, rfl, hboundary, hdecisions⟩
    · exact ⟨[], hnone, by simp⟩
    · obtain ⟨lost, hperm, hlost⟩ := hdecisions.perm_kept
      exact ⟨lost, hperm, fun p hp => ⟨now, rfl, hboundary, hlost p hp⟩⟩
  cases h with
  | refused _ _ hplan => exact .inl (by simp [hplan])
  | joined entry facilities =>
    have hvalues := (Table.perm_values_insert (hnew entry.id rfl)
      ({ toVehicleEntry := entry } : Vehicle)).flatMap_right (·.shifts)
    exact .inl ((hvalues.symm.append_left d.unassigned).map Shift.toShiftPlan)
  | offered plan =>
    refine .inl ?_
    have hopen := perm_insertUnassigned { toShiftPlan := plan } d.unassigned
    exact (hopen.symm.append_right d.queued).map Shift.toShiftPlan
  | moved v link available hv =>
    obtain ⟨front, back, hqueued, hqueued'⟩ := exists_split_queued hv
    have hsame := hqueued' { v with link, available } rfl
    refine .inl (.of_eq ?_)
    rw [kept, kept, hsame, hqueued]
    rfl
  | dispatched now _ out hboundary hdecisions => exact .inr ⟨now, out, rfl, hboundary, hdecisions⟩
  | reported _ now _ e hreport hevents hreports =>
    refine .inl ?_
    rw [hreports.adds_nothing.2]
    rcases hreport.effect.kept_or_dropped with hkept | ⟨hsilent, -⟩
    · exact hkept
    · simp [hsilent] at hevents
  | drained => exact .inl (.refl _)

/-! ## The order of the open shifts -/

/-- Shifts are ordered by their start, and those that start together by their names. -/
private theorem startsBy_eq (a b : Shift) :
    startsBy a b = (compareLex (compareOn fun s : Shift => s.start)
      (compareOn fun s : Shift => s.id) a b).isLE := rfl

theorem startsBy_trans {a b c : Shift} (hab : startsBy a b) (hbc : startsBy b c) :
    startsBy a c := by
  rw [startsBy_eq] at hab hbc ⊢
  exact Std.TransCmp.isLE_trans hab hbc

theorem startsBy_of_not {a b : Shift} (h : ¬ startsBy a b) : startsBy b a := by
  rw [startsBy_eq] at h ⊢
  cases hab : compareLex (compareOn fun s : Shift => s.start) (compareOn fun s : Shift => s.id) a b
    with
  | gt => rw [Std.OrientedCmp.lt_of_gt hab, Ordering.isLE_lt]
  | lt | eq => simp [hab] at h

/-- The open shifts stand in order. -/
def Lined (l : List Shift) : Prop := l.Pairwise fun a b => startsBy a b

/-- The open shifts stand in order when one more is put in. -/
theorem Lined.insertUnassigned {l : List Shift} (hl : Lined l) (s : Shift) :
    Lined (insertUnassigned s l) := by
  rw [insertUnassigned_eq_orderedInsert]
  apply List.Pairwise.orderedInsert_of hl
  · intro a _ has
    have hsa := startsBy_of_not has
    exact ⟨hsa, fun b _ hab => startsBy_trans hsa hab⟩
  · exact fun a _ has => not_not.1 has

/-- The open shifts stand in order after every change. -/
theorem Act.lined (h : d.Act d') (hd : Lined d.unassigned) : Lined d'.unassigned := by
  cases h with
  | decided hdecision => exact hd.sublist hdecision.effect.unassigned_sublist
  | reported hreport => exact hd.sublist hreport.effect.unassigned_sublist
  | joined | moved | drained => exact hd
  | offered plan => exact hd.insertUnassigned { toShiftPlan := plan }

/-! ## Runs -/

/-- The shifts that were added are those that are kept and those that were dropped, as long as no
vehicle and no shift is added twice. -/
theorem perm_offered {policy : ShiftPolicy} {network : Network} {sites : List FacilitySite}
    (h : (opened policy network sites).run os = .ok d) (hnew : AddsAnew os) :
    (d.kept ++ ((opened policy network sites).steps os).flatMap Step.dropped).Perm (offered os) ∧
      ∀ s ∈ (opened policy network sites).steps os, s.DropsMissed := by
  refine run_induction (P := fun os d => AddsAnew os →
      (d.kept ++ ((opened policy network sites).steps os).flatMap Step.dropped).Perm (offered os) ∧
      ∀ s ∈ (opened policy network sites).steps os, s.DropsMissed)
    (sound_opened policy network sites) (fun _ => ⟨.refl _, by simp [steps]⟩) ?_ h hnew
  intro os o d d' hrun ho _ hperformed hP hnew
  obtain ⟨hold, hdrops⟩ := hP hnew.of_concat
  obtain ⟨lost, hperm, hlost⟩ := hperformed.perm_kept
    (find?_eq_none_of_joins hrun hnew.vehicles)
  have hnodup : (o.plan?.toList ++ d.kept).Nodup := by
    have hall := List.Nodup.of_map _ hnew.shifts
    rw [offered_concat, ((hold.symm.append_right _).trans List.perm_append_comm).nodup_iff,
      ← List.append_assoc] at hall
    exact hall.of_append_left
  have hdropped : (Step.dropped ⟨d, o, d'⟩).Perm lost := by
    refine List.perm_filter_not_mem hnodup hperm fun p hp => ?_
    rcases List.mem_append.1 (hperm.subset (List.mem_append_left _ hp)) with hlate | hkept
    · obtain ⟨now, rfl, -⟩ := hlost p hlate
      simp [Operation.plan?] at hp
    · exact hkept
  rw [steps_concat hrun ho, List.flatMap_append, List.flatMap_singleton, offered_concat]
  refine ⟨?_, fun s hs => ?_⟩
  · let before := ((opened policy network sites).steps os).flatMap Step.dropped
    calc
      (d'.kept ++ (before ++ Step.dropped ⟨d, o, d'⟩)).Perm (d'.kept ++ (before ++ lost)) :=
        (hdropped.append_left before).append_left d'.kept
      (d'.kept ++ (before ++ lost)).Perm (lost ++ d'.kept ++ before) := by
        rw [← List.append_assoc, List.append_assoc lost]
        exact List.perm_append_comm
      (lost ++ d'.kept ++ before).Perm (o.plan?.toList ++ d.kept ++ before) :=
        hperm.symm.append_right before
      (o.plan?.toList ++ d.kept ++ before).Perm (offered os ++ o.plan?.toList) := by
        rw [List.append_assoc]
        exact (hold.append_left _).trans List.perm_append_comm
  · rcases List.mem_append.1 hs with hs | hs
    · exact hdrops s hs
    · obtain rfl := List.mem_singleton.1 hs
      exact fun p hp => hlost p (hdropped.mem_iff.1 hp)

/-- Whatever is asked of a dispatcher, every shift that was added is open, has one vehicle, or was
dropped, is there once and in one of these places only, and is as it was planned. A shift is
dropped by a dispatch at a boundary alone, when it is over and still open. The open shifts stand in
the order of their start and their names. -/
theorem shifts_conserved {policy : ShiftPolicy} {network : Network} {sites : List FacilitySite}
    {os : List Operation} (h : (opened policy network sites).run os = .ok d)
    (hnew : AddsAnew os) :
    let dropped := ((opened policy network sites).steps os).flatMap Step.dropped
    let places := d.unassigned.map (·.toShiftPlan) ++ d.queued.map (·.toShiftPlan) ++ dropped
    places.Perm (offered os) ∧ (places.map (·.id)).Nodup ∧
      (∀ s ∈ (opened policy network sites).steps os, s.DropsMissed) ∧
      d.unassigned.Pairwise fun a b => startsBy a b := by
  intro dropped places
  obtain ⟨hperm, hdrops⟩ := perm_offered h hnew
  have hplaces : places.Perm (offered os) := by
    rwa [kept, List.map_append] at hperm
  obtain ⟨-, hlined⟩ := keeps_run (P := fun d => Lined d.unassigned)
    (fun _ _ _ hact hl => hact.lined hl) (sound_opened policy network sites) .nil h
  exact ⟨hplaces, (hplaces.map _).nodup_iff.2 hnew.shifts, hdrops, hlined⟩

/-- Of three shifts one is over before it has a vehicle, one has a vehicle, and one is not yet
due. -/
theorem each_shift_in_one_place :
    let os : List Operation := [.addVehicle { id := ⟨"bus"⟩, link := ⟨"road"⟩ },
      .addShift { id := ⟨"late"⟩, start := 7200, finish := 9000 },
      .addShift { id := ⟨"missed"⟩, start := 0, finish := 60 },
      .addShift { id := ⟨"day"⟩, start := 600, finish := 3600 }, .dispatch 60]
    ∃ d, (opened {} {} []).run os = .ok d ∧ AddsAnew os ∧
      d.unassigned.map (·.id) = [⟨"late"⟩] ∧ d.queued.map (·.id) = [⟨"day"⟩] ∧
      (((opened {} {} []).steps os).flatMap Step.dropped).map (·.id) = [⟨"missed"⟩] ∧
      d.unassigned.Pairwise fun a b => startsBy a b := by
  intro os
  have hplaces : ((opened {} {} []).run os).toOption.map (fun d =>
      (d.unassigned.map (·.id), d.queued.map (·.id))) = some ([⟨"late"⟩], [⟨"day"⟩]) := by
    decide +kernel
  have hdropped :
      (((opened {} {} []).steps os).flatMap Step.dropped).map (·.id) = [⟨"missed"⟩] := by
    decide +kernel
  have hnew : AddsAnew os := ⟨by decide, by decide⟩
  cases hrun : (opened {} {} []).run os with
  | error halt => simp [hrun, Except.toOption] at hplaces
  | ok d =>
    simp only [hrun, Except.toOption, Option.map_some, Option.some.injEq, Prod.mk.injEq] at hplaces
    exact ⟨d, rfl, hnew, hplaces.1, hplaces.2, hdropped, (shifts_conserved hrun hnew).2.2.2⟩

end Dispatcher

end DialARide
