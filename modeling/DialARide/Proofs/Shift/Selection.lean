import DialARide.Proofs.Shift.Separation

/-!
# Which vehicle is selected

A vehicle is eligible for a shift if it is available and done with its shifts, and changed over, by
the start. Of the vehicles eligible for a shift the one nearest to the facility that the shift
belongs to is selected, of several equally near ones the first by name; where that facility is not
known, the first one by name. Nobody is selected only if no vehicle is eligible.
-/

namespace DialARide

/-- A vehicle is available for a shift, and its shifts that have not ended make way for it. -/
def Vehicle.Eligible (changeover : Time) (s : Shift) (v : Vehicle) : Prop :=
  v.available ∧ ∀ a ∈ v.shifts, a.state ≠ .ended → a.MakesWay changeover s

namespace Dispatcher

variable {d : Dispatcher} {s : Shift} {u v : Vehicle} {b : Bool}

/-- A vehicle comes before another one when a vehicle for a shift is selected. The nearer one to the
facility that the shift belongs to does, and of two equally near ones the first by name; where the
facility is not known, the name decides. -/
def prefers (d : Dispatcher) (s : Shift) (v u : Vehicle) : Bool :=
  match s.home.bind d.facilities.find? with
  | some home => ((compare (floatRank (d.distanceTo home.coord v))
      (floatRank (d.distanceTo home.coord u))).then (compare v.id u.id)).isLE
  | none => (compare v.id u.id).isLE

/-- No vehicle of the fleet is eligible for a shift. -/
def NobodyFor (d : Dispatcher) (s : Shift) : Prop :=
  ∀ id v, d.vehicles.find? id = some v → ¬ v.Eligible d.policy.changeover s

/-- A vehicle of the fleet is eligible for a shift, and comes before all others that are. -/
structure BestFor (d : Dispatcher) (s : Shift) (v : Vehicle) : Prop where
  known : d.vehicles.find? v.id = some v
  eligible : v.Eligible d.policy.changeover s
  least : ∀ id u, d.vehicles.find? id = some u → u.Eligible d.policy.changeover s →
    d.prefers s v u

/-- Just the vehicles that are eligible for a shift may be selected. -/
theorem eligible_iff (h : d.isCandidate s.start v = .ok b) :
    b ↔ v.Eligible d.policy.changeover s := by
  unfold isCandidate at h
  unfold Vehicle.Eligible
  split at h
  · next havailable => simpa [havailable] using Vehicle.isFreeFor_iff h
  · next hout =>
    cases h
    simp [hout]

/-- The fleet stands in the order of the names. -/
theorem Named.ascending (hd : d.Named) :
    d.vehicles.values.Pairwise fun v u => compare v.id u.id = .lt :=
  Table.ascending_values hd

/-- Nobody is selected for a shift only if no vehicle is eligible, and a vehicle that is selected is
the best one. -/
theorem selectVehicle_eq_ok {selected : Option Vehicle} (hd : d.Named)
    (h : d.selectVehicle s = .ok selected) :
    (selected = none → d.NobodyFor s) ∧ ∀ v, selected = some v → d.BestFor s v := by
  have hmem {id : VehicleId} {u : Vehicle} (hu : d.vehicles.find? id = some u) :
      u ∈ d.vehicles.values := Table.mem_values_iff.2 ⟨id, hu⟩
  have hknown {v : Vehicle} (hv : v ∈ d.vehicles.values) : d.vehicles.find? v.id = some v := by
    obtain ⟨id, hid⟩ := Table.mem_values_iff.1 hv
    exact hd.find?_id hid
  unfold selectVehicle at h
  split at h
  · next home hhome =>
    cases hcs : d.candidates s.start d.vehicles.values with
    | error halt => simp [hcs, Bind.bind, Except.bind] at h
    | ok cs =>
      simp only [hcs, Bind.bind, Except.bind, Pure.pure, Except.pure, Except.ok.injEq] at h
      obtain ⟨hsub, hcandidate⟩ := candidates_eq_ok hcs
      have heligible {u : Vehicle} (hu : u ∈ d.vehicles.values) :
          u ∈ cs ↔ u.Eligible d.policy.changeover s := by
        simpa using eligible_iff (hcandidate u hu)
      refine ⟨fun hnone id u hu hfree => ?_, fun v hv => ?_⟩
      · rw [hnone, firstLeast_eq_none_iff] at h
        simpa [h] using (heligible (hmem hu)).2 hfree
      · subst hv
        have hv := hsub.subset (mem_of_firstLeast h)
        refine ⟨hknown hv, (heligible hv).1 (mem_of_firstLeast h), fun id u hu hfree => ?_⟩
        rw [prefers, hhome]
        exact isLE_of_firstLeast (hd.ascending.sublist hsub) h ((heligible (hmem hu)).2 hfree)
  · next hhome =>
    obtain ⟨before, after, hsplit, hselected, hbefore, hnone⟩ := firstCandidate_eq_ok h
    have hout {u : Vehicle} (hu : u ∈ before) : ¬ u.Eligible d.policy.changeover s := by
      simpa using eligible_iff (hbefore u hu)
    refine ⟨fun hnobody id u hu => ?_, fun v hv => ?_⟩
    · subst hnobody
      have hu := hmem hu
      rw [hsplit, hnone rfl] at hu
      exact hout (by simpa using hu)
    · subst hv
      refine ⟨hknown (by simp [hsplit]), (eligible_iff (hselected v rfl)).1 rfl,
        fun id u hu hfree => ?_⟩
      have hu := hmem hu
      have hascending := hd.ascending
      rw [hsplit, Option.toList_some, List.append_assoc, List.singleton_append] at hu hascending
      have hbehind := isLE_of_mem_behind hascending
        ((List.mem_append.1 hu).resolve_left fun hbefore => hout hbefore hfree)
      rw [prefers, hhome]
      exact hbehind

end Dispatcher

end DialARide
