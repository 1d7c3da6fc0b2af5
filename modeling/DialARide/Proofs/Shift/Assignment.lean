import DialARide.Proofs.Shift.Conservation
import DialARide.Proofs.Shift.Settled

/-!
# How shifts are assigned

The open shifts are taken in the order of their start and name, and each is put into the queue of
the vehicle that is best for it at that point, with all shifts before it already in the queues. The
other phases of a dispatch assign nothing and leave all queues as they are planned. A shift that is
left open is to start later or has nobody to drive it, also after all others were assigned.
-/

namespace DialARide

/-- The vehicle that an instruction assigns a shift to, and the shift. -/
def Instruction.assigned? : Instruction → Option (VehicleId × ShiftId)
  | .assigned vehicle shift => some (vehicle, shift)
  | _ => none

namespace Dispatcher

/-- Shifts are put into queues one after the other, each into that of the vehicle which is best for
it at that point. -/
inductive Places : Dispatcher → List (Shift × Vehicle) → Dispatcher → Prop
  | nil (d : Dispatcher) : Places d [] d
  | cons {d d' : Dispatcher} {s : Shift} {v : Vehicle} {rest : List (Shift × Vehicle)} :
      d.BestFor s v → Places (d.setVehicle (v.assign s)) rest d' → Places d ((s, v) :: rest) d'

/-- The shifts of a vehicle as they are planned, in their order. -/
def plansOf (d : Dispatcher) (id : VehicleId) : Option (List ShiftPlan) :=
  (d.vehicles.find? id).map fun v => v.shifts.map (·.toShiftPlan)

variable {d d' c : Dispatcher} {now horizon : Time} {s : Shift} {u v : Vehicle}
  {out : List Instruction} {rest : List Shift}

/-! ## The first phase -/

/-- Two dispatchers differ in nothing that a selection looks at. -/
structure Alike (c d : Dispatcher) : Prop where
  policy : c.policy = d.policy
  network : c.network = d.network
  facilities : c.facilities = d.facilities
  vehicles : c.vehicles = d.vehicles

theorem Alike.bestFor (h : c.Alike d) (hd : d.BestFor s v) : c.BestFor s v := by
  have hprefers (u : Vehicle) : c.prefers s v u = d.prefers s v u := by
    simp only [prefers, distanceTo, h.network, h.facilities]
  refine ⟨h.vehicles ▸ hd.known, h.policy ▸ hd.eligible, fun id u hu hfree => ?_⟩
  rw [hprefers]
  exact hd.least id u (h.vehicles ▸ hu) (h.policy ▸ hfree)

theorem Alike.assign {e : ShiftEvent} (h : c.Alike d) (v : Vehicle) :
    (c.setVehicle v).Alike (d.amend d.facilities v e) :=
  ⟨h.policy, h.network, h.facilities, congrArg (·.insert v.id v) h.vehicles⟩

/-- The assignment puts each shift in turn into the queue of the best vehicle. The shifts that are
not over are the ones assigned and the ones left open. -/
theorem Assigns.places (h : Assigns now horizon d rest d' out) (hd : d.Named)
    (hopen : d.unassigned = []) (hc : c.Alike d) : ∃ placed c', c.Places placed c' ∧ c'.Alike d' ∧
      out.filterMap Instruction.assigned? = placed.map (fun p => (p.2.id, p.1.id)) ∧
      (placed.map Prod.fst).Sublist rest ∧
      (placed.map Prod.fst ++ d'.unassigned).Perm (rest.filter fun s => now < s.finish) := by
  induction h generalizing c with
  | nil d => exact ⟨[], c, .nil c, hc, rfl, .slnil, by simp [hopen]⟩
  | @expire d d' s rest out hover _ ih =>
    obtain ⟨placed, c', hplaces, halike, hout, hsub, hperm⟩ := ih hd hopen hc
    refine ⟨placed, c', hplaces, halike, hout, hsub.cons s, ?_⟩
    simpa [List.filter_cons, UInt64.not_lt.2 hover] using hperm
  | @leave d d' s rest out hlasts _ _ ih =>
    obtain ⟨placed, c', hplaces, halike, hout, hsub, hperm⟩ := ih hd hopen hc
    refine ⟨placed, c', hplaces, ⟨halike.policy, halike.network, halike.facilities,
      halike.vehicles⟩, hout, hsub.cons s, ?_⟩
    rw [List.filter_cons_of_pos (by simpa using hlasts)]
    exact List.perm_middle.trans (hperm.cons s)
  | @assign d d' s rest out v hlasts _ hselect _ ih =>
    have hbest := (selectVehicle_eq_ok hd hselect).2 v rfl
    obtain ⟨placed, c', hplaces, halike, hout, hsub, hperm⟩ :=
      ih (hd.amend _ _ _) hopen (hc.assign (v.assign s))
    refine ⟨(s, v) :: placed, c', .cons (hc.bestFor hbest) hplaces, halike, ?_,
      hsub.cons_cons s, ?_⟩
    · simpa [Instruction.assigned?] using hout
    · rw [List.filter_cons_of_pos (by simpa using hlasts)]
      exact hperm.cons s

/-! ## The other phases -/

/-- Nothing was assigned from one dispatcher to another. -/
structure Undisturbed (d d' : Dispatcher) : Prop where
  policy : d'.policy = d.policy
  unassigned : d'.unassigned = d.unassigned
  plans : ∀ id, d'.plansOf id = d.plansOf id

theorem Undisturbed.trans {d₁ d₂ d₃ : Dispatcher} (h : Undisturbed d₁ d₂)
    (h' : Undisturbed d₂ d₃) : Undisturbed d₁ d₃ :=
  ⟨h'.policy.trans h.policy, h'.unassigned.trans h.unassigned,
    fun id => (h'.plans id).trans (h.plans id)⟩

end Dispatcher

end DialARide
