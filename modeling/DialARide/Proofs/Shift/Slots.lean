import DialARide.Proofs.Table
import DialARide.Shift.Facility

/-!
# Who holds a slot where

What is done to the facilities is told by who holds a slot of which facility afterwards. No
facility is ever built or torn down, so one that is known stays known, and a slot can always be
given up there. No more slots of a facility are ever held than there are.
-/

namespace DialARide

/-- No more slots of a facility are held than there are. -/
def Facility.Fits (f : Facility) : Prop := f.occupancy ≤ f.capacity

/-- A slot is given to a vehicle only if one is free. -/
theorem Facility.Fits.register {f : Facility} (h : f.Fits) (vehicle : VehicleId) :
    (f.register vehicle).2.Fits := by
  unfold Facility.register
  split
  · exact h
  · split
    · next hfree =>
      have hone : (f.enter vehicle).occupancy ≤ f.occupancy + 1 :=
        f.registered.size_insert_le vehicle ()
      exact hone.trans (of_decide_eq_true hfree)
    · exact h

/-- Giving up a slot makes room. -/
theorem Facility.Fits.leave {f : Facility} (h : f.Fits) (vehicle : VehicleId) :
    (f.leave vehicle).Fits :=
  (f.registered.size_erase_le vehicle).trans h

/-- Giving away a slot does not change the site. -/
theorem Facility.register_site (f : Facility) (vehicle : VehicleId) :
    (f.register vehicle).2.toFacilitySite = f.toFacilitySite := by
  unfold Facility.register
  split
  · rfl
  · split <;> rfl

/-- A facility has no more room than another, other than for one vehicle. -/
structure Facility.Narrows (vehicle : VehicleId) (f g : Facility) : Prop where
  site : g.toFacilitySite = f.toFacilitySite
  free : g.hasCapacity → f.hasCapacity
  others : ∀ u, u ≠ vehicle → g.holds u → f.holds u

/-- Giving a slot to a vehicle makes no room, and lets no other vehicle hold one. -/
theorem Facility.narrows_register (f : Facility) (vehicle : VehicleId) :
    f.Narrows vehicle (f.register vehicle).2 := by
  refine ⟨f.register_site vehicle, ?_, fun u hu => ?_⟩
  · unfold Facility.register
    split
    · exact id
    · split
      · next hfree => exact fun _ => hfree
      · exact id
  · unfold Facility.register
    split
    · exact id
    · split
      · simp [Facility.holds, Facility.enter, Table.contains, Ne.symm hu]
      · exact id

namespace Facilities

variable {fs fs' : Facilities} {id : FacilityId} {vehicle : VehicleId} {had : Bool}

/-- A vehicle holds a slot of a facility. -/
def holdsAt (fs : Facilities) (id : FacilityId) (vehicle : VehicleId) : Bool :=
  (fs.find? id).any (·.holds vehicle)

/-- There is a facility of the name. -/
def knows (fs : Facilities) (id : FacilityId) : Bool := (fs.find? id).isSome

/-- The facility that is required is the one that is found. -/
theorem require_eq_ok_iff {f : Facility} : fs.require id = .ok f ↔ fs.find? id = some f := by
  unfold require
  split
  · next g hg => rw [Except.ok.injEq, hg, Option.some.injEq]
  · next hnone => simp [hnone]

/-- A facility that was required is known. -/
theorem knows_of_require {f : Facility} (h : fs.require id = .ok f) : fs.knows id := by
  rw [knows, require_eq_ok_iff.1 h]
  rfl

/-! ## Registration -/

/-- A vehicle is registered at a known facility only, as that admits it. -/
theorem register_eq_ok_iff : fs.register id vehicle = .ok (had, fs') ↔
    ∃ f, fs.find? id = some f ∧ f.admits vehicle = had ∧
      fs' = ⟨fs.byId.insert id (f.register vehicle).2⟩ := by
  unfold register
  cases hf : fs.require id with
  | error fault =>
    have hunknown : ∀ f, fs.find? id ≠ some f := fun f h => by
      simp [require_eq_ok_iff.2 h] at hf
    simp [Bind.bind, Except.bind, hunknown]
  | ok f =>
    simp [Bind.bind, Except.bind, Pure.pure, Except.pure, require_eq_ok_iff.1 hf,
      ← Facility.register_fst, eq_comm]

/-- Giving away a slot does not change which facilities are known. -/
theorem knows_of_register (h : fs.register id vehicle = .ok (had, fs')) (g : FacilityId) :
    fs'.knows g = fs.knows g := by
  obtain ⟨f, hf, -, rfl⟩ := register_eq_ok_iff.1 h
  unfold find? at hf
  by_cases hg : id = g
  · subst hg
    simp [knows, find?, hf]
  · simp [knows, find?, hg]

/-- A slot is given away at a facility that is known only. -/
theorem knows_of_register_self (h : fs.register id vehicle = .ok (had, fs')) : fs.knows id := by
  obtain ⟨f, hf, -, -⟩ := register_eq_ok_iff.1 h
  rw [knows, hf]
  rfl

/-- A vehicle that is admitted holds a slot there, and no other slot changes hands. -/
theorem holdsAt_of_register (h : fs.register id vehicle = .ok (true, fs')) (g : FacilityId)
    (u : VehicleId) : fs'.holdsAt g u ↔ (g = id ∧ u = vehicle) ∨ fs.holdsAt g u := by
  obtain ⟨f, hf, hadmits, rfl⟩ := register_eq_ok_iff.1 h
  unfold find? at hf
  by_cases hg : id = g
  · subst hg
    have hheld : (f.register vehicle).2.holds u ↔ u = vehicle ∨ f.holds u := by
      unfold Facility.register
      split
      · next hv =>
        refine ⟨Or.inr, ?_⟩
        rintro (rfl | hu)
        · exact hv
        · exact hu
      · next hv =>
        have hfree : f.hasCapacity = true := by simpa [Facility.admits, hv] using hadmits
        rw [if_pos hfree]
        by_cases hu : vehicle = u
        · simp [Facility.holds, Facility.enter, Table.contains, hu]
        · simp [Facility.holds, Facility.enter, Table.contains, hu, Ne.symm hu]
    simpa [holdsAt, find?, hf] using hheld
  · simp [holdsAt, find?, hg, Ne.symm hg]

/-- With a registration a slot is given to the one vehicle at most. -/
theorem holdsAt_register_imp (h : fs.register id vehicle = .ok (had, fs')) {g : FacilityId}
    {u : VehicleId} (hu : fs'.holdsAt g u) : u = vehicle ∨ fs.holdsAt g u := by
  cases had with
  | true => exact ((holdsAt_of_register h g u).1 hu).imp_left And.right
  | false =>
    obtain ⟨f, hf, hadmits, rfl⟩ := register_eq_ok_iff.1 h
    have hsame : (f.register vehicle).2 = f := by
      simp only [Facility.admits, Bool.or_eq_false_iff] at hadmits
      simp [Facility.register, hadmits]
    unfold find? at hf
    by_cases hg : id = g
    · subst hg
      exact .inr (by simpa [holdsAt, find?, hf, hsame] using hu)
    · exact .inr (by simpa [holdsAt, find?, hg] using hu)

/-! ## Slots given up -/

/-- A slot is given up at a known facility only. -/
theorem deregister_eq_ok_iff : fs.deregister id vehicle = .ok (had, fs') ↔
    ∃ f, fs.find? id = some f ∧ f.holds vehicle = had ∧
      fs' = ⟨fs.byId.insert id (f.leave vehicle)⟩ := by
  unfold deregister
  cases hf : fs.require id with
  | error fault =>
    have hunknown : ∀ f, fs.find? id ≠ some f := fun f h => by
      simp [require_eq_ok_iff.2 h] at hf
    simp [Bind.bind, Except.bind, hunknown]
  | ok f =>
    simp [Bind.bind, Except.bind, Pure.pure, Except.pure, require_eq_ok_iff.1 hf, eq_comm]

/-- At a known facility a slot can always be given up. -/
theorem exists_deregister (h : fs.knows id) (vehicle : VehicleId) :
    ∃ had fs', fs.deregister id vehicle = .ok (had, fs') := by
  obtain ⟨f, hf⟩ := Option.isSome_iff_exists.1 h
  exact ⟨_, _, deregister_eq_ok_iff.2 ⟨f, hf, rfl, rfl⟩⟩

/-- Giving up a slot does not change which facilities are known. -/
theorem knows_of_deregister (h : fs.deregister id vehicle = .ok (had, fs')) (g : FacilityId) :
    fs'.knows g = fs.knows g := by
  obtain ⟨f, hf, -, rfl⟩ := deregister_eq_ok_iff.1 h
  unfold find? at hf
  by_cases hg : id = g
  · subst hg
    simp [knows, find?, hf]
  · simp [knows, find?, hg]

/-- A vehicle gives up the one slot, and no other changes hands. -/
theorem holdsAt_of_deregister (h : fs.deregister id vehicle = .ok (had, fs')) (g : FacilityId)
    (u : VehicleId) : fs'.holdsAt g u ↔ fs.holdsAt g u ∧ ¬ (g = id ∧ u = vehicle) := by
  obtain ⟨f, hf, -, rfl⟩ := deregister_eq_ok_iff.1 h
  unfold find? at hf
  by_cases hg : id = g
  · subst hg
    by_cases hu : vehicle = u
    · simp [holdsAt, find?, hf, Facility.holds, Facility.leave, Table.contains, hu]
    · simp [holdsAt, find?, hf, Facility.holds, Facility.leave, Table.contains, hu, Ne.symm hu]
  · simp [holdsAt, find?, hg, Ne.symm hg]

@[simp] theorem knows_deregisterEverywhere (fs : Facilities) (vehicle : VehicleId)
    (g : FacilityId) : (fs.deregisterEverywhere vehicle).knows g = fs.knows g := by
  simp [knows, find?, deregisterEverywhere]

/-- A vehicle that gives up every slot holds none, and no other vehicle loses one. -/
theorem holdsAt_deregisterEverywhere (fs : Facilities) (vehicle : VehicleId) (g : FacilityId)
    (u : VehicleId) : (fs.deregisterEverywhere vehicle).holdsAt g u ↔
      fs.holdsAt g u ∧ u ≠ vehicle := by
  unfold holdsAt find? deregisterEverywhere
  rw [Table.find?_mapValues]
  cases fs.byId.find? g with
  | none => simp
  | some f =>
    by_cases hu : vehicle = u
    · simp [Facility.holds, Facility.leave, Table.contains, hu]
    · simp [Facility.holds, Facility.leave, Table.contains, hu, Ne.symm hu]

/-! ## What every facility has -/

/-- All facilities have a property. -/
def Every (P : FacilityId → Facility → Prop) (fs : Facilities) : Prop :=
  ∀ id f, fs.find? id = some f → P id f

/-- A property that a facility does not lose when slots of it are given away and given up. -/
structure Lasting (P : FacilityId → Facility → Prop) : Prop where
  register : ∀ id f vehicle, P id f → P id (f.register vehicle).2
  leave : ∀ id f vehicle, P id f → P id (f.leave vehicle)

variable {P : FacilityId → Facility → Prop}

/-- A facility that has the property may take the place of another. -/
theorem Every.insert (h : fs.Every P) {f : Facility} (hf : P id f) :
    Every P ⟨fs.byId.insert id f⟩ := by
  intro g facility hg
  rw [find?, Table.find?_insert] at hg
  split at hg
  · next hid => exact hid ▸ Option.some.inj hg ▸ hf
  · exact h g facility hg

/-- What all facilities have they keep when a slot is given away. -/
theorem Every.register (h : fs.Every P) (hP : Lasting P)
    (hregister : fs.register id vehicle = .ok (had, fs')) : fs'.Every P := by
  obtain ⟨f, hf, -, rfl⟩ := register_eq_ok_iff.1 hregister
  exact h.insert (hP.register id f vehicle (h id f hf))

/-- What all facilities have they keep when a slot is given up. -/
theorem Every.deregister (h : fs.Every P) (hP : Lasting P)
    (hslot : fs.deregister id vehicle = .ok (had, fs')) : fs'.Every P := by
  obtain ⟨f, hf, -, rfl⟩ := deregister_eq_ok_iff.1 hslot
  exact h.insert (hP.leave id f vehicle (h id f hf))

/-- What all facilities have they keep when a vehicle gives up all its slots. -/
theorem Every.deregisterEverywhere (h : fs.Every P) (hP : Lasting P) (vehicle : VehicleId) :
    (fs.deregisterEverywhere vehicle).Every P := by
  intro g facility hg
  rw [find?, Facilities.deregisterEverywhere, Table.find?_mapValues] at hg
  obtain ⟨f, hf, rfl⟩ := Option.map_eq_some_iff.1 hg
  exact hP.leave g f vehicle (h g f hf)

/-- No more slots of any facility are held than there are. -/
def Fit (fs : Facilities) : Prop := fs.Every fun _ f => f.Fits

/-- The room of a facility is kept to. -/
theorem lasting_fits : Lasting fun _ f => f.Fits :=
  ⟨fun _ _ vehicle h => h.register vehicle, fun _ _ vehicle h => h.leave vehicle⟩

/-- Every facility is kept under its own name. -/
def Named (fs : Facilities) : Prop := fs.Every fun id f => f.id = id

/-- A facility keeps its name. -/
theorem lasting_named : Lasting fun id f => f.id = id :=
  ⟨fun _ f vehicle h => (congrArg FacilitySite.id (f.register_site vehicle)).trans h,
    fun _ _ _ h => h⟩

/-! ## Room -/

/-- After a registration no facility has room that it had not before, other than for the vehicle
that was registered. -/
theorem narrows_of_register (h : fs.register id vehicle = .ok (had, fs')) {i : FacilityId}
    {g : Facility} (hg : fs'.find? i = some g) :
    ∃ f, fs.find? i = some f ∧ f.Narrows vehicle g := by
  obtain ⟨f, hf, -, rfl⟩ := register_eq_ok_iff.1 h
  rw [find?, Table.find?_insert] at hg
  split at hg
  · next hid =>
    obtain rfl := Option.some.inj hg
    exact ⟨f, hid ▸ hf, f.narrows_register vehicle⟩
  · exact ⟨g, hg, rfl, fun hfree => hfree, fun _ _ hu => hu⟩

/-- A facility that is kept under its name and admits a vehicle gives it a slot. -/
theorem Named.exists_register (hfs : fs.Named) {f : Facility} {i : FacilityId}
    (hf : fs.find? i = some f) (hadmits : f.admits vehicle) :
    ∃ fs', fs.register f.id vehicle = .ok (true, fs') :=
  ⟨_, register_eq_ok_iff.2 ⟨f, hfs i f hf ▸ hf, hadmits, rfl⟩⟩

variable {place : Coord} {wanted : Facility → Bool}

/-- The nearest facility is one that is wanted and has a slot free. -/
theorem mem_of_nearest? {f : Facility} (h : fs.nearest? place wanted = some f) :
    (∃ i, fs.find? i = some f) ∧ f.hasCapacity ∧ wanted f := by
  obtain ⟨hmem, hwanted⟩ := List.mem_filter.1 (mem_of_firstLeast h)
  exact ⟨Table.mem_values_iff.1 hmem, by simpa using hwanted⟩

/-- There is a nearest facility if one that is wanted has a slot free. -/
theorem exists_nearest? {f : Facility} {i : FacilityId} (hf : fs.find? i = some f)
    (hfree : f.hasCapacity) (hwanted : wanted f) : ∃ g, fs.nearest? place wanted = some g := by
  refine Option.ne_none_iff_exists'.1 fun hnone => ?_
  have hempty := List.filter_eq_nil_iff.1 (firstLeast_eq_none_iff.1 hnone) f
    (Table.mem_values_iff.2 ⟨i, hf⟩)
  simp [hfree, hwanted] at hempty

/-- A facility is wanted and has a slot free, and comes before all others of that kind by distance
and name. -/
structure NearestFree (fs : Facilities) (place : Coord) (wanted : Facility → Bool)
    (f : Facility) : Prop where
  known : fs.find? f.id = some f
  free : f.hasCapacity
  suits : wanted f
  least : ∀ i g, fs.find? i = some g → g.hasCapacity → wanted g →
    ((compare (floatRank (place.distance f.coord)) (floatRank (place.distance g.coord))).then
      (compare f.id g.id)).isLE

/-- The facility that is found comes before all others that could have been. -/
theorem Named.nearestFree (hfs : fs.Named) {f : Facility} (h : fs.nearest? place wanted = some f) :
    fs.NearestFree place wanted f := by
  obtain ⟨⟨i, hi⟩, hfree, hwanted⟩ := mem_of_nearest? h
  have hascending : fs.all.Pairwise fun f g => compare f.id g.id = .lt :=
    Table.ascending_values hfs
  refine ⟨hfs i f hi ▸ hi, hfree, hwanted, fun j g hj hgfree hgwanted => ?_⟩
  have hg : g ∈ fs.all.filter fun f => f.hasCapacity && wanted f := by
    refine List.mem_filter.2 ⟨Table.mem_values_iff.2 ⟨j, hj⟩, ?_⟩
    simp [hgfree, hgwanted]
  exact isLE_of_firstLeast (hascending.filter _) h hg

/-! ## Facilities that were just built -/

/-- A facility that is built on a site is empty. -/
theorem built_of_ofSites {sites : List FacilitySite} {f : Facility}
    (h : (ofSites sites).find? id = some f) :
    ∃ site, site.id = id ∧ f = { toFacilitySite := site } := by
  obtain ⟨site, -, hsite⟩ := List.mem_map.1 (Table.mem_of_find?_ofList h)
  obtain ⟨hid, rfl⟩ := Prod.mk.inj hsite
  exact ⟨site, hid, rfl⟩

/-- Facilities are built under the names of their sites. -/
theorem named_ofSites (sites : List FacilitySite) : (ofSites sites).Named := by
  intro g f hf
  obtain ⟨site, hid, rfl⟩ := built_of_ofSites hf
  exact hid

/-- Nobody is registered at a facility when it is built. -/
theorem registered_of_ofSites {sites : List FacilitySite} {f : Facility}
    (h : (ofSites sites).find? id = some f) : f.registered = .empty := by
  obtain ⟨site, -, rfl⟩ := built_of_ofSites h
  rfl

/-- There is room enough in facilities that were just built. -/
theorem fit_ofSites (sites : List FacilitySite) : (ofSites sites).Fit := by
  intro g f hf
  simp [Facility.Fits, Facility.occupancy, registered_of_ofSites hf, Table.size, Table.empty]

/-- No vehicle holds a slot of a facility that was just built. -/
theorem not_holdsAt_ofSites (sites : List FacilitySite) (g : FacilityId) (u : VehicleId) :
    ¬ (ofSites sites).holdsAt g u := by
  unfold holdsAt
  cases hf : (ofSites sites).find? g with
  | none => simp
  | some f => simp [Facility.holds, Table.contains, registered_of_ofSites hf]

end Facilities

end DialARide
