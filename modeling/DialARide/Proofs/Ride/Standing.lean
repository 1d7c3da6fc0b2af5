import DialARide.Proofs.Ride.Course

/-!
# To how many requests a traveler is bound

The bindings of all services are looked up by the position of the service and the name of the
request. A change of one binding bears on the traveler whose binding it is and on nobody else, and
that a traveler is bound nowhere else makes the outcome of the change known.
-/

namespace DialARide

namespace Services

/-- The binding to a request at the service at a position. -/
def binding? (h : Services) (i : Nat) (id : RequestId) : Option Binding :=
  h.members[i]?.bind (·.bound.find? id)

/-- A traveler is bound to no request. -/
def Unbound (h : Services) (traveler : EntityId) : Prop :=
  ∀ i id b, h.binding? i id = some b → b.traveler ≠ traveler

/-- A traveler is bound to one request at most, which then is the given one. -/
def BoundOnlyAt (h : Services) (traveler : EntityId) (i : Nat) (id : RequestId) : Prop :=
  ∀ j id' b, h.binding? j id' = some b → b.traveler = traveler → j = i ∧ id' = id

/-- A traveler is bound to exactly one request of all services, and its status has a property. -/
def BoundOnce (h : Services) (traveler : EntityId) (p : RequestStatus → Prop) : Prop :=
  ∃ i id b, h.binding? i id = some b ∧ b.traveler = traveler ∧ p b.status ∧
    h.BoundOnlyAt traveler i id

/-- Services that differ in one binding. -/
structure Replaced (h h' : Services) (i : Nat) (id : RequestId) (new : Option Binding) : Prop where
  changed : h'.binding? i id = new
  kept : ∀ j id', ¬ (j = i ∧ id' = id) → h'.binding? j id' = h.binding? j id'

variable {h h' : Services} {i : Nat} {id : RequestId} {traveler : EntityId} {s : Service} {t : Turn}
  {new : Option Binding} {b : Binding} {p : RequestStatus → Prop}

theorem Unbound.onlyAt (hu : h.Unbound traveler) (i : Nat) (id : RequestId) :
    h.BoundOnlyAt traveler i id :=
  fun j id' b hb htraveler => absurd htraveler (hu j id' b hb)

/-- The one request to which a traveler is bound is any to which the traveler is bound. -/
theorem BoundOnce.at (ho : h.BoundOnce traveler p) (hb : h.binding? i id = some b)
    (htraveler : b.traveler = traveler) : p b.status ∧ h.BoundOnlyAt traveler i id := by
  obtain ⟨j, id', b', hb', -, hp, honly⟩ := ho
  obtain ⟨rfl, rfl⟩ := honly i id b hb htraveler
  obtain rfl : b = b' := Option.some.inj (hb.symm.trans hb')
  exact ⟨hp, honly⟩

/-! ## One binding changes -/

/-- A binding of somebody else may change without effect on a traveler. -/
theorem Replaced.unbound_of_unbound (hr : Replaced h h' i id new)
    (hnew : ∀ b, new = some b → b.traveler ≠ traveler) (hu : h.Unbound traveler) :
    h'.Unbound traveler := by
  intro j id' b hb
  by_cases hat : j = i ∧ id' = id
  · obtain ⟨rfl, rfl⟩ := hat
    exact hnew b (hr.changed.symm.trans hb)
  · rw [hr.kept j id' hat] at hb
    exact hu j id' b hb

theorem Replaced.boundOnce_of_boundOnce (hr : Replaced h h' i id new)
    (hold : ∀ b, h.binding? i id = some b → b.traveler ≠ traveler)
    (hnew : ∀ b, new = some b → b.traveler ≠ traveler) (ho : h.BoundOnce traveler p) :
    h'.BoundOnce traveler p := by
  obtain ⟨j, id', b, hb, htraveler, hp, honly⟩ := ho
  have hat : ¬ (j = i ∧ id' = id) := by
    rintro ⟨rfl, rfl⟩
    exact hold b hb htraveler
  refine ⟨j, id', b, (hr.kept j id' hat).trans hb, htraveler, hp, fun k id'' b' hb' ht => ?_⟩
  by_cases hat' : k = i ∧ id'' = id
  · obtain ⟨rfl, rfl⟩ := hat'
    exact absurd ht (hnew b' (hr.changed.symm.trans hb'))
  · rw [hr.kept k id'' hat'] at hb'
    exact honly k id'' b' hb' ht

/-- A traveler whose only binding goes is unbound. -/
theorem Replaced.unbound (hr : Replaced h h' i id none) (honly : h.BoundOnlyAt traveler i id) :
    h'.Unbound traveler := by
  intro j id' b hb htraveler
  by_cases hat : j = i ∧ id' = id
  · obtain ⟨rfl, rfl⟩ := hat
    rw [hr.changed] at hb
    cases hb
  · rw [hr.kept j id' hat] at hb
    exact hat (honly j id' b hb htraveler)

/-- A traveler who is bound nowhere else is bound once by a new binding. -/
theorem Replaced.boundOnce (hr : Replaced h h' i id (some b)) (htraveler : b.traveler = traveler)
    (hp : p b.status) (honly : h.BoundOnlyAt traveler i id) : h'.BoundOnce traveler p := by
  refine ⟨i, id, b, hr.changed, htraveler, hp, fun j id' b' hb' ht => ?_⟩
  by_contra hat
  rw [hr.kept j id' hat] at hb'
  exact hat (honly j id' b' hb' ht)

/-! ## Bindings after turns -/

/-- A turn changes the bindings of the service that acts. -/
theorem binding?_commit (hs : h.members[i]? = some s) (t : Turn) (j : Nat) (id : RequestId) :
    (h.commit i t).binding? j id = if j = i then t.service.bound.find? id else h.binding? j id := by
  have hi : i < h.members.length := (List.getElem?_eq_some_iff.1 hs).1
  unfold binding?
  rw [members_commit, List.getElem?_map, List.getElem?_set]
  by_cases hij : i = j
  · subst hij
    simp [hi]
  · have hji : j ≠ i := fun hji => hij hji.symm
    cases hj : h.members[j]? <;> simp [hij, hji]

@[simp] theorem binding?_publish (h : Services) (r : Rejection) (i : Nat) (id : RequestId) :
    (h.publish r).binding? i id = h.binding? i id := by
  unfold binding?
  rw [members_publish, List.getElem?_map]
  cases h.members[i]? <;> simp

theorem binding?_eq (hs : h.members[i]? = some s) (id : RequestId) :
    h.binding? i id = s.bound.find? id := by
  rw [binding?, hs, Option.bind_some]

/-- A turn that leaves the bindings of the service alone leaves all bindings alone. -/
theorem binding?_commit_of_eq (hs : h.members[i]? = some s) (ht : t.service.bound = s.bound)
    (j : Nat) (id : RequestId) : (h.commit i t).binding? j id = h.binding? j id := by
  rw [binding?_commit hs]
  split
  · next hj => rw [hj, ht, binding?_eq hs]
  · rfl

/-- A turn that changes one binding of the service changes one binding of all. -/
theorem replaced_commit (hs : h.members[i]? = some s) (id : RequestId) (new : Option Binding)
    (hnew : t.service.bound.find? id = new)
    (hkept : ∀ id', id' ≠ id → t.service.bound.find? id' = s.bound.find? id') :
    Replaced h (h.commit i t) i id new := by
  refine ⟨?_, fun j id' hat => ?_⟩
  · rw [binding?_commit hs, if_pos rfl, hnew]
  · rw [binding?_commit hs]
    split
    · next hj =>
      subst hj
      rw [hkept id' fun hid => hat ⟨rfl, hid⟩, binding?_eq hs]
    · rfl

/-- Whoever is found to be bound is bound to some request. -/
theorem not_unbound_of_isBound (hb : h.isBound traveler = true) : ¬ h.Unbound traveler := by
  intro hu
  obtain ⟨s, hs, hbound⟩ := List.any_eq_true.1 hb
  obtain ⟨b, hmem, htraveler⟩ := List.any_eq_true.1 hbound
  obtain ⟨id, hid⟩ := Table.mem_values_iff.1 hmem
  obtain ⟨i, hi⟩ := List.mem_iff_getElem?.1 (List.mem_filter.1 hs).1
  exact hu i id b ((binding?_eq hi id).trans hid) (by simpa using htraveler)

/-- Whoever is bound at an open service is found to be bound. -/
theorem isBound_of_binding (hs : h.members[i]? = some s) (hopen : s.closed = false)
    (hb : h.binding? i id = some b) (htraveler : b.traveler = traveler) :
    h.isBound traveler = true := by
  rw [binding?_eq hs] at hb
  have hmem : s ∈ h.active := List.mem_filter.2 ⟨List.mem_of_getElem? hs, by simp [hopen]⟩
  have hvalue : b ∈ s.bound.values := Table.mem_values_iff.2 ⟨id, hb⟩
  exact List.any_eq_true.2 ⟨s, hmem, List.any_eq_true.2 ⟨b, hvalue, by simpa using htraveler⟩⟩

end Services

end DialARide
