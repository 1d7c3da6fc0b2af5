import DialARide.Proofs.List
import DialARide.Shift.Vehicle

/-!
# The queue of a vehicle

The shifts of a vehicle stand in the order of their start. Its queue has come to the last shift
that is not waiting: that is the current one, and changing it leaves all others where they are.
The queue grows by shifts that nothing has become of, the first waiting one is begun while no
shift is running, and a running shift that the queue has come to goes on or ends.
-/

namespace DialARide

namespace Shift

/-- Nothing has become of the shift yet. -/
def Fresh (s : Shift) : Prop := s = { toShiftPlan := s.toShiftPlan }

theorem Fresh.state_eq {s : Shift} (h : s.Fresh) : s.state = .waiting := by
  rw [h]

theorem Fresh.endFacility_eq {s : Shift} (h : s.Fresh) : s.endFacility = none := by
  rw [h]

/-- A shift is running if it was started or stands still for its break. -/
theorem isRunning_iff {s : Shift} : s.isRunning ↔ s.state = .started ∨ s.state = .onBreak := by
  simp [isRunning]

/-- A running shift is not waiting and has not ended. -/
theorem not_running_iff {s : Shift} : ¬ s.isRunning ↔ s.state = .waiting ∨ s.state = .ended := by
  cases h : s.state <;> simp [isRunning, h]

/-- A running shift that goes on as it was planned, or ends. -/
structure Goes (s t : Shift) : Prop where
  plan : t.toShiftPlan = s.toShiftPlan
  running : s.isRunning
  next : t.isRunning ∨ t.state = .ended

/-- A shift that goes on starts when it did. -/
theorem Goes.start_eq {s t : Shift} (h : s.Goes t) : t.start = s.start :=
  congrArg ShiftPlan.start h.plan

end Shift

namespace Vehicle

variable {v : Vehicle} {l before after : List Shift} {s : Shift}

/-! ## Insertion -/

/-- A shift is inserted before the first that starts later. -/
theorem insertByStart_eq_orderedInsert (s : Shift) (l : List Shift) :
    insertByStart s l = l.orderedInsert (fun a b => a.start < b.start) s := by
  induction l with
  | nil => rfl
  | cons a rest ih =>
    rw [insertByStart, ih, List.orderedInsert_cons]
    by_cases hle : a.start ≤ s.start
    · rw [if_pos hle, if_neg (UInt64.not_lt.2 hle)]
    · rw [if_neg hle, if_pos (UInt64.not_le.1 hle)]

/-- A queue into which a shift is put has that shift and those it had. -/
theorem mem_insertByStart {t : Shift} : t ∈ insertByStart s l ↔ t = s ∨ t ∈ l := by
  rw [insertByStart_eq_orderedInsert, List.mem_orderedInsert]

/-- Insertion changes nothing in front of the shift and nothing behind it. -/
theorem exists_split_of_insertByStart (s : Shift) (l : List Shift) :
    ∃ before after, l = before ++ after ∧ insertByStart s l = before ++ s :: after := by
  rw [insertByStart_eq_orderedInsert]
  exact l.exists_split_of_orderedInsert _ s

/-- Insertion adds the shift and nothing else. -/
theorem perm_insertByStart (s : Shift) (l : List Shift) : (insertByStart s l).Perm (s :: l) := by
  rw [insertByStart_eq_orderedInsert]
  exact List.perm_orderedInsert _ s l

/-- A shift is put behind those that start no later. A relation that orders a queue by start then
has to be shown only between the shift and either side. -/
theorem pairwise_insertByStart {R : Shift → Shift → Prop} (hl : l.Pairwise R)
    (hstart : ∀ a b, R a b → a.start ≤ b.start) (hbefore : ∀ a ∈ l, a.start ≤ s.start → R a s)
    (hafter : ∀ a ∈ l, s.start < a.start → R s a) : (insertByStart s l).Pairwise R := by
  rw [insertByStart_eq_orderedInsert]
  apply hl.orderedInsert_of
  · intro a ha hlt
    exact ⟨hafter a ha hlt, fun b hb hab =>
      hafter b hb (UInt64.lt_of_lt_of_le hlt (hstart a b hab))⟩
  · exact fun a ha hle => hbefore a ha (UInt64.not_lt.1 hle)

/-! ## The current shift -/

/-- The queue has come to a shift: all those behind it are waiting, and it is not. -/
structure ComesTo (l before : List Shift) (s : Shift) (after : List Shift) : Prop where
  split : l = before ++ s :: after
  begun : s.state ≠ .waiting
  waiting : ∀ t ∈ after, t.state = .waiting

/-- A queue has come to no shift exactly if all of it is waiting. -/
theorem lastBegun?_eq_none_iff : lastBegun? l = none ↔ ∀ t ∈ l, t.state = .waiting := by
  induction l with
  | nil => simp [lastBegun?]
  | cons a rest ih =>
    unfold lastBegun?
    cases hrest : lastBegun? rest with
    | some i =>
      have hsome : ¬ ∀ t ∈ rest, t.state = .waiting := fun h => by simp [ih.2 h] at hrest
      simp only [reduceCtorEq, false_iff]
      exact fun h => hsome fun t ht => h t (List.mem_cons_of_mem a ht)
    | none => simpa using fun _ => ih.1 hrest

/-- The last shift to have begun is the one that the queue has come to. -/
theorem ComesTo.lastBegun?_eq (h : ComesTo l before s after) :
    lastBegun? l = some before.length := by
  have hafter : lastBegun? after = none := lastBegun?_eq_none_iff.2 h.waiting
  have hbegun := h.begun
  rw [h.split]
  clear h
  induction before with
  | nil => simp [lastBegun?, hafter, hbegun]
  | cons a before ih => simp [lastBegun?, ih]

/-- A queue in which a shift has begun has come to one. -/
theorem exists_comesTo_of_lastBegun? {i : Nat} (h : lastBegun? l = some i) :
    ∃ before s after, ComesTo l before s after ∧ before.length = i := by
  induction l generalizing i with
  | nil => simp [lastBegun?] at h
  | cons a rest ih =>
    unfold lastBegun? at h
    split at h
    · next j hj =>
      obtain rfl := Option.some.inj h
      obtain ⟨before, s, after, hcome, rfl⟩ := ih hj
      have hcome' := congrArg (a :: ·) hcome.split
      exact ⟨a :: before, s, after, ⟨hcome', hcome.begun, hcome.waiting⟩, rfl⟩
    · next hnone =>
      split at h
      · cases h
      · next hbegun =>
        obtain rfl := Option.some.inj h
        exact ⟨[], a, rest, ⟨rfl, hbegun, lastBegun?_eq_none_iff.1 hnone⟩, rfl⟩

/-- The current shift stands behind those that come before it. -/
theorem ComesTo.currentIndex?_eq (h : ComesTo v.shifts before s after) :
    v.currentIndex? = some before.length := by
  simp [currentIndex?, h.lastBegun?_eq]

/-- The shift that the queue has come to is the current one. -/
theorem ComesTo.currentShift?_eq (h : ComesTo v.shifts before s after) :
    v.currentShift? = some s := by
  rw [currentShift?, h.currentIndex?_eq, Option.bind_some, h.split]
  simp

/-- Changing the current shift leaves all others where they are. -/
theorem ComesTo.setCurrentShift_eq (h : ComesTo v.shifts before s after) (t : Shift) :
    v.setCurrentShift t = { v with shifts := before ++ t :: after } := by
  rw [setCurrentShift, h.currentIndex?_eq, h.split]
  simp

/-- A queue has come to what becomes of the shift that it had come to. -/
theorem ComesTo.replace {t : Shift} (h : ComesTo l before s after) (ht : t.state ≠ .waiting) :
    ComesTo (before ++ t :: after) before t after :=
  ⟨rfl, ht, h.waiting⟩

/-- The current shift is one of the queue. -/
theorem mem_of_currentShift? (h : v.currentShift? = some s) : s ∈ v.shifts := by
  obtain ⟨i, -, hi⟩ := Option.bind_eq_some_iff.1 h
  exact List.mem_of_getElem? hi

/-- A queue with a shift that is not waiting has come to some shift. -/
theorem exists_comesTo_of_mem (h : s ∈ l) (hs : s.state ≠ .waiting) :
    ∃ before t after, ComesTo l before t after := by
  cases hlast : lastBegun? l with
  | some i =>
    obtain ⟨before, t, after, hcome, -⟩ := exists_comesTo_of_lastBegun? hlast
    exact ⟨before, t, after, hcome⟩
  | none => exact absurd (lastBegun?_eq_none_iff.1 hlast s h) hs

/-- A current shift that is not waiting is the one that the queue has come to. -/
theorem exists_comesTo (h : v.currentShift? = some s) (hs : s.state ≠ .waiting) :
    ∃ before after, ComesTo v.shifts before s after := by
  obtain ⟨before, t, after, hcome⟩ := exists_comesTo_of_mem (mem_of_currentShift? h) hs
  obtain rfl := Option.some.inj (hcome.currentShift?_eq.symm.trans h)
  exact ⟨before, after, hcome⟩

/-! ## The first waiting shift -/

/-- All shifts before the first waiting one are begun. -/
theorem exists_split_of_waitingIndex? {i : Nat} (h : v.waitingIndex? = some i) :
    ∃ before s after, v.shifts = before ++ s :: after ∧ before.length = i ∧
      s.state = .waiting ∧ ∀ t ∈ before, t.state ≠ .waiting := by
  obtain ⟨hi, hwait, hfirst⟩ := List.findIdx?_eq_some_iff_getElem.1 h
  refine ⟨v.shifts.take i, v.shifts[i], v.shifts.drop (i + 1), ?_, ?_, ?_, fun t ht => ?_⟩
  · rw [← List.drop_eq_getElem_cons, List.take_append_drop]
  · exact List.length_take_of_le (Nat.le_of_lt hi)
  · exact of_decide_eq_true hwait
  · obtain ⟨j, hj, rfl⟩ := List.mem_take_iff_getElem.1 ht
    exact of_decide_eq_false (Bool.not_eq_true _ ▸ hfirst j (by omega))

/-! ## Steps of a queue -/

/-- One step of a queue. -/
inductive Moves (l : List Shift) : List Shift → Prop
  /-- A shift is assigned. -/
  | joined (s : Shift) : s.Fresh → Moves l (insertByStart s l)
  /-- The first waiting shift is begun. -/
  | begun (before : List Shift) (s : Shift) (after : List Shift) : l = before ++ s :: after →
      (∀ t ∈ before, t.state ≠ .waiting) → s.state = .waiting → (∀ t ∈ l, ¬ t.isRunning) →
      Moves l (before ++ { s with state := .started } :: after)
  /-- The shift that the queue has come to goes on or ends. -/
  | went (before : List Shift) (s t : Shift) (after : List Shift) : ComesTo l before s after →
      s.Goes t → Moves l (before ++ t :: after)

/-- Only shifts of which nothing has become wait in a queue, and a step keeps that so. -/
theorem Moves.fresh {l' : List Shift} (h : Moves l l')
    (hl : ∀ s ∈ l, s.state = .waiting → s.Fresh) : ∀ s ∈ l', s.state = .waiting → s.Fresh := by
  intro u hu hwait
  cases h with
  | joined s hs =>
    rcases mem_insertByStart.1 hu with rfl | hu
    · exact hs
    · exact hl u hu hwait
  | begun before s after hsplit =>
    subst hsplit
    rw [List.mem_append, List.mem_cons] at hu
    rcases hu with hu | rfl | hu
    · exact hl u (by simp [hu]) hwait
    · cases hwait
    · exact hl u (by simp [hu]) hwait
  | went before s t after hcome hgoes =>
    obtain ⟨rfl, -, -⟩ := hcome
    rw [List.mem_append, List.mem_cons] at hu
    rcases hu with hu | rfl | hu
    · exact hl u (by simp [hu]) hwait
    · rcases hgoes.next with hrun | hended
      · exact absurd hrun (Shift.not_running_iff.2 (.inl hwait))
      · simp [hended] at hwait
    · exact hl u (by simp [hu]) hwait

end Vehicle

end DialARide
