import DialARide.Table
import DialARide.Proofs.List

/-!
# Tables are known by their lookups

The entries of a table are the pairs that its lookup gives, so two tables with one lookup are the
same table. Updates that undo or repeat one another can then be compared by lookup alone.
-/

namespace DialARide

namespace Table

variable {κ α : Type} [Ord κ] [DecidableEq κ]

omit [Ord κ] in
/-- What is found in a list of entries stands in it. -/
theorem mem_of_findIn {k : κ} {v : α} {l : List (κ × α)} (h : findIn k l = some v) :
    (k, v) ∈ l := by
  induction l with
  | nil => simp [findIn] at h
  | cons a rest ih =>
    unfold findIn at h
    split at h
    · next hk =>
      obtain rfl := Option.some.inj h
      exact hk ▸ List.mem_cons_self
    · exact List.mem_cons_of_mem a (ih h)

/-- In an ascending list every entry is the one found for its key. -/
theorem findIn_of_mem [Std.OrientedOrd κ] {k : κ} {v : α} {l : List (κ × α)}
    (hl : l.Pairwise fun a b => compare a.1 b.1 = .lt) (h : (k, v) ∈ l) :
    findIn k l = some v := by
  induction l with
  | nil => simp at h
  | cons a rest ih =>
    rw [List.pairwise_cons] at hl
    rcases List.mem_cons.1 h with rfl | h
    · simp [findIn]
    · have hne : a.1 ≠ k := fun hk => by
        have hlt := hl.1 _ h
        rw [hk] at hlt
        exact Std.OrientedCmp.not_lt_of_lt hlt hlt
      rw [findIn, if_neg hne]
      exact ih hl.2 h

/-- The entries of a table are the pairs that its lookup gives. -/
theorem mem_entries_iff [Std.OrientedOrd κ] {t : Table κ α} {k : κ} {v : α} :
    (k, v) ∈ t.entries ↔ t.find? k = some v :=
  ⟨findIn_of_mem t.ascending, mem_of_findIn⟩

/-- The values of a table are those found for some key. -/
theorem mem_values_iff [Std.OrientedOrd κ] {t : Table κ α} {v : α} :
    v ∈ t.values ↔ ∃ k, t.find? k = some v := by
  simp only [values, List.mem_map, Prod.exists, exists_eq_right, mem_entries_iff]

/-- Values that are kept under their own names stand in the order of the names. -/
theorem ascending_values [Std.OrientedOrd κ] {t : Table κ α} {name : α → κ}
    (h : ∀ k v, t.find? k = some v → name v = k) :
    t.values.Pairwise fun v w => compare (name v) (name w) = .lt := by
  refine List.pairwise_map.2 (t.ascending.imp_of_mem fun {a b} ha hb hlt => ?_)
  rw [h a.1 a.2 (mem_entries_iff.1 ha), h b.1 b.2 (mem_entries_iff.1 hb)]
  exact hlt

/-- What is found after an insertion was inserted, or is found for another key as before. -/
theorem find?_insert_eq_some_iff [Std.TransOrd κ] [Std.LawfulEqOrd κ] {t : Table κ α} {k j : κ}
    {v w : α} : (t.insert k v).find? j = some w ↔
      (k = j ∧ w = v) ∨ (k ≠ j ∧ t.find? j = some w) := by
  rw [find?_insert]
  split
  · next hk => simp [hk, eq_comm]
  · next hk => simp [hk]

theorem contains_insert_iff [Std.TransOrd κ] [Std.LawfulEqOrd κ] {t : Table κ α} {k j : κ} {v : α} :
    (t.insert k v).contains j ↔ k = j ∨ t.contains j := by
  by_cases hk : k = j <;> simp [contains, hk]

/-- What is kept for a key is replaced where it stands. -/
theorem exists_split_of_findIn [Std.TransOrd κ] [Std.LawfulEqOrd κ] {k : κ} {v : α}
    {l : List (κ × α)} (hl : l.Pairwise fun a b => compare a.1 b.1 = .lt)
    (h : findIn k l = some v) :
    ∃ front back, l = front ++ (k, v) :: back ∧
      ∀ w, insertIn k w l = front ++ (k, w) :: back := by
  induction l with
  | nil => cases h
  | cons a rest ih =>
    obtain ⟨ha, hrest⟩ := List.pairwise_cons.1 hl
    unfold findIn at h
    split at h
    · next hk =>
      obtain rfl := Option.some.inj h
      subst hk
      refine ⟨[], rest, rfl, fun w => ?_⟩
      simp [insertIn, Std.ReflCmp.compare_self]
    · obtain ⟨front, back, hsplit, hinsert⟩ := ih hrest h
      have hbehind : compare k a.1 = .gt := Std.OrientedCmp.gt_of_lt (ha _ (mem_of_findIn h))
      refine ⟨a :: front, back, congrArg (a :: ·) hsplit, fun w => ?_⟩
      simp [insertIn, hbehind, hinsert]

/-- A value that is inserted for a new key comes in addition to the others. -/
theorem perm_insertIn_of_findIn_eq_none [Std.LawfulEqOrd κ] {k : κ} {l : List (κ × α)}
    (h : findIn k l = none) (v : α) : (insertIn k v l).Perm ((k, v) :: l) := by
  induction l with
  | nil => exact .refl _
  | cons a rest ih =>
    unfold findIn at h
    split at h
    · cases h
    · next hk =>
      unfold insertIn
      split
      · exact .refl _
      · next heq => exact absurd (Std.LawfulEqOrd.eq_of_compare heq).symm hk
      · exact ((ih h).cons a).trans (.swap (k, v) a rest)

/-- The values of a table after the one kept for a key was replaced. -/
theorem exists_split_values [Std.TransOrd κ] [Std.LawfulEqOrd κ] {t : Table κ α} {k : κ} {v : α}
    (h : t.find? k = some v) : ∃ front back, t.values = front ++ v :: back ∧
      ∀ w, (t.insert k w).values = front ++ w :: back := by
  obtain ⟨front, back, hsplit, hinsert⟩ := exists_split_of_findIn t.ascending h
  refine ⟨front.map (·.2), back.map (·.2), ?_, fun w => ?_⟩
  · rw [values, hsplit, List.map_append, List.map_cons]
  · show (insertIn k w t.entries).map (·.2) = _
    rw [hinsert w, List.map_append, List.map_cons]

/-- The values of a table after one was inserted for a new key. -/
theorem perm_values_insert [Std.TransOrd κ] [Std.LawfulEqOrd κ] {t : Table κ α} {k : κ}
    (h : t.find? k = none) (v : α) : (t.insert k v).values.Perm (v :: t.values) :=
  (perm_insertIn_of_findIn_eq_none h v).map Prod.snd

/-- What is found in a table of given entries is one of them. -/
theorem mem_of_find?_ofList [Std.TransOrd κ] [Std.LawfulEqOrd κ] {l : List (κ × α)} {k : κ} {v : α}
    (h : (ofList l).find? k = some v) : (k, v) ∈ l := by
  have hfold (t : Table κ α) (ht : (l.foldl (fun t e => t.insert e.1 e.2) t).find? k = some v) :
      (k, v) ∈ l ∨ t.find? k = some v := by
    clear h
    induction l generalizing t with
    | nil => exact .inr ht
    | cons a rest ih =>
      rcases ih (t.insert a.1 a.2) ht with hrest | hfirst
      · exact .inl (List.mem_cons_of_mem a hrest)
      · rw [find?_insert] at hfirst
        split at hfirst
        · next hk =>
          obtain rfl := Option.some.inj hfirst
          exact .inl (hk ▸ List.mem_cons_self)
        · exact .inr hfirst
  exact (hfold empty h).resolve_right fun hnone => (nomatch hnone)

omit [DecidableEq κ] in
theorem size_insert_le [Std.TransOrd κ] [Std.LawfulEqOrd κ] (t : Table κ α) (k : κ) (v : α) :
    (t.insert k v).size ≤ t.size + 1 := by
  obtain ⟨l, h⟩ := t
  show (insertIn k v l).length ≤ l.length + 1
  clear h
  induction l with
  | nil => exact Nat.le_refl 1
  | cons a rest ih =>
    unfold insertIn
    split
    · exact Nat.le_refl _
    · exact Nat.le_succ _
    · exact Nat.succ_le_succ ih

theorem size_erase_le (t : Table κ α) (k : κ) : (t.erase k).size ≤ t.size :=
  List.length_filter_le _ t.entries

/-- Two tables with one lookup are the same table. -/
theorem ext_find? [Std.TransOrd κ] {t u : Table κ α} (h : ∀ k, t.find? k = u.find? k) :
    t = u := by
  have hirrefl : Std.Irrefl fun a b : κ × α => compare a.1 b.1 = .lt :=
    ⟨fun a ha => Std.OrientedCmp.not_lt_of_lt ha ha⟩
  have hanti : Std.Antisymm fun a b : κ × α => compare a.1 b.1 = .lt :=
    ⟨fun a b ha hb => absurd hb (Std.OrientedCmp.not_lt_of_lt ha)⟩
  have hmem (e : κ × α) : e ∈ t.entries ↔ e ∈ u.entries := by
    obtain ⟨k, v⟩ := e
    rw [mem_entries_iff, mem_entries_iff, h]
  have hentries : t.entries = u.entries := t.ascending.eq_of_mem_iff u.ascending hmem
  obtain ⟨l, hl⟩ := t
  obtain ⟨m, hm⟩ := u
  obtain rfl : l = m := hentries
  rfl

/-- A key without an entry can be erased without effect. -/
theorem erase_of_find?_eq_none [Std.TransOrd κ] {t : Table κ α} {k : κ} (h : t.find? k = none) :
    t.erase k = t := by
  refine ext_find? fun j => ?_
  rw [find?_erase]
  split
  · next hj => rw [← hj, h]
  · rfl

/-- Erasing a key undoes an insertion for it. -/
theorem erase_insert [Std.TransOrd κ] [Std.LawfulEqOrd κ] (t : Table κ α) (k : κ) (v : α) :
    (t.insert k v).erase k = t.erase k := by
  refine ext_find? fun j => ?_
  by_cases hj : k = j <;> simp [hj]

omit [DecidableEq κ] in
theorem size_eq_length_values (t : Table κ α) : t.size = t.values.length :=
  (List.length_map _).symm

/-- A value for a new key is one more entry. -/
theorem size_insert_of_find?_eq_none [Std.TransOrd κ] [Std.LawfulEqOrd κ] {t : Table κ α} {k : κ}
    (h : t.find? k = none) (v : α) : (t.insert k v).size = t.size + 1 := by
  rw [size_eq_length_values, size_eq_length_values, (perm_values_insert h v).length_eq,
    List.length_cons]

/-- A value for a key that has one takes its place. -/
theorem size_insert_of_find?_eq_some [Std.TransOrd κ] [Std.LawfulEqOrd κ] {t : Table κ α} {k : κ}
    {v : α} (h : t.find? k = some v) (w : α) : (t.insert k w).size = t.size := by
  obtain ⟨front, back, hvalues, hinsert⟩ := exists_split_values h
  rw [size_eq_length_values, size_eq_length_values, hvalues, hinsert w, List.length_append,
    List.length_append, List.length_cons, List.length_cons]

/-- What was erased can be put back. -/
theorem insert_erase_of_find?_eq_some [Std.TransOrd κ] [Std.LawfulEqOrd κ] {t : Table κ α} {k : κ}
    {v : α} (h : t.find? k = some v) : (t.erase k).insert k v = t := by
  refine ext_find? fun j => ?_
  rw [find?_insert, find?_erase]
  split
  · next hj => rw [← hj, h]
  · rfl

/-- Erasing a key that has a value takes one entry away. -/
theorem size_erase_of_find?_eq_some [Std.TransOrd κ] [Std.LawfulEqOrd κ] {t : Table κ α} {k : κ}
    {v : α} (h : t.find? k = some v) : (t.erase k).size + 1 = t.size := by
  have hfresh : (t.erase k).find? k = none := by simp
  rw [← size_insert_of_find?_eq_none hfresh v, insert_erase_of_find?_eq_some h]

/-- Inserting adds an entry to a table and takes away the one that was kept for the key. -/
theorem perm_entries_insert [Std.TransOrd κ] [Std.LawfulEqOrd κ] (t : Table κ α) (k : κ) (v : α) :
    ((t.find? k).toList.map (k, ·) ++ (t.insert k v).entries).Perm ((k, v) :: t.entries) := by
  cases h : t.find? k with
  | none => exact perm_insertIn_of_findIn_eq_none h v
  | some w =>
    obtain ⟨front, back, hsplit, hinsert⟩ := exists_split_of_findIn t.ascending h
    have hentries : (t.insert k v).entries = front ++ (k, v) :: back := hinsert v
    rw [hentries, hsplit]
    have hnew : (front ++ (k, v) :: back).Perm ((k, v) :: (front ++ back)) := List.perm_middle
    have hold : (front ++ (k, w) :: back).Perm ((k, w) :: (front ++ back)) := List.perm_middle
    exact (hnew.cons _).trans ((List.Perm.swap _ _ _).trans (hold.symm.cons _))

/-- Erasing a key takes the one entry away that was kept for it. -/
theorem perm_entries_erase [Std.TransOrd κ] [Std.LawfulEqOrd κ] {t : Table κ α} {k : κ} {v : α}
    (h : t.find? k = some v) : t.entries.Perm ((k, v) :: (t.erase k).entries) := by
  have hinsert := (t.erase k).perm_entries_insert k v
  rwa [insert_erase_of_find?_eq_some h, find?_erase, if_pos rfl] at hinsert

/-- Of two values inserted for one key the later one is kept. -/
theorem insert_insert [Std.TransOrd κ] [Std.LawfulEqOrd κ] (t : Table κ α) (k : κ) (v w : α) :
    (t.insert k v).insert k w = t.insert k w := by
  refine ext_find? fun j => ?_
  by_cases hj : k = j <;> simp [hj]

/-- A value that was just inserted is changed by inserting the changed value. -/
theorem adjust_insert [Std.TransOrd κ] [Std.LawfulEqOrd κ] (t : Table κ α) (k : κ) (v : α)
    (f : α → α) : (t.insert k v).adjust k f = t.insert k (f v) := by
  refine ext_find? fun j => ?_
  by_cases hj : k = j <;> simp [hj]

end Table

end DialARide
