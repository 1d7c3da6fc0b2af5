/-!
# Tables

A table holds one value for each of finitely many keys and lists them by ascending key. Every
operation is described by what it does to `find?`; ascending order makes the number of entries
the number of keys.
-/

namespace DialARide

/-- Entries with pairwise different keys, listed by ascending key. -/
structure Table (κ α : Type) [Ord κ] where
  /-- The entries in the order of their keys. -/
  entries : List (κ × α)
  /-- Every entry stands before those with greater keys. -/
  ascending : entries.Pairwise fun a b => compare a.1 b.1 = .lt
  deriving DecidableEq, Repr

namespace Table

variable {κ α : Type} [Ord κ]

/-- The table without entries. -/
def empty : Table κ α := ⟨[], .nil⟩

instance : Inhabited (Table κ α) := ⟨empty⟩

/-- The keys, ascending. -/
def keys (t : Table κ α) : List κ := t.entries.map (·.1)

/-- The values in the order of their keys. -/
def values (t : Table κ α) : List α := t.entries.map (·.2)

/-- The number of entries. -/
def size (t : Table κ α) : Nat := t.entries.length

variable [DecidableEq κ]

/-- The value of the first entry with the given key. -/
def findIn (k : κ) : List (κ × α) → Option α
  | [] => none
  | e :: rest => if e.1 = k then some e.2 else findIn k rest

/-- The value kept for a key. -/
def find? (t : Table κ α) (k : κ) : Option α := findIn k t.entries

/-- There is an entry for the key. -/
def contains (t : Table κ α) (k : κ) : Bool := (t.find? k).isSome

/-- Entries with one replaced or put where its key belongs. -/
def insertIn (k : κ) (v : α) : List (κ × α) → List (κ × α)
  | [] => [(k, v)]
  | e :: rest =>
    match compare k e.1 with
    | .lt => (k, v) :: e :: rest
    | .eq => (k, v) :: rest
    | .gt => e :: insertIn k v rest

omit [DecidableEq κ] in
theorem mem_insertIn {k : κ} {v : α} {e : κ × α} {l : List (κ × α)}
    (h : e ∈ insertIn k v l) : e = (k, v) ∨ e ∈ l := by
  induction l with
  | nil => simpa [insertIn] using h
  | cons a rest ih =>
    unfold insertIn at h
    split at h
    · simpa using h
    · rcases List.mem_cons.1 h with h | h
      · exact .inl h
      · exact .inr (List.mem_cons_of_mem a h)
    · rcases List.mem_cons.1 h with h | h
      · exact .inr (h ▸ List.mem_cons_self)
      · exact (ih h).imp_right (List.mem_cons_of_mem a)

omit [DecidableEq κ] in
theorem pairwise_insertIn [Std.TransOrd κ] [Std.LawfulEqOrd κ] (k : κ) (v : α) {l : List (κ × α)}
    (h : l.Pairwise fun a b => compare a.1 b.1 = .lt) :
    (insertIn k v l).Pairwise fun a b => compare a.1 b.1 = .lt := by
  induction l with
  | nil => simp [insertIn]
  | cons a rest ih =>
    rw [List.pairwise_cons] at h
    unfold insertIn
    split
    · next hk =>
      refine List.pairwise_cons.2 ⟨fun e he => ?_, List.pairwise_cons.2 h⟩
      rcases List.mem_cons.1 he with rfl | he
      · exact hk
      · exact Std.TransCmp.lt_trans hk (h.1 e he)
    · next hk =>
      have hka : k = a.1 := Std.LawfulEqOrd.eq_of_compare hk
      subst hka
      exact List.pairwise_cons.2 h
    · next hk =>
      refine List.pairwise_cons.2 ⟨fun e he => ?_, ih h.2⟩
      rcases mem_insertIn he with rfl | he
      · exact Std.OrientedCmp.lt_of_gt hk
      · exact h.1 e he

theorem findIn_insertIn [Std.LawfulEqOrd κ] (k k' : κ) (v : α) (l : List (κ × α)) :
    findIn k' (insertIn k v l) = if k = k' then some v else findIn k' l := by
  induction l with
  | nil => simp [insertIn, findIn]
  | cons a rest ih =>
    unfold insertIn
    split
    · rfl
    · next hk =>
      have hka : k = a.1 := Std.LawfulEqOrd.eq_of_compare hk
      by_cases h : k = k'
      · simp [findIn, h]
      · simp [findIn, h, ← hka]
    · next hk =>
      have hka : k ≠ a.1 := fun h => by simp [h] at hk
      by_cases h : k = k'
      · subst h
        simp [findIn, ih, Ne.symm hka]
      · simp [findIn, ih, h]

/-- The table with a value kept for a key, in place of any that was kept for it. -/
def insert [Std.TransOrd κ] [Std.LawfulEqOrd κ] (t : Table κ α) (k : κ) (v : α) : Table κ α :=
  ⟨insertIn k v t.entries, pairwise_insertIn k v t.ascending⟩

/-- The table without any entry for the key. -/
def erase (t : Table κ α) (k : κ) : Table κ α :=
  ⟨t.entries.filter fun e => e.1 ≠ k, t.ascending.filter _⟩

/-- The table with the value kept for a key, if there is one, changed. -/
def adjust (t : Table κ α) (k : κ) (f : α → α) : Table κ α :=
  ⟨t.entries.map fun e => if e.1 = k then (e.1, f e.2) else e, by
    refine List.pairwise_map.2 (t.ascending.imp fun {a b} h => ?_)
    split <;> split <;> exact h⟩

/-- The table with every value changed. -/
def mapValues (t : Table κ α) (f : α → α) : Table κ α :=
  ⟨t.entries.map fun e => (e.1, f e.2), List.pairwise_map.2 t.ascending⟩

/-- The table of those entries whose value has a property. -/
def filter (t : Table κ α) (p : α → Bool) : Table κ α :=
  ⟨t.entries.filter fun e => p e.2, t.ascending.filter _⟩

/-- The table of the given entries; of several with one key the last is kept. -/
def ofList [Std.TransOrd κ] [Std.LawfulEqOrd κ] (l : List (κ × α)) : Table κ α :=
  l.foldl (fun t e => t.insert e.1 e.2) empty

@[simp] theorem find?_empty (k : κ) : (empty : Table κ α).find? k = none := rfl

@[simp] theorem find?_insert [Std.TransOrd κ] [Std.LawfulEqOrd κ] (t : Table κ α) (k k' : κ)
    (v : α) : (t.insert k v).find? k' = if k = k' then some v else t.find? k' :=
  findIn_insertIn k k' v t.entries

@[simp] theorem find?_erase (t : Table κ α) (k k' : κ) :
    (t.erase k).find? k' = if k = k' then none else t.find? k' := by
  obtain ⟨l, h⟩ := t
  show findIn k' (l.filter fun e => e.1 ≠ k) = if k = k' then none else findIn k' l
  clear h
  induction l with
  | nil => simp [findIn]
  | cons a rest ih =>
    by_cases ha : a.1 = k
    · rw [List.filter_cons_of_neg (by simp [ha]), ih]
      by_cases h : k = k'
      · simp [h]
      · simp [findIn, ha, h]
    · rw [List.filter_cons_of_pos (by simp [ha])]
      by_cases h : k = k'
      · subst h
        simpa [findIn, ha] using ih
      · rw [if_neg h] at ih ⊢
        simp only [findIn, ih]

@[simp] theorem find?_adjust (t : Table κ α) (k k' : κ) (f : α → α) :
    (t.adjust k f).find? k' = if k = k' then (t.find? k').map f else t.find? k' := by
  obtain ⟨l, h⟩ := t
  show findIn k' (l.map fun e => if e.1 = k then (e.1, f e.2) else e) =
    if k = k' then (findIn k' l).map f else findIn k' l
  clear h
  induction l with
  | nil => simp [findIn]
  | cons a rest ih =>
    by_cases ha : a.1 = k <;> by_cases h : k = k' <;>
      by_cases h' : a.1 = k' <;> simp_all [findIn]

@[simp] theorem find?_mapValues (t : Table κ α) (k : κ) (f : α → α) :
    (t.mapValues f).find? k = (t.find? k).map f := by
  obtain ⟨l, h⟩ := t
  show findIn k (l.map fun e => (e.1, f e.2)) = (findIn k l).map f
  clear h
  induction l with
  | nil => rfl
  | cons a rest ih => by_cases ha : a.1 = k <;> simp [findIn, ha, ih]

omit [Ord κ] in
theorem findIn_eq_none {k : κ} {l : List (κ × α)} (h : ∀ e ∈ l, e.1 ≠ k) : findIn k l = none := by
  induction l with
  | nil => rfl
  | cons a rest ih =>
    rw [findIn, if_neg (h a List.mem_cons_self)]
    exact ih fun e he => h e (List.mem_cons_of_mem a he)

@[simp] theorem find?_filter [Std.OrientedOrd κ] (t : Table κ α) (p : α → Bool) (k : κ) :
    (t.filter p).find? k = (t.find? k).filter p := by
  obtain ⟨l, h⟩ := t
  show findIn k (l.filter fun e => p e.2) = (findIn k l).filter p
  induction l with
  | nil => rfl
  | cons a rest ih =>
    rw [List.pairwise_cons] at h
    by_cases hp : p a.2
    · rw [List.filter_cons_of_pos (by exact hp)]
      by_cases ha : a.1 = k
      · simp [findIn, ha, Option.filter, hp]
      · simp only [findIn, ha, if_false, ih h.2]
    · rw [List.filter_cons_of_neg (by exact hp)]
      by_cases ha : a.1 = k
      · have hrest : ∀ e ∈ rest.filter fun e => p e.2, e.1 ≠ k := fun e he hk => by
          have hlt := h.1 e (List.mem_filter.1 he).1
          rw [ha, hk] at hlt
          exact Std.OrientedCmp.not_lt_of_lt hlt hlt
        simp [findIn, ha, Option.filter, hp, findIn_eq_none hrest]
      · simp only [findIn, ha, if_false, ih h.2]

@[simp] theorem keys_adjust (t : Table κ α) (k : κ) (f : α → α) : (t.adjust k f).keys = t.keys := by
  simp only [keys, adjust, List.map_map]
  refine List.map_congr_left fun e _ => ?_
  by_cases h : e.1 = k <;> simp [h]

@[simp] theorem size_adjust (t : Table κ α) (k : κ) (f : α → α) : (t.adjust k f).size = t.size := by
  simp [size, adjust]

theorem mem_keys_iff (t : Table κ α) (k : κ) : k ∈ t.keys ↔ (t.find? k).isSome := by
  obtain ⟨l, h⟩ := t
  show k ∈ l.map (·.1) ↔ (findIn k l).isSome
  clear h
  induction l with
  | nil => simp [findIn]
  | cons a rest ih =>
    by_cases ha : a.1 = k
    · simp [findIn, ha]
    · have hk : k ≠ a.1 := fun h => ha h.symm
      simp only [List.map_cons, List.mem_cons, hk, false_or, findIn, ha, if_false]
      exact ih

end Table

/-- A set of keys, listed by ascending key. -/
abbrev KeySet (κ : Type) [Ord κ] := Table κ Unit

end DialARide
