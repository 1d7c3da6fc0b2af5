import Mathlib.Algebra.GroupWithZero.Nat
import Mathlib.Data.List.Sort

/-!
# Lists

Facts about lists that know nothing of what they list: sums, counts and unions of which one part
changes, elements that are told apart by a value, lists that are extended at their end, and the
insertion of an element where it belongs.
-/

namespace List

variable {α β : Type}

/-! ## One entry changes -/

/-- A sum changes by the difference at the one entry that changes. -/
theorem sum_map_set (f : α → Nat) {l : List α} {i : Nat} {a : α} (ha : l[i]? = some a) (b : α) :
    ((l.set i b).map f).sum + f a = (l.map f).sum + f b := by
  induction l generalizing i with
  | nil => cases ha
  | cons c rest ih =>
    cases i with
    | zero =>
      obtain rfl := Option.some.inj ha
      simp only [set_cons_zero, map_cons, sum_cons]
      omega
    | succ i =>
      have hrest := ih (i := i) ha
      simp only [set_cons_succ, map_cons, sum_cons]
      omega

/-- A count changes by what counts of the one entry that changes. -/
theorem countP_set_add (p : α → Bool) {l : List α} {i : Nat} {a : α} (ha : l[i]? = some a)
    (b : α) : (l.set i b).countP p + (if p a then 1 else 0) =
      l.countP p + if p b then 1 else 0 := by
  obtain ⟨hi, rfl⟩ := getElem?_eq_some_iff.1 ha
  have hcounted : (if p l[i] then 1 else 0) ≤ l.countP p := boole_getElem_le_countP hi
  rw [countP_set hi]
  omega

/-- A union grows by what one of its parts grows by. -/
theorem perm_flatMap_set {f : α → List β} {l : List α} {i : Nat} {a b : α} {new : List β}
    (ha : l[i]? = some a) (hf : (f b).Perm (new ++ f a)) :
    ((l.set i b).flatMap f).Perm (new ++ l.flatMap f) := by
  induction l generalizing i with
  | nil => cases ha
  | cons c rest ih =>
    cases i with
    | zero =>
      obtain rfl : c = a := Option.some.inj ha
      simpa [append_assoc] using hf.append_right (rest.flatMap f)
    | succ i =>
      have hrest := (ih (i := i) (by simpa using ha)).append_left (f c)
      exact hrest.trans (perm_append_comm_assoc _ _ _)

/-! ## Elements that are told apart -/

/-- Where no two elements have the same value, one has a value that occurs. -/
theorem exists_filter_eq_singleton [DecidableEq β] {f : α → β} {l : List α} {b : β}
    (hl : (l.map f).Nodup) (hb : b ∈ l.map f) : ∃ a ∈ l, l.filter (f · = b) = [a] := by
  obtain ⟨a, ha, rfl⟩ := mem_map.1 hb
  obtain ⟨before, after, rfl⟩ := append_of_mem ha
  have hothers : ∀ c ∈ before ++ after, ¬ f c = f a := by
    rw [map_append, map_cons] at hl
    have hnew := (nodup_middle.1 hl).notMem
    rw [← map_append] at hnew
    exact fun c hc heq => hnew (mem_map.2 ⟨c, hc, heq⟩)
  refine ⟨a, ha, ?_⟩
  have hbefore : before.filter (f · = f a) = [] :=
    filter_eq_nil_iff.2 fun c hc => by simpa using hothers c (mem_append_left _ hc)
  have hafter : after.filter (f · = f a) = [] :=
    filter_eq_nil_iff.2 fun c hc => by simpa using hothers c (mem_append_right _ hc)
  simp [hbefore, hafter]

/-- The only element of its kind in a list stands between others. -/
theorem eq_of_filter_eq_singleton {p : α → Bool} {front back : List α} {a c : α} (ha : p a)
    (h : (front ++ a :: back).filter p = [c]) :
    a = c ∧ front.filter p = [] ∧ back.filter p = [] := by
  rw [filter_append, filter_cons_of_pos ha] at h
  obtain ⟨hfront, hback⟩ | ⟨-, hnil⟩ := append_eq_singleton_iff.1 h
  · obtain ⟨hac, hback⟩ := cons_eq_cons.1 hback
    exact ⟨hac, hfront, hback⟩
  · cases hnil

/-- What is told apart by something about it is at one place only. -/
theorem index_eq_of_filterMap {f : α → Option β} {l : List α} (h : (l.filterMap f).Nodup)
    {i j : Nat} {a a' : α} (b : β) (hi : l[i]? = some a) (ha : f a = some b)
    (hj : l[j]? = some a') (ha' : f a' = some b) : i = j := by
  obtain ⟨hlt, rfl⟩ := getElem?_eq_some_iff.1 hi
  obtain ⟨hlt', rfl⟩ := getElem?_eq_some_iff.1 hj
  have hdiffer := pairwise_iff_getElem.1 (pairwise_filterMap.1 h)
  rcases Nat.lt_trichotomy i j with hbefore | hsame | hafter
  · exact absurd rfl (hdiffer i j hlt hlt' hbefore b ha b ha')
  · exact hsame
  · exact absurd rfl (hdiffer j i hlt' hlt hafter b ha' b ha)

/-- What is taken from a list to leave another one, after something was added that is left, is
found by comparing the two. -/
theorem perm_filter_not_mem [DecidableEq α] {new l lost left : List α}
    (hnodup : (new ++ l).Nodup) (hperm : (new ++ l).Perm (lost ++ left))
    (hnew : ∀ a ∈ new, a ∈ left) : (l.filter (· ∉ left)).Perm lost := by
  have hapart := disjoint_of_nodup_append (hperm.nodup_iff.1 hnodup)
  have hadded : new.filter (· ∉ left) = [] := filter_eq_nil_iff.2 (by simpa using hnew)
  have hleft : left.filter (· ∉ left) = [] := filter_eq_nil_iff.2 (by simp)
  have hlost : lost.filter (· ∉ left) = lost :=
    filter_eq_self.2 fun a ha => by simpa using fun hl => hapart ha hl
  have hcompare := hperm.filter (· ∉ left)
  rwa [filter_append, filter_append, hadded, hleft, hlost, nil_append, append_nil] at hcompare

/-- Where a partial function agrees with a total one on a list, it gives all of the values. -/
theorem mapM_eq_some_map {f : α → Option β} {g : α → β} {l : List α}
    (h : ∀ a ∈ l, f a = some (g a)) : l.mapM f = some (l.map g) := by
  induction l with
  | nil => rfl
  | cons a l ih =>
    rw [mapM_cons, h a mem_cons_self, ih fun b hb => h b (mem_cons_of_mem a hb)]
    rfl

/-! ## Lists that are put together -/

/-- What is added last has the next number, and all others keep theirs. -/
theorem getElem?_append_toList (l : List α) (added : Option α) (n : Nat) :
    (l ++ added.toList)[n]? = if l.length = n then added else l[n]? := by
  rcases Nat.lt_trichotomy n l.length with hlt | rfl | hgt
  · rw [getElem?_append_left hlt, if_neg (Nat.ne_of_gt hlt)]
  · cases added <;> simp
  · have hnone : l[n]? = none := getElem?_eq_none (Nat.le_of_lt hgt)
    rw [getElem?_append_right (Nat.le_of_lt hgt), if_neg (Nat.ne_of_lt hgt), hnone]
    cases added with
    | none => rfl
    | some a => exact getElem?_eq_none (by simp; omega)

/-- An element of a list with one more at its end stood there before, or is the last one. -/
theorem getElem?_append_singleton_eq_some_iff {l : List α} {a b : α} {n : Nat} :
    (l ++ [a])[n]? = some b ↔ l[n]? = some b ∨ n = l.length ∧ b = a := by
  have hadded := l.getElem?_append_toList (some a) n
  rw [Option.toList_some] at hadded
  rw [hadded]
  split
  · next hlast => simp [← hlast, eq_comm]
  · next hother => simp [Ne.symm hother]

/-- A list stays in order if all of it may stand before what is added at its end. -/
theorem Pairwise.concat {R : α → α → Prop} {l : List α} {a : α} (h : l.Pairwise R)
    (ha : ∀ b ∈ l, R b a) : (l ++ [a]).Pairwise R := by
  rw [pairwise_append]
  exact ⟨h, pairwise_singleton R a, fun b hb c hc => mem_singleton.1 hc ▸ ha b hb⟩

/-- Two elements stand in a list and one behind it, in order, if they stand in the list or the
second is the one behind. -/
theorem pair_sublist_append_singleton {a b x : α} {l : List α} :
    [a, b].Sublist (l ++ [x]) ↔ [a, b].Sublist l ∨ a ∈ l ∧ b = x := by
  constructor
  · intro h
    obtain ⟨l₁, l₂, hsplit, h₁, h₂⟩ := sublist_append_iff.1 h
    rcases sublist_singleton.1 h₂ with rfl | rfl
    · rw [append_nil] at hsplit
      exact .inl (hsplit ▸ h₁)
    · obtain ⟨hfront, hback⟩ := append_inj' (show [a] ++ [b] = l₁ ++ [x] from hsplit) rfl
      exact .inr ⟨singleton_sublist.1 (hfront ▸ h₁), singleton_inj.1 hback⟩
  · rintro (h | ⟨ha, rfl⟩)
    · exact h.trans (sublist_append_left l [x])
    · exact (singleton_sublist.2 ha).append (Sublist.refl [b])

/-- A list is split in one way only at the last place of an element. -/
theorem append_cons_inj_of_not_mem {c : α} {front front' back back' : List α}
    (hback : c ∉ back) (hback' : c ∉ back') (h : front ++ c :: back = front' ++ c :: back') :
    front = front' ∧ back = back' := by
  rcases append_eq_append_iff.1 h with ⟨between, rfl, hsplit⟩ | ⟨between, rfl, hsplit⟩
  · cases between with
    | nil => simpa using hsplit
    | cons d between =>
      obtain ⟨-, rfl⟩ := cons.inj hsplit
      exact absurd (by simp) hback
  · cases between with
    | nil => simpa [eq_comm] using hsplit
    | cons d between =>
      obtain ⟨-, rfl⟩ := cons.inj hsplit
      exact absurd (by simp) hback'

/-! ## Insertion -/

variable {r R : α → α → Prop} [DecidableRel r]

/-- Insertion changes nothing in front of the element and nothing behind it. -/
theorem exists_split_of_orderedInsert (r : α → α → Prop) [DecidableRel r] (a : α) (l : List α) :
    ∃ before after, l = before ++ after ∧ l.orderedInsert r a = before ++ a :: after :=
  ⟨_, _, takeWhile_append_dropWhile.symm, orderedInsert_eq_take_drop r a l⟩

/-- A list stays in order if the element that is inserted belongs behind all that it is put behind,
and before the first of the others. -/
theorem Pairwise.orderedInsert_of {a : α} {l : List α} (hl : l.Pairwise R)
    (hfirst : ∀ b ∈ l, r a b → R a b ∧ ∀ c ∈ l, R b c → R a c)
    (hbehind : ∀ b ∈ l, ¬ r a b → R b a) : (l.orderedInsert r a).Pairwise R := by
  induction l with
  | nil => exact pairwise_singleton R a
  | cons b rest ih =>
    obtain ⟨hhead, hrest⟩ := pairwise_cons.1 hl
    rw [orderedInsert_cons]
    split
    · next hab =>
      obtain ⟨hRab, htrans⟩ := hfirst b mem_cons_self hab
      refine pairwise_cons.2 ⟨fun c hc => ?_, hl⟩
      rcases mem_cons.1 hc with rfl | hc
      · exact hRab
      · exact htrans c (mem_cons_of_mem b hc) (hhead c hc)
    · next hab =>
      have htail : (rest.orderedInsert r a).Pairwise R := by
        apply ih hrest
        · intro c hc hac
          obtain ⟨hRac, htrans⟩ := hfirst c (mem_cons_of_mem b hc) hac
          exact ⟨hRac, fun d hd => htrans d (mem_cons_of_mem b hd)⟩
        · exact fun c hc => hbehind c (mem_cons_of_mem b hc)
      refine pairwise_cons.2 ⟨fun c hc => ?_, htail⟩
      rcases (mem_orderedInsert r).1 hc with rfl | hc
      · exact hbehind b mem_cons_self hab
      · exact hhead c hc

end List
