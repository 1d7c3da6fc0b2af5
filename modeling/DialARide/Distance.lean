/-!
# Places and distances

Places are points of a plane and distances are straight lines. Of several candidates the one at
the least distance is taken, the first of them if several are equally far.
-/

namespace DialARide

/-- A point of the plane. -/
structure Coord where
  x : Float
  y : Float
  deriving DecidableEq, Repr

namespace Coord

/-- The length of the straight line between two points. -/
def distance (a b : Coord) : Float :=
  let dx := a.x - b.x
  let dy := a.y - b.y
  (dx * dx + dy * dy).sqrt

/-- The point halfway between two points. -/
def midpoint (a b : Coord) : Coord := ⟨(a.x + b.x) / 2, (a.y + b.y) / 2⟩

end Coord

/-- The distance to a place that is not known: farther than any place that is. -/
def unknownDistance : Float := 1 / 0

/-- The rank of a number among all floating-point numbers: negative ones are ranked by falling
magnitude below the positive ones, and zero with its sign. -/
def floatRank (x : Float) : Int :=
  let bits := x.toBits.toNat
  if bits < 0x8000000000000000 then bits else 0x7fffffffffffffff - bits

section FirstLeast

variable {α : Type}

/-- The first of the elements whose rank is least. -/
def firstLeast (rank : α → Int) : List α → Option α
  | [] => none
  | a :: rest =>
    match firstLeast rank rest with
    | none => some a
    | some b => if rank b < rank a then some b else some a

theorem firstLeast_eq_none_iff {rank : α → Int} {l : List α} :
    firstLeast rank l = none ↔ l = [] := by
  cases l with
  | nil => simp [firstLeast]
  | cons a rest =>
    unfold firstLeast
    split
    · simp
    · split <;> simp

/-- The elements before the first of least rank rank higher, and those behind it no lower. -/
theorem exists_split_of_firstLeast {rank : α → Int} {l : List α} {a : α}
    (h : firstLeast rank l = some a) : ∃ before after, l = before ++ a :: after ∧
      (∀ b ∈ before, rank a < rank b) ∧ ∀ b ∈ after, rank a ≤ rank b := by
  induction l generalizing a with
  | nil => simp [firstLeast] at h
  | cons c rest ih =>
    unfold firstLeast at h
    split at h
    · next hn =>
      obtain rfl := Option.some.inj h
      obtain rfl := firstLeast_eq_none_iff.1 hn
      exact ⟨[], [], rfl, by simp, by simp⟩
    · next d hd =>
      obtain ⟨before, after, rfl, hbefore, hafter⟩ := ih hd
      split at h
      · next hlt =>
        obtain rfl := Option.some.inj h
        refine ⟨c :: before, after, rfl, fun b hb => ?_, hafter⟩
        rcases List.mem_cons.1 hb with rfl | hb
        · exact hlt
        · exact hbefore b hb
      · next hle =>
        obtain rfl := Option.some.inj h
        refine ⟨[], before ++ d :: after, rfl, by simp, fun b hb => ?_⟩
        have hd' : rank c ≤ rank d := by omega
        rcases List.mem_append.1 hb with hb | hb
        · exact Int.le_trans hd' (Int.le_of_lt (hbefore b hb))
        · rcases List.mem_cons.1 hb with rfl | hb
          · exact hd'
          · exact Int.le_trans hd' (hafter b hb)

theorem mem_of_firstLeast {rank : α → Int} {l : List α} {a : α} (h : firstLeast rank l = some a) :
    a ∈ l := by
  obtain ⟨before, after, rfl, -, -⟩ := exists_split_of_firstLeast h
  simp

variable {κ : Type} [Ord κ] [Std.ReflOrd κ] {name : α → κ}

/-- In a list in the order of the names an element comes before those that stand behind it. -/
theorem isLE_of_mem_behind {before after : List α} {a b : α}
    (hl : (before ++ a :: after).Pairwise fun a b => compare (name a) (name b) = .lt)
    (hb : b ∈ a :: after) : (compare (name a) (name b)).isLE := by
  rcases List.mem_cons.1 hb with rfl | hb
  · rw [Std.compare_self, Ordering.isLE_eq]
  · rw [(List.pairwise_cons.1 (List.pairwise_append.1 hl).2.1).1 b hb, Ordering.isLE_lt]

/-- In a list in the order of the names the first element of least rank comes before all others by
rank and name. -/
theorem isLE_of_firstLeast {rank : α → Int} {l : List α} {a b : α}
    (hl : l.Pairwise fun a b => compare (name a) (name b) = .lt) (h : firstLeast rank l = some a)
    (hb : b ∈ l) : ((compare (rank a) (rank b)).then (compare (name a) (name b))).isLE := by
  obtain ⟨before, after, rfl, hbefore, hafter⟩ := exists_split_of_firstLeast h
  rw [Ordering.isLE_then_iff_and, Std.isLE_compare, Std.compare_eq_lt]
  rcases List.mem_append.1 hb with hb | hbehind
  · exact ⟨Int.le_of_lt (hbefore b hb), .inl (hbefore b hb)⟩
  · refine ⟨?_, .inr (isLE_of_mem_behind hl hbehind)⟩
    rcases List.mem_cons.1 hbehind with rfl | hb
    · exact Int.le_refl _
    · exact hafter b hb

end FirstLeast

end DialARide
