/-!
# Times

Times and durations are whole seconds in 64 bits. A sum that does not fit is never wrapped: the
run halts. The other causes for which a run halts are collected here as well, since all of them
are faults of the caller and none is an outcome of the service.
-/

namespace DialARide

/-- A point in time or a duration, in seconds. -/
abbrev Time := UInt64

/-- The causes for which a run breaks off at once. -/
inductive Halt where
  /-- A sum of times lies beyond the last time. -/
  | overflow
  /-- An event was scheduled before the present. -/
  | pastEvent
  /-- A value was to be drawn from a range that holds none. -/
  | emptyRange
  /-- Shifts were to be dispatched where no dispatch of shifts is set up. -/
  | noShiftDispatch
  deriving DecidableEq, Repr

/-- The report on a halt. -/
def Halt.message : Halt → String
  | .overflow => "attempt to add with overflow"
  | .pastEvent => "event timestamp must be >= current time"
  | .emptyRange => "cannot sample empty range"
  | .noShiftDispatch =>
    "Resource requested by dvrp_core::systems::shift_dispatch::shift_dispatch_system " ++
      "does not exist: dvrp_core::config::ShiftDispatchConfig"

namespace Time

/-- The sum of two times, if it is a time. -/
def plus (a b : Time) : Except Halt Time :=
  if a.toNat + b.toNat < UInt64.size then .ok (a + b) else .error .overflow

/-- The difference of two times, zero where the first is the lesser. -/
def minus (a b : Time) : Time := if b ≤ a then a - b else 0

theorem plus_eq_ok_iff {a b c : Time} : plus a b = .ok c ↔ a.toNat + b.toNat = c.toNat := by
  unfold plus
  have hc := c.toNat_lt
  split
  · next h =>
    rw [Except.ok.injEq, ← UInt64.toNat_inj, UInt64.toNat_add, Nat.mod_eq_of_lt h]
  · next h => exact ⟨fun hp => (nomatch hp), fun he => absurd (he ▸ hc) h⟩

theorem toNat_minus (a b : Time) : (minus a b).toNat = a.toNat - b.toNat := by
  unfold minus
  split
  · next h => exact UInt64.toNat_sub_of_le a b h
  · next h =>
    rw [UInt64.le_iff_toNat_le] at h
    show 0 = a.toNat - b.toNat
    omega

/-- Two times have a sum, unless that lies beyond the last time. -/
theorem plus_cases (a b : Time) :
    (plus a b = .error .overflow ∧ UInt64.size ≤ a.toNat + b.toNat) ∨
      ∃ c, plus a b = .ok c ∧ c.toNat = a.toNat + b.toNat := by
  cases h : plus a b with
  | error halt =>
    unfold plus at h
    split at h <;> cases h
    exact .inl ⟨rfl, by omega⟩
  | ok c => exact .inr ⟨c, rfl, (plus_eq_ok_iff.1 h).symm⟩

theorem zero_plus (t : Time) : plus 0 t = .ok t :=
  plus_eq_ok_iff.2 (Nat.zero_add t.toNat)

/-- Two times have a sum just if that fits. -/
theorem exists_plus_iff {a b : Time} :
    (∃ c, plus a b = .ok c) ↔ a.toNat + b.toNat < UInt64.size := by
  rcases plus_cases a b with ⟨herror, hsize⟩ | ⟨c, hok, hc⟩
  · simp only [herror, reduceCtorEq, exists_false, false_iff, Nat.not_lt]
    exact hsize
  · simp only [hok, Except.ok.injEq, exists_eq', true_iff]
    exact hc ▸ c.toNat_lt

/-- An interval is at least a second long unless it is zero. -/
theorem max_one_eq_self {a : Time} (h : a ≠ 0) : max a 1 = a := by
  have hle : 1 ≤ a := by
    rw [UInt64.le_iff_toNat_le]
    exact Nat.one_le_iff_ne_zero.2 fun hzero => h (UInt64.toNat_inj.1 hzero)
  show (if a ≤ 1 then 1 else a) = a
  split
  · next hone => exact UInt64.le_antisymm hle hone
  · rfl

end Time

end DialARide
