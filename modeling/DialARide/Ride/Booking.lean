import DialARide.Ride.Request
import DialARide.Table

/-!
# Bookings in advance

A leg can be booked ahead of its departure. The request is made and submitted at once and kept
under the person and the position of the leg until the person departs.
-/

namespace DialARide

/-- A leg of a person, by its position in the plan. -/
structure LegKey where
  person : PersonId
  index : Nat
  deriving DecidableEq, Repr

namespace LegKey

/-- Legs are compared by person, then by position. -/
instance : Ord LegKey := ⟨compareLex (compareOn (·.person)) (compareOn (·.index))⟩

instance : Std.TransOrd LegKey :=
  inferInstanceAs (Std.TransCmp (compareLex (compareOn LegKey.person) (compareOn LegKey.index)))

instance : Std.LawfulEqOrd LegKey where
  eq_of_compare {a b} h := by
    have h : (compare a.person b.person).then (compare a.index b.index) = .eq := h
    rw [Ordering.then_eq_eq] at h
    cases a
    cases b
    simp_all

end LegKey

/-- The bookings that were made and not handed out. -/
structure Desk where
  screening : Screening := .distinctLinks
  bookings : Table LegKey Request := .empty
  /-- The number of names given to bookings so far. -/
  drawn : Nat := 0

namespace Desk

/-- A request of this name is booked. -/
def isBooked (d : Desk) (id : RequestId) : Bool := d.bookings.values.any (·.id = id)

/-- The number of bookings. -/
def size (d : Desk) : Nat := d.bookings.size

end Desk

end DialARide
