import DialARide.Proofs.List
import DialARide.Ride.Service

/-!
# The names of requests

A service numbers its requests and its bookings apart. Within one mode no two numbers give one
name, and no request made at a departure has the name of a booking, because the number that ends
a name is written in digits only. For the same reason the mode and the number of a request can be
read off its name. The bookings of a mode however are named like the requests of the mode whose own
name says that it is prebooked.
-/

namespace DialARide

/-- The name of the request of a number that is made at a departure. -/
def requestName (mode : ModeId) (n : Nat) : RequestId := ⟨s!"{mode.text}_{n}"⟩

/-- The name of the booking of a number. -/
def bookingName (mode : ModeId) (n : Nat) : RequestId := ⟨s!"{mode.text}_prebooked_{n}"⟩

theorem toList_requestName (mode : ModeId) (n : Nat) :
    (requestName mode n).text.toList = mode.text.toList ++ '_' :: Nat.toDigits 10 n := by
  simp [requestName, ToString.toString, String.toList_append]

theorem toList_bookingName (mode : ModeId) (n : Nat) :
    (bookingName mode n).text.toList =
      mode.text.toList ++ '_' :: ("prebooked_".toList ++ Nat.toDigits 10 n) := by
  simp [bookingName, ToString.toString, String.toList_append]

/-- A number can be read back from its digits. -/
theorem toDigits_injective {a b : Nat} (h : Nat.toDigits 10 a = Nat.toDigits 10 b) : a = b := by
  have hread := congrArg (fun digits => Nat.ofDigitChars 10 digits 0) h
  simpa only [Nat.ofDigitChars_ten_toDigits] using hread

theorem requestName_injective {mode : ModeId} {a b : Nat}
    (h : requestName mode a = requestName mode b) : a = b := by
  have hlist := congrArg (fun id : RequestId => id.text.toList) h
  simp only [toList_requestName] at hlist
  exact toDigits_injective (List.cons.inj (List.append_cancel_left hlist)).2

theorem bookingName_injective {mode : ModeId} {a b : Nat}
    (h : bookingName mode a = bookingName mode b) : a = b := by
  have hlist := congrArg (fun id : RequestId => id.text.toList) h
  simp only [toList_bookingName] at hlist
  have htail := (List.cons.inj (List.append_cancel_left hlist)).2
  exact toDigits_injective (List.append_cancel_left htail)

/-- No request made at a departure is named like a booking of its mode. -/
theorem requestName_ne_bookingName (mode : ModeId) (a b : Nat) :
    requestName mode a ≠ bookingName mode b := by
  intro h
  have hlist := congrArg (fun id : RequestId => id.text.toList) h
  simp only [toList_requestName, toList_bookingName] at hlist
  have hdigits := (List.cons.inj (List.append_cancel_left hlist)).2
  have hp : 'p' ∈ Nat.toDigits 10 a := by simp [hdigits]
  have hdigit := Nat.isDigit_of_mem_toDigits (by decide) (by decide) hp
  exact absurd hdigit (by decide)

/-! ## Names of different modes -/

/-- The mode whose requests are named like the bookings of a mode. -/
def ModeId.prebooked (mode : ModeId) : ModeId := ⟨mode.text ++ "_prebooked"⟩

theorem bookingName_eq (mode : ModeId) (n : Nat) :
    bookingName mode n = requestName mode.prebooked n := by
  have hlist : (bookingName mode n).text.toList =
      (requestName mode.prebooked n).text.toList := by
    rw [toList_bookingName, toList_requestName]
    simp [ModeId.prebooked, String.toList_append]
  exact congrArg Name.mk (String.toList_inj.1 hlist)

theorem prebooked_injective {m m' : ModeId} (h : m.prebooked = m'.prebooked) : m = m' := by
  obtain ⟨text⟩ := m
  obtain ⟨text'⟩ := m'
  have htext : text ++ "_prebooked" = text' ++ "_prebooked" := congrArg Name.text h
  exact congrArg Name.mk ((String.append_left_inj _).1 htext)

/-- The mode and the number of a request can be read off its name. -/
theorem requestName_eq_iff {m m' : ModeId} {a b : Nat} :
    requestName m a = requestName m' b ↔ m = m' ∧ a = b := by
  refine ⟨fun h => ?_, fun ⟨hm, hab⟩ => by rw [hm, hab]⟩
  have hdigits (n : Nat) : '_' ∉ Nat.toDigits 10 n := fun hmem =>
    absurd (Nat.isDigit_of_mem_toDigits (by decide) (by decide) hmem) (by decide)
  have hlist := congrArg (fun id : RequestId => id.text.toList) h
  simp only [toList_requestName] at hlist
  obtain ⟨hmode, hnumber⟩ := List.append_cons_inj_of_not_mem (hdigits a) (hdigits b) hlist
  obtain ⟨text⟩ := m
  obtain ⟨text'⟩ := m'
  exact ⟨congrArg Name.mk (String.toList_inj.1 hmode), toDigits_injective hnumber⟩

end DialARide
