import DialARide.Plan

/-!
# Requests for rides

A request says who wants to go from which link to which, and when. Before it goes anywhere a
request is screened; the causes found against it decline it.
-/

namespace DialARide

/-- A wish to be taken from one link to another. -/
structure Request where
  id : RequestId
  passenger : PersonId
  mode : ModeId
  source : LinkId
  target : LinkId
  earliestStart : Time
  submittedAt : Time
  route : Option Route
  deriving DecidableEq, Repr

/-- How far a request has come. -/
inductive RequestStatus where
  | created
  | submitted
  | waitingActive
  | rejected
  | pickedUp
  | completed
  deriving DecidableEq, Repr

/-- How requests are named. -/
inductive Naming where
  /-- Each by the name proposed for it. -/
  | proposed
  /-- All by one name. -/
  | fixed (id : RequestId)
  deriving DecidableEq, Repr

/-- The name that a request gets. -/
def Naming.choose : Naming → RequestId → RequestId
  | .proposed, id => id
  | .fixed id, _ => id

/-- How requests are screened: the causes that are found against each. -/
structure Screening where
  causes : Request → List String

/-- The cause found against a request that ends where it starts. -/
def equalLinksCause : String := "equal_from_link_and_to_link"

namespace Screening

/-- A request must not end on the link where it starts. -/
def distinctLinks : Screening :=
  ⟨fun r => if r.source = r.target then [equalLinksCause] else []⟩

/-- Nothing is ever found against a request. -/
def acceptAll : Screening := ⟨fun _ => []⟩

/-- The same causes are found against every request. -/
def always (causes : List String) : Screening := ⟨fun _ => causes⟩

/-- Nothing is found against a request. -/
def accepts (s : Screening) (r : Request) : Bool := (s.causes r).isEmpty

theorem accepts_distinctLinks (r : Request) :
    distinctLinks.accepts r = decide (r.source ≠ r.target) := by
  unfold accepts distinctLinks
  by_cases h : r.source = r.target <;> simp [h]

end Screening

end DialARide
