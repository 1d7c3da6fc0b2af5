import DialARide.Proofs.Ride.Act

/-!
# Calls on a service

A service is used by seven calls, each with any arguments and in any order. A call that is turned
down or meets a fault leaves the service as it is and tells the simulation nothing.
-/

namespace DialARide

/-- What can be asked of a service. -/
inductive Operation where
  | depart (now : Time) (who : Departing) (link : LinkId)
  | await (stop : EntityId) (id : RequestId)
  | pickUp (vehicle : VehicleId) (id : RequestId) (now : Time)
  | dropOff (vehicle : VehicleId) (id : RequestId) (now : Time)
  | reject (r : Rejection)
  | book (now : Time) (person : PersonId) (planned : PlannedLeg)
  | step (now : Time)
  deriving DecidableEq, Repr

/-- The occasion of a call. -/
def Operation.occasion : Operation → Occasion
  | .depart _ who _ => .departure who.traveler
  | .await stop _ => .arrival stop
  | .reject r => .publication r
  | _ => .other

/-- The time of a call. Stops and rejections are taken note of at any time. -/
def Operation.time : Operation → Time
  | .depart now .. | .pickUp _ _ now | .dropOff _ _ now | .book now .. | .step now => now
  | .await .. | .reject .. => 0

namespace Service

/-- The turn that a call leads to. A call that is turned down or meets a fault changes nothing. -/
def perform (s : Service) : Operation → Turn
  | .depart now who link =>
    match s.depart now who link with
    | .ok (some t) => t
    | _ => { service := s }
  | .await stop id => { service := (s.awaitPassenger stop id).2 }
  | .pickUp vehicle id now => (s.pickUp vehicle id now).getD { service := s }
  | .dropOff vehicle id now =>
    match s.dropOff vehicle id now with
    | .ok (_, t) => t
    | .error _ => { service := s }
  | .reject r => { service := s.deliver 1 r }
  | .book now person planned =>
    match s.book now person planned with
    | .ok (_, t) => t
    | .error _ => { service := s }
  | .step now => s.step now

/-- Every call on a service is a sequence of acts. -/
theorem acts_perform (s : Service) (o : Operation) :
    Acts o.time o.occasion s (s.perform o) := by
  cases o with
  | depart now who link =>
    simp only [perform]
    split
    · next t h => exact (act_depart h).acts
    · exact .nil s
  | await stop id => exact s.acts_awaitPassenger stop id
  | pickUp vehicle id now =>
    simp only [perform]
    cases h : s.pickUp vehicle id now with
    | none => exact .nil s
    | some t => exact (act_pickUp h).acts
  | dropOff vehicle id now =>
    simp only [perform]
    split
    · next traveler t h => exact (act_dropOff h).acts
    · exact .nil s
  | reject r => exact s.acts_deliver 1 r
  | book now person planned =>
    simp only [perform]
    split
    · next name t h =>
      rcases act_book h with rfl | hact
      · exact .nil s
      · exact hact.acts
    · exact .nil s
  | step now => exact s.acts_step now .other

/-- The turn that calls lead to, one after the other. -/
def run (s : Service) : List Operation → Turn
  | [] => { service := s }
  | o :: rest => (s.perform o).andThen ((s.perform o).service.run rest)

theorem service_run_append (s : Service) (os os' : List Operation) :
    (s.run (os ++ os')).service = ((s.run os).service.run os').service := by
  induction os generalizing s with
  | nil => rfl
  | cons o os ih => exact ih (s.perform o).service

/-- A service as it is opened: nobody has departed, no stop waits and no rejection has come. -/
def opened (mode : ModeId) (network : Network) (naming : Naming) (screening : Screening)
    (desk : Option Desk) : Service :=
  { mode, network, naming, screening, desk }

end Service

end DialARide
