import DialARide.Proofs.Shift.Act

/-!
# Operations on a dispatcher

A dispatcher is used by eight operations, each with any arguments and in any order. A report that
cannot be true changes nothing, and only a dispatch can halt a run, by a sum of times that is too
large. What every act keeps holds after any operations on a dispatcher that was just opened.
-/

namespace DialARide

namespace Dispatcher

/-- What can be asked of a dispatcher. -/
inductive Operation where
  | addVehicle (entry : VehicleEntry)
  | addShift (plan : ShiftPlan)
  | updateVehicle (id : VehicleId) (link : LinkId) (available : Bool)
  | dispatch (now : Time)
  | startBreak (id : VehicleId) (link : LinkId) (now : Time)
  | endBreak (id : VehicleId) (task : BreakTask) (now : Time)
  | endShift (id : VehicleId) (link : LinkId) (now : Time)
  | drain
  deriving DecidableEq, Repr

/-- The dispatcher after an operation. One that meets a fault changes nothing. -/
def perform (d : Dispatcher) : Operation → Except Halt Dispatcher
  | .addVehicle entry => .ok (d.addVehicle entry)
  | .addShift plan => .ok (d.addShift plan)
  | .updateVehicle id link available => .ok ((d.updateVehicle id link available).toOption.getD d)
  | .dispatch now => do return (← d.dispatch now).1
  | .startBreak id link now => .ok ((d.startBreak id link now).toOption.getD d)
  | .endBreak id task now => .ok ((d.endBreak id task now).toOption.getD d)
  | .endShift id link now => .ok ((d.endShift id link now).toOption.getD d)
  | .drain => .ok d.drainEvents.2

/-- The dispatcher after several operations, one after the other. -/
def run : Dispatcher → List Operation → Except Halt Dispatcher
  | d, [] => .ok d
  | d, o :: rest => do (← d.perform o).run rest

/-- A dispatcher as it is opened: there is no vehicle and no shift. -/
def opened (policy : ShiftPolicy) (network : Network) (sites : List FacilitySite) : Dispatcher :=
  { policy, network, facilities := .ofSites sites }

theorem sound_opened (policy : ShiftPolicy) (network : Network) (sites : List FacilitySite) :
    (opened policy network sites).Sound :=
  ⟨fun _ _ hv => (nomatch hv), fun _ hs => (nomatch hs)⟩

variable {d d' : Dispatcher} {P : Dispatcher → Prop}

/-- A report that meets a fault changes nothing. -/
theorem keeps_reported {outcome : Except Fault Dispatcher}
    (hP : P d) (hok : ∀ d', outcome = .ok d' → P d') : P (outcome.toOption.getD d) := by
  cases outcome with
  | error fault => exact hP
  | ok d' => exact hok d' rfl

/-- What every act on a sound dispatcher keeps is kept by every operation. -/
theorem keeps_perform {o : Operation} (hact : ∀ d d', d.Sound → d.Act d' → P d → P d')
    (hd : d.Sound) (hP : P d) (h : d.perform o = .ok d') : d'.Sound ∧ P d' := by
  have hone {d d' : Dispatcher} (hd : d.Sound ∧ P d) (ha : d.Act d') : d'.Sound ∧ P d' :=
    ⟨ha.sound hd.1, hact d d' hd.1 ha hd.2⟩
  have hstart : d.Sound ∧ P d := ⟨hd, hP⟩
  cases o with
  | addVehicle entry =>
    cases h
    exact hone hstart (d.act_addVehicle entry)
  | addShift plan =>
    cases h
    exact hone hstart (.offered plan)
  | updateVehicle id link available =>
    cases h
    exact keeps_reported hstart fun _ h' => hone hstart (act_updateVehicle hd.named h')
  | dispatch now =>
    cases hdispatch : d.dispatch now with
    | error halt => simp [perform, hdispatch, Bind.bind, Except.bind] at h
    | ok outcome =>
      simp only [perform, hdispatch, Bind.bind, Except.bind, Pure.pure, Except.pure,
        Except.ok.injEq] at h
      subst h
      exact (decisions_dispatch hd.named hdispatch).keeps
        (fun _ _ _ hdecision hd => hone hd (.decided hdecision)) hstart
  | startBreak id link now =>
    cases h
    exact keeps_reported hstart fun _ h' =>
      hone hstart (.reported (report_of_startBreak hd.named h'))
  | endBreak id task now =>
    cases h
    exact keeps_reported hstart fun _ h' =>
      hone hstart (.reported (report_of_endBreak hd.named h'))
  | endShift id link now =>
    cases h
    exact keeps_reported hstart fun _ h' =>
      hone hstart (.reported (report_of_endShift hd.named h'))
  | drain =>
    cases h
    exact hone hstart .drained

/-- What every act on a sound dispatcher keeps is kept by every run. -/
theorem keeps_run {os : List Operation} (hact : ∀ d d', d.Sound → d.Act d' → P d → P d')
    (hd : d.Sound) (hP : P d) (h : d.run os = .ok d') : d'.Sound ∧ P d' := by
  induction os generalizing d with
  | nil =>
    cases h
    exact ⟨hd, hP⟩
  | cons o rest ih =>
    unfold run at h
    cases ho : d.perform o with
    | error halt => simp [ho, Bind.bind, Except.bind] at h
    | ok d₁ =>
      simp only [ho, Bind.bind, Except.bind] at h
      obtain ⟨hd₁, hP₁⟩ := keeps_perform hact hd hP ho
      exact ih hd₁ hP₁ h

theorem sound_run {os : List Operation} (hd : d.Sound) (h : d.run os = .ok d') : d'.Sound :=
  (keeps_run (P := fun _ => True) (fun _ _ _ _ _ => trivial) hd trivial h).1

end Dispatcher

end DialARide
