import DialARide.Fault
import DialARide.Time

/-!
# Configuration

A configuration names the modes that are served, says how often passengers are attended to, and
may switch on shift dispatch. A checked configuration serves at least one mode, no mode twice,
and has positive intervals.
-/

namespace DialARide

/-- How the requests of one mode are treated. -/
structure ModeRule where
  mode : ModeId
  /-- Requests that end on the link where they start are declined. -/
  rejectEqualLinks : Bool := true
  deriving DecidableEq, Repr

/-- How shifts are dispatched. -/
structure ShiftPolicy where
  /-- Dispatch runs at the multiples of this interval. -/
  dispatchInterval : Time := 60
  /-- How long before its start a shift is assigned. -/
  assignLookAhead : Time := 1800
  /-- The least time between two shifts of a vehicle. -/
  changeover : Time := 900
  /-- How long before its window a break is planned. -/
  breakLookAhead : Time := 600
  /-- How long before the end of a shift the end is planned. -/
  endLookAhead : Time := 3600
  deriving DecidableEq, Repr

/-- The configuration of a scenario. -/
structure Config where
  modes : List ModeRule
  stepInterval : Time := 1
  shifts : Option ShiftPolicy := none
  deriving DecidableEq, Repr

/-- The configuration for the one mode that is served unless others are asked for. -/
def Config.standard : Config := { modes := [⟨⟨"drt"⟩, true⟩] }

/-- The first mode that stands in the list before. -/
def firstRepeated : List ModeId → List ModeId → Option ModeId
  | _, [] => none
  | seen, m :: rest => if m ∈ seen then some m else firstRepeated (m :: seen) rest

namespace Config

/-- The first fault of a configuration. -/
def fault? (c : Config) : Option ConfigFault :=
  if c.modes.isEmpty then some .noModes
  else match firstRepeated [] (c.modes.map (·.mode)) with
  | some mode => some (.repeatedMode mode)
  | none =>
    if c.stepInterval = 0 then some .zeroStepInterval
    else if c.shifts.any (·.dispatchInterval = 0) then some .zeroDispatchInterval
    else none

/-- Fails with the first fault of the configuration. -/
def check (c : Config) : Except ConfigError Unit :=
  match c.fault? with
  | some fault => .error (.invalid fault)
  | none => .ok ()

end Config

theorem firstRepeated_eq_none_iff {seen modes : List ModeId} :
    firstRepeated seen modes = none ↔ modes.Nodup ∧ ∀ m ∈ modes, m ∉ seen := by
  induction modes generalizing seen with
  | nil => simp [firstRepeated]
  | cons m rest ih =>
    unfold firstRepeated
    split
    · next h => simp [h]
    · next h =>
      rw [ih, List.nodup_cons]
      constructor
      · rintro ⟨hn, hs⟩
        exact ⟨⟨fun hm => hs m hm List.mem_cons_self, hn⟩, fun x hx => by
          rcases List.mem_cons.1 hx with rfl | hx
          · exact h
          · exact fun hxs => hs x hx (List.mem_cons_of_mem m hxs)⟩
      · rintro ⟨⟨hm, hn⟩, hs⟩
        refine ⟨hn, fun x hx => ?_⟩
        rw [List.mem_cons, not_or]
        exact ⟨fun he => hm (he ▸ hx), hs x (List.mem_cons_of_mem m hx)⟩

/-- A configuration without fault serves some mode, none twice, at positive intervals. -/
theorem Config.fault?_eq_none_iff (c : Config) :
    c.fault? = none ↔ c.modes ≠ [] ∧ (c.modes.map (·.mode)).Nodup ∧ c.stepInterval ≠ 0 ∧
      ∀ policy ∈ c.shifts, policy.dispatchInterval ≠ 0 := by
  have hr : firstRepeated [] (c.modes.map (·.mode)) = none ↔ (c.modes.map (·.mode)).Nodup := by
    simp [firstRepeated_eq_none_iff]
  unfold fault?
  rw [← hr]
  cases h : c.modes with
  | nil => simp
  | cons m rest =>
    cases hf : firstRepeated [] ((m :: rest).map (·.mode)) with
    | some mode => simp
    | none => by_cases hz : c.stepInterval = 0 <;> cases hs : c.shifts <;> simp [hz]

end DialARide
