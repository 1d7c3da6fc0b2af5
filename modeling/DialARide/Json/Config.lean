import DialARide.Config
import DialARide.Json.Printer
import DialARide.Json.Reader
import DialARide.Json.Record

/-!
# Configurations in JSON

A configuration is read from a text and checked before it is used.
-/

namespace DialARide

/-- Reads the rule of a mode. -/
def ModeRule.ofJson? (v : Json) : Option ModeRule := do
  let [mode, rejectEqualLinks] ← v.slots? ["mode", "reject_equal_from_to_links"] | none
  return {
    mode := ← mode.required Json.toName?
    rejectEqualLinks := ← rejectEqualLinks.withDefault true Json.toBool? }

/-- Writes the rule of a mode. -/
def ModeRule.toJson (r : ModeRule) : Json :=
  .obj [("mode", .name r.mode), ("reject_equal_from_to_links", .bool r.rejectEqualLinks)]

/-- Reads a shift policy. -/
def ShiftPolicy.ofJson? (v : Json) : Option ShiftPolicy := do
  let [interval, assignAhead, changeover, breakAhead, endAhead] ← v.slots? ["dispatch_interval",
    "shift_schedule_look_ahead", "changeover_duration", "break_look_ahead",
    "shift_end_look_ahead"] | none
  let standard : ShiftPolicy := {}
  return {
    dispatchInterval := ← interval.withDefault standard.dispatchInterval Json.toTime?
    assignLookAhead := ← assignAhead.withDefault standard.assignLookAhead Json.toTime?
    changeover := ← changeover.withDefault standard.changeover Json.toTime?
    breakLookAhead := ← breakAhead.withDefault standard.breakLookAhead Json.toTime?
    endLookAhead := ← endAhead.withDefault standard.endLookAhead Json.toTime? }

/-- Writes a shift policy. -/
def ShiftPolicy.toJson (p : ShiftPolicy) : Json :=
  .obj [
    ("dispatch_interval", .time p.dispatchInterval),
    ("shift_schedule_look_ahead", .time p.assignLookAhead),
    ("changeover_duration", .time p.changeover),
    ("break_look_ahead", .time p.breakLookAhead),
    ("shift_end_look_ahead", .time p.endLookAhead)]

namespace Config

/-- Reads a configuration. -/
def ofJson? (v : Json) : Option Config := do
  let [modes, interval, shifts] ← v.slots? ["modes", "passenger_step_interval", "shifts"] | none
  return {
    modes := ← modes.required (Json.toList? ModeRule.ofJson?)
    stepInterval := ← interval.withDefault 1 Json.toTime?
    shifts := ← shifts.withDefault none (Json.orNull ShiftPolicy.ofJson?) }

/-- Writes a configuration. -/
def toJson (c : Config) : Json :=
  .obj [
    ("modes", .list ModeRule.toJson c.modes),
    ("passenger_step_interval", .time c.stepInterval),
    ("shifts", .option ShiftPolicy.toJson c.shifts)]

/-- The configuration that a text writes, if it has no fault. -/
def ofText (text : String) : Except ConfigError Config :=
  match (Json.ofText? text).bind ofJson? with
  | none => .error .malformed
  | some c => do
    c.check
    return c

/-- The text of a configuration. -/
def toText (c : Config) : String := c.toJson.text

/-- The configuration in a file with the given contents, none if the file is missing. -/
def ofFile (contents : Option ByteArray) : Except ConfigError Config :=
  match contents.bind String.fromUTF8? with
  | none => .error .unreadable
  | some text => ofText text

end Config

end DialARide
