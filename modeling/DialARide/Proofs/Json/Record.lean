import DialARide.Json.Config
import DialARide.Json.Shift
import DialARide.Proofs.Json.Text
import DialARide.Proofs.Table

/-!
# Records read back

A reader and a writer agree if whatever is written can be put into a text and is read as what it
was. Plain values do, lists and optional values of such values do, and a record does whose fields
do. Checked configurations are therefore read back from their text as they are, and shifts and
vehicles as they were planned.
-/

namespace DialARide

namespace Json

variable {α : Type} {read : Json → Option α} {write : α → Json}

/-- Whatever is written can be put into a text and is read as what it was. -/
structure Agree (read : Json → Option α) (write : α → Json) : Prop where
  proper : ∀ a, (write a).Proper
  read_write : ∀ a, read (write a) = some a

/-- A value is read back from its text. -/
theorem Agree.ofText? (h : Agree read write) (a : α) :
    (Json.ofText? (write a).text).bind read = some a := by
  rw [ofText?_text (h.proper a)]
  exact h.read_write a

/-! ## Plain values -/

theorem agree_bool : Agree toBool? bool := ⟨.bool, fun _ => rfl⟩

theorem agree_name (kind : NameKind) : Agree (@toName? kind) (@name kind) :=
  ⟨fun _ => .string _, fun _ => rfl⟩

/-- Every time fits 64 bits. -/
theorem agree_time : Agree toTime? time where
  proper t := proper_nat t.toNat
  read_write t := by
    have ht : t.toNat < UInt64.size := t.toNat_lt
    simp [time, nat, toTime?, ht]

theorem Agree.list (h : Agree read write) : Agree (toList? read) (list write) where
  proper values := by
    refine .array fun v hv => ?_
    obtain ⟨a, -, rfl⟩ := List.mem_map.1 hv
    exact h.proper a
  read_write values := by
    show (values.map write).mapM read = some values
    rw [List.mapM_map,
      List.mapM_eq_some_map (f := read ∘ write) (g := id) fun a _ => h.read_write a,
      List.map_id]

/-- A value that may be missing is told from null if null is not read as a value. -/
theorem Agree.option (h : Agree read write) (hnull : read null = none) :
    Agree (orNull read) (option write) where
  proper v := by
    cases v with
    | none => exact .null
    | some a => exact h.proper a
  read_write v := by
    cases v with
    | none => rfl
    | some a =>
      have hread := h.read_write a
      show orNull read (write a) = some (some a)
      unfold orNull
      split
      · next hwrite =>
        rw [hwrite, hnull] at hread
        cases hread
      · rw [hread]
        rfl

/-! ## Fields -/

theorem proper_obj {members : List (String × Json)} (h : ∀ m ∈ members, m.2.Proper) :
    (obj members).Proper := by
  refine .object fun m hm => ?_
  obtain ⟨m', hm', rfl⟩ := List.mem_map.1 hm
  exact h m' hm'

/-- A field that is written once is given. -/
theorem member?_of_mem {members : List (String × Json)} (h : (members.map (·.1)).Nodup)
    {m : String × Json} (hm : m ∈ members) :
    member? (members.map fun (key, value) => (some key, value)) m.1 = some (.given m.2) := by
  obtain ⟨m', hm', hone⟩ := List.exists_filter_eq_singleton h (List.mem_map_of_mem hm)
  have hmem : m ∈ members.filter (·.1 = m.1) := by simp [hm]
  obtain rfl : m = m' := by simpa [hone] using hmem
  simp [member?, List.filter_map, Function.comp_def, hone]

/-- What is written for the fields of a record is what is given for them. -/
theorem slots?_obj {members : List (String × Json)} (h : (members.map (·.1)).Nodup) :
    (obj members).slots? (members.map (·.1)) = some (members.map fun m => .given m.2) := by
  have hread := List.mapM_eq_some_map fun m hm => member?_of_mem h hm
  rw [← Function.comp_def, ← List.mapM_map] at hread
  simp [slots?, obj, hread]

/-! ## Records -/

end Json

open Json

theorem ModeRule.agree : Agree ModeRule.ofJson? ModeRule.toJson where
  proper r := proper_obj (by simp [(agree_name _).proper, agree_bool.proper])
  read_write r := by
    have hslots : r.toJson.slots? ["mode", "reject_equal_from_to_links"] =
        some [.given (.name r.mode), .given (.bool r.rejectEqualLinks)] := slots?_obj (by simp)
    simp [ofJson?, hslots, Slot.required, Slot.withDefault, (agree_name _).read_write,
      agree_bool.read_write]

theorem ShiftPolicy.agree : Agree ShiftPolicy.ofJson? ShiftPolicy.toJson where
  proper p := proper_obj (by simp [agree_time.proper])
  read_write p := by
    have hslots : p.toJson.slots? ["dispatch_interval", "shift_schedule_look_ahead",
        "changeover_duration", "break_look_ahead", "shift_end_look_ahead"] =
        some [.given (.time p.dispatchInterval), .given (.time p.assignLookAhead),
          .given (.time p.changeover), .given (.time p.breakLookAhead),
          .given (.time p.endLookAhead)] := slots?_obj (by simp)
    simp [ofJson?, hslots, Slot.withDefault, agree_time.read_write]

theorem Config.agree : Agree Config.ofJson? Config.toJson where
  proper c := proper_obj (by
    simp [ModeRule.agree.list.proper, agree_time.proper, (ShiftPolicy.agree.option rfl).proper])
  read_write c := by
    have hslots : c.toJson.slots? ["modes", "passenger_step_interval", "shifts"] =
        some [.given (.list ModeRule.toJson c.modes), .given (.time c.stepInterval),
          .given (.option ShiftPolicy.toJson c.shifts)] := slots?_obj (by simp)
    simp [ofJson?, hslots, Slot.required, Slot.withDefault, ModeRule.agree.list.read_write,
      agree_time.read_write, (ShiftPolicy.agree.option rfl).read_write]

theorem BreakWindow.agree : Agree BreakWindow.ofJson? BreakWindow.toJson where
  proper w := proper_obj (by simp [agree_time.proper])
  read_write w := by
    have hslots : w.toJson.slots? ["earliest_start", "latest_end", "duration"] =
        some [.given (.time w.earliestStart), .given (.time w.latestEnd),
          .given (.time w.duration)] := slots?_obj (by simp)
    simp [ofJson?, hslots, Slot.required, agree_time.read_write]

theorem ShiftPlan.agree : Agree ShiftPlan.ofJson? ShiftPlan.toJson where
  proper s := proper_obj (by
    simp [(agree_name _).proper, agree_time.proper, (BreakWindow.agree.option rfl).proper,
      ((agree_name .facility).option rfl).proper])
  read_write s := by
    have hslots : s.toJson.slots? ["id", "start_time", "end_time", "shift_break",
        "operation_facility"] =
        some [.given (.name s.id), .given (.time s.start), .given (.time s.finish),
          .given (.option BreakWindow.toJson s.breakWindow), .given (.option .name s.home)] :=
      slots?_obj (by simp)
    simp [ofJson?, hslots, Slot.required, Slot.withDefault, (agree_name _).read_write,
      agree_time.read_write, (BreakWindow.agree.option rfl).read_write,
      ((agree_name .facility).option rfl).read_write]

theorem VehicleEntry.agree : Agree VehicleEntry.ofJson? VehicleEntry.toJson where
  proper v := proper_obj (by simp [(agree_name _).proper, agree_bool.proper])
  read_write v := by
    have hslots : v.toJson.slots? ["id", "link", "available"] =
        some [.given (.name v.id), .given (.name v.link), .given (.bool v.available)] :=
      slots?_obj (by simp)
    simp [ofJson?, hslots, Slot.required, Slot.withDefault, (agree_name _).read_write,
      agree_bool.read_write]

/-! ## Texts -/

/-- A configuration that passes its check is read back from its text as it is. A shift is read back
as it was planned, whatever has become of it, and a vehicle as it joined the fleet. -/
theorem records_read_back :
    (∀ c : Config, c.check = .ok () → Config.ofText c.toText = .ok c) ∧
    (∀ s : Shift, Shift.ofText? s.toText = some { s with
      state := .waiting, breakFacility := none, breakTaken := false, endFacility := none }) ∧
    ∀ v : Vehicle, Vehicle.ofText? v.toText = some { v with shifts := [] } := by
  refine ⟨fun c hcheck => ?_, fun s => ?_, fun v => ?_⟩
  · rw [Config.ofText, Config.toText, Config.agree.ofText?]
    simp only [hcheck]
    rfl
  · rw [Shift.ofText?, Shift.toText, ShiftPlan.agree.ofText?]
    rfl
  · rw [Vehicle.ofText?, Vehicle.toText, VehicleEntry.agree.ofText?]
    rfl

/-- Names may be empty or hold quotes, backslashes, control characters and characters beyond 16
bits, and times may be the last ones of 64 bits. -/
theorem odd_names_read_back :
    let drt : ModeRule := ⟨⟨"\"drt\"\\\n\t\x01\x7f\u00e9😀"⟩, false⟩
    let policy : ShiftPolicy := { dispatchInterval := 18446744073709551615, changeover := 0 }
    let c : Config := {
      modes := [drt, ⟨⟨""⟩, true⟩], stepInterval := 18446744073709551615, shifts := some policy }
    c.check = .ok () ∧ Config.ofText c.toText = .ok c := by
  intro drt policy c
  have hcheck : c.check = .ok () := by decide
  exact ⟨hcheck, records_read_back.1 c hcheck⟩

example : (Json.obj [("a\n", .nat 5), ("b", .array [.bool true, .null])]).text =
    "\x7b\"a\\n\":5,\"b\":[true,null]\x7d" := by decide

end DialARide
