import DialARide.Json.Basic
import DialARide.Name
import DialARide.Table
import DialARide.Time

/-!
# Records in JSON

A record is written as an object or as the list of its fields in order. Members that the record
does not know are passed over, whatever they hold; a field must not be given twice. In an object
any field may be left out that has a value to fall back on; in a list only the last ones may.
-/

namespace DialARide

namespace Json

/-! ## Plain values -/

/-- A truth value. -/
def toBool? : Json → Option Bool
  | bool b => some b
  | _ => none

/-- A whole number of 64 bits. -/
def toTime? : Json → Option Time
  | number n => n.toNat?.bind fun k => if k < UInt64.size then some (.ofNat k) else none
  | _ => none

/-- A whole number that fits 64 bits, as a count. -/
def toCount? (v : Json) : Option Nat := v.toTime?.map (·.toNat)

/-- A finite floating-point number. -/
def toFloat? : Json → Option Float
  | number n => n.toFloat?
  | _ => none

/-- A text. -/
def toText? : Json → Option String
  | string text => text
  | _ => none

/-- A name is written as its text. -/
def toName? {kind : NameKind} (v : Json) : Option (Name kind) := v.toText?.map Name.mk

/-- A list of values of one kind. -/
def toList? {α : Type} (read : Json → Option α) : Json → Option (List α)
  | array items => items.mapM read
  | _ => none

/-- A value that may be null. -/
def orNull {α : Type} (read : Json → Option α) : Json → Option (Option α)
  | null => some none
  | v => (read v).map some

/-- One of the given values by its label: the label, or an object with that one key and null. -/
def toChoice? {α : Type} (label : α → String) (choice : List α) : Json → Option α
  | string (some text) => choice.find? (label · = text)
  | object [(some key, null)] => choice.find? (label · = key)
  | _ => none

/-! ## Fields -/

/-- What is given for a field of a record. -/
inductive Slot where
  | given (v : Json)
  /-- The field is left out of an object. -/
  | absent
  /-- The list of fields ends before this one. -/
  | cut

namespace Slot

/-- A field that must be given. -/
def required {α : Type} (read : Json → Option α) : Slot → Option α
  | given v => read v
  | _ => none

/-- A field that may be null, or left out of an object. -/
def optional {α : Type} (read : Json → Option α) : Slot → Option (Option α)
  | given v => v.orNull read
  | absent => some none
  | cut => none

/-- A field with a value to fall back on. -/
def withDefault {α : Type} (fallback : α) (read : Json → Option α) : Slot → Option α
  | given v => read v
  | _ => some fallback

end Slot

/-- What an object gives for a field. -/
def member? (members : List (Option String × Json)) (field : String) : Option Slot :=
  match members.filter (·.1 = some field) with
  | [] => some .absent
  | [(_, v)] => some (.given v)
  | _ => none

/-- What a value gives for each of the fields of a record. -/
def slots? (fields : List String) : Json → Option (List Slot)
  | object members =>
    if members.all (·.1.isSome) then fields.mapM (member? members) else none
  | array items =>
    if items.length ≤ fields.length then
      some (items.map .given ++ List.replicate (fields.length - items.length) .cut)
    else none
  | _ => none

/-! ## Writing -/

/-- A time. -/
def time (t : Time) : Json := nat t.toNat

/-- A name. -/
def name {kind : NameKind} (n : Name kind) : Json := str n.text

/-- A list of values of one kind. -/
def list {α : Type} (write : α → Json) (values : List α) : Json := array (values.map write)

/-- A value that may be missing. -/
def option {α : Type} (write : α → Json) (v : Option α) : Json := (v.map write).getD null

end Json

end DialARide
