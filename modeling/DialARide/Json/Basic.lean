import DialARide.Json.Numeral

/-!
# JSON values

Objects keep their members in the order in which they are written, doubles included, so that
whoever reads a record decides about them. A string whose escapes do not spell a text is a value
like any other: it is an error only where its text is wanted.
-/

namespace DialARide

/-- A value as it is written in JSON. -/
inductive Json where
  | null
  | bool (b : Bool)
  | number (n : Numeral)
  /-- A string, with its text unless it has an unpaired surrogate. -/
  | string (text : Option String)
  | array (items : List Json)
  | object (members : List (Option String × Json))
  deriving Repr

namespace Json

/-- The string of a text. -/
def str (text : String) : Json := .string (some text)

/-- A whole number. -/
def nat (n : Nat) : Json := .number (.ofNat n)

/-- The object with the given members. -/
def obj (members : List (String × Json)) : Json :=
  .object (members.map fun (key, value) => (some key, value))

end Json

end DialARide
