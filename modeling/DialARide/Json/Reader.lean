import DialARide.Json.Basic
import DialARide.Json.Token.Reader

/-!
# Reading JSON

Tokens are read one by one. What is unfinished is kept on a stack, the innermost array or object
on top, so that reading is a single pass over the tokens whatever the depth of nesting.
-/

namespace DialARide

namespace Json

/-- An array or object that is not closed, with what it holds so far, latest first. -/
inductive Frame where
  | array (items : List Json)
  /-- An object, and the key of the member whose value is being read. -/
  | object (members : List (Option String × Json)) (key : Option String)

/-- What has been read and what may follow, within the given unfinished values. -/
inductive Progress where
  /-- A value must follow. -/
  | value (stack : List Frame)
  /-- An array was opened: a value or the end of the array may follow. -/
  | firstItem (stack : List Frame)
  /-- An object was opened: a key or the end of the object may follow. -/
  | firstKey (stack : List Frame)
  /-- A key must follow behind the given members. -/
  | key (stack : List Frame) (members : List (Option String × Json))
  /-- A colon must follow behind a key. -/
  | colon (stack : List Frame) (members : List (Option String × Json)) (key : Option String)
  /-- A value is complete. -/
  | complete (stack : List Frame) (v : Json)

namespace Progress

/-- What follows when a value begins with a token. -/
def beginValue (stack : List Frame) : Token → Option Progress
  | .openBrace => some (firstKey stack)
  | .openBracket => some (firstItem stack)
  | .null => some (complete stack .null)
  | .bool b => some (complete stack (.bool b))
  | .number n => some (complete stack (.number n))
  | .string text => some (complete stack (.string text))
  | _ => none

/-- What follows when a value is complete and a token comes. -/
def endValue (v : Json) : List Frame → Token → Option Progress
  | .array items :: stack, .comma => some (value (.array (v :: items) :: stack))
  | .array items :: stack, .closeBracket => some (complete stack (.array (v :: items).reverse))
  | .object members k :: stack, .comma => some (key stack ((k, v) :: members))
  | .object members k :: stack, .closeBrace =>
    some (complete stack (.object ((k, v) :: members).reverse))
  | _, _ => none

/-- What has been read when one more token is read. -/
def next : Progress → Token → Option Progress
  | value stack, t => beginValue stack t
  | firstItem stack, .closeBracket => some (complete stack (.array []))
  | firstItem stack, t => beginValue (.array [] :: stack) t
  | firstKey stack, .closeBrace => some (complete stack (.object []))
  | firstKey stack, .string text => some (colon stack [] text)
  | key stack members, .string text => some (colon stack members text)
  | colon stack members k, .colon => some (value (.object members k :: stack))
  | complete stack v, t => endValue v stack t
  | _, _ => none

/-- What has been read when some more tokens are read. -/
def run : Progress → List Token → Option Progress
  | p, [] => some p
  | p, t :: rest => (p.next t).bind (run · rest)

/-- The value, if that is all that has been read. -/
def result? : Progress → Option Json
  | complete [] v => some v
  | _ => none

end Progress

/-- The value that tokens write. -/
def ofTokens? (tokens : List Token) : Option Json :=
  ((Progress.value []).run tokens).bind Progress.result?

/-- The value that a text writes. -/
def ofText? (text : String) : Option Json := (Token.ofChars text.toList).bind ofTokens?

end Json

end DialARide
