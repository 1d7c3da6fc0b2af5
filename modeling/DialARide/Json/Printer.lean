import DialARide.Json.Basic
import DialARide.Json.Token

/-!
# Writing JSON

Values are written without blanks, members in the order in which they are kept.
-/

namespace DialARide

namespace Json

mutual

/-- The tokens of a value. -/
def tokens : Json → List Token
  | null => [.null]
  | bool b => [.bool b]
  | number n => [.number n]
  | string text => [.string text]
  | array [] => [.openBracket, .closeBracket]
  | array (v :: rest) => .openBracket :: v.tokens ++ moreItems rest ++ [.closeBracket]
  | object [] => [.openBrace, .closeBrace]
  | object ((key, v) :: rest) =>
    .openBrace :: .string key :: .colon :: v.tokens ++ moreMembers rest ++ [.closeBrace]

/-- The tokens of further items of an array. -/
def moreItems : List Json → List Token
  | [] => []
  | v :: rest => .comma :: v.tokens ++ moreItems rest

/-- The tokens of further members of an object. -/
def moreMembers : List (Option String × Json) → List Token
  | [] => []
  | (key, v) :: rest => .comma :: .string key :: .colon :: v.tokens ++ moreMembers rest

end

/-- The text of a value. -/
def text (v : Json) : String := .ofList (v.tokens.flatMap Token.chars)

end Json

end DialARide
