import DialARide.Json.Numeral

/-!
# The tokens of JSON text

A text is a sequence of tokens with blanks between them. Within a string, quotes, backslashes
and control characters are written as escapes.
-/

namespace DialARide

/-- The smallest parts of JSON text. -/
inductive Token where
  | openBrace
  | closeBrace
  | openBracket
  | closeBracket
  | comma
  | colon
  | null
  | bool (b : Bool)
  | number (n : Numeral)
  /-- A string, with its text unless it has an unpaired surrogate. -/
  | string (text : Option String)
  deriving DecidableEq, Repr

namespace Token

/-- The digit for a number below sixteen. -/
def hexDigit (n : Nat) : Char := Nat.digitChar n

/-- The characters that stand for one character within a string. -/
def escape (c : Char) : List Char :=
  if c = '"' then ['\\', '"']
  else if c = '\\' then ['\\', '\\']
  else if c = '\n' then ['\\', 'n']
  else if c = '\r' then ['\\', 'r']
  else if c = '\t' then ['\\', 't']
  else if c.toNat = 8 then ['\\', 'b']
  else if c.toNat = 12 then ['\\', 'f']
  else if c.toNat < 32 then
    ['\\', 'u', '0', '0', hexDigit (c.toNat / 16), hexDigit (c.toNat % 16)]
  else [c]

/-- The characters of a numeral. -/
def numeralChars (n : Numeral) : List Char :=
  (if n.negative then ['-'] else []) ++ n.whole ++
    (if n.fraction.isEmpty then [] else '.' :: n.fraction) ++
    match n.exponent with
    | none => []
    | some (below, digits) => 'e' :: (if below then ['-'] else []) ++ digits

/-- The characters of a token. -/
def chars : Token → List Char
  | openBrace => ['\x7b']
  | closeBrace => ['\x7d']
  | openBracket => ['[']
  | closeBracket => [']']
  | comma => [',']
  | colon => [':']
  | null => "null".toList
  | bool true => "true".toList
  | bool false => "false".toList
  | number n => numeralChars n
  | string (some text) => '"' :: text.toList.flatMap escape ++ ['"']
  | string none => ['"', '\\', 'u', 'd', '8', '0', '0', '"']

end Token

end DialARide
