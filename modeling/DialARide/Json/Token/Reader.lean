import DialARide.Json.Token

/-!
# Reading tokens

The longest possible token is taken at each place. Strings are read as numbers of characters; an
escape may give half of a character, which has a meaning only together with the other half.
-/

namespace DialARide

namespace Token

/-- Blanks between tokens. -/
def isBlank (c : Char) : Bool := c = ' ' || c = '\t' || c = '\n' || c = '\r'

/-- The value of a hexadecimal digit. -/
def hexValue? (c : Char) : Option Nat :=
  if c.isDigit then some (c.toNat - '0'.toNat)
  else if 'a' ≤ c ∧ c ≤ 'f' then some (c.toNat - 'a'.toNat + 10)
  else if 'A' ≤ c ∧ c ≤ 'F' then some (c.toNat - 'A'.toNat + 10)
  else none

/-- The number that four hexadecimal digits stand for. -/
def hexNumber? (a b c d : Char) : Option Nat := do
  return (((← hexValue? a) * 16 + (← hexValue? b)) * 16 + (← hexValue? c)) * 16 + (← hexValue? d)

/-- The character that a letter behind a backslash stands for. -/
def escapeValue? : Char → Option Nat
  | '"' => some 34
  | '\\' => some 92
  | '/' => some 47
  | 'b' => some 8
  | 'f' => some 12
  | 'n' => some 10
  | 'r' => some 13
  | 't' => some 9
  | _ => none

/-- The numbers up to the closing quote of a string, and what is left behind it. Control
characters do not stand in a string. -/
def stringBody : List Char → Option (List Nat × List Char)
  | [] => none
  | '"' :: rest => some ([], rest)
  | '\\' :: 'u' :: a :: b :: c :: d :: rest => do
    let n ← hexNumber? a b c d
    let (ns, rest) ← stringBody rest
    return (n :: ns, rest)
  | '\\' :: c :: rest => do
    let n ← escapeValue? c
    let (ns, rest) ← stringBody rest
    return (n :: ns, rest)
  | c :: rest =>
    if c.toNat < 32 || c = '\\' then none
    else do
      let (ns, rest) ← stringBody rest
      return (c.toNat :: ns, rest)

/-- This is the first half of a character. -/
def isHighSurrogate (n : Nat) : Bool := 0xD800 ≤ n && n < 0xDC00

/-- This is the second half of a character. -/
def isLowSurrogate (n : Nat) : Bool := 0xDC00 ≤ n && n < 0xE000

/-- The characters that numbers stand for, unless a half is without its other half. -/
def assemble : List Nat → Option (List Char)
  | [] => some []
  | n :: rest =>
    if isLowSurrogate n then none
    else if isHighSurrogate n then
      match rest with
      | [] => none
      | m :: rest =>
        if isLowSurrogate m then
          (.ofNat (0x10000 + (n - 0xD800) * 0x400 + (m - 0xDC00)) :: ·) <$> assemble rest
        else none
    else (.ofNat n :: ·) <$> assemble rest

/-- The digits at the front, of which there must be some, and what is left behind them. -/
def someDigits (s : List Char) : Option (List Char × List Char) :=
  match s.takeWhile Char.isDigit with
  | [] => none
  | digits => some (digits, s.dropWhile Char.isDigit)

/-- The sign in front of an exponent, true where it is negative, and what is left behind it. -/
def exponentSign : List Char → Bool × List Char
  | '+' :: rest => (false, rest)
  | '-' :: rest => (true, rest)
  | s => (false, s)

/-- The fraction at the front, if there is one, and what is left behind it. -/
def fractionPart : List Char → Option (List Char × List Char)
  | '.' :: rest => someDigits rest
  | s => some ([], s)

/-- The exponent at the front, if there is one, and what is left behind it. -/
def exponentPart : List Char → Option (Option (Bool × List Char) × List Char)
  | c :: rest =>
    if c = 'e' || c = 'E' then do
      let (below, rest) := exponentSign rest
      let (digits, rest) ← someDigits rest
      return (some (below, digits), rest)
    else some (none, c :: rest)
  | [] => some (none, [])

/-- The numeral without its sign at the front, and what is left behind it. A whole part of
several digits does not begin with zero. -/
def unsigned (negative : Bool) (s : List Char) : Option (Numeral × List Char) := do
  let (whole, rest) ← someDigits s
  if whole.head? = some '0' && 1 < whole.length then none
  else
    let (fraction, rest) ← fractionPart rest
    let (exponent, rest) ← exponentPart rest
    return ({ negative, whole, fraction, exponent }, rest)

/-- The token at the front, and what is left behind it. -/
def take? : List Char → Option (Token × List Char)
  | [] => none
  | '\x7b' :: rest => some (openBrace, rest)
  | '\x7d' :: rest => some (closeBrace, rest)
  | '[' :: rest => some (openBracket, rest)
  | ']' :: rest => some (closeBracket, rest)
  | ',' :: rest => some (comma, rest)
  | ':' :: rest => some (colon, rest)
  | 'n' :: 'u' :: 'l' :: 'l' :: rest => some (null, rest)
  | 't' :: 'r' :: 'u' :: 'e' :: rest => some (bool true, rest)
  | 'f' :: 'a' :: 'l' :: 's' :: 'e' :: rest => some (bool false, rest)
  | '"' :: rest => do
    let (ns, rest) ← stringBody rest
    return (string ((assemble ns).map String.ofList), rest)
  | '-' :: rest => do
    let (n, rest) ← unsigned true rest
    return (number n, rest)
  | c :: rest => do
    let (n, rest) ← unsigned false (c :: rest)
    return (number n, rest)

private theorem length_stringBody {s rest : List Char} {ns : List Nat}
    (h : stringBody s = some (ns, rest)) : rest.length < s.length := by
  fun_induction stringBody s generalizing ns rest with
  | case1 => simp at h
  | case2 r => simp_all
  | case3 a b c d r ih =>
    simp only [Option.bind_eq_bind, Option.bind_eq_some_iff, Option.pure_def, Option.some.injEq,
      Prod.mk.injEq, Prod.exists] at h
    obtain ⟨_, _, _, _, h, _, rfl⟩ := h
    have := ih h
    simp only [List.length_cons]
    omega
  | case4 c r _ ih =>
    simp only [Option.bind_eq_bind, Option.bind_eq_some_iff, Option.pure_def, Option.some.injEq,
      Prod.mk.injEq, Prod.exists] at h
    obtain ⟨_, _, _, _, h, _, rfl⟩ := h
    have := ih h
    simp only [List.length_cons]
    omega
  | case5 => simp at h
  | case6 c r _ _ _ _ ih =>
    simp only [Option.bind_eq_bind, Option.bind_eq_some_iff, Option.pure_def, Option.some.injEq,
      Prod.mk.injEq, Prod.exists] at h
    obtain ⟨_, _, h, _, rfl⟩ := h
    have := ih h
    simp only [List.length_cons]
    omega

private theorem length_someDigits {s digits rest : List Char}
    (h : someDigits s = some (digits, rest)) :
    rest.length < s.length := by
  have hs := congrArg List.length (List.takeWhile_append_dropWhile (p := Char.isDigit) (l := s))
  rw [List.length_append] at hs
  unfold someDigits at h
  split at h
  · simp at h
  · next hd =>
    obtain ⟨rfl, rfl⟩ := Prod.mk.inj (Option.some.inj h)
    have := List.length_pos_iff.2 (fun he => hd he)
    omega

private theorem length_fractionPart {s digits rest : List Char}
    (h : fractionPart s = some (digits, rest)) : rest.length ≤ s.length := by
  unfold fractionPart at h
  split at h
  · have := length_someDigits h
    simp only [List.length_cons]
    omega
  · simp_all

private theorem length_exponentSign (s : List Char) : (exponentSign s).2.length ≤ s.length := by
  unfold exponentSign
  split <;> simp

private theorem length_exponentPart {s rest : List Char} {e : Option (Bool × List Char)}
    (h : exponentPart s = some (e, rest)) : rest.length ≤ s.length := by
  unfold exponentPart at h
  split at h
  · next c r =>
    split at h
    · simp only [Option.bind_eq_bind, Option.bind_eq_some_iff, Option.pure_def, Option.some.injEq,
        Prod.mk.injEq, Prod.exists] at h
      obtain ⟨_, _, h, _, rfl⟩ := h
      have h₁ := length_someDigits h
      have h₂ := length_exponentSign r
      simp only [List.length_cons]
      omega
    · simp_all
  · simp_all

private theorem length_unsigned {negative : Bool} {s rest : List Char} {n : Numeral}
    (h : unsigned negative s = some (n, rest)) : rest.length < s.length := by
  unfold unsigned at h
  simp only [Option.bind_eq_bind, Option.bind_eq_some_iff, Prod.exists] at h
  obtain ⟨whole, r₁, h₁, h⟩ := h
  split at h
  · simp at h
  · simp only [Option.bind_eq_some_iff, Option.pure_def, Option.some.injEq, Prod.mk.injEq,
      Prod.exists] at h
    obtain ⟨_, _, h₂, _, _, h₃, _, rfl⟩ := h
    have h₁ := length_someDigits h₁
    have h₂ := length_fractionPart h₂
    have h₃ := length_exponentPart h₃
    omega

/-- Every token takes at least one character. -/
theorem length_take? {s rest : List Char} {t : Token} (h : take? s = some (t, rest)) :
    rest.length < s.length := by
  unfold take? at h
  split at h <;>
    simp only [Option.bind_eq_bind, Option.bind_eq_some_iff, Option.pure_def, Option.some.injEq,
      Prod.mk.injEq, Prod.exists, reduceCtorEq] at h
  case h_11 =>
    obtain ⟨_, _, h, _, rfl⟩ := h
    exact Nat.lt_succ_of_lt (length_stringBody h)
  case h_12 =>
    obtain ⟨_, _, h, _, rfl⟩ := h
    exact Nat.lt_succ_of_lt (length_unsigned h)
  case h_13 =>
    obtain ⟨_, _, h, _, rfl⟩ := h
    exact length_unsigned h
  all_goals
    obtain ⟨_, rfl⟩ := h
    simp only [List.length_cons]
    omega

/-- The tokens of a text. -/
def ofChars (s : List Char) : Option (List Token) :=
  match s with
  | [] => some []
  | c :: rest =>
    if isBlank c then ofChars rest
    else match h : take? (c :: rest) with
    | none => none
    | some (t, left) =>
      have : left.length < (c :: rest).length := length_take? h
      (t :: ·) <$> ofChars left
termination_by s.length
decreasing_by
  · simp
  · exact this

end Token

end DialARide
