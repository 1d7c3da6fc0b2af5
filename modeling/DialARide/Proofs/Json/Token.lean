import DialARide.Json.Token.Reader

/-!
# Tokens read back

Every token is the longest one at the front of what it writes, provided that what follows a
number cannot be taken for a part of it. A sequence of tokens in which no two numbers meet is
therefore told apart again when it is written without blanks.
-/

namespace DialARide

/-- A numeral that can be written: its parts are digits, and a whole part of several digits does
not begin with zero. -/
structure Numeral.Proper (n : Numeral) : Prop where
  whole : n.whole ≠ [] ∧ ∀ c ∈ n.whole, c.isDigit
  leading : n.whole.head? = some '0' → n.whole.length = 1
  fraction : ∀ c ∈ n.fraction, c.isDigit
  exponent : ∀ e ∈ n.exponent, e.2 ≠ [] ∧ ∀ c ∈ e.2, c.isDigit

theorem Nat.head?_toDigits_ne_zero {n : Nat} (hn : n ≠ 0) :
    (Nat.toDigits 10 n).head? ≠ some '0' := by
  induction n using Nat.strongRecOn with
  | _ n ih =>
    rw [Nat.toDigits_eq_if (by decide)]
    split
    · simpa using hn
    · next hlarge =>
      rw [List.head?_append, List.head?_eq_some_head Nat.toDigits_ne_nil, Option.some_or,
        ← List.head?_eq_some_head]
      exact ih (n / 10) (by omega) (by omega)

/-- Whole numbers are written without leading zeros. -/
theorem Numeral.proper_ofNat (n : Nat) : (Numeral.ofNat n).Proper where
  whole := ⟨Nat.toDigits_ne_nil, fun c hc =>
    Nat.isDigit_of_mem_toDigits (b := 10) (by decide) (by decide) hc⟩
  leading h := by
    by_cases hn : n = 0
    · subst hn
      rfl
    · exact absurd h (Nat.head?_toDigits_ne_zero hn)
  fraction c hc := by cases hc
  exponent e he := by cases he

namespace Token

/-! ## Strings -/

private theorem hexNumber?_hexDigit {n : Nat} (h : n < 32) :
    hexNumber? '0' '0' (hexDigit (n / 16)) (hexDigit (n % 16)) = some n := by
  have hall : ∀ n < 32, hexNumber? '0' '0' (hexDigit (n / 16)) (hexDigit (n % 16)) = some n := by
    decide
  exact hall n h

/-- What a character writes within a string is read as the number of that character. -/
private theorem stringBody_escape (c : Char) (s : List Char) :
    stringBody (escape c ++ s) = (stringBody s).map fun (ns, rest) => (c.toNat :: ns, rest) := by
  have hread (e : Char) (he : e ≠ 'u') (hn : escapeValue? e = some c.toNat) :
      stringBody ('\\' :: e :: s) = (stringBody s).map fun (ns, rest) => (c.toNat :: ns, rest) := by
    rw [stringBody]
    · rw [hn]
      cases stringBody s <;> rfl
    · rintro _ _ _ _ _ h
      exact absurd h he
  unfold escape
  split
  · next hc => exact hread '"' (by decide) (by rw [hc]; rfl)
  split
  · next hc => exact hread '\\' (by decide) (by rw [hc]; rfl)
  split
  · next hc => exact hread 'n' (by decide) (by rw [hc]; rfl)
  split
  · next hc => exact hread 'r' (by decide) (by rw [hc]; rfl)
  split
  · next hc => exact hread 't' (by decide) (by rw [hc]; rfl)
  split
  · next hc => exact hread 'b' (by decide) (by rw [hc]; rfl)
  split
  · next hc => exact hread 'f' (by decide) (by rw [hc]; rfl)
  split
  · next hcontrol =>
    show stringBody ('\\' :: 'u' :: '0' :: '0' :: _ :: _ :: s) = _
    rw [stringBody, hexNumber?_hexDigit hcontrol]
    cases stringBody s <;> rfl
  · next hquote hbackslash _ _ _ _ _ hcontrol =>
    show stringBody (c :: s) = _
    rw [stringBody, if_neg (by simp [hcontrol, hbackslash])]
    · cases stringBody s <;> rfl
    · exact hquote
    · rintro _ _ _ _ _ rfl
      exact absurd rfl hbackslash
    · rintro _ _ rfl
      exact absurd rfl hbackslash

theorem stringBody_text (text rest : List Char) :
    stringBody (text.flatMap escape ++ '"' :: rest) = some (text.map Char.toNat, rest) := by
  induction text with
  | nil => simp [stringBody]
  | cons c text ih => rw [List.flatMap_cons, List.append_assoc, stringBody_escape, ih]; rfl

/-- The numbers of characters are put together to the same characters: no character is half of
another. -/
theorem assemble_text (text : List Char) : assemble (text.map Char.toNat) = some text := by
  induction text with
  | nil => rfl
  | cons c text ih =>
    have hvalid : c.toNat < 0xD800 ∨ 0xDFFF < c.toNat ∧ c.toNat < 0x110000 := c.valid
    have hlow : isLowSurrogate c.toNat = false := by
      simp only [isLowSurrogate, Bool.and_eq_false_iff, decide_eq_false_iff_not]
      omega
    have hhigh : isHighSurrogate c.toNat = false := by
      simp only [isHighSurrogate, Bool.and_eq_false_iff, decide_eq_false_iff_not]
      omega
    rw [List.map_cons, assemble.eq_def]
    simp [hlow, hhigh, ih, Char.ofNat_toNat]

/-! ## Numbers -/

/-- The characters of a fraction, none if there is none. -/
def fractionChars (digits : List Char) : List Char := if digits.isEmpty then [] else '.' :: digits

/-- The characters of an exponent, none if there is none. -/
def exponentChars : Option (Bool × List Char) → List Char
  | none => []
  | some (below, digits) => 'e' :: (if below then ['-'] else []) ++ digits

theorem numeralChars_eq (n : Numeral) : numeralChars n = (if n.negative then ['-'] else []) ++
    (n.whole ++ (fractionChars n.fraction ++ exponentChars n.exponent)) := by
  obtain ⟨negative, whole, fraction, _ | ⟨below, digits⟩⟩ := n <;>
    simp [numeralChars, fractionChars, exponentChars]

/-- The text does not go on with a digit. -/
def EndsDigits (rest : List Char) : Prop := ∀ c ∈ rest.head?, c.isDigit = false

/-- The text does not go on with anything that could be a part of a numeral. -/
def EndsNumeral (rest : List Char) : Prop :=
  ∀ c ∈ rest.head?, c.isDigit = false ∧ c ≠ '.' ∧ c ≠ 'e' ∧ c ≠ 'E'

theorem EndsNumeral.endsDigits {rest : List Char} (h : EndsNumeral rest) : EndsDigits rest :=
  fun c hc => (h c hc).1

theorem someDigits_append {digits rest : List Char} (hnil : digits ≠ [])
    (hdigits : ∀ c ∈ digits, c.isDigit) (hrest : EndsDigits rest) :
    someDigits (digits ++ rest) = some (digits, rest) := by
  have hnone : rest.takeWhile Char.isDigit = [] ∧ rest.dropWhile Char.isDigit = rest := by
    cases rest with
    | nil => exact ⟨rfl, rfl⟩
    | cons c rest => simp [hrest c rfl]
  unfold someDigits
  rw [List.takeWhile_append_of_pos hdigits, List.dropWhile_append_of_pos hdigits, hnone.1,
    hnone.2, List.append_nil]
  split
  · exact absurd rfl hnil
  · rfl

/-- An exponent is read as it is written. A digit is no sign, so the digits are not taken for one.
-/
private theorem exponentPart_chars {exponent : Option (Bool × List Char)} {rest : List Char}
    (h : ∀ e ∈ exponent, e.2 ≠ [] ∧ ∀ c ∈ e.2, c.isDigit) (hrest : EndsNumeral rest) :
    exponentPart (exponentChars exponent ++ rest) = some (exponent, rest) := by
  cases exponent with
  | none =>
    cases rest with
    | nil => rfl
    | cons c rest =>
      obtain ⟨-, -, he, hE⟩ := hrest c rfl
      simp [exponentPart, exponentChars, he, hE]
  | some e =>
    obtain ⟨below, digits⟩ := e
    obtain ⟨hnil, hdigits⟩ := h _ rfl
    have hsign : exponentSign ((if below then ['-'] else []) ++ (digits ++ rest)) =
        (below, digits ++ rest) := by
      cases below with
      | true => rfl
      | false =>
        obtain ⟨c, digits, rfl⟩ := List.exists_cons_of_ne_nil hnil
        have hc : c.isDigit := hdigits c List.mem_cons_self
        show exponentSign (c :: (digits ++ rest)) = _
        unfold exponentSign
        split <;> simp_all
    have hsome := someDigits_append hnil hdigits hrest.endsDigits
    simp [exponentPart, exponentChars, hsign, hsome]

/-- A fraction is read as it is written. -/
private theorem fractionPart_chars {fraction rest : List Char} (h : ∀ c ∈ fraction, c.isDigit)
    (hdigits : EndsDigits rest) (hpoint : ∀ c ∈ rest.head?, c ≠ '.') :
    fractionPart (fractionChars fraction ++ rest) = some (fraction, rest) := by
  cases fraction with
  | nil =>
    show fractionPart rest = _
    unfold fractionPart
    split
    · exact absurd rfl (hpoint '.' rfl)
    · rfl
  | cons c fraction => exact someDigits_append (List.cons_ne_nil c fraction) h hdigits

/-- A numeral is read as it is written, up to what cannot be a part of it. -/
theorem unsigned_chars {n : Numeral} (h : n.Proper) {rest : List Char} (hrest : EndsNumeral rest) :
    unsigned n.negative
      (n.whole ++ (fractionChars n.fraction ++ (exponentChars n.exponent ++ rest))) =
      some (n, rest) := by
  have hexponent : ∀ c ∈ (exponentChars n.exponent ++ rest).head?, c.isDigit = false ∧ c ≠ '.' := by
    cases hn : n.exponent with
    | none => exact fun c hc => ⟨(hrest c hc).1, (hrest c hc).2.1⟩
    | some e => simp [exponentChars]
  have hfraction : EndsDigits (fractionChars n.fraction ++ (exponentChars n.exponent ++ rest)) := by
    cases hn : n.fraction with
    | nil => exact fun c hc => (hexponent c hc).1
    | cons c fraction => simp [EndsDigits, fractionChars]
  have hwhole : ¬ (n.whole.head? = some '0' && 1 < n.whole.length) := by
    simp only [Bool.and_eq_true, decide_eq_true_eq, not_and, Nat.not_lt]
    exact fun hzero => Nat.le_of_eq (h.leading hzero)
  unfold unsigned
  rw [someDigits_append h.whole.1 h.whole.2 hfraction]
  simp only [Option.bind_eq_bind, Option.bind_some]
  rw [if_neg hwhole, fractionPart_chars h.fraction (fun c hc => (hexponent c hc).1)
    fun c hc => (hexponent c hc).2]
  simp only [Option.bind_some]
  rw [exponentPart_chars h.exponent hrest]
  rfl

/-! ## Single tokens -/

/-- A token that can be written. -/
def Proper : Token → Prop
  | number n => n.Proper
  | _ => True

/-- The token is a number. -/
def isNumber : Token → Bool
  | number _ => true
  | _ => false

private theorem take?_quote (rest : List Char) : take? ('"' :: rest) = (stringBody rest).bind
    fun (ns, rest) => some (string ((assemble ns).map String.ofList), rest) := rfl

private theorem take?_minus (rest : List Char) : take? ('-' :: rest) = (unsigned true rest).bind
    fun (n, rest) => some (number n, rest) := rfl

/-- A digit begins a number and nothing else. -/
private theorem take?_of_isDigit {c : Char} (hc : c.isDigit) (rest : List Char) :
    take? (c :: rest) = (unsigned false (c :: rest)).bind fun (n, rest) =>
      some (number n, rest) := by
  rw [take?]
  · rfl
  all_goals
    intros
    subst c
    cases hc

/-- What a token writes is read as that token. -/
theorem take?_chars {t : Token} (h : t.Proper) {rest : List Char}
    (hrest : t.isNumber → EndsNumeral rest) : take? (t.chars ++ rest) = some (t, rest) := by
  cases t with
  | openBrace | closeBrace | openBracket | closeBracket | comma | colon => rfl
  | null => rfl
  | bool b => cases b <;> rfl
  | string text =>
    cases text with
    | none => rfl
    | some text =>
      have hchars : chars (string (some text)) ++ rest =
          '"' :: (text.toList.flatMap escape ++ '"' :: rest) := by simp [chars]
      rw [hchars, take?_quote, stringBody_text]
      simp [assemble_text]
  | number n =>
    have hread := unsigned_chars h (hrest rfl)
    rw [chars, numeralChars_eq]
    cases hn : n.negative with
    | true =>
      rw [hn] at hread
      simp [take?_minus, hread]
    | false =>
      rw [hn] at hread
      obtain ⟨c, whole, hwhole⟩ := List.exists_cons_of_ne_nil h.whole.1
      have hc : c.isDigit := h.whole.2 c (hwhole ▸ List.mem_cons_self)
      rw [hwhole] at hread ⊢
      simp only [List.cons_append, List.append_assoc] at hread ⊢
      simp [take?_of_isDigit hc, hread]

/-! ## Sequences of tokens -/

/-- Tokens that can be told apart again when they are written without blanks. -/
def Apart : List Token → Prop
  | [] => True
  | t :: rest => t.Proper ∧ (t.isNumber → ∀ u ∈ rest.head?, u.isNumber = false) ∧ Apart rest

/-- No token begins with a blank, and only numbers begin with what could be a part of a number. -/
theorem exists_chars_eq_cons {t : Token} (h : t.Proper) :
    ∃ c rest, t.chars = c :: rest ∧ isBlank c = false ∧
      (t.isNumber = false → EndsNumeral (c :: rest)) := by
  cases t with
  | openBrace | closeBrace | openBracket | closeBracket | comma | colon =>
    exact ⟨_, [], rfl, by decide, by simp [EndsNumeral]⟩
  | null => exact ⟨'n', _, rfl, by decide, by simp [EndsNumeral]⟩
  | bool b =>
    cases b with
    | true => exact ⟨'t', _, rfl, by decide, by simp [EndsNumeral]⟩
    | false => exact ⟨'f', _, rfl, by decide, by simp [EndsNumeral]⟩
  | string text => cases text <;> exact ⟨'"', _, rfl, by decide, by simp [EndsNumeral]⟩
  | number n =>
    rw [chars, numeralChars_eq]
    cases hn : n.negative with
    | true => exact ⟨'-', _, rfl, by decide, by simp [isNumber]⟩
    | false =>
      obtain ⟨c, whole, hwhole⟩ := List.exists_cons_of_ne_nil h.whole.1
      have hc : c.isDigit := h.whole.2 c (hwhole ▸ List.mem_cons_self)
      have hblank : isBlank c = false := by
        rw [Bool.eq_false_iff]
        intro hblank
        simp only [isBlank, Bool.or_eq_true, decide_eq_true_eq] at hblank
        rcases hblank with ((rfl | rfl) | rfl) | rfl <;> simp at hc
      exact ⟨c, _, by rw [hwhole]; rfl, hblank, by simp [isNumber]⟩

/-- The first token is read, and then the rest. -/
theorem ofChars_append {t : Token} (h : t.Proper) {rest : List Char}
    (hrest : t.isNumber → EndsNumeral rest) :
    ofChars (t.chars ++ rest) = (t :: ·) <$> ofChars rest := by
  obtain ⟨c, more, hchars, hblank, -⟩ := exists_chars_eq_cons h
  have htake := take?_chars h hrest
  rw [hchars] at htake ⊢
  rw [List.cons_append] at htake ⊢
  rw [ofChars, if_neg (by simp [hblank])]
  split
  · next hnone => simp [htake] at hnone
  · next t' left hsome =>
    obtain ⟨rfl, rfl⟩ : t = t' ∧ rest = left := by simpa [htake] using hsome
    rfl

/-- Tokens are read as they are written. -/
theorem ofChars_flatMap {ts : List Token} (h : Apart ts) :
    ofChars (ts.flatMap chars) = some ts := by
  induction ts with
  | nil => simp [ofChars]
  | cons t ts ih =>
    obtain ⟨hproper, hnext, hrest⟩ := h
    rw [List.flatMap_cons, ofChars_append hproper, ih hrest]
    · rfl
    · intro hnumber
      cases ts with
      | nil => simp [EndsNumeral]
      | cons u ts =>
        obtain ⟨c, more, hchars, -, hends⟩ := exists_chars_eq_cons hrest.1
        have hu := hends (hnext hnumber u rfl)
        rw [List.flatMap_cons, hchars]
        exact hu

end Token

end DialARide
