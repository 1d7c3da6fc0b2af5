import DialARide.Json.Printer
import DialARide.Json.Reader
import DialARide.Proofs.Json.Token

/-!
# Values read back

The tokens of a value take the reader from wanting a value to having that value complete, whatever
is unfinished around it. In what a value writes no two numbers meet, so its text is read as that
value.
-/

namespace DialARide

namespace Json

open Token (Apart)

/-- A value that can be written: every number in it is. -/
inductive Proper : Json → Prop
  | null : Proper null
  | bool (b : Bool) : Proper (bool b)
  | number {n : Numeral} : n.Proper → Proper (number n)
  | string (text : Option String) : Proper (string text)
  | array {items : List Json} : (∀ v ∈ items, v.Proper) → Proper (array items)
  | object {members : List (Option String × Json)} : (∀ m ∈ members, m.2.Proper) →
      Proper (object members)

theorem proper_nat (n : Nat) : (nat n).Proper := .number (Numeral.proper_ofNat n)

/-! ## Tokens in a row -/

/-- Tokens that may follow a value, even if that is a number. -/
def Follows (rest : List Token) : Prop := Apart rest ∧ ∀ u ∈ rest.head?, u.isNumber = false

theorem Follows.cons {t : Token} {rest : List Token} (ht : t.isNumber = false) (h : Apart rest) :
    Follows (t :: rest) := by
  refine ⟨⟨?_, by simp [ht], h⟩, by simpa using ht⟩
  cases t with
  | number n => cases ht
  | _ => trivial

private theorem apart_moreItems {items : List Json} {rest : List Token}
    (hitems : ∀ v ∈ items, ∀ rest, Follows rest → Apart (v.tokens ++ rest)) (h : Follows rest) :
    Follows (moreItems items ++ rest) := by
  induction items with
  | nil => exact h
  | cons v items ih =>
    have hrest := ih fun u hu => hitems u (List.mem_cons_of_mem v hu)
    have hfirst := hitems v List.mem_cons_self _ hrest
    rw [moreItems, List.append_assoc]
    exact .cons rfl hfirst

private theorem apart_moreMembers {members : List (Option String × Json)} {rest : List Token}
    (hmembers : ∀ m ∈ members, ∀ rest, Follows rest → Apart (m.2.tokens ++ rest))
    (h : Follows rest) : Follows (moreMembers members ++ rest) := by
  induction members with
  | nil => exact h
  | cons m members ih =>
    have hrest := ih fun u hu => hmembers u (List.mem_cons_of_mem m hu)
    have hfirst := hmembers m List.mem_cons_self _ hrest
    rw [moreMembers, List.append_assoc]
    exact .cons rfl (Follows.cons rfl (Follows.cons rfl hfirst).1).1

/-- In what a value writes no two numbers meet. -/
theorem Proper.apart {v : Json} (h : v.Proper) {rest : List Token} (hrest : Follows rest) :
    Apart (v.tokens ++ rest) := by
  induction h generalizing rest with
  | null => exact (Follows.cons rfl hrest.1).1
  | bool b => exact (Follows.cons rfl hrest.1).1
  | string text => exact (Follows.cons rfl hrest.1).1
  | number hn => exact ⟨hn, fun _ => hrest.2, hrest.1⟩
  | @array items hitems ih =>
    have hclose : Follows (.closeBracket :: rest) := .cons rfl hrest.1
    cases items with
    | nil => exact (Follows.cons rfl hclose.1).1
    | cons v items =>
      have hmore := apart_moreItems (fun u hu rest => ih u (List.mem_cons_of_mem v hu)) hclose
      have hfirst := ih v List.mem_cons_self hmore
      simpa [tokens] using (Follows.cons (t := .openBracket) rfl hfirst).1
  | @object members hmembers ih =>
    have hclose : Follows (.closeBrace :: rest) := .cons rfl hrest.1
    cases members with
    | nil => exact (Follows.cons rfl hclose.1).1
    | cons m members =>
      have hmore := apart_moreMembers (fun u hu rest => ih u (List.mem_cons_of_mem m hu)) hclose
      have hfirst := Follows.cons (t := .colon) rfl (ih m List.mem_cons_self hmore)
      have hkey := Follows.cons (t := .string m.1) rfl hfirst.1
      simpa [tokens] using (Follows.cons (t := .openBrace) rfl hkey.1).1

/-! ## Reading -/

namespace Progress

variable {stack : List Frame}

theorem run_cons (p : Progress) (t : Token) (rest : List Token) :
    p.run (t :: rest) = (p.next t).bind (run · rest) := rfl

/-- A value does not begin with the end of an array. -/
private theorem run_firstItem (v : Json) (rest : List Token) :
    (firstItem stack).run (v.tokens ++ rest) =
      (value (.array [] :: stack)).run (v.tokens ++ rest) := by
  cases v with
  | null | bool | number | string => rfl
  | array items => cases items <;> rfl
  | object members => cases members <;> rfl

mutual

/-- The tokens of a value make the value complete. -/
theorem run_tokens (v : Json) (stack : List Frame) (rest : List Token) :
    (value stack).run (v.tokens ++ rest) = (complete stack v).run rest := by
  cases v with
  | null | bool | number | string => rfl
  | array items =>
    cases items with
    | nil => rfl
    | cons v items =>
      have htokens : (array (v :: items)).tokens ++ rest =
          .openBracket :: (v.tokens ++ (moreItems items ++ .closeBracket :: rest)) := by
        simp [tokens]
      rw [htokens, run_cons]
      show (firstItem stack).run _ = _
      rw [run_firstItem, run_tokens v, run_moreItems items [] v]
      rfl
  | object members =>
    cases members with
    | nil => rfl
    | cons m members =>
      have htokens : (object (m :: members)).tokens ++ rest = .openBrace :: .string m.1 :: .colon ::
          (m.2.tokens ++ (moreMembers members ++ .closeBrace :: rest)) := by
        simp [tokens]
      rw [htokens, run_cons]
      show (value (.object [] m.1 :: stack)).run _ = _
      rw [run_tokens m.2, run_moreMembers members [] m.1 m.2]
      rfl

/-- Further items are put behind those that were read before. -/
private theorem run_moreItems (items before : List Json) (v : Json) (stack : List Frame)
    (rest : List Token) :
    (complete (.array before :: stack) v).run (moreItems items ++ .closeBracket :: rest) =
      (complete stack (.array (before.reverse ++ v :: items))).run rest := by
  cases items with
  | nil =>
    show (complete stack (.array (v :: before).reverse)).run rest = _
    rw [List.reverse_cons]
  | cons w items =>
    have htokens : moreItems (w :: items) ++ .closeBracket :: rest =
        .comma :: (w.tokens ++ (moreItems items ++ .closeBracket :: rest)) := by
      simp [moreItems]
    rw [htokens, run_cons]
    show (value (.array (v :: before) :: stack)).run _ = _
    rw [run_tokens w, run_moreItems items (v :: before) w, List.reverse_cons, List.append_assoc]
    rfl

/-- Further members are put behind those that were read before. -/
private theorem run_moreMembers (members before : List (Option String × Json)) (key : Option String)
    (v : Json) (stack : List Frame) (rest : List Token) :
    (complete (.object before key :: stack) v).run (moreMembers members ++ .closeBrace :: rest) =
      (complete stack (.object (before.reverse ++ (key, v) :: members))).run rest := by
  cases members with
  | nil =>
    show (complete stack (.object ((key, v) :: before).reverse)).run rest = _
    rw [List.reverse_cons]
  | cons m members =>
    have htokens : moreMembers (m :: members) ++ .closeBrace :: rest =
        .comma :: .string m.1 :: .colon ::
          (m.2.tokens ++ (moreMembers members ++ .closeBrace :: rest)) := by
      simp [moreMembers]
    rw [htokens, run_cons]
    show (value (.object ((key, v) :: before) m.1 :: stack)).run _ = _
    rw [run_tokens m.2, run_moreMembers members ((key, v) :: before) m.1 m.2, List.reverse_cons,
      List.append_assoc]
    rfl

end

end Progress

theorem ofTokens?_tokens (v : Json) : ofTokens? v.tokens = some v := by
  have hrun := Progress.run_tokens v [] []
  rw [List.append_nil] at hrun
  rw [ofTokens?, hrun]
  rfl

/-- What is written of a value is read as that value. -/
theorem ofText?_text {v : Json} (h : v.Proper) : ofText? v.text = some v := by
  have hapart := @Proper.apart v h [] ⟨trivial, by simp⟩
  rw [List.append_nil] at hapart
  rw [ofText?, text, String.toList_ofList, Token.ofChars_flatMap hapart]
  exact ofTokens?_tokens v

end Json

end DialARide
