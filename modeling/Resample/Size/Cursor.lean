import Resample.Size.Token

/-!
# Tokens by byte positions

A text is kept in bytes, and a character may take several of them. Here a size expression is read with a cursor over
its characters, of which each is known with the byte where it begins. The texts of numbers and names are cut out of
the bytes. A cut that goes through a character, or ends before it begins, has no answer.
-/

namespace Resample

namespace Text

/-- The part of a text from one byte up to another one. -/
def slice? (text : String) (first last : Nat) : Option String :=
  if first ≤ last ∧ String.Pos.Raw.IsValid text ⟨first⟩ ∧ String.Pos.Raw.IsValid text ⟨last⟩ then
    some (String.Pos.Raw.extract text ⟨first⟩ ⟨last⟩)
  else none

/-- Characters with the bytes at which they begin, from a given byte on. -/
def positions (first : Nat) : List Char → List (Nat × Char)
  | [] => []
  | c :: rest => (first, c) :: positions (first + c.utf8Size) rest

end Text

namespace Size.Token

/-- Moves the cursor over characters of one kind. Gives the byte behind the last one, or the given byte if there is
none, and what the cursor has not passed. -/
def advance (p : Char → Bool) (last : Nat) : List (Nat × Char) → Nat × List (Nat × Char)
  | [] => (last, [])
  | (i, c) :: rest => if p c then advance p (i + c.utf8Size) rest else (last, (i, c) :: rest)

/-- Helper: the cursor does not go back. -/
theorem length_advance_le (p : Char → Bool) (last : Nat) (chars : List (Nat × Char)) :
    (advance p last chars).2.length ≤ chars.length := by
  induction chars generalizing last with
  | nil => exact Nat.le_refl _
  | cons char rest ih =>
    rw [advance]
    by_cases hp : p char.2
    · rw [if_pos hp]
      exact Nat.le_succ_of_le (ih _)
    · simp only [if_neg hp, Nat.le_refl]

/-- The cursor passes the character that it looks at. -/
theorem length_advance_lt {p : Char → Bool} {c : Char} (hp : p c) (last i : Nat) (rest : List (Nat × Char)) :
    (advance p last ((i, c) :: rest)).2.length < rest.length + 1 := by
  rw [advance, if_pos hp]
  exact Nat.lt_succ_of_le (length_advance_le ..)

/-- The tokens that were found, with those of what the cursor has not passed. -/
def readFrom (text : String) (chars : List (Nat × Char)) (found : List Token) :
    Option (Except ExprError (List Token)) :=
  match chars with
  | [] => some (.ok found)
  | (i, c) :: rest =>
    if Text.isBlank c then readFrom text rest found
    else if isNumeral c then do
      let stop := advance isNumeral i ((i, c) :: rest)
      let run ← Text.slice? text i stop.1
      match Decimal.binary? run.toList with
      | none => some (.error (.badNumber run))
      | some value => readFrom text stop.2 (found ++ [Token.number value])
    else if isNameStart c then do
      let stop := advance isNamePart i ((i, c) :: rest)
      let name ← Text.slice? text i stop.1
      readFrom text stop.2 (found ++ [Token.name name])
    else
      match ofSymbol? c with
      | some token => readFrom text rest (found ++ [token])
      | none => some (.error (.unexpectedCharacter c))
termination_by chars.length
decreasing_by
  · exact Nat.lt_succ_self _
  · exact length_advance_lt ‹isNumeral c› ..
  · exact length_advance_lt (isNamePart_of_isNameStart ‹isNameStart c›) ..
  · exact Nat.lt_succ_self _

/-- The tokens of an expression, of which there is at least one. -/
def guardedTokenize (text : String) : Option (Except ExprError (List Token)) := do
  match ← readFrom text (Text.positions 0 text.toList) [] with
  | .error reason => some (.error reason)
  | .ok found => some (if found.isEmpty then .error .empty else .ok found)

end Size.Token

end Resample
