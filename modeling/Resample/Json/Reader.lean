import Resample.Json.Basic
import Resample.Json.Quoted

/-!
# Reading JSON

A text is cut into tokens, and a value is read from the tokens by recursive descent. A text is a value
with blanks around it and nothing else.
-/

namespace Resample.Json

/-! ## §1 Tokens -/

/-- A token of a JSON text. -/
inductive Token where
  | openBrace
  | closeBrace
  | openBracket
  | closeBracket
  | colon
  | comma
  /-- A value that is a token of its own: a string, a number or one of the three words. -/
  | scalar (value : Json)

/-- The tokens that are single characters. -/
def Token.ofPunctuation? (c : Char) : Option Token :=
  if c = '\x7b' then some .openBrace
  else if c = '\x7d' then some .closeBrace
  else if c = '[' then some .openBracket
  else if c = ']' then some .closeBracket
  else if c = ':' then some .colon
  else if c = ',' then some .comma
  else none

/-- Blanks between tokens. -/
def isBlank (c : Char) : Bool := c = ' ' || c = '\t' || c = '\n' || c = '\r'

/-- Characters of numbers and words. -/
def isWordPart (c : Char) : Bool := c.isAlphanum || c = '+' || c = '-' || c = '.'

/-- Whether a text is one or more digits. -/
def isDigits (text : List Char) : Bool := !text.isEmpty && text.all Char.isDigit

/-- Whether a text is a whole part: zero, or digits of which the first is not zero. -/
def isWholePart (text : List Char) : Bool :=
  isDigits text && (text.length = 1 || text.head? != some '0')

/-- Whether a text is an exponent: its mark, a sign or none, and digits. -/
def isExponent : List Char → Bool
  | mark :: rest =>
    (mark = 'e' || mark = 'E') &&
      match rest with
      | '+' :: digits | '-' :: digits => isDigits digits
      | digits => isDigits digits
  | [] => false

/-- The number that a word is, if it is one. -/
def ofNumeral? (word : List Char) : Option Json :=
  let (negative, unsigned) := match word with
    | '-' :: rest => (true, rest)
    | _ => (false, word)
  let whole := unsigned.takeWhile Char.isDigit
  let tail := unsigned.dropWhile Char.isDigit
  if !isWholePart whole then none
  else
    match tail with
    | [] =>
      let n : Nat := whole.foldl (fun n c => 10 * n + (c.toNat - '0'.toNat)) 0
      -- a negative zero is no integer
      if negative && n = 0 then some (.numeral (String.ofList word))
      else some (.integer (if negative then -(n : Int) else n))
    | '.' :: rest =>
      let fraction := rest.takeWhile Char.isDigit
      let exponent := rest.dropWhile Char.isDigit
      if isDigits fraction && (exponent.isEmpty || isExponent exponent) then
        some (.numeral (String.ofList word))
      else none
    | exponent => if isExponent exponent then some (.numeral (String.ofList word)) else none

/-- The value that a word is. -/
def ofWord? (word : List Char) : Option Json :=
  if word = ['n', 'u', 'l', 'l'] then some .null
  else if word = ['t', 'r', 'u', 'e'] then some (.bool true)
  else if word = ['f', 'a', 'l', 's', 'e'] then some (.bool false)
  else ofNumeral? word

/-- The tokens of a text. -/
def tokens? (text : List Char) : Option (List Token) :=
  match text with
  | [] => some []
  | c :: rest =>
    if isBlank c then tokens? rest
    else if c = '"' then
      match h : Quoted.split rest with
      | none => none
      | some (body, after) =>
        have : after.length < rest.length := Quoted.split_length_lt h
        do
          let value ← Quoted.decode body
          return .scalar (.string (String.ofList value)) :: (← tokens? after)
    else
      match Token.ofPunctuation? c with
      | some token => (tokens? rest).map (token :: ·)
      | none =>
        have : (rest.dropWhile isWordPart).length ≤ rest.length :=
          (List.dropWhile_sublist isWordPart).length_le
        -- a word ends where the first character stands that is in no word
        if isWordPart c then do
          let value ← ofWord? (c :: rest.takeWhile isWordPart)
          return .scalar value :: (← tokens? (rest.dropWhile isWordPart))
        else none
termination_by text.length

/-! ## §2 Values -/

/-- What is read, with the tokens that are left: fewer than `count`. -/
abbrev Reading (α : Type) (count : Nat) := α × { rest : List Token // rest.length < count }

/-- A reading of fewer tokens as a reading of more. -/
def Reading.widen {α : Type} {m n : Nat} (h : m ≤ n) (r : Reading α m) : Reading α n :=
  (r.1, ⟨r.2.1, Nat.lt_of_lt_of_le r.2.2 h⟩)

/-- Arrays and objects are nested no deeper than this. -/
def maxDepth : Nat := 127

mutual

/-- Reads a value that may hold values down to the given depth. -/
def value? (depth : Nat) (tokens : List Token) : Option (Reading Json tokens.length) :=
  match tokens with
  | .scalar value :: rest => some (value, ⟨rest, Nat.lt_succ_self _⟩)
  -- an empty array or object is as deep as any other
  | .openBracket :: .closeBracket :: rest =>
    if depth = 0 then none
    else some (.array [], ⟨rest, Nat.lt_succ_of_lt (Nat.lt_succ_self _)⟩)
  | .openBrace :: .closeBrace :: rest =>
    if depth = 0 then none
    else some (.object [], ⟨rest, Nat.lt_succ_of_lt (Nat.lt_succ_self _)⟩)
  | .openBracket :: rest =>
    if depth = 0 then none
    else do
      let (items, left) ← items? (depth - 1) rest
      return Reading.widen (Nat.le_succ _) (.array items, left)
  | .openBrace :: rest =>
    if depth = 0 then none
    else do
      let (members, left) ← members? (depth - 1) rest
      return Reading.widen (Nat.le_succ _) (.object members, left)
  | _ => none
termination_by (tokens.length, 0)

/-- Reads the items of an array, of which there is at least one, and the bracket that closes it. -/
def items? (depth : Nat) (tokens : List Token) : Option (Reading (List Json) tokens.length) := do
  let (first, ⟨rest, hrest⟩) ← value? depth tokens
  match rest, hrest with
  | .closeBracket :: after, h => return ([first], ⟨after, Nat.lt_of_succ_lt h⟩)
  | .comma :: after, h => do
    let (others, ⟨left, hleft⟩) ← items? depth after
    return (first :: others, ⟨left, Nat.lt_trans hleft (Nat.lt_of_succ_lt h)⟩)
  | _, _ => none
termination_by (tokens.length, 1)
decreasing_by
  · exact Prod.Lex.right _ (by decide)
  · exact Prod.Lex.left _ _ (Nat.lt_of_succ_lt h)

/-- Reads the members of an object, of which there is at least one, and the brace that closes it. -/
def members? (depth : Nat) (tokens : List Token) :
    Option (Reading (List (String × Json)) tokens.length) :=
  match tokens with
  | .scalar (.string key) :: .colon :: tail => do
    let (first, ⟨rest, hrest⟩) ← value? depth tail
    match rest, hrest with
    | .closeBrace :: after, h =>
      return ([(key, first)], ⟨after, by simp only [List.length_cons] at h ⊢; omega⟩)
    | .comma :: after, h => do
      let (others, ⟨left, hleft⟩) ← members? depth after
      return ((key, first) :: others, ⟨left, by simp only [List.length_cons] at h ⊢; omega⟩)
    | _, _ => none
  | _ => none
termination_by (tokens.length, 1)
decreasing_by
  · exact Prod.Lex.left _ _ (Nat.lt_succ_of_lt (Nat.lt_succ_self _))
  · exact Prod.Lex.left _ _ (by simp only [List.length_cons] at h ⊢; omega)

end

/-- The value that a text is. -/
def read? (text : String) : Option Json := do
  let tokens ← tokens? text.toList
  let (value, ⟨rest, _⟩) ← value? maxDepth tokens
  if rest.isEmpty then some value else none

end Resample.Json
