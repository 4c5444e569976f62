import Resample.Number.Decimal
import Resample.Text.Blank

/-!
# Tokens of size expressions

A size expression is read into tokens first: numbers, names, the four operators and parentheses.
Blanks separate tokens and are dropped. Numbers and names are as long as they can be.
-/

namespace Resample.Size

/-- The arithmetic operators. -/
inductive Operator where
  | plus
  | minus
  | times
  | divide
deriving DecidableEq, Repr

/-- The character that stands for an operator. -/
def Operator.symbol : Operator → Char
  | plus => '+'
  | minus => '-'
  | times => '*'
  | divide => '/'

/-- A token of a size expression. -/
inductive Token where
  | number (value : Double)
  | name (text : String)
  | operator (op : Operator)
  | opening
  | closing
deriving DecidableEq, Repr

/-- Why an expression has no value. -/
inductive ExprError where
  | badNumber (run : String)
  | unexpectedCharacter (c : Char)
  | empty
  | divisionByZero
  | unknownVariable (name : String)
  | missingParenthesis
  /-- An operator or a closing parenthesis where a value is due. -/
  | unexpectedOperator (op : Operator)
  | unexpectedClosing
  | unexpectedEnd
  | trailingInput
  | notFinite
  | outOfRange
deriving DecidableEq, Repr

/-- The reason in words. -/
def ExprError.message : ExprError → String
  | badNumber run => s!"bad number '{run}'"
  | unexpectedCharacter c => s!"unexpected character '{c}'"
  | empty => "empty expression"
  | divisionByZero => "division by zero"
  | unknownVariable name => s!"unknown variable '{name}'"
  | missingParenthesis => "missing ')'"
  | unexpectedOperator op => s!"unexpected Op('{op.symbol}')"
  | unexpectedClosing => "unexpected Close"
  | unexpectedEnd => "unexpected end of expression"
  | trailingInput => "trailing input"
  | notFinite => "result is not finite"
  | outOfRange => "result out of range"

namespace Token

/-- Characters of numbers. -/
def isNumeral (c : Char) : Bool := c.isDigit || c = '.'

/-- First characters of names. -/
def isNameStart (c : Char) : Bool := c.isAlpha || c = '_'

/-- Characters of names. -/
def isNamePart (c : Char) : Bool := c.isAlphanum || c = '_'

theorem isNamePart_of_isNameStart {c : Char} (h : isNameStart c) : isNamePart c := by
  simp only [isNameStart, isNamePart, Char.isAlphanum, Bool.or_eq_true] at h ⊢
  exact h.imp_left .inl

/-- The tokens that are single characters. -/
def ofSymbol? : Char → Option Token
  | '+' => some (.operator .plus)
  | '-' => some (.operator .minus)
  | '*' => some (.operator .times)
  | '/' => some (.operator .divide)
  | '(' => some .opening
  | ')' => some .closing
  | _ => none

/-- Helper: what is left of a text is no longer than the text. -/
private theorem length_dropWhile_le (p : Char → Bool) (text : List Char) :
    (text.dropWhile p).length ≤ text.length :=
  (List.dropWhile_sublist p).length_le

/-- The tokens of a text, of which there may be none. -/
def scan (text : List Char) : Except ExprError (List Token) :=
  match text with
  | [] => .ok []
  | c :: rest =>
    if Text.isBlank c then scan rest
    else if isNumeral c then
      -- all digits and dots in a row are one number, or none
      let run := c :: rest.takeWhile isNumeral
      match Decimal.binary? run with
      | none => .error (.badNumber (String.ofList run))
      | some value => do return .number value :: (← scan (rest.dropWhile isNumeral))
    else if isNameStart c then do
      let text := String.ofList (c :: rest.takeWhile isNamePart)
      return .name text :: (← scan (rest.dropWhile isNamePart))
    else
      match ofSymbol? c with
      | some token => do return token :: (← scan rest)
      | none => .error (.unexpectedCharacter c)
termination_by text.length
decreasing_by
  all_goals
    first
      | exact Nat.lt_succ_self _
      | exact Nat.lt_succ_of_le (length_dropWhile_le _ _)

/-- The tokens of an expression, of which there is at least one. -/
def tokenize (text : String) : Except ExprError (List Token) := do
  let tokens ← scan text.toList
  if tokens.isEmpty then throw .empty
  return tokens

end Token

end Resample.Size
