import Resample.Size.Token

/-!
# Values of size expressions

An expression is a sum of products of factors; a factor is a number, a variable, a factor with a sign
or an expression in parentheses. Operators of one kind group from the left. Each reader below takes
the tokens of one such phrase from the front of a list and gives its value with the tokens that are
left, which are always fewer.
-/

namespace Resample.Size

/-- The value of each variable, by name. -/
abbrev Environment := String → Option Double

/-- A value with the tokens that were left when it was read: fewer than `count`. -/
abbrev Reading (count : Nat) := Double × { rest : List Token // rest.length < count }

/-- A reading of fewer tokens as a reading of more. -/
def Reading.widen {m n : Nat} (h : m ≤ n) (r : Reading m) : Reading n :=
  (r.1, ⟨r.2.1, Nat.lt_of_lt_of_le r.2.2 h⟩)

mutual

/-- Reads a factor. -/
def factor (env : Environment) (tokens : List Token) : Except ExprError (Reading tokens.length) :=
  match tokens with
  | [] => .error .unexpectedEnd
  | .number value :: rest => .ok (value, ⟨rest, Nat.lt_succ_self _⟩)
  | .name text :: rest =>
    match env text with
    | some value => .ok (value, ⟨rest, Nat.lt_succ_self _⟩)
    | none => .error (.unknownVariable text)
  | .operator .minus :: rest => do
    let r ← factor env rest
    return Reading.widen (Nat.le_succ _) (-r.1, r.2)
  | .operator .plus :: rest => do
    let r ← factor env rest
    return r.widen (Nat.le_succ _)
  | .opening :: rest => do
    let (value, ⟨left, hleft⟩) ← sum env rest
    -- a parenthesis that is missing is reported only after a sum was read
    match left, hleft with
    | .closing :: after, hafter =>
      return (value, ⟨after, Nat.lt_succ_of_lt (Nat.lt_of_succ_lt hafter)⟩)
    | _, _ => throw .missingParenthesis
  | .operator op :: _ => .error (.unexpectedOperator op)
  | .closing :: _ => .error .unexpectedClosing
termination_by (tokens.length, 0)

/-- Reads a product. -/
def product (env : Environment) (tokens : List Token) : Except ExprError (Reading tokens.length) := do
  let (value, ⟨rest, hrest⟩) ← factor env tokens
  let r ← productFrom env value rest
  return r.widen hrest
termination_by (tokens.length, 1)

/-- Multiplies and divides a value by the factors that follow. -/
def productFrom (env : Environment) (value : Double) (tokens : List Token) :
    Except ExprError (Reading (tokens.length + 1)) :=
  match tokens with
  | .operator .times :: rest => do
    let (factor, ⟨left, hleft⟩) ← factor env rest
    let r ← productFrom env (value * factor) left
    return r.widen (by simp only [List.length_cons]; omega)
  | .operator .divide :: rest => do
    let (divisor, ⟨left, hleft⟩) ← factor env rest
    -- a quotient by zero would be infinite, but is refused by its own name
    if divisor.isZero then throw .divisionByZero
    let r ← productFrom env (value / divisor) left
    return r.widen (by simp only [List.length_cons]; omega)
  | other => .ok (value, ⟨other, Nat.lt_succ_self _⟩)
termination_by (tokens.length, 0)

/-- Reads a sum. -/
def sum (env : Environment) (tokens : List Token) : Except ExprError (Reading tokens.length) := do
  let (value, ⟨rest, hrest⟩) ← product env tokens
  let r ← sumFrom env value rest
  return r.widen hrest
termination_by (tokens.length, 2)

/-- Adds to a value, and subtracts from it, the products that follow. -/
def sumFrom (env : Environment) (value : Double) (tokens : List Token) :
    Except ExprError (Reading (tokens.length + 1)) :=
  match tokens with
  | .operator .plus :: rest => do
    let (term, ⟨left, hleft⟩) ← product env rest
    let r ← sumFrom env (value + term) left
    return r.widen (by simp only [List.length_cons]; omega)
  | .operator .minus :: rest => do
    let (term, ⟨left, hleft⟩) ← product env rest
    let r ← sumFrom env (value - term) left
    return r.widen (by simp only [List.length_cons]; omega)
  | other => .ok (value, ⟨other, Nat.lt_succ_self _⟩)
termination_by (tokens.length, 0)

end

/-- Values beyond this magnitude are no sizes. -/
def valueLimit : Nat := 0x4000000000000000

/-- The value of an expression, as a whole number. The fraction is dropped. -/
def evaluate (env : Environment) (text : String) : Except ExprError Int := do
  let tokens ← Token.tokenize text
  let (value, ⟨rest, _⟩) ← sum env tokens
  if ¬ rest.isEmpty then throw .trailingInput
  match value.truncate? with
  | none => throw .notFinite
  | some whole =>
    if (Binary.ofNat valueLimit).lt value || value.lt (-Binary.ofNat valueLimit) then
      throw .outOfRange
    return whole

end Resample.Size
