/-!
# Quoted JSON strings

A string is written between quotes. A quote, a backslash and the control characters are written with a
backslash; reading also takes the escapes that writing does not use, and pairs of surrogates.
-/

namespace Resample.Json.Quoted

/-! ## §1 Writing -/

/-- A hexadecimal digit. -/
def hexDigit (n : Nat) : Char :=
  if n < 10 then Char.ofNat ('0'.toNat + n) else Char.ofNat ('a'.toNat + (n - 10))

/-- A character as it is written. -/
def encodeChar (c : Char) : List Char :=
  if c = '"' then ['\\', '"']
  else if c = '\\' then ['\\', '\\']
  else if c = '\x08' then ['\\', 'b']
  else if c = '\x0c' then ['\\', 'f']
  else if c = '\n' then ['\\', 'n']
  else if c = '\r' then ['\\', 'r']
  else if c = '\t' then ['\\', 't']
  else if c.toNat < 0x20 then ['\\', 'u', '0', '0', hexDigit (c.toNat / 16), hexDigit (c.toNat % 16)]
  else [c]

/-- A string between quotes. -/
def encode (s : String) : String :=
  String.ofList ('"' :: s.toList.flatMap encodeChar ++ ['"'])

/-! ## §2 Reading -/

/-- Splits a text after its opening quote into what stands before the closing quote, escapes and all,
and what stands behind it. -/
def split : List Char → Option (List Char × List Char)
  | [] => none
  | '"' :: rest => some ([], rest)
  | '\\' :: c :: rest => (split rest).map fun (body, after) => ('\\' :: c :: body, after)
  | c :: rest => (split rest).map fun (body, after) => (c :: body, after)

theorem split_length_lt {text body after : List Char} (h : split text = some (body, after)) :
    after.length < text.length := by
  fun_induction split text generalizing body with
  | case1 => cases h
  | case2 rest => cases h; exact Nat.lt_succ_self _
  | case3 c rest ih =>
    obtain ⟨⟨b, a⟩, hsplit, heq⟩ := Option.map_eq_some_iff.1 h
    cases heq
    exact Nat.lt_succ_of_lt (Nat.lt_succ_of_lt (ih hsplit))
  | case4 c rest _ _ ih =>
    obtain ⟨⟨b, a⟩, hsplit, heq⟩ := Option.map_eq_some_iff.1 h
    cases heq
    exact Nat.lt_succ_of_lt (ih hsplit)

/-- The value of a hexadecimal digit. -/
def hexValue? (c : Char) : Option Nat :=
  if '0' ≤ c ∧ c ≤ '9' then some (c.toNat - '0'.toNat)
  else if 'a' ≤ c ∧ c ≤ 'f' then some (c.toNat - 'a'.toNat + 10)
  else if 'A' ≤ c ∧ c ≤ 'F' then some (c.toNat - 'A'.toNat + 10)
  else none

/-- The value of four hexadecimal digits. -/
def unit? (a b c d : Char) : Option Nat := do
  return (((← hexValue? a) * 16 + (← hexValue? b)) * 16 + (← hexValue? c)) * 16 + (← hexValue? d)

/-- The character of an escape of one letter. -/
def escape? : Char → Option Char
  | '"' => some '"'
  | '\\' => some '\\'
  | '/' => some '/'
  | 'b' => some '\x08'
  | 'f' => some '\x0c'
  | 'n' => some '\n'
  | 'r' => some '\r'
  | 't' => some '\t'
  | _ => none

/-- The character of one 16-bit unit that is no surrogate. -/
def ofUnit? (u : Nat) : Option Char :=
  if u < 0xD800 ∨ 0xE000 ≤ u then some (Char.ofNat u) else none

/-- The character of a pair of surrogates. -/
def ofPair? (high low : Nat) : Option Char :=
  if 0xD800 ≤ high ∧ high < 0xDC00 ∧ 0xDC00 ≤ low ∧ low < 0xE000 then
    some (Char.ofNat (0x10000 + (high - 0xD800) * 0x400 + (low - 0xDC00)))
  else none

/-- The characters that the text between two quotes stands for. -/
def decode : List Char → Option (List Char)
  | [] => some []
  | '\\' :: 'u' :: a :: b :: c :: d :: '\\' :: 'u' :: e :: f :: g :: h :: rest => do
    -- the first unit may be a character of its own, and then the second escape is read again
    let first ← unit? a b c d
    match ofUnit? first with
    | some char =>
      let tail ← decode ('\\' :: 'u' :: e :: f :: g :: h :: rest)
      return char :: tail
    | none =>
      let char ← ofPair? first (← unit? e f g h)
      return char :: (← decode rest)
  | '\\' :: 'u' :: a :: b :: c :: d :: rest => do
    let char ← ofUnit? (← unit? a b c d)
    return char :: (← decode rest)
  | '\\' :: c :: rest => do
    let char ← escape? c
    return char :: (← decode rest)
  | c :: rest =>
    if c.toNat < 0x20 ∨ c = '\\' then none
    else do return c :: (← decode rest)

end Resample.Json.Quoted
