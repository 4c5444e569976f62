import Resample.Json.Basic
import Resample.Json.Quoted

/-!
# Printing JSON

Values over several lines: each item of an array and each member of an object stands on a line of its
own, indented by two blanks more than the line of the bracket. Empty arrays and objects stand on one
line.
-/

namespace Resample.Json

/-- The start of a line at a depth of nesting. -/
def newline (depth : Nat) : String := "\n" ++ String.ofList (List.replicate (2 * depth) ' ')

mutual

/-- A value, on lines of the given depth. -/
def printAt (depth : Nat) : Json → String
  | null => "null"
  | bool value => if value then "true" else "false"
  | integer value => toString value
  | numeral text => text
  | string value => Quoted.encode value
  | array [] => "[]"
  | array (item :: items) =>
    "[" ++ newline (depth + 1) ++ printAt (depth + 1) item ++ printItems (depth + 1) items ++
      newline depth ++ "]"
  | object [] => "\x7b\x7d"
  | object ((key, value) :: members) =>
    "\x7b" ++ newline (depth + 1) ++ Quoted.encode key ++ ": " ++ printAt (depth + 1) value ++
      printMembers (depth + 1) members ++ newline depth ++ "\x7d"

/-- The items of an array after the first one. -/
def printItems (depth : Nat) : List Json → String
  | [] => ""
  | item :: items => "," ++ newline depth ++ printAt depth item ++ printItems depth items

/-- The members of an object after the first one. -/
def printMembers (depth : Nat) : List (String × Json) → String
  | [] => ""
  | (key, value) :: members =>
    "," ++ newline depth ++ Quoted.encode key ++ ": " ++ printAt depth value ++
      printMembers depth members

end

/-- A value over several lines. -/
def print (value : Json) : String := printAt 0 value

end Resample.Json
