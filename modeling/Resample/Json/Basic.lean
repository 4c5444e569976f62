/-!
# JSON values

A value of the JSON data format. The members of an object keep their order, and a key may occur more
than once.
-/

namespace Resample

/-- A JSON value. -/
inductive Json where
  | null
  | bool (value : Bool)
  /-- A number written without point and exponent. -/
  | integer (value : Int)
  /-- Any other number, as it is written. -/
  | numeral (text : String)
  | string (value : String)
  | array (items : List Json)
  | object (members : List (String × Json))

namespace Json

instance : Inhabited Json := ⟨null⟩

/-- A natural number as a value. -/
def natural (n : Nat) : Json := .integer n

end Json

end Resample
