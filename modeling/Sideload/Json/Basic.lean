import Sideload.Fields

/-! # JSON values

A JSON value whose objects keep the order in which their members were written. A number is an
integer of the range that 64 bits hold with or without a sign, or a double; the two kinds never
mix, `1` and `1.0` are different values. -/

namespace Sideload

/-- A JSON number: an integer or a double. -/
inductive Json.Number where
  | integer (n : Int)
  | double (x : Float)

/-- A JSON value. Object members are in written order, without repeated names. -/
inductive Json where
  | null
  | bool (b : Bool)
  | number (n : Json.Number)
  | string (s : String)
  | array (items : List Json)
  | object (members : List (String × Json))

namespace Json

instance : Inhabited Json := ⟨null⟩

/-- An integer as a JSON value. -/
def int (n : Int) : Json := number (.integer n)

/-- The member of an object. -/
def get? : Json → String → Option Json
  | object members, name => Fields.get? members name
  | _, _ => none

end Json

end Sideload
