import Sideload.Decimal.Integer
import Sideload.Json.Basic

/-! # Places in a JSON value

A place is written as a JSON Pointer: a slash before every member name or item number on the way
down. In names a tilde is written `~0` and a slash `~1`, so that every name can be told apart from
the way that goes on. -/

namespace Sideload.Json.Place

/-- A member name or an item number on the way down. -/
def escape (name : String) : String :=
  String.ofList (name.toList.flatMap fun c =>
    if c = '~' then ['~', '0'] else if c = '/' then ['~', '1'] else [c])

/-- The place of a member. -/
def member (place name : String) : String := place ++ "/" ++ escape name

/-- The place of an item. -/
def item (place : String) (i : Nat) : String := place ++ "/" ++ Decimal.integerText i

end Sideload.Json.Place
