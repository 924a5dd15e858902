/-!
JSON values.
-/

namespace PubSweep

/-- A JSON value.  A number is `mantissa * 10 ^ (-exponent)`; the members of an object are in the
order in which they are written. -/
inductive Json where
  | null
  | bool (value : Bool)
  | number (mantissa : Int) (exponent : Nat)
  | string (value : String)
  | array (items : List Json)
  | object (members : List (String × Json))
deriving Repr, Inhabited

namespace Json

/-- A natural number. -/
def nat (n : Nat) : Json := number n 0

/-- The member of a name; nothing for other values than objects. -/
def member? (name : String) : Json → Option Json
  | object members => members.lookup name
  | _ => none

end Json

end PubSweep
