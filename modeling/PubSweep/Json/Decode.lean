import PubSweep.Json.Value

/-!
Reading typed values from JSON.

A record is read from an object, whose unknown members do not count, or from an array of its fields
in order; fields at the end of the array may be left out if they may be left out of the object.
-/

namespace PubSweep.Json

/-- Reads a text. -/
def asString? : Json → Option String
  | string s => some s
  | _ => none

/-- Reads a truth value. -/
def asBool? : Json → Option Bool
  | bool b => some b
  | _ => none

/-- Numbers have 64 bits. -/
def wordLimit : Nat := 0x10000000000000000

/-- Reads a natural number of 64 bits. -/
def asWord? : Json → Option Nat
  | number m 0 => if 0 ≤ m && m < wordLimit then some m.toNat else none
  | _ => none

/-- Reads the items of a list. -/
def asList? {α : Type} (item : Json → Option α) : Json → Option (List α)
  | array items => items.mapM item
  | _ => none

/-- Reads one of some named values: from its name, or from an object with its name alone. -/
def asNamed? {α : Type} (values : List α) (name : α → String) : Json → Option α
  | string s => values.find? (name · == s)
  | object [(s, null)] => values.find? (name · == s)
  | _ => none

/-- The fields of a record. -/
def fields? (names : List String) : Json → Option (List (Option Json))
  | object members => some (names.map fun name => members.lookup name)
  | array items =>
    if items.length ≤ names.length then
      some (items.map some ++ List.replicate (names.length - items.length) none)
    else none
  | _ => none

/-- Reads a field that must be there. -/
def required {α : Type} (read : Json → Option α) (field : Option Json) : Option α :=
  field.bind read

/-- Reads a field that may be left out or null. -/
def optional {α : Type} (read : Json → Option α) : Option Json → Option (Option α)
  | none | some null => some none
  | some j => (read j).map some

/-- Reads a field that may be left out, but not null. -/
def defaulting {α : Type} (read : Json → Option α) (default : α) : Option Json → Option α
  | none => some default
  | some j => read j

/-- The member of a value that may be absent. -/
def optionalMember {α : Type} (name : String) (write : α → Json) :
    Option α → List (String × Json)
  | none => []
  | some a => [(name, write a)]

end PubSweep.Json
