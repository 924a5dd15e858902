/-!
TOML values, and tables under construction.
-/

namespace PubSweep.Toml

/-- A TOML value.  Floating-point numbers and dates are kept as they are written. -/
inductive Value where
  | string (text : String)
  | integer (n : Int)
  | float (text : String)
  | boolean (b : Bool)
  | date (text : String)
  | array (items : List Value)
  | table (members : List (String × Value))
deriving Repr, Inhabited

namespace Value

/-- The member of a name; nothing for other values than tables. -/
def member? (name : String) : Value → Option Value
  | table members => members.lookup name
  | _ => none

/-- The text of a string. -/
def asString? : Value → Option String
  | string s => some s
  | _ => none

end Value

/-- How a table came about: from a longer header, from its own header, or from a dotted key. -/
inductive Origin where
  | implicit
  | header
  | dotted
deriving DecidableEq, Inhabited

/-- A member of a table under construction. -/
inductive Draft where
  | value (v : Value)
  | table (origin : Origin) (members : List (String × Draft))
  /-- The tables of one name, the last first. -/
  | tables (last : List (String × Draft)) (earlier : List (List (String × Draft)))
deriving Inhabited

/-- The members of a table under construction. -/
abbrev Members := List (String × Draft)

namespace Members

/-- Puts a member in the place of the one of the same name, or at the end. -/
def put (name : String) (d : Draft) : Members → Members
  | [] => [(name, d)]
  | (k, e) :: rest => if k = name then (k, d) :: rest else (k, e) :: put name d rest

/-- Gives a value to a key.  A dotted key goes through tables that have no header of their own. -/
def assign : (key : List String) → Value → Members → Option Members
  | [], _, _ => none
  | [k], v, ms => if (ms.lookup k).isSome then none else some (ms.put k (.value v))
  | k :: key, v, ms =>
    match ms.lookup k with
    | none => (assign key v []).map fun inner => ms.put k (.table .dotted inner)
    | some (.table origin inner) =>
      if origin = .header then none
      else (assign key v inner).map fun inner => ms.put k (.table origin inner)
    | some _ => none

/-- Changes the table that the last header of a name opened. -/
def change (f : Members → Option Members) : (name : List String) → Members → Option Members
  | [], ms => f ms
  | k :: name, ms =>
    match ms.lookup k with
    | some (.table origin inner) =>
      (change f name inner).map fun inner => ms.put k (.table origin inner)
    | some (.tables last earlier) =>
      (change f name last).map fun last => ms.put k (.tables last earlier)
    | _ => none

/-- Opens the table of a header.  A table has one header at most. -/
def openTable : (name : List String) → Members → Option Members
  | [], _ => none
  | [k], ms =>
    match ms.lookup k with
    | none => some (ms.put k (.table .header []))
    | some (.table .implicit inner) => some (ms.put k (.table .header inner))
    | some _ => none
  | k :: name, ms =>
    match ms.lookup k with
    | none => (openTable name []).map fun inner => ms.put k (.table .implicit inner)
    | some (.table origin inner) =>
      (openTable name inner).map fun inner => ms.put k (.table origin inner)
    | some (.tables last earlier) =>
      (openTable name last).map fun last => ms.put k (.tables last earlier)
    | some (.value _) => none

/-- Opens one more table of a name. -/
def openNext : (name : List String) → Members → Option Members
  | [], _ => none
  | [k], ms =>
    match ms.lookup k with
    | none => some (ms.put k (.tables [] []))
    | some (.tables last earlier) => some (ms.put k (.tables [] (last :: earlier)))
    | some _ => none
  | k :: name, ms =>
    match ms.lookup k with
    | none => (openNext name []).map fun inner => ms.put k (.table .implicit inner)
    | some (.table origin inner) =>
      (openNext name inner).map fun inner => ms.put k (.table origin inner)
    | some (.tables last earlier) =>
      (openNext name last).map fun last => ms.put k (.tables last earlier)
    | some (.value _) => none

end Members

mutual
/-- The finished value of a member. -/
def Draft.finish : Draft → Value
  | .value v => v
  | .table _ ms => .table (finishMembers ms)
  | .tables last earlier => .array (finishTables earlier [.table (finishMembers last)])

/-- The finished members of a table. -/
def finishMembers : List (String × Draft) → List (String × Value)
  | [] => []
  | (k, d) :: rest => (k, d.finish) :: finishMembers rest

/-- The finished tables of a name, in front of the later ones. -/
def finishTables : List (List (String × Draft)) → List Value → List Value
  | [], later => later
  | ms :: rest, later => finishTables rest (.table (finishMembers ms) :: later)
end

end PubSweep.Toml
