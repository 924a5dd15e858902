import PubSweep.Text.Blank

/-!
The rules, fixes and kinds of items, and the names by which they are known.
-/

namespace PubSweep

/-- A name that stands for nothing. -/
structure UnknownName where
  /-- What was looked for. -/
  sort : String
  name : String
deriving Repr, DecidableEq

/-- The words for an unknown name. -/
def UnknownName.message (e : UnknownName) : String :=
  "unknown " ++ e.sort ++ " id `" ++ e.name ++ "`"

/-- A name without white space around it and with underscores for hyphens. -/
def normalizeName (text : String) : String :=
  String.ofList ((Text.trim text.toList).map fun c => if c = '-' then '_' else c)

/-- Whether two texts are the same up to the case of ASCII letters. -/
def equalIgnoringCase (a b : String) : Bool :=
  a.toList.map Char.toLower == b.toList.map Char.toLower

/-- The rules. -/
inductive RuleId where
  /-- An item of a module has no visibility. -/
  | missingVisibility
deriving Repr, DecidableEq, Inhabited

namespace RuleId

/-- All rules. -/
def all : List RuleId := [missingVisibility]

/-- The short code of a rule. -/
def code : RuleId → String
  | missingVisibility => "VIS001"

/-- The name of a rule. -/
def name : RuleId → String
  | missingVisibility => "missing_visibility"

/-- The rule of a name or code. -/
def parse (text : String) : Except UnknownName RuleId :=
  let wanted := normalizeName text
  match all.find? fun r => r.name == wanted || equalIgnoringCase r.code wanted with
  | some r => .ok r
  | none => .error ⟨"rule", text⟩

end RuleId

/-- The fixes. -/
inductive FixId where
  | makePub
  | makePubCrate
deriving Repr, DecidableEq, Inhabited

namespace FixId

/-- All fixes. -/
def all : List FixId := [makePub, makePubCrate]

/-- The fix that is taken where none is asked for. -/
def standard : FixId := makePub

/-- The name of a fix. -/
def name : FixId → String
  | makePub => "make_pub"
  | makePubCrate => "make_pub_crate"

/-- The rule that a fix serves. -/
def rule : FixId → RuleId
  | makePub | makePubCrate => .missingVisibility

/-- The visibility that a fix gives to an item. -/
def token : FixId → String
  | makePub => "pub"
  | makePubCrate => "pub(crate)"

/-- What a fix does, in words. -/
def title : FixId → String
  | makePub => "Make item public"
  | makePubCrate => "Make item crate-visible"

/-- The fix of a name. -/
def parse (text : String) : Except UnknownName FixId :=
  let wanted := normalizeName text
  match all.find? (·.name == wanted) with
  | some f => .ok f
  | none => .error ⟨"fix", text⟩

end FixId

/-- The kinds of items that can have a visibility. -/
inductive ItemKind where
  | struct
  | enum
  | union
  | trait
  | function
  | typeAlias
deriving Repr, DecidableEq, Inhabited

namespace ItemKind

/-- All kinds, in their order. -/
def all : List ItemKind := [struct, enum, union, trait, function, typeAlias]

/-- The kinds that are checked where none are asked for. -/
def standard : List ItemKind := [struct, enum, union, trait]

/-- The place of a kind in the order. -/
def rank : ItemKind → Nat
  | struct => 0
  | enum => 1
  | union => 2
  | trait => 3
  | function => 4
  | typeAlias => 5

/-- The kind of the node of an item. -/
def nodeKind : ItemKind → String
  | struct => "struct_item"
  | enum => "enum_item"
  | union => "union_item"
  | trait => "trait_item"
  | function => "function_item"
  | typeAlias => "type_item"

/-- The keyword that introduces an item; also the name of its kind. -/
def keyword : ItemKind → String
  | struct => "struct"
  | enum => "enum"
  | union => "union"
  | trait => "trait"
  | function => "fn"
  | typeAlias => "type"

/-- The kind of item of a node. -/
def ofNodeKind (kind : String) : Option ItemKind := all.find? (·.nodeKind == kind)

/-- The kind of a name. -/
def parse (text : String) : Except UnknownName ItemKind :=
  let wanted := String.ofList (Text.trim text.toList)
  match all.find? (·.keyword == wanted) with
  | some k => .ok k
  | none => .error ⟨"item kind", wanted⟩

/-- The kinds of a list in their order, each once. -/
def normalize (kinds : List ItemKind) : List ItemKind :=
  (kinds.mergeSort fun a b => a.rank ≤ b.rank).eraseReps

end ItemKind

end PubSweep
