import PubSweep.Path
import PubSweep.Syntax.Tree
import PubSweep.Uuid

/-!
Documents, and projects of documents.
-/

namespace PubSweep

open Syntax

/-- The identity of a document. -/
abbrev DocumentId := Uuid

namespace DocumentId

/-- The namespace of document identities. -/
def space : Uuid := ⟨0x7a1c520e934b4f2da6183e610bc49d27#128⟩

/-- The identity of the document at a path of a project; backslashes count as slashes. -/
def ofPath (project : String) (path : Path) : DocumentId :=
  Uuid.ofName space (Text.bytesOf (project ++ "|" ++ path.toSlashes.text).toList)

end DocumentId

/-- A source file of a project. -/
structure Document where
  id : DocumentId
  /-- Relative to the root of the project. -/
  path : Path
  tree : SyntaxTree
  /-- How often the document in this place was replaced: one of the same revision is the very same
  document. -/
  revision : Nat := 0
deriving Inhabited

namespace Document

/-- The document of a text. -/
def parse (parser : Parser) (project : String) (path : Path) (text : String) : Document where
  id := DocumentId.ofPath project path
  path := path
  tree := parser.tree text

/-- The text of a document. -/
def text (d : Document) : String := d.tree.text

/-- The same document with another tree. -/
def withTree (d : Document) (tree : SyntaxTree) : Document := { d with tree }

/-- Whether two documents have the same identity, path and text. -/
def same (a b : Document) : Bool := a.id == b.id && a.path.same b.path && a.text == b.text

/-- Whether one document is the other, not replaced in between. -/
def isShared (a b : Document) : Bool := a.id == b.id && a.revision == b.revision

end Document

/-- A named set of documents below a root, in the order of their paths. -/
structure Project where
  name : String
  root : Path
  documents : List Document
deriving Inhabited

namespace Project

/-- The project of some documents; documents of the same path stay in the given order. -/
def ofDocuments (name : String) (root : Path) (documents : List Document) : Project where
  name := name
  root := root
  documents := documents.mergeSort fun a b => (a.path.compare b.path).isLE

variable (p : Project)

/-- The document of an identity. -/
def document? (id : DocumentId) : Option Document := p.documents.find? (·.id == id)

/-- Whether two projects have the same name, root and documents. -/
def same (p q : Project) : Bool :=
  p.name == q.name && p.root.same q.root && p.documents.length == q.documents.length &&
    (p.documents.zip q.documents).all fun (a, b) => a.same b

/-- Puts documents in the place of those with the same identity.  A replacement is used once, and
one whose identity is not in the project is not used. -/
def replaceIn : List Document → (replacements : List (DocumentId × Document)) → List Document
  | [], _ => []
  | d :: ds, replacements =>
    match replacements.lookup d.id with
    | some new =>
      { new with revision := d.revision + 1 } ::
        replaceIn ds (replacements.filter (·.1 != d.id))
    | none => d :: replaceIn ds replacements

/-- The project with some documents replaced. -/
def replace (replacements : List (DocumentId × Document)) : Project :=
  { p with documents := replaceIn p.documents replacements }

end Project

end PubSweep
