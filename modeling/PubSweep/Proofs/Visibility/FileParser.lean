import Mathlib.Data.List.Sublists
import PubSweep.Proofs.Visibility.Publish

/-!
Parsers that know some files.

`fileParser` parses the files of a list, and takes all other texts for faults.  It is well formed if
the trees in the list are (`fileParser_wellFormed`).  It reads visibilities if the list has, with a
file, those that come of it when some of its items get a visibility
(`fileParser_readsVisibility`).  Both can be decided, and `publishings` makes such a list from one
file.
-/

namespace PubSweep

namespace Syntax.Node

/-! ### Deciding -/

mutual
/-- Whether two trees are the same. -/
def same : Node → Node → Bool
  | mk i cs, mk j ds => i == j && sameAll cs ds

/-- The same for several trees. -/
def sameAll : List Node → List Node → Bool
  | [], [] => true
  | c :: cs, d :: ds => c.same d && sameAll cs ds
  | _, _ => false
end

theorem sameAll_iff {cs : List Node} (h : ∀ c ∈ cs, ∀ d, c.same d = true ↔ c = d)
    (ds : List Node) : sameAll cs ds = true ↔ cs = ds := by
  induction cs generalizing ds with
  | nil => cases ds <;> simp [sameAll]
  | cons c cs ih =>
      cases ds with
      | nil => simp [sameAll]
      | cons d ds =>
          rw [sameAll, Bool.and_eq_true, h c List.mem_cons_self,
            ih fun e he => h e (List.mem_cons_of_mem c he), List.cons.injEq]

theorem same_iff (a b : Node) : a.same b = true ↔ a = b := by
  induction a using induct generalizing b with
  | mk i cs ih =>
      cases b with
      | mk j ds => rw [same, Bool.and_eq_true, beq_iff_eq, sameAll_iff ih, mk.injEq]

instance : DecidableEq Node := fun a b => decidable_of_iff _ (same_iff a b)

/-- Whether a place is as in a well-formed tree; all tokens count as keywords. -/
def ShapedAt (text : List Char) (p : Place) : Prop :=
  (∀ c ∈ p.node.children, p.node.span.start ≤ c.span.start ∧ c.span.stop ≤ p.node.span.stop) ∧
    (p.node.children.Pairwise fun a b => a.span.stop ≤ b.span.start) ∧
    (Text.isBoundary p.node.span.start text = true ∧
      Text.isBoundary p.node.span.stop text = true) ∧
    p.node.span.stop < SyntaxTree.offsetModulus ∧
    (p.node.isNamed = false → p.node.children = [] ∧ p.node.span.start < p.node.span.stop) ∧
    (p.node.kind = "declaration_list" →
      p.node.children.head?.any (fun b => b.kind = "\x7b" ∧ b.span.start < b.span.stop) = true) ∧
    (p.node.kind = "source_file" → p.above = [])

instance (text : List Char) (p : Place) : Decidable (ShapedAt text p) :=
  inferInstanceAs (Decidable (_ ∧ _))

theorem shaped_of_places {text : List Char} {root : Node}
    (h : ∀ p ∈ root.places, ShapedAt text p) : root.Shaped text where
  inside p hp := (h p hp).1
  ordered p hp := (h p hp).2.1
  boundary p hp := (h p hp).2.2.1
  narrow p hp := (h p hp).2.2.2.1
  keyword p hp _ htoken _ := (h p hp).2.2.2.2.1 htoken
  brace p hp hlist := by
    have hhead := (h p hp).2.2.2.2.2.1 hlist
    rcases hchildren : p.node.children with _ | ⟨b, cs⟩
    · rw [hchildren] at hhead
      cases hhead
    · rw [hchildren, List.head?_cons, Option.any_some, decide_eq_true_eq] at hhead
      exact ⟨b, cs, rfl, hhead⟩
  file p hp := (h p hp).2.2.2.2.2.2

end Syntax.Node

deriving instance DecidableEq for Syntax.Parsed, Syntax.SyntaxTree, Document, Project

namespace Visibility

open Syntax

/-! ### Lists of files -/

/-- The tree of a text that is one of some files.  Any other text is a fault. -/
def parseFile (files : List (List Char × Node)) (text : List Char) : Parsed :=
  match files.lookup text with
  | some root => ⟨root, false⟩
  | none => ⟨.mk { kind := "ERROR", isNamed := true, span := ⟨0, 0⟩, isError := true } [], true⟩

/-- The parser of some files. -/
def fileParser (files : List (List Char × Node)) : Parser :=
  .ofParse fun text => parseFile files text.toList

section

variable {files : List (List Char × Node)} {text : List Char} {root : Node}

theorem parse_fileParser (files : List (List Char × Node)) (text : String) :
    (fileParser files).parse text = parseFile files text.toList := rfl

theorem parseFile_of_lookup (h : files.lookup text = some root) :
    parseFile files text = ⟨root, false⟩ := by
  rw [parseFile, h]

/-- What is parsed without a fault is one of the files. -/
theorem exists_lookup_of_parseFile (h : (parseFile files text).hasErrors = false) :
    ∃ root, files.lookup text = some root ∧ (text, root) ∈ files := by
  rcases hfile : files.lookup text with _ | root
  · rw [parseFile, hfile] at h
    cases h
  · obtain ⟨before, after, hfiles, -⟩ := List.lookup_eq_some_iff.mp hfile
    rw [hfiles]
    exact ⟨root, rfl, List.mem_append_right before List.mem_cons_self⟩

theorem fileParser_wellFormed (h : ∀ file ∈ files, ∀ p ∈ file.2.places,
    p.node.isFault = false ∧ Node.ShapedAt file.1 p) : (fileParser files).WellFormed where
  hasErrors_iff text := by
    rw [parse_fileParser]
    rcases hlookup : files.lookup text.toList with _ | root
    · rw [parseFile, hlookup]
      simp [Node.places, Node.placesBelow, Node.placesAmong, Node.isFault, Node.info]
    · have hparse := parseFile_of_lookup hlookup
      obtain ⟨_, hsame, hmem⟩ := exists_lookup_of_parseFile (congrArg Parsed.hasErrors hparse)
      cases hlookup.symm.trans hsame
      have hnone := fun p hp => (h _ hmem p hp).1
      simpa [hparse] using hnone
  shaped text hclean := by
    rw [parse_fileParser] at hclean ⊢
    obtain ⟨root, hlookup, hmem⟩ := exists_lookup_of_parseFile hclean
    rw [parseFile_of_lookup hlookup]
    exact Node.shaped_of_places fun p hp => (h _ hmem p hp).2

theorem fileParser_readsVisibility (h : ∀ file ∈ files, ∀ fix ∈ FixId.all,
    ∀ marks ∈ (anchors ItemKind.all file.2).sublists, marks = [] ∨
      files.lookup (Text.insertAt marks (insertion fix) 0 file.1) =
        some (publish fix marks [] file.2)) :
    ReadsVisibility (fileParser files) := by
  intro text fix marks hclean hmarks
  simp only [parse_fileParser] at hclean hmarks ⊢
  obtain ⟨root, hlookup, hmem⟩ := exists_lookup_of_parseFile hclean
  rw [parseFile_of_lookup hlookup] at hmarks ⊢
  have hfix : fix ∈ FixId.all := by cases fix <;> decide
  rcases h _ hmem fix hfix marks (List.mem_sublists.mpr hmarks) with rfl | hfile
  · rw [withVisibility_nil, publish_nil]
    exact parseFile_of_lookup hlookup
  · rw [withVisibility, String.toList_ofList]
    exact parseFile_of_lookup hfile

end

/-- The files that come of one when some of its items get the visibility of a fix. -/
def publishingsOf (fix : FixId) (file : List Char × Node) : List (List Char × Node) :=
  (anchors ItemKind.all file.2).sublists.map fun marks =>
    (Text.insertAt marks (insertion fix) 0 file.1, publish fix marks [] file.2)

/-- The files that come of one when each of its items gets some visibility or none. -/
def publishings (file : List Char × Node) : List (List Char × Node) :=
  (publishingsOf .makePub file).flatMap (publishingsOf .makePubCrate)

/-! ### A file with one item -/

/-- The text `struct A;` and its tree. -/
def structFile : List Char × Node where
  fst := "struct A;".toList
  snd :=
    .mk { kind := "source_file", isNamed := true, span := ⟨0, 9⟩ }
      [.mk { kind := "struct_item", isNamed := true, span := ⟨0, 9⟩ }
        [tokenNode "struct" false 0 6,
          .mk { kind := "type_identifier", isNamed := true, span := ⟨7, 8⟩, field := some "name" }
            [],
          tokenNode ";" false 8 9]]

/-- The parser of this file. -/
def structParser : Parser := fileParser (publishings structFile)

theorem structParser_wellFormed : structParser.WellFormed :=
  fileParser_wellFormed (by decide +kernel)

theorem structParser_readsVisibility : ReadsVisibility structParser :=
  fileParser_readsVisibility (by decide +kernel)

/-! ### A file with items inside one another -/

/-- A node that stands in a field. -/
def fieldNode (kind field : String) (start stop : Nat) (children : List Node) : Node :=
  .mk { kind, isNamed := true, span := ⟨start, stop⟩, field := some field } children

/-- A function with a module in it, and behind it a structure. -/
def nestedText : String := "fn f()\x7bmod m\x7bstruct A;\x7d\x7dstruct B;"

/-- This text and its tree. -/
def nestedFile : List Char × Node where
  fst := nestedText.toList
  snd :=
    .mk { kind := "source_file", isNamed := true, span := ⟨0, 33⟩ }
      [.mk { kind := "function_item", isNamed := true, span := ⟨0, 24⟩ }
        [tokenNode "fn" false 0 2, fieldNode "identifier" "name" 3 4 [],
          fieldNode "parameters" "parameters" 4 6 [tokenNode "(" false 4 5, tokenNode ")" false 5 6],
          fieldNode "block" "body" 6 24
            [tokenNode "\x7b" false 6 7,
              .mk { kind := "mod_item", isNamed := true, span := ⟨7, 23⟩ }
                [tokenNode "mod" false 7 10, fieldNode "identifier" "name" 11 12 [],
                  fieldNode "declaration_list" "body" 12 23
                    [tokenNode "\x7b" false 12 13,
                      .mk { kind := "struct_item", isNamed := true, span := ⟨13, 22⟩ }
                        [tokenNode "struct" false 13 19,
                          fieldNode "type_identifier" "name" 20 21 [], tokenNode ";" false 21 22],
                      tokenNode "\x7d" false 22 23]],
              tokenNode "\x7d" false 23 24]],
        .mk { kind := "struct_item", isNamed := true, span := ⟨24, 33⟩ }
          [tokenNode "struct" false 24 30, fieldNode "type_identifier" "name" 31 32 [],
            tokenNode ";" false 32 33]]

/-- The parser of this file. -/
def nestedParser : Parser := fileParser (publishings nestedFile)

theorem nestedParser_wellFormed : nestedParser.WellFormed :=
  fileParser_wellFormed (by decide +kernel)

theorem nestedParser_readsVisibility : ReadsVisibility nestedParser :=
  fileParser_readsVisibility (by decide +kernel)

end Visibility

end PubSweep
