import PubSweep.Diff.Shortest
import PubSweep.Diff.Slide

/-!
Differences in hunks, as a unified diff shows them.
-/

namespace PubSweep.Diff

/-- The lines of a text, each with its line feed; the last line may have none. -/
def splitLines (cs : List Char) : List (List Char) :=
  match cs with
  | [] => []
  | c :: rest =>
    if c = '\n' then [c] :: splitLines rest
    else
      match splitLines rest with
      | [] => [[c]]
      | line :: lines => (c :: line) :: lines

/-- The lines of two texts. -/
def Lines.ofTexts (old new : String) : Lines where
  old := ((splitLines old.toList).map String.ofList).toArray
  new := ((splitLines new.toList).map String.ofList).toArray

/-- A place where two texts differ. -/
structure Change where
  old : Range
  new : Range
deriving Repr, DecidableEq, Inhabited

/-- The changes of a difference: what lies between two shared pieces is one change.  `open?` is the
change that is not yet at its end. -/
def changesFrom (i j : Nat) (open? : Option Change) : List Piece → List Change
  | [] => open?.toList
  | .equal old new :: rest =>
    open?.toList ++ changesFrom (i + old.length) (j + new.length) none rest
  | .delete old :: rest =>
    let c := open?.getD ⟨⟨i, 0⟩, ⟨j, 0⟩⟩
    changesFrom (i + old.length) j (some { c with old := c.old.growDown old.length }) rest
  | .insert new :: rest =>
    let c := open?.getD ⟨⟨i, 0⟩, ⟨j, 0⟩⟩
    changesFrom i (j + new.length) (some { c with new := c.new.growDown new.length }) rest

/-- The changes between two texts. -/
def changes (t : Lines) : List Change := changesFrom 0 0 none (slide t (shortest t))

/-- A line of a hunk. -/
inductive HunkLine where
  | context (text : String)
  | delete (text : String)
  | insert (text : String)
deriving Repr, DecidableEq, Inhabited

/-- Some changes with the lines around them. -/
structure Hunk where
  old : Range
  new : Range
  lines : List HunkLine
deriving Repr, DecidableEq, Inhabited

/-- The lines shown around a change. -/
def contextLength : Nat := 3

/-- The lines of the new text between two places, as context. -/
def contextLines (t : Lines) (start stop : Nat) : List HunkLine :=
  (t.new.extract start stop).toList.map .context

/-- The lines of a change. -/
def changeLines (t : Lines) (c : Change) : List HunkLine :=
  (t.old.extract c.old.start c.old.stop).toList.map .delete ++
    (t.new.extract c.new.start c.new.stop).toList.map .insert

/-- How many lines are shown behind a change. -/
def contextBehind (t : Lines) (c : Change) : Nat :=
  min contextLength (min (t.old.size - c.old.stop) (t.new.size - c.new.stop))

/-- Adds changes to a hunk as long as they are near; `last` is the change before. -/
def hunksFrom (t : Lines) (startOld startNew : Nat) (last : Change) (lines : List HunkLine) :
    List Change → List Hunk
  | [] => [close]
  | c :: rest =>
    let near := min c.old.start (t.old.size - 1) - contextLength <
      last.old.stop + contextBehind t last
    if near then
      hunksFrom t startOld startNew c
        (lines ++ contextLines t last.new.stop c.new.start ++ changeLines t c) rest
    else
      let startNew' := c.new.start - contextLength
      close :: hunksFrom t (c.old.start - contextLength) startNew' c
        (contextLines t startNew' c.new.start ++ changeLines t c) rest
where
  /-- The hunk that ends behind the last change. -/
  close : Hunk :=
    let behind := contextBehind t last
    { old := ⟨startOld, last.old.stop + behind - startOld⟩
      new := ⟨startNew, last.new.stop + behind - startNew⟩
      lines := lines ++ contextLines t last.new.stop (last.new.stop + behind) }

/-- The hunks between two texts. -/
def hunks (t : Lines) : List Hunk :=
  match changes t with
  | [] => []
  | c :: rest =>
    let startNew := c.new.start - contextLength
    hunksFrom t (c.old.start - contextLength) startNew c
      (contextLines t startNew c.new.start ++ changeLines t c) rest

/-- The text of a range in the head of a hunk; an empty range is shown by the line before it. -/
def renderRange (r : Range) : String :=
  let start := if 0 < r.length then r.start + 1 else r.start
  if r.length = 1 then toString start else toString start ++ "," ++ toString r.length

/-- A mark and a line; a line without a line feed is followed by a remark. -/
def renderMarked (mark : Char) (line : String) : String :=
  let ended := line.toList.getLast? == some '\n'
  if mark = ' ' && line = "\n" then line
  else
    String.singleton mark ++ line ++
      (if ended then "" else "\n\\ No newline at end of file\n")

/-- The text of a line of a hunk. -/
def HunkLine.render : HunkLine → String
  | .context line => renderMarked ' ' line
  | .delete line => renderMarked '-' line
  | .insert line => renderMarked '+' line

/-- The text of a hunk. -/
def Hunk.render (h : Hunk) : String :=
  "@@ -" ++ renderRange h.old ++ " +" ++ renderRange h.new ++ " @@\n" ++
    String.join (h.lines.map HunkLine.render)

/-- The hunks between two texts, as text. -/
def render (old new : String) : String :=
  String.join ((hunks (.ofTexts old new)).map Hunk.render)

end PubSweep.Diff
