import PubSweep.Diff.Piece

/-!
Slides deletions and insertions along the lines around them, up and then down as far as they go, so
that neighbours run into each other and become one.
-/

namespace PubSweep.Diff

/-- The number of lines by which a deletion or insertion can slide up into a shared piece. -/
def roomAbove (t : Lines) : Piece → Piece → Nat
  | .insert new, .equal old _ => commonEnd t.new t.old new old
  | .delete old, .equal _ new => commonEnd t.old t.new old new
  | _, _ => 0

/-- The number of lines by which a deletion or insertion can slide down into a shared piece. -/
def roomBelow (t : Lines) : Piece → Piece → Nat
  | .insert new, .equal old _ => commonStart t.new t.old new old
  | .delete old, .equal _ new => commonStart t.old t.new old new
  | _, _ => 0

/-- The shared lines that appear below a piece that slides up by `n` lines. -/
def uncoveredBelow (n : Nat) : Piece → Piece → Piece
  | .insert new, .equal old _ => .equal (old.takeLast n) (new.takeLast n)
  | .delete old, .equal _ new => .equal (old.takeLast n) (new.takeLast n)
  | _, p => p

/-- The shared lines that appear above a piece that slides down by `n` lines. -/
def uncoveredAbove (n : Nat) : Piece → Piece → Piece
  | .insert new, .equal old _ => .equal (old.take n) (new.take n)
  | .delete old, .equal _ new => .equal (old.take n) (new.take n)
  | _, p => p

/-- The place of a piece in a list: the pieces before it, the nearest first, and those behind. -/
structure Spot where
  before : List Piece
  piece : Piece
  after : List Piece

/-- Whether two pieces are of the same sort. -/
def sameSort (p q : Piece) : Bool :=
  (p.isDelete && q.isDelete) || (p.isInsert && q.isInsert)

/-- Slides a piece up as far as it goes. -/
def slideUp (t : Lines) : (fuel : Nat) → Spot → Spot
  | 0, s => s
  | fuel + 1, s =>
    match s.before with
    | [] => s
    | p :: before =>
      if p.isEqual then
        let n := roomAbove t s.piece p
        if n ≠ 0 then
          let after :=
            match s.after with
            | q :: after =>
              if q.isEqual then q.map (·.growUp n) :: after
              else uncoveredBelow n s.piece p :: q :: after
            | [] => [uncoveredBelow n s.piece p]
          let p := p.map (·.dropLast n)
          let before := if p.length = 0 then before else p :: before
          slideUp t fuel ⟨before, s.piece.map (·.moveUp n), after⟩
        else if p.length = 0 then slideUp t fuel { s with before }
        else s
      else if sameSort p s.piece then
        slideUp t fuel { s with before, piece := p.map (·.growDown s.piece.length) }
      else slideUp t fuel ⟨before, s.piece, p :: s.after⟩

/-- Slides a piece down as far as it goes. -/
def slideDown (t : Lines) : (fuel : Nat) → Spot → Spot
  | 0, s => s
  | fuel + 1, s =>
    match s.after with
    | [] => s
    | p :: after =>
      if p.isEqual then
        let n := roomBelow t s.piece p
        if n ≠ 0 then
          let before :=
            match s.before with
            | q :: before =>
              if q.isEqual then q.map (·.growDown n) :: before
              else uncoveredAbove n s.piece p :: q :: before
            | [] => [uncoveredAbove n s.piece p]
          let p := p.map (·.drop n)
          let after := if p.length = 0 then after else p :: after
          slideDown t fuel ⟨before, s.piece.map (·.moveDown n), after⟩
        else if p.length = 0 then slideDown t fuel { s with after }
        else s
      else if sameSort p s.piece then
        slideDown t fuel { s with after, piece := s.piece.map (·.growDown p.length) }
      else slideDown t fuel ⟨p :: s.before, s.piece, after⟩

/-- Slides all pieces of a sort, from the top on. -/
def slideAll (t : Lines) (sort : Piece → Bool) :
    (fuel : Nat) → (before after : List Piece) → List Piece
  | 0, before, after => before.reverse ++ after
  | _, before, [] => before.reverse
  | fuel + 1, before, p :: after =>
    if sort p then
      let room := t.old.size + t.new.size + before.length + after.length + 4
      let s := slideDown t (4 * room) (slideUp t (4 * room) ⟨before, p, after⟩)
      slideAll t sort fuel (s.piece :: s.before) s.after
    else slideAll t sort fuel (p :: before) after

/-- Slides the deletions and then the insertions of a difference. -/
def slide (t : Lines) (pieces : List Piece) : List Piece :=
  let fuel := 2 * (t.old.size + t.new.size) + 4
  let deleted := slideAll t Piece.isDelete fuel [] pieces
  slideAll t Piece.isInsert fuel [] deleted

end PubSweep.Diff
