/-!
A difference between two texts as a list of pieces: what both share, what only the old text has and
what only the new text has.
-/

namespace PubSweep.Diff

/-- Some lines in a row. -/
structure Range where
  start : Nat
  length : Nat
deriving Repr, DecidableEq, Inhabited

namespace Range

variable (r : Range) (n : Nat)

/-- Where a range ends. -/
def stop : Nat := r.start + r.length

/-- The first lines of a range. -/
def take : Range := ⟨r.start, min n r.length⟩

/-- The range without its first lines. -/
def drop : Range := ⟨r.start + min n r.length, r.length - n⟩

/-- The last lines of a range. -/
def takeLast : Range := r.drop (r.length - n)

/-- The range without its last lines. -/
def dropLast : Range := r.take (r.length - n)

/-- The range with the lines before it. -/
def growUp : Range := ⟨r.start - n, r.length + n⟩

/-- The range with the lines behind it. -/
def growDown : Range := ⟨r.start, r.length + n⟩

/-- The range further up. -/
def moveUp : Range := ⟨r.start - n, r.length⟩

/-- The range further down. -/
def moveDown : Range := ⟨r.start + n, r.length⟩

end Range

/-- One piece of a difference. -/
inductive Piece where
  | equal (old new : Range)
  | delete (old : Range)
  | insert (new : Range)
deriving Repr, DecidableEq, Inhabited

namespace Piece

/-- The number of lines of a piece. -/
def length : Piece → Nat
  | equal old _ => old.length
  | delete old => old.length
  | insert new => new.length

/-- Changes the ranges of a piece. -/
def map (f : Range → Range) : Piece → Piece
  | equal old new => equal (f old) (f new)
  | delete old => delete (f old)
  | insert new => insert (f new)

/-- Whether a piece is shared. -/
def isEqual : Piece → Bool
  | equal .. => true
  | _ => false

/-- Whether a piece is a deletion. -/
def isDelete : Piece → Bool
  | delete _ => true
  | _ => false

/-- Whether a piece is an insertion. -/
def isInsert : Piece → Bool
  | insert _ => true
  | _ => false

end Piece

/-- The lines of the two texts. -/
structure Lines where
  old : Array String
  new : Array String
deriving Inhabited

/-- How many lines two ranges share at their start. -/
def commonStart (a b : Array String) (x y : Range) : Nat :=
  go (min x.length y.length) 0
where
  /-- Counts on from `n`. -/
  go : (fuel n : Nat) → Nat
    | 0, n => n
    | fuel + 1, n => if a[x.start + n]? == b[y.start + n]? then go fuel (n + 1) else n

/-- How many lines two ranges share at their end. -/
def commonEnd (a b : Array String) (x y : Range) : Nat :=
  go (min x.length y.length) 0
where
  /-- Counts on from `n`. -/
  go : (fuel n : Nat) → Nat
    | 0, n => n
    | fuel + 1, n =>
      if a[x.stop - 1 - n]? == b[y.stop - 1 - n]? then go fuel (n + 1) else n

end PubSweep.Diff
