import PubSweep.Diff.Piece

/-!
A shortest difference, by the linear-space method: paths through the grid of line pairs are followed
from both ends until they meet, and the two halves are treated the same way.
-/

namespace PubSweep.Diff

/-- How far the paths of each diagonal have got; diagonals may be negative. -/
structure Reach where
  offset : Nat
  furthest : Array Nat

namespace Reach

/-- No path has started. -/
def start (most : Nat) : Reach := ⟨most + 1, Array.replicate (2 * most + 3) 0⟩

/-- How far the path of a diagonal has got. -/
def get (r : Reach) (k : Int) : Nat := r.furthest.getD (k + r.offset).toNat 0

/-- The path of a diagonal has got to `x`. -/
def set (r : Reach) (k : Int) (x : Nat) : Reach :=
  { r with furthest := r.furthest.setIfInBounds (k + r.offset).toNat x }

/-- Where the path of a diagonal starts its next step: from the neighbour that got further. -/
def next (r : Reach) (d : Nat) (k : Int) : Nat :=
  if k = -(d : Int) || (k ≠ d && r.get (k - 1) < r.get (k + 1)) then r.get (k + 1)
  else r.get (k - 1) + 1

end Reach

/-- The diagonals that paths of `d` steps can end on, the highest first. -/
def diagonals (d : Nat) : List Int := (List.range (d + 1)).map fun (i : Nat) => (d : Int) - 2 * i

/-- The two searches in a part of the grid. -/
structure Search where
  forward : Reach
  backward : Reach

/-- Advances the forward paths of `d` steps.  Returns the place where one meets a backward path. -/
def searchForward (t : Lines) (old new : Range) (d : Nat) :
    List Int → Search → Option (Nat × Nat) × Search
  | [], s => (none, s)
  | k :: ks, s =>
    let delta : Int := (old.length : Int) - new.length
    let x := s.forward.next d k
    let y := (x - k).toNat
    let advance :=
      if x < old.length && y < new.length then commonStart t.old t.new (old.drop x) (new.drop y)
      else 0
    let s := { s with forward := s.forward.set k (x + advance) }
    if delta % 2 ≠ 0 && (k - delta).natAbs + 1 ≤ d &&
        old.length ≤ s.forward.get k + s.backward.get (-(k - delta)) then
      (some (x, y), s)
    else searchForward t old new d ks s

/-- Advances the backward paths of `d` steps.  Returns the place where one meets a forward path. -/
def searchBackward (t : Lines) (old new : Range) (d : Nat) :
    List Int → Search → Option (Nat × Nat) × Search
  | [], s => (none, s)
  | k :: ks, s =>
    let delta : Int := (old.length : Int) - new.length
    let x := s.backward.next d k
    let y := (x - k).toNat
    let advance :=
      if x < old.length && y < new.length then
        commonEnd t.old t.new (old.dropLast x) (new.dropLast y)
      else 0
    let s := { s with backward := s.backward.set k (x + advance) }
    if delta % 2 = 0 && (k - delta).natAbs ≤ d &&
        old.length ≤ s.backward.get k + s.forward.get (-(k - delta)) then
      (some (old.length - (x + advance), new.length - (y + advance)), s)
    else searchBackward t old new d ks s

/-- The place where the paths from both ends meet. -/
def meetingPlace (t : Lines) (old new : Range) : (fuel d : Nat) → Search → Nat × Nat
  | 0, _, _ => (old.length, 0)
  | fuel + 1, d, s =>
    match searchForward t old new d (diagonals d) s with
    | (some place, _) => place
    | (none, s) =>
      match searchBackward t old new d (diagonals d) s with
      | (some place, _) => place
      | (none, s) => meetingPlace t old new fuel (d + 1) s

/-- A shortest difference between two ranges. -/
def shortestIn (t : Lines) : (fuel : Nat) → (old new : Range) → List Piece
  | 0, old, new => [.delete old, .insert new]
  | fuel + 1, old, new =>
    let first := commonStart t.old t.new old new
    let front := if first = 0 then [] else [Piece.equal (old.take first) (new.take first)]
    let old := old.drop first
    let new := new.drop first
    let last := commonEnd t.old t.new old new
    let back := if last = 0 then [] else [Piece.equal (old.takeLast last) (new.takeLast last)]
    let old := old.dropLast last
    let new := new.dropLast last
    let middle :=
      if old.length = 0 && new.length = 0 then []
      else if old.length = 0 then [Piece.insert new]
      else if new.length = 0 then [Piece.delete old]
      else
        let most := (old.length + new.length + 1) / 2 + 1
        let (x, y) := meetingPlace t old new most 0 ⟨.start most, .start most⟩
        shortestIn t fuel (old.take x) (new.take y) ++ shortestIn t fuel (old.drop x) (new.drop y)
    front ++ middle ++ back

/-- A shortest difference between two texts. -/
def shortest (t : Lines) : List Piece :=
  shortestIn t (t.old.size + t.new.size + 1) ⟨0, t.old.size⟩ ⟨0, t.new.size⟩

end PubSweep.Diff
