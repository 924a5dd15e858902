import PubSweep.Diff.Shortest

/-!
Lists of pieces that lead from one text to another.

A list of pieces is a script between two places if its ranges follow each other without gaps and the
shared pieces are the same in both texts.  `isScript_shortestIn` says that the search for a
shortest difference always gives a script, wherever the paths are said to meet.
-/

namespace PubSweep.Diff

/-- Some lines of the old text that are the same as lines of the new text. -/
def SameLines (t : Lines) (i j n : Nat) : Prop := ∀ k < n, t.old[i + k]? = t.new[j + k]?

/-- Pieces that lead from line `i` of the old and line `j` of the new text to lines `i'` and `j'`;
no shared piece is empty. -/
def IsScript (t : Lines) (i j : Nat) : List Piece → (i' j' : Nat) → Prop
  | [], i', j' => i = i' ∧ j = j'
  | .equal old new :: pieces, i', j' =>
    old.start = i ∧ new.start = j ∧ old.length = new.length ∧ 0 < old.length ∧
      SameLines t i j old.length ∧ IsScript t old.stop new.stop pieces i' j'
  | .delete old :: pieces, i', j' => old.start = i ∧ IsScript t old.stop j pieces i' j'
  | .insert new :: pieces, i', j' => new.start = j ∧ IsScript t i new.stop pieces i' j'

theorem isScript_append {t : Lines} {i j i' j' : Nat} {front back : List Piece} :
    IsScript t i j (front ++ back) i' j' ↔
      ∃ a b, IsScript t i j front a b ∧ IsScript t a b back i' j' := by
  induction front generalizing i j with
  | nil =>
      constructor
      · exact fun h => ⟨i, j, ⟨rfl, rfl⟩, h⟩
      · rintro ⟨_, _, ⟨rfl, rfl⟩, h⟩
        exact h
  | cons piece front ih =>
      cases piece with
      | equal old new => simp only [List.cons_append, IsScript, ih, and_assoc, exists_and_left]
      | delete old => simp only [List.cons_append, IsScript, ih, and_assoc, exists_and_left]
      | insert new => simp only [List.cons_append, IsScript, ih, and_assoc, exists_and_left]

/-! ### Lines that two ranges share -/

section

variable {a b : Array String} {x y : Range}

theorem commonStart_go_spec (fuel n : Nat) :
    n ≤ commonStart.go a b x y fuel n ∧ commonStart.go a b x y fuel n ≤ n + fuel ∧
      ∀ k, n ≤ k → k < commonStart.go a b x y fuel n → a[x.start + k]? = b[y.start + k]? := by
  induction fuel generalizing n with
  | zero => exact ⟨Nat.le_refl n, Nat.le_refl n, fun k hle hlt => absurd hlt (Nat.not_lt.mpr hle)⟩
  | succ fuel ih =>
      rw [commonStart.go]
      split
      case isTrue hsame =>
        obtain ⟨hle, hfuel, hall⟩ := ih (n + 1)
        refine ⟨by omega, by omega, ?_⟩
        intro k hk hlt
        by_cases hkn : k = n
        · rw [hkn]
          exact beq_iff_eq.mp hsame
        · exact hall k (by omega) hlt
      case isFalse => exact ⟨Nat.le_refl n, by omega, fun k hle hlt => by omega⟩

theorem commonStart_le (a b : Array String) (x y : Range) :
    commonStart a b x y ≤ x.length ∧ commonStart a b x y ≤ y.length := by
  obtain ⟨-, hle, -⟩ := @commonStart_go_spec a b x y (min x.length y.length) 0
  rw [commonStart]
  omega

theorem getElem?_of_lt_commonStart {k : Nat} (h : k < commonStart a b x y) :
    a[x.start + k]? = b[y.start + k]? :=
  (commonStart_go_spec (min x.length y.length) 0).2.2 k (Nat.zero_le k) h

theorem commonEnd_go_spec (fuel n : Nat) :
    n ≤ commonEnd.go a b x y fuel n ∧ commonEnd.go a b x y fuel n ≤ n + fuel ∧
      ∀ k, n ≤ k → k < commonEnd.go a b x y fuel n →
        a[x.stop - 1 - k]? = b[y.stop - 1 - k]? := by
  induction fuel generalizing n with
  | zero => exact ⟨Nat.le_refl n, Nat.le_refl n, fun k hle hlt => absurd hlt (Nat.not_lt.mpr hle)⟩
  | succ fuel ih =>
      rw [commonEnd.go]
      split
      case isTrue hsame =>
        obtain ⟨hle, hfuel, hall⟩ := ih (n + 1)
        refine ⟨by omega, by omega, ?_⟩
        intro k hk hlt
        by_cases hkn : k = n
        · rw [hkn]
          exact beq_iff_eq.mp hsame
        · exact hall k (by omega) hlt
      case isFalse => exact ⟨Nat.le_refl n, by omega, fun k hle hlt => by omega⟩

theorem commonEnd_le (a b : Array String) (x y : Range) :
    commonEnd a b x y ≤ x.length ∧ commonEnd a b x y ≤ y.length := by
  obtain ⟨-, hle, -⟩ := @commonEnd_go_spec a b x y (min x.length y.length) 0
  rw [commonEnd]
  omega

/-- The lines at the end, counted from the first that is shared. -/
theorem getElem?_of_lt_commonEnd {k : Nat} (h : k < commonEnd a b x y) :
    a[x.stop - commonEnd a b x y + k]? = b[y.stop - commonEnd a b x y + k]? := by
  obtain ⟨hx, hy⟩ := commonEnd_le a b x y
  have hsame := (@commonEnd_go_spec a b x y (min x.length y.length) 0).2.2
    (commonEnd a b x y - 1 - k) (Nat.zero_le _) (by rw [← commonEnd]; omega)
  rw [Range.stop, Range.stop] at *
  rwa [show x.start + x.length - 1 - (commonEnd a b x y - 1 - k) =
      x.start + x.length - commonEnd a b x y + k by omega,
    show y.start + y.length - 1 - (commonEnd a b x y - 1 - k) =
      y.start + y.length - commonEnd a b x y + k by omega] at hsame

end

/-! ### Shortest differences -/

section

variable {t : Lines} {old new : Range}

/-- The shared lines at the start, as a piece if there are any. -/
theorem isScript_front (t : Lines) (old new : Range) :
    IsScript t old.start new.start
      (if commonStart t.old t.new old new = 0 then []
        else [.equal (old.take (commonStart t.old t.new old new))
          (new.take (commonStart t.old t.new old new))])
      (old.drop (commonStart t.old t.new old new)).start
      (new.drop (commonStart t.old t.new old new)).start := by
  obtain ⟨hold, hnew⟩ := commonStart_le t.old t.new old new
  split
  case isTrue hzero => simp [IsScript, hzero, Range.drop]
  case isFalse hne =>
    simp only [IsScript, Range.take, Range.drop, Range.stop, true_and]
    refine ⟨by omega, by omega, ?_, trivial⟩
    intro k hk
    exact getElem?_of_lt_commonStart (by omega)

/-- The shared lines at the end, as a piece if there are any. -/
theorem isScript_back (t : Lines) (old new : Range) :
    IsScript t (old.dropLast (commonEnd t.old t.new old new)).stop
      (new.dropLast (commonEnd t.old t.new old new)).stop
      (if commonEnd t.old t.new old new = 0 then []
        else [.equal (old.takeLast (commonEnd t.old t.new old new))
          (new.takeLast (commonEnd t.old t.new old new))]) old.stop new.stop := by
  obtain ⟨hold, hnew⟩ := commonEnd_le t.old t.new old new
  have hshared := @getElem?_of_lt_commonEnd t.old t.new old new
  generalize commonEnd t.old t.new old new = last at *
  split
  case isTrue hzero => simp [IsScript, hzero, Range.dropLast, Range.take, Range.stop]
  case isFalse hne =>
    simp only [IsScript, Range.takeLast, Range.dropLast, Range.take, Range.drop, Range.stop] at *
    refine ⟨trivial, trivial, by omega, by omega, ?_, by omega, by omega⟩
    intro k hk
    have hsame := @hshared k (by omega)
    rwa [show old.start + old.length - last + k = old.start + min (old.length - last) old.length + k
        by omega,
      show new.start + new.length - last + k = new.start + min (new.length - last) new.length + k
        by omega] at hsame

/-- What is between the shared lines: nothing, one piece, or two parts that meet somewhere. -/
theorem isScript_middle {parts : Range → Range → List Piece}
    (hparts : ∀ old new : Range, IsScript t old.start new.start (parts old new) old.stop new.stop)
    (old new : Range) (x y : Nat) :
    IsScript t old.start new.start
      (if old.length = 0 && new.length = 0 then []
        else if old.length = 0 then [.insert new]
        else if new.length = 0 then [.delete old]
        else parts (old.take x) (new.take y) ++ parts (old.drop x) (new.drop y))
      old.stop new.stop := by
  split
  case isTrue hempty =>
    simp only [Bool.and_eq_true, decide_eq_true_eq] at hempty
    simp [IsScript, Range.stop, hempty]
  · split
    case isTrue hempty => simp [IsScript, Range.stop, hempty]
    · split
      case isTrue hempty => simp [IsScript, Range.stop, hempty]
      · rw [isScript_append]
        refine ⟨_, _, hparts (old.take x) (new.take y), ?_⟩
        have hstop : ∀ (r : Range) (n : Nat), (r.drop n).stop = r.stop := by
          intro r n
          simp only [Range.drop, Range.stop]
          omega
        have hright := hparts (old.drop x) (new.drop y)
        rwa [hstop, hstop] at hright

theorem isScript_shortestIn (t : Lines) (fuel : Nat) (old new : Range) :
    IsScript t old.start new.start (shortestIn t fuel old new) old.stop new.stop := by
  induction fuel generalizing old new with
  | zero => simp [shortestIn, IsScript]
  | succ fuel ih =>
      have hfront := isScript_front t old new
      have hstop : (old.drop (commonStart t.old t.new old new)).stop = old.stop ∧
          (new.drop (commonStart t.old t.new old new)).stop = new.stop := by
        simp only [Range.drop, Range.stop]
        omega
      have hback := isScript_back t (old.drop (commonStart t.old t.new old new))
        (new.drop (commonStart t.old t.new old new))
      rw [hstop.1, hstop.2] at hback
      rw [shortestIn]
      simp only [isScript_append]
      generalize commonStart t.old t.new old new = first at *
      generalize commonEnd t.old t.new (old.drop first) (new.drop first) = last at *
      have hmiddle := isScript_middle ih ((old.drop first).dropLast last)
        ((new.drop first).dropLast last)
      exact ⟨_, _, ⟨_, _, hfront, hmiddle _ _⟩, hback⟩

end

/-- The shortest difference of two texts leads from the one to the other. -/
theorem isScript_shortest (t : Lines) :
    IsScript t 0 0 (shortest t) t.old.size t.new.size := by
  have h := isScript_shortestIn t (t.old.size + t.new.size + 1) ⟨0, t.old.size⟩ ⟨0, t.new.size⟩
  rwa [Range.stop, Range.stop, Nat.zero_add, Nat.zero_add] at h

end PubSweep.Diff
