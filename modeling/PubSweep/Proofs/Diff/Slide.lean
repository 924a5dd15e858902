import PubSweep.Diff.Slide
import PubSweep.Proofs.Diff.Script

/-!
Sliding keeps scripts.

Every move of a piece changes two neighbours in a script, and what they lead to stays the same.
`isScript_slide` follows this through all the moves.
-/

namespace PubSweep.Diff

variable {t : Lines} {i j i' j' : Nat}

/-- A part of a script can be replaced by another one that leads to the same place. -/
theorem IsScript.replace {front middle back : List Piece}
    (h : IsScript t i j (front ++ (middle ++ back)) i' j') {other : List Piece}
    (hmiddle : ∀ {a b c d}, IsScript t a b middle c d → IsScript t a b other c d) :
    IsScript t i j (front ++ (other ++ back)) i' j' := by
  simp only [isScript_append] at h ⊢
  obtain ⟨a, b, hfront, c, d, hold, hback⟩ := h
  exact ⟨a, b, hfront, c, d, hmiddle hold, hback⟩

/-! ### Ranges and shared lines -/

namespace Range

variable (r : Range) {n : Nat}

theorem dropLast_eq : r.dropLast n = ⟨r.start, r.length - n⟩ := by
  simp only [dropLast, take, mk.injEq, true_and]
  omega

theorem takeLast_eq (h : n ≤ r.length) : r.takeLast n = ⟨r.stop - n, n⟩ := by
  simp only [takeLast, drop, stop, mk.injEq]
  omega

theorem take_eq (h : n ≤ r.length) : r.take n = ⟨r.start, n⟩ := by
  rw [take, Nat.min_eq_left h]

theorem drop_eq (h : n ≤ r.length) : r.drop n = ⟨r.start + n, r.length - n⟩ := by
  rw [drop, Nat.min_eq_left h]

end Range

/-- A piece, unless it is empty. -/
def unlessEmpty (p : Piece) : List Piece := if p.length = 0 then [] else [p]

theorem isScript_unlessEmpty {n : Nat} (h : SameLines t i j n) :
    IsScript t i j (unlessEmpty (.equal ⟨i, n⟩ ⟨j, n⟩)) (i + n) (j + n) := by
  rw [unlessEmpty]
  split
  case isTrue hzero =>
    have hn : n = 0 := hzero
    simp [IsScript, hn]
  case isFalse hne =>
    exact ⟨rfl, rfl, rfl, Nat.pos_of_ne_zero hne, h, rfl, rfl⟩

theorem SameLines.of_le {n m : Nat} (h : SameLines t i j n) (hle : m ≤ n) : SameLines t i j m :=
  fun k hk => h k (Nat.lt_of_lt_of_le hk hle)

theorem SameLines.shift {n m : Nat} (h : SameLines t i j (n + m)) :
    SameLines t (i + n) (j + n) m := by
  intro k hk
  rw [Nat.add_assoc, Nat.add_assoc]
  exact h (n + k) (by omega)

theorem SameLines.append {n m : Nat} (h : SameLines t i j n)
    (hrest : SameLines t (i + n) (j + n) m) : SameLines t i j (n + m) := by
  intro k hk
  by_cases hkn : k < n
  · exact h k hkn
  · have hsame := hrest (k - n) (by omega)
    rwa [show i + n + (k - n) = i + k by omega, show j + n + (k - n) = j + k by omega] at hsame

/-! ### Moves of two neighbours -/

section

variable {piece p : Piece}

/-- A piece that slides up into a shared one uncovers shared lines below it. -/
theorem IsScript.slideUp (hp : p.isEqual = true) (hpiece : piece.isEqual = false)
    (hroom : roomAbove t piece p ≠ 0) (h : IsScript t i j [p, piece] i' j') :
    IsScript t i j (unlessEmpty (p.map (·.dropLast (roomAbove t piece p))) ++
      [piece.map (·.moveUp (roomAbove t piece p)),
        uncoveredBelow (roomAbove t piece p) piece p]) i' j' := by
  match p, piece, hp, hpiece with
  | .equal old new, .insert own, _, _ =>
    simp only [roomAbove] at hroom ⊢
    obtain ⟨hown, hold⟩ := commonEnd_le t.new t.old own old
    have hshared := @getElem?_of_lt_commonEnd t.new t.old own old
    generalize commonEnd t.new t.old own old = n at *
    obtain ⟨rfl, rfl, hlength, hpos, hsame, hstart, rfl, rfl⟩ := h
    simp only [Piece.map, uncoveredBelow, Range.dropLast_eq, own.takeLast_eq hown,
      old.takeLast_eq hold, ← hlength]
    rw [isScript_append]
    refine ⟨_, _, isScript_unlessEmpty (hsame.of_le (by omega)), ?_⟩
    simp only [IsScript, Range.moveUp, Range.stop] at *
    refine ⟨by omega, by omega, by omega, trivial, by omega, ?_, by omega, by omega⟩
    intro k hk
    have hline := (@hshared k hk).symm
    rwa [show old.start + old.length - n + k = old.start + (old.length - n) + k by omega,
      show own.start + own.length - n + k = own.start - n + own.length + k by omega] at hline
  | .equal old new, .delete own, _, _ =>
    simp only [roomAbove] at hroom ⊢
    obtain ⟨hown, hnew⟩ := commonEnd_le t.old t.new own new
    have hshared := @getElem?_of_lt_commonEnd t.old t.new own new
    generalize commonEnd t.old t.new own new = n at *
    obtain ⟨rfl, rfl, hlength, hpos, hsame, hstart, rfl, rfl⟩ := h
    simp only [Piece.map, uncoveredBelow, Range.dropLast_eq, own.takeLast_eq hown,
      new.takeLast_eq hnew, ← hlength]
    rw [isScript_append]
    refine ⟨_, _, isScript_unlessEmpty (hsame.of_le (by omega)), ?_⟩
    simp only [IsScript, Range.moveUp, Range.stop] at *
    refine ⟨by omega, by omega, by omega, trivial, by omega, ?_, by omega, by omega⟩
    intro k hk
    have hline := @hshared k hk
    rwa [show own.start + own.length - n + k = own.start - n + own.length + k by omega,
      show new.start + new.length - n + k = new.start + (old.length - n) + k by omega] at hline

/-- What is left of a shared piece without its first lines. -/
theorem isScript_drop {old new : Range} {n : Nat} (hlength : old.length = new.length)
    (hn : n ≤ old.length) (hsame : SameLines t old.start new.start old.length) :
    IsScript t (old.start + n) (new.start + n)
      (unlessEmpty (.equal (old.drop n) (new.drop n))) old.stop new.stop := by
  have hrest : SameLines t (old.start + n) (new.start + n) (old.length - n) :=
    SameLines.shift (by rwa [Nat.add_sub_cancel' hn])
  have hunless := isScript_unlessEmpty hrest
  rw [old.drop_eq hn, new.drop_eq (hlength ▸ hn), ← hlength]
  simp only [Range.stop] at *
  rwa [show old.start + n + (old.length - n) = old.start + old.length by omega,
    show new.start + n + (old.length - n) = new.start + new.length by omega] at hunless

/-- A piece that slides down into a shared one uncovers shared lines above it. -/
theorem IsScript.slideDown (hp : p.isEqual = true) (hpiece : piece.isEqual = false)
    (hroom : roomBelow t piece p ≠ 0) (h : IsScript t i j [piece, p] i' j') :
    IsScript t i j ([uncoveredAbove (roomBelow t piece p) piece p,
      piece.map (·.moveDown (roomBelow t piece p))] ++
        unlessEmpty (p.map (·.drop (roomBelow t piece p)))) i' j' := by
  match p, piece, hp, hpiece with
  | .equal old new, .insert own, _, _ =>
    simp only [roomBelow] at hroom ⊢
    obtain ⟨hown, hold⟩ := commonStart_le t.new t.old own old
    have hshared := @getElem?_of_lt_commonStart t.new t.old own old
    generalize commonStart t.new t.old own old = n at *
    obtain ⟨rfl, rfl, hnew, hlength, hpos, hsame, rfl, rfl⟩ := h
    rw [← hnew] at hsame
    simp only [Piece.map, uncoveredAbove, own.take_eq hown, old.take_eq hold]
    rw [isScript_append]
    refine ⟨_, _, ?_, isScript_drop hlength hold hsame⟩
    simp only [IsScript, Range.moveDown, Range.stop] at *
    refine ⟨trivial, trivial, trivial, by omega, ?_, trivial, trivial, by omega⟩
    intro k hk
    exact (@hshared k hk).symm
  | .equal old new, .delete own, _, _ =>
    simp only [roomBelow] at hroom ⊢
    obtain ⟨hown, hnew⟩ := commonStart_le t.old t.new own new
    have hshared := @getElem?_of_lt_commonStart t.old t.new own new
    generalize commonStart t.old t.new own new = n at *
    obtain ⟨rfl, hold, rfl, hlength, hpos, hsame, rfl, rfl⟩ := h
    rw [← hold] at hsame
    simp only [Piece.map, uncoveredAbove, own.take_eq hown, new.take_eq hnew]
    rw [isScript_append]
    refine ⟨_, _, ?_, isScript_drop hlength (hlength ▸ hnew) hsame⟩
    simp only [IsScript, Range.moveDown, Range.stop] at *
    refine ⟨trivial, trivial, trivial, by omega, ?_, trivial, by omega, trivial⟩
    intro k hk
    exact @hshared k hk

/-- Two shared pieces in a row are one. -/
theorem IsScript.merge_equal {q : Piece} (hp : p.isEqual = true) (hq : q.isEqual = true)
    (h : IsScript t i j [p, q] i' j') :
    IsScript t i j [p.map (·.growDown q.length)] i' j' ∧
      IsScript t i j [q.map (·.growUp p.length)] i' j' := by
  match p, q, hp, hq with
  | .equal old new, .equal old' new', _, _ =>
    obtain ⟨rfl, rfl, hlength, hpos, hsame, hold, hnew, hlength', hpos', hsame', rfl, rfl⟩ := h
    have hboth : SameLines t old.start new.start (old.length + old'.length) := by
      refine hsame.append ?_
      rwa [Range.stop, Range.stop, ← hlength] at hsame'
    simp only [IsScript, Piece.map, Piece.length, Range.growDown, Range.growUp, Range.stop] at *
    refine ⟨⟨trivial, trivial, by omega, by omega, hboth, by omega, by omega⟩,
      by omega, by omega, by omega, by omega, ?_, by omega, by omega⟩
    rwa [Nat.add_comm]

/-- Two pieces of the same sort in a row are one. -/
theorem IsScript.merge_sort (hsort : sameSort p piece = true)
    (h : IsScript t i j [p, piece] i' j') :
    IsScript t i j [p.map (·.growDown piece.length)] i' j' := by
  match p, piece, hsort with
  | .delete a, .delete b, _ =>
    obtain ⟨rfl, hb, rfl, rfl⟩ := h
    simp only [IsScript, Piece.map, Piece.length, Range.growDown, Range.stop] at *
    exact ⟨trivial, by omega, trivial⟩
  | .insert a, .insert b, _ =>
    obtain ⟨rfl, hb, rfl, rfl⟩ := h
    simp only [IsScript, Piece.map, Piece.length, Range.growDown, Range.stop] at *
    exact ⟨trivial, trivial, by omega⟩

/-- A deletion and an insertion can change places. -/
theorem IsScript.swap (hp : p.isEqual = false) (hpiece : piece.isEqual = false)
    (hsort : sameSort p piece = false) (h : IsScript t i j [p, piece] i' j') :
    IsScript t i j [piece, p] i' j' := by
  match p, piece, hp, hpiece, hsort with
  | .delete a, .insert b, _, _, _ =>
    obtain ⟨ha, hb, hi, hj⟩ := h
    exact ⟨hb, ha, hi, hj⟩
  | .insert a, .delete b, _, _, _ =>
    obtain ⟨ha, hb, hi, hj⟩ := h
    exact ⟨hb, ha, hi, hj⟩

end

/-! ### Runs of moves -/

/-- All pieces around a place, in order. -/
def Spot.pieces (s : Spot) : List Piece := s.before.reverse ++ s.piece :: s.after

/-- A place in a script, at a deletion or an insertion. -/
structure Spot.Valid (t : Lines) (i j i' j' : Nat) (s : Spot) : Prop where
  sort : s.piece.isEqual = false
  script : IsScript t i j s.pieces i' j'

theorem isEqual_map (p : Piece) (f : Range → Range) : (p.map f).isEqual = p.isEqual := by
  cases p <;> rfl

theorem isEqual_of_sameSort {p q : Piece} (h : sameSort p q = true) : p.isEqual = false := by
  cases p with
  | equal old new => cases q <;> cases h
  | delete old | insert new => rfl

theorem uncoveredBelow_spec {piece p : Piece} (hp : p.isEqual = true)
    (hpiece : piece.isEqual = false) :
    (uncoveredBelow (roomAbove t piece p) piece p).isEqual = true ∧
      (uncoveredBelow (roomAbove t piece p) piece p).length = roomAbove t piece p := by
  match p, piece, hp, hpiece with
  | .equal old new, .insert own, _, _ =>
    obtain ⟨-, hold⟩ := commonEnd_le t.new t.old own old
    exact ⟨rfl, by rw [roomAbove, uncoveredBelow, Piece.length, old.takeLast_eq hold]⟩
  | .equal old new, .delete own, _, _ =>
    obtain ⟨hown, -⟩ := commonEnd_le t.old t.new own new
    exact ⟨rfl, by rw [roomAbove, uncoveredBelow, Piece.length, own.takeLast_eq hown]⟩

theorem uncoveredAbove_spec {piece p : Piece} (hp : p.isEqual = true)
    (hpiece : piece.isEqual = false) :
    (uncoveredAbove (roomBelow t piece p) piece p).isEqual = true ∧
      (uncoveredAbove (roomBelow t piece p) piece p).length = roomBelow t piece p := by
  match p, piece, hp, hpiece with
  | .equal old new, .insert own, _, _ =>
    obtain ⟨-, hold⟩ := commonStart_le t.new t.old own old
    exact ⟨rfl, by rw [roomBelow, uncoveredAbove, Piece.length, old.take_eq hold]⟩
  | .equal old new, .delete own, _, _ =>
    obtain ⟨hown, -⟩ := commonStart_le t.old t.new own new
    exact ⟨rfl, by rw [roomBelow, uncoveredAbove, Piece.length, own.take_eq hown]⟩

/-- Shared lines in front of some pieces are joined with a shared piece there. -/
theorem IsScript.join_below {u : Piece} {n : Nat} (hu : u.isEqual = true) (hn : u.length = n)
    {after : List Piece} :
    IsScript t i j (u :: after) i' j' → IsScript t i j
      (match after with
      | q :: after => if q.isEqual then q.map (·.growUp n) :: after else u :: q :: after
      | [] => [u]) i' j' := by
  intro h
  cases after with
  | nil => exact h
  | cons q after =>
      simp only
      split
      case isTrue hq =>
        have hjoined := @IsScript.replace t i j i' j' [] [u, q] after h _
          (fun hboth => (hboth.merge_equal hu hq).2)
        rwa [hn] at hjoined
      case isFalse => exact h

/-- Shared lines behind some pieces are joined with a shared piece there. -/
theorem IsScript.join_above {u : Piece} {n : Nat} (hu : u.isEqual = true) (hn : u.length = n)
    {before rest : List Piece} :
    IsScript t i j (before.reverse ++ u :: rest) i' j' → IsScript t i j
      ((match before with
      | q :: before => if q.isEqual then q.map (·.growDown n) :: before else u :: q :: before
      | [] => [u]).reverse ++ rest) i' j' := by
  intro h
  cases before with
  | nil => exact h
  | cons q before =>
      simp only
      split
      case isTrue hq =>
        rw [List.reverse_cons, List.append_assoc] at h
        have hjoined := @IsScript.replace t i j i' j' before.reverse [q, u] rest h _
          (fun hboth => (hboth.merge_equal hq hu).1)
        rwa [hn, ← List.append_assoc, ← List.reverse_cons] at hjoined
      case isFalse => simpa using h

/-- The end of a script can be replaced by another one that leads to the same place. -/
theorem IsScript.replace_back {front back : List Piece} (h : IsScript t i j (front ++ back) i' j')
    {other : List Piece} (hback : ∀ {a b}, IsScript t a b back i' j' → IsScript t a b other i' j') :
    IsScript t i j (front ++ other) i' j' := by
  rw [isScript_append] at h ⊢
  obtain ⟨a, b, hfront, hold⟩ := h
  exact ⟨a, b, hfront, hback hold⟩

theorem reverse_ite_unlessEmpty (p : Piece) (before : List Piece) :
    (if p.length = 0 then before else p :: before).reverse = before.reverse ++ unlessEmpty p := by
  rw [unlessEmpty]
  split <;> simp

theorem ite_unlessEmpty (p : Piece) (after : List Piece) :
    (if p.length = 0 then after else p :: after) = unlessEmpty p ++ after := by
  rw [unlessEmpty]
  split <;> rfl

theorem sameSort_comm (p q : Piece) : sameSort p q = sameSort q p := by
  cases p <;> cases q <;> rfl

theorem length_ne_zero_of_isScript {p : Piece} (hp : p.isEqual = true) {rest : List Piece}
    (h : IsScript t i j (p :: rest) i' j') : p.length ≠ 0 := by
  match p, hp with
  | .equal old new, _ => exact Nat.ne_of_gt h.2.2.2.1

theorem Spot.Valid.slideUp {s : Spot} (h : s.Valid t i j i' j') (fuel : Nat) :
    (slideUp t fuel s).Valid t i j i' j' := by
  induction fuel generalizing s with
  | zero => exact h
  | succ fuel ih =>
      obtain ⟨before, piece, after⟩ := s
      obtain ⟨hsort, hscript⟩ := h
      simp only [Spot.pieces] at hsort hscript
      rw [Diff.slideUp]
      cases before with
      | nil => exact ⟨hsort, hscript⟩
      | cons p before =>
          rw [List.reverse_cons, List.append_assoc] at hscript
          change IsScript t i j (before.reverse ++ ([p, piece] ++ after)) i' j' at hscript
          simp only
          split
          case isTrue hp =>
            split
            case isTrue hroom =>
              apply ih
              refine ⟨by rw [isEqual_map, hsort], ?_⟩
              have hmoved := hscript.replace (fun hpair => hpair.slideUp hp hsort hroom)
              obtain ⟨hu, hn⟩ := @uncoveredBelow_spec t piece p hp hsort
              rw [Spot.pieces, reverse_ite_unlessEmpty]
              simp only [List.append_assoc, List.cons_append, List.nil_append] at hmoved ⊢
              rw [← List.append_assoc, ← List.singleton_append, ← List.append_assoc] at hmoved ⊢
              exact hmoved.replace_back (IsScript.join_below hu hn)
            case isFalse =>
              obtain ⟨_, _, -, hpair⟩ := isScript_append.mp hscript
              rw [if_neg (length_ne_zero_of_isScript hp hpair)]
              exact ⟨hsort, by simpa [Spot.pieces] using hscript⟩
          case isFalse hp =>
            split
            case isTrue hsame =>
              apply ih
              refine ⟨by rw [isEqual_map, isEqual_of_sameSort hsame], ?_⟩
              exact hscript.replace (fun hpair => hpair.merge_sort hsame)
            case isFalse hsame =>
              apply ih
              refine ⟨hsort, ?_⟩
              exact hscript.replace
                (fun hpair => hpair.swap (by simpa using hp) hsort (by simpa using hsame))

theorem Spot.Valid.slideDown {s : Spot} (h : s.Valid t i j i' j') (fuel : Nat) :
    (slideDown t fuel s).Valid t i j i' j' := by
  induction fuel generalizing s with
  | zero => exact h
  | succ fuel ih =>
      obtain ⟨before, piece, after⟩ := s
      obtain ⟨hsort, hscript⟩ := h
      simp only [Spot.pieces] at hsort hscript
      rw [Diff.slideDown]
      cases after with
      | nil => exact ⟨hsort, hscript⟩
      | cons p after =>
          change IsScript t i j (before.reverse ++ ([piece, p] ++ after)) i' j' at hscript
          simp only
          split
          case isTrue hp =>
            split
            case isTrue hroom =>
              apply ih
              refine ⟨by rw [isEqual_map, hsort], ?_⟩
              have hmoved := hscript.replace (fun hpair => hpair.slideDown hp hsort hroom)
              obtain ⟨hu, hn⟩ := @uncoveredAbove_spec t piece p hp hsort
              rw [Spot.pieces, ite_unlessEmpty]
              simp only [List.cons_append, List.nil_append] at hmoved ⊢
              exact IsScript.join_above hu hn hmoved
            case isFalse =>
              obtain ⟨_, _, -, hpair⟩ := isScript_append.mp hscript
              change IsScript t _ _ ([piece] ++ (p :: after)) i' j' at hpair
              obtain ⟨_, _, -, hrest⟩ := isScript_append.mp hpair
              rw [if_neg (length_ne_zero_of_isScript hp hrest)]
              exact ⟨hsort, hscript⟩
          case isFalse hp =>
            split
            case isTrue hsame =>
              apply ih
              refine ⟨by rw [isEqual_map, hsort], ?_⟩
              exact hscript.replace (fun hpair => hpair.merge_sort (sameSort_comm p piece ▸ hsame))
            case isFalse hsame =>
              apply ih
              refine ⟨hsort, ?_⟩
              rw [sameSort_comm] at hsame
              have hswapped := hscript.replace
                (fun hpair => hpair.swap hsort (by simpa using hp) (by simpa using hsame))
              simpa [Spot.pieces] using hswapped

theorem isScript_slideAll (sort : Piece → Bool) (hsort : ∀ p, sort p = true → p.isEqual = false)
    (fuel : Nat) {before after : List Piece}
    (h : IsScript t i j (before.reverse ++ after) i' j') :
    IsScript t i j (slideAll t sort fuel before after) i' j' := by
  induction fuel generalizing before after with
  | zero => exact h
  | succ fuel ih =>
      cases after with
      | nil => simpa [slideAll] using h
      | cons p after =>
          rw [slideAll]
          split
          case isTrue hp =>
            have hspot : (⟨before, p, after⟩ : Spot).Valid t i j i' j' := ⟨hsort p hp, h⟩
            apply ih
            simpa [Spot.pieces] using ((hspot.slideUp _).slideDown _).script
          case isFalse => exact ih (by simpa using h)

/-- Sliding gives a script that leads to the same place. -/
theorem isScript_slide {pieces : List Piece} (h : IsScript t i j pieces i' j') :
    IsScript t i j (slide t pieces) i' j' := by
  have hdelete : ∀ p : Piece, p.isDelete = true → p.isEqual = false := by
    intro p
    cases p <;> simp [Piece.isDelete, Piece.isEqual]
  have hinsert : ∀ p : Piece, p.isInsert = true → p.isEqual = false := by
    intro p
    cases p <;> simp [Piece.isInsert, Piece.isEqual]
  exact isScript_slideAll _ hinsert _ (isScript_slideAll _ hdelete _ h)

end PubSweep.Diff
