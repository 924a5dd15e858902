import Mathlib.Data.List.Forall2
import PubSweep.Diff.Hunk
import PubSweep.Proofs.Diff.Slide

/-!
The hunks between two texts.

What lies between the changes of a script is the same in both texts (`aligned_changes`), and so is
what lies between the hunks (`patches_hunks`).  Hunks that patch a text can be applied to it, and
`Patches.applyHunks_map_iff` says that this is lost as soon as any line they show is changed.
-/

namespace PubSweep.Diff

/-! ### Changes -/

/-- Changes behind line `i` of the old and line `j` of the new text.  What lies between them, and
behind the last one, is the same in both texts; between two changes there is at least one line, and
before the first there are at least `least`. -/
inductive Aligned (t : Lines) : (least i j : Nat) → List Change → Prop
  | nil {least i j n : Nat} (hold : i + n = t.old.size) (hnew : j + n = t.new.size)
      (hsame : SameLines t i j n) : Aligned t least i j []
  | cons {least i j n : Nat} {c : Change} {cs : List Change} (hleast : least ≤ n)
      (hold : c.old.start = i + n) (hnew : c.new.start = j + n) (hsame : SameLines t i j n)
      (hrest : Aligned t 1 c.old.stop c.new.stop cs) : Aligned t least i j (c :: cs)

variable {t : Lines}

theorem Aligned.le {least i j : Nat} {cs : List Change} (h : Aligned t least i j cs) :
    i ≤ t.old.size ∧ j ≤ t.new.size := by
  induction h with
  | nil hold hnew _ => omega
  | cons _ hold hnew _ _ ih =>
      simp only [Range.stop] at ih
      omega

theorem Range.stop_growDown (r : Range) (n : Nat) : (r.growDown n).stop = r.stop + n := by
  simp only [growDown, stop]
  omega

/-- Pieces whose changes are as they should be: behind `n` lines that are the same and with no
change open, or with a change open that ends here. -/
structure GivesChanges (t : Lines) (pieces : List Piece) : Prop where
  closed : ∀ {least i j n : Nat}, least ≤ n → SameLines t i j n →
    IsScript t (i + n) (j + n) pieces t.old.size t.new.size →
      Aligned t least i j (changesFrom (i + n) (j + n) none pieces)
  opened : ∀ {c : Change}, IsScript t c.old.stop c.new.stop pieces t.old.size t.new.size →
    ∃ c' cs, changesFrom c.old.stop c.new.stop (some c) pieces = c' :: cs ∧
      c'.old.start = c.old.start ∧ c'.new.start = c.new.start ∧
      Aligned t 1 c'.old.stop c'.new.stop cs

theorem givesChanges_nil (t : Lines) : GivesChanges t [] where
  closed := by
    rintro least i j n hleast hsame ⟨hold, hnew⟩
    exact .nil hold hnew hsame
  opened := by
    rintro c ⟨hold, hnew⟩
    exact ⟨c, [], rfl, rfl, rfl, .nil hold hnew fun k hk => absurd hk (Nat.not_lt_zero k)⟩

theorem GivesChanges.equal {pieces : List Piece} (h : GivesChanges t pieces) (old new : Range) :
    GivesChanges t (.equal old new :: pieces) where
  closed := by
    rintro least i j n hleast hsame ⟨hold, hnew, hlength, hpos, hequal, hrest⟩
    rw [Range.stop, Range.stop, hold, hnew, ← hlength, Nat.add_assoc, Nat.add_assoc] at hrest
    rw [changesFrom, ← hlength, Nat.add_assoc, Nat.add_assoc]
    exact h.closed (by omega) (hsame.append hequal) hrest
  opened := by
    rintro c ⟨hold, hnew, hlength, hpos, hequal, hrest⟩
    rw [Range.stop, Range.stop, hold, hnew, ← hlength] at hrest
    refine ⟨c, _, rfl, rfl, rfl, ?_⟩
    rw [← hlength]
    exact h.closed hpos hequal hrest

/-- Where a change starts, it is open with nothing in it. -/
theorem givesChanges_of_opened {piece : Piece} {pieces : List Piece}
    (hpiece : piece.isEqual = false)
    (h : ∀ {c : Change},
      IsScript t c.old.stop c.new.stop (piece :: pieces) t.old.size t.new.size →
        ∃ c' cs, changesFrom c.old.stop c.new.stop (some c) (piece :: pieces) = c' :: cs ∧
          c'.old.start = c.old.start ∧ c'.new.start = c.new.start ∧
          Aligned t 1 c'.old.stop c'.new.stop cs) : GivesChanges t (piece :: pieces) where
  closed := by
    intro least i j n hleast hsame hscript
    obtain ⟨c, cs, hchanges, hold, hnew, haligned⟩ := @h ⟨⟨i + n, 0⟩, ⟨j + n, 0⟩⟩ hscript
    have hnone : changesFrom (i + n) (j + n) none (piece :: pieces) = c :: cs := by
      rw [← hchanges]
      cases piece with
      | equal old new => cases hpiece
      | delete old | insert new => rfl
    rw [hnone]
    exact .cons hleast hold hnew hsame haligned
  opened := h

theorem GivesChanges.delete {pieces : List Piece} (h : GivesChanges t pieces) (old : Range) :
    GivesChanges t (.delete old :: pieces) := by
  refine givesChanges_of_opened rfl ?_
  rintro c ⟨hold, hrest⟩
  have hstop : old.stop = (c.old.growDown old.length).stop := by
    rw [Range.stop_growDown, ← hold, Range.stop]
  rw [hstop] at hrest
  have hopened := @GivesChanges.opened _ _ h { c with old := c.old.growDown old.length } hrest
  rwa [Range.stop_growDown] at hopened

theorem GivesChanges.insert {pieces : List Piece} (h : GivesChanges t pieces) (new : Range) :
    GivesChanges t (.insert new :: pieces) := by
  refine givesChanges_of_opened rfl ?_
  rintro c ⟨hnew, hrest⟩
  have hstop : new.stop = (c.new.growDown new.length).stop := by
    rw [Range.stop_growDown, ← hnew, Range.stop]
  rw [hstop] at hrest
  have hopened := @GivesChanges.opened _ _ h { c with new := c.new.growDown new.length } hrest
  rwa [Range.stop_growDown] at hopened

theorem givesChanges (t : Lines) (pieces : List Piece) : GivesChanges t pieces := by
  induction pieces with
  | nil => exact givesChanges_nil t
  | cons piece pieces ih =>
      cases piece with
      | equal old new => exact ih.equal old new
      | delete old => exact ih.delete old
      | insert new => exact ih.insert new

theorem aligned_changes (t : Lines) : Aligned t 0 0 0 (changes t) :=
  (givesChanges t _).closed (n := 0) (Nat.le_refl 0) (fun k hk => absurd hk (Nat.not_lt_zero k))
    (isScript_slide (isScript_shortest t))

/-! ### The lines of hunks -/

/-- The lines of a text between two places. -/
def between (a : Array String) (start stop : Nat) : List String := (a.extract start stop).toList

theorem between_append (a : Array String) {i j k : Nat} (hij : i ≤ j) (hjk : j ≤ k) :
    between a i j ++ between a j k = between a i k := by
  rw [between, between, between, ← Array.toList_append, Array.extract_append_extract,
    Nat.min_eq_left hij, Nat.max_eq_right hjk]

theorem length_between (a : Array String) {i j : Nat} (hj : j ≤ a.size) :
    (between a i j).length = j - i := by
  rw [between, Array.length_toList, Array.size_extract, Nat.min_eq_left hj]

theorem SameLines.between_eq {i j n : Nat} (h : SameLines t i j n) (hold : i + n ≤ t.old.size)
    (hnew : j + n ≤ t.new.size) : between t.old i (i + n) = between t.new j (j + n) := by
  rw [between, between]
  apply congrArg Array.toList
  apply Array.ext_getElem?
  intro k
  rw [Array.getElem?_extract, Array.getElem?_extract, Nat.min_eq_left hold, Nat.min_eq_left hnew,
    Nat.add_sub_cancel_left, Nat.add_sub_cancel_left]
  split
  case isTrue hk => exact h k hk
  case isFalse => rfl

namespace HunkLine

/-- The line of the old text that a line of a hunk stands for. -/
def old? : HunkLine → Option String
  | context line | delete line => some line
  | insert _ => none

/-- The line of the new text that a line of a hunk stands for. -/
def new? : HunkLine → Option String
  | context line | insert line => some line
  | delete _ => none

/-- The line that a line of a hunk shows. -/
def text : HunkLine → String
  | context line | delete line | insert line => line

/-- Changes the line that is shown. -/
def map (f : String → String) : HunkLine → HunkLine
  | context line => context (f line)
  | delete line => delete (f line)
  | insert line => insert (f line)

end HunkLine

/-- Changes the lines that a hunk shows; its head stays as it is. -/
def Hunk.map (f : String → String) (h : Hunk) : Hunk := { h with lines := h.lines.map (.map f) }

/-- The lines of the old text in a hunk. -/
def oldLines (lines : List HunkLine) : List String := lines.filterMap HunkLine.old?

/-- The lines of the new text in a hunk. -/
def newLines (lines : List HunkLine) : List String := lines.filterMap HunkLine.new?

theorem oldLines_append (a b : List HunkLine) : oldLines (a ++ b) = oldLines a ++ oldLines b :=
  List.filterMap_append

theorem newLines_append (a b : List HunkLine) : newLines (a ++ b) = newLines a ++ newLines b :=
  List.filterMap_append

theorem oldLines_map (f : String → String) (lines : List HunkLine) :
    oldLines (lines.map (.map f)) = (oldLines lines).map f := by
  rw [oldLines, oldLines, List.filterMap_map, List.map_filterMap]
  apply List.filterMap_congr
  rintro (line | line | line) - <;> rfl

theorem newLines_map (f : String → String) (lines : List HunkLine) :
    newLines (lines.map (.map f)) = (newLines lines).map f := by
  rw [newLines, newLines, List.filterMap_map, List.map_filterMap]
  apply List.filterMap_congr
  rintro (line | line | line) - <;> rfl

/-- A line that a hunk shows is one of the old or of the new text. -/
theorem mem_map_text_iff {lines : List HunkLine} {line : String} :
    line ∈ lines.map HunkLine.text ↔ line ∈ oldLines lines ∨ line ∈ newLines lines := by
  rw [oldLines, newLines, List.mem_map, List.mem_filterMap, List.mem_filterMap]
  constructor
  · rintro ⟨l, hmem, rfl⟩
    cases l with
    | context line => exact .inl ⟨_, hmem, rfl⟩
    | delete line => exact .inl ⟨_, hmem, rfl⟩
    | insert line => exact .inr ⟨_, hmem, rfl⟩
  · rintro (⟨l, hmem, hline⟩ | ⟨l, hmem, hline⟩)
    · refine ⟨l, hmem, ?_⟩
      cases l <;> cases hline <;> rfl
    · refine ⟨l, hmem, ?_⟩
      cases l <;> cases hline <;> rfl

@[simp] theorem oldLines_map_context (xs : List String) : oldLines (xs.map .context) = xs := by
  rw [oldLines, List.filterMap_map]
  exact List.filterMap_some

@[simp] theorem newLines_map_context (xs : List String) : newLines (xs.map .context) = xs := by
  rw [newLines, List.filterMap_map]
  exact List.filterMap_some

theorem oldLines_changeLines (t : Lines) (c : Change) :
    oldLines (changeLines t c) = between t.old c.old.start c.old.stop := by
  have hdelete : HunkLine.old? ∘ HunkLine.delete = some := rfl
  have hinsert : HunkLine.old? ∘ HunkLine.insert = fun _ => none := rfl
  rw [changeLines, oldLines_append, oldLines, oldLines, List.filterMap_map, List.filterMap_map,
    hdelete, hinsert, List.filterMap_some, List.filterMap_eq_nil_iff.mpr fun _ _ => rfl,
    List.append_nil]
  rfl

theorem newLines_changeLines (t : Lines) (c : Change) :
    newLines (changeLines t c) = between t.new c.new.start c.new.stop := by
  have hdelete : HunkLine.new? ∘ HunkLine.delete = fun _ => none := rfl
  have hinsert : HunkLine.new? ∘ HunkLine.insert = some := rfl
  rw [changeLines, newLines_append, newLines, newLines, List.filterMap_map, List.filterMap_map,
    hdelete, hinsert, List.filterMap_some, List.filterMap_eq_nil_iff.mpr fun _ _ => rfl,
    List.nil_append]
  rfl

/-- Lines of a hunk that show the old text between `a` and `b` and the new one between `c` and
`d`. -/
structure Shows (t : Lines) (a b c d : Nat) (lines : List HunkLine) : Prop where
  old : oldLines lines = between t.old a b
  new : newLines lines = between t.new c d
  oldLe : a ≤ b
  newLe : c ≤ d

section

variable {a b c d e f : Nat}

theorem Shows.append {front back : List HunkLine} (h : Shows t a b c d front)
    (hback : Shows t b e d f back) : Shows t a e c f (front ++ back) where
  old := by rw [oldLines_append, h.old, hback.old, between_append t.old h.oldLe hback.oldLe]
  new := by rw [newLines_append, h.new, hback.new, between_append t.new h.newLe hback.newLe]
  oldLe := Nat.le_trans h.oldLe hback.oldLe
  newLe := Nat.le_trans h.newLe hback.newLe

/-- Lines that are the same in both texts are context. -/
theorem shows_contextLines {i j n : Nat} (h : SameLines t i j n) (hold : i + n ≤ t.old.size)
    (hnew : j + n ≤ t.new.size) : Shows t i (i + n) j (j + n) (contextLines t j (j + n)) where
  old := by
    rw [h.between_eq hold hnew, contextLines, oldLines_map_context]
    rfl
  new := by
    rw [contextLines, newLines_map_context]
    rfl
  oldLe := Nat.le_add_right i n
  newLe := Nat.le_add_right j n

theorem shows_changeLines (t : Lines) (c : Change) :
    Shows t c.old.start c.old.stop c.new.start c.new.stop (changeLines t c) where
  old := oldLines_changeLines t c
  new := newLines_changeLines t c
  oldLe := Nat.le_add_right _ _
  newLe := Nat.le_add_right _ _

end

/-! ### Hunks -/

/-- Hunks behind line `i` of the old and line `j` of the new text: they show what their heads say,
and what lies between them and behind them is the same in both texts. -/
inductive Patches (t : Lines) : (i j : Nat) → List Hunk → Prop
  | nil {i j n : Nat} (hold : i + n = t.old.size) (hnew : j + n = t.new.size)
      (hsame : SameLines t i j n) : Patches t i j []
  | cons {i j n : Nat} {h : Hunk} {hs : List Hunk} (hold : h.old.start = i + n)
      (hnew : h.new.start = j + n) (hsame : SameLines t i j n)
      (hshows : Shows t h.old.start h.old.stop h.new.start h.new.stop h.lines)
      (hrest : Patches t h.old.stop h.new.stop hs) : Patches t i j (h :: hs)

section

variable {i j n startOld startNew : Nat} {last : Change} {lines : List HunkLine}

/-- The hunk that is closed `behind` lines behind its last change. -/
theorem Patches.close {r : Nat} {hs : List Hunk} (hold : startOld = i + n)
    (hnew : startNew = j + n) (hsame : SameLines t i j n)
    (hshows : Shows t startOld last.old.stop startNew last.new.stop lines)
    (hbehind : SameLines t last.old.stop last.new.stop r) (hr : contextBehind t last ≤ r)
    (hsize : last.old.stop + r ≤ t.old.size ∧ last.new.stop + r ≤ t.new.size)
    (hrest : Patches t (last.old.stop + contextBehind t last)
      (last.new.stop + contextBehind t last) hs) :
    Patches t i j (hunksFrom.close t startOld startNew last lines :: hs) := by
  have hlines := hshows.append (shows_contextLines (hbehind.of_le hr) (by omega) (by omega))
  have hstop : (hunksFrom.close t startOld startNew last lines).old.stop =
      last.old.stop + contextBehind t last := by
    have hle := hshows.oldLe
    change startOld + (last.old.stop + contextBehind t last - startOld) = _
    omega
  have hstop' : (hunksFrom.close t startOld startNew last lines).new.stop =
      last.new.stop + contextBehind t last := by
    have hle := hshows.newLe
    change startNew + (last.new.stop + contextBehind t last - startNew) = _
    omega
  refine .cons hold hnew hsame ?_ ?_
  · rw [hstop, hstop']
    exact hlines
  · rwa [hstop, hstop']

/-- A change with the last `m` lines before it, which are the same in both texts. -/
theorem shows_front {c : Change} {g m : Nat} (h : SameLines t i j g)
    (hold : c.old.start = i + g) (hnew : c.new.start = j + g) (hm : m ≤ g)
    (hle : c.old.start ≤ t.old.size ∧ c.new.start ≤ t.new.size) :
    Shows t (c.old.start - m) c.old.stop (c.new.start - m) c.new.stop
      (contextLines t (c.new.start - m) c.new.start ++ changeLines t c) := by
  have hlast : SameLines t (i + (g - m)) (j + (g - m)) m :=
    SameLines.shift (by rwa [Nat.sub_add_cancel hm])
  have hcontext := shows_contextLines hlast (by omega) (by omega)
  rw [show i + (g - m) + m = c.old.start by omega, show j + (g - m) + m = c.new.start by omega,
    show i + (g - m) = c.old.start - m by omega,
    show j + (g - m) = c.new.start - m by omega] at hcontext
  exact hcontext.append (shows_changeLines t c)

/-- A hunk that is open, behind `n` lines that are the same and with the changes that are left. -/
theorem patches_hunksFrom {cs : List Change} (hold : startOld = i + n) (hnew : startNew = j + n)
    (hsame : SameLines t i j n)
    (hshows : Shows t startOld last.old.stop startNew last.new.stop lines)
    (haligned : Aligned t 1 last.old.stop last.new.stop cs) :
    Patches t i j (hunksFrom t startOld startNew last lines cs) := by
  induction cs generalizing i j n startOld startNew last lines with
  | nil =>
      cases haligned with
      | @nil _ _ _ r hold' hnew' hbehind =>
          have hr : contextBehind t last ≤ r := by
            rw [contextBehind]
            omega
          rw [hunksFrom]
          refine Patches.close hold hnew hsame hshows hbehind hr (by omega) ?_
          refine .nil (n := r - contextBehind t last) (by omega) (by omega) ?_
          exact SameLines.shift (by rwa [Nat.add_sub_cancel' hr])
  | cons c cs ih =>
      cases haligned with
      | @cons _ _ _ g _ _ hg hold' hnew' hgap hrest =>
          have hle := hrest.le
          have hstart : c.old.start ≤ c.old.stop ∧ c.new.start ≤ c.new.stop :=
            ⟨Nat.le_add_right _ _, Nat.le_add_right _ _⟩
          rw [hunksFrom]
          split
          case isTrue hnear =>
            refine ih hold hnew hsame ?_ hrest
            have hcontext := shows_contextLines hgap (by omega) (by omega)
            rw [← hold', ← hnew'] at hcontext
            exact (hshows.append hcontext).append (shows_changeLines t c)
          case isFalse hfar =>
            -- the lines behind the change are at least one, so the gap holds both contexts
            have hbehind : contextBehind t last = 3 ∧ 6 ≤ g := by
              rw [contextBehind, contextLength] at hfar ⊢
              omega
            refine Patches.close hold hnew hsame hshows hgap (by omega) (by omega) ?_
            rw [hbehind.1]
            rw [contextLength]
            refine ih (n := g - 6) (by omega) (by omega) ?_ ?_ hrest
            · exact SameLines.shift (hgap.of_le (by omega))
            · exact shows_front hgap hold' hnew' (by omega) (by omega)

end

/-- The hunks between two texts show all that is different. -/
theorem patches_hunks (t : Lines) : Patches t 0 0 (hunks t) := by
  rw [hunks]
  have haligned := aligned_changes t
  cases hchanges : changes t with
  | nil =>
      rw [hchanges] at haligned
      cases haligned with
      | nil hold hnew hsame => exact .nil hold hnew hsame
  | cons c cs =>
      rw [hchanges] at haligned
      cases haligned with
      | @cons _ _ _ g _ _ _ hold hnew hsame hrest =>
          have hle := hrest.le
          have hstart : c.old.start ≤ c.old.stop ∧ c.new.start ≤ c.new.stop :=
            ⟨Nat.le_add_right _ _, Nat.le_add_right _ _⟩
          have hfront := shows_front hsame hold hnew (Nat.min_le_right contextLength g)
            (by omega)
          rw [show c.old.start - min contextLength g = c.old.start - contextLength by omega,
            show c.new.start - min contextLength g = c.new.start - contextLength by omega] at hfront
          exact patches_hunksFrom (n := g - contextLength) (by omega) (by omega)
            (hsame.of_le (by omega)) hfront hrest

/-! ### Applying hunks -/

/-- Applies hunks to the lines behind the first `passed` ones.  A hunk fits where its head says if
its old lines are there; they are replaced by its new lines. -/
def applyHunks : (passed : Nat) → (lines : List String) → List Hunk → Option (List String)
  | _, lines, [] => some lines
  | passed, lines, h :: hs =>
    let skipped := h.old.start - passed
    let old := oldLines h.lines
    if passed ≤ h.old.start ∧ old.length = h.old.length ∧ old <+: lines.drop skipped then
      (applyHunks h.old.stop (lines.drop (skipped + old.length)) hs).map
        (lines.take skipped ++ newLines h.lines ++ ·)
    else none

theorem drop_eq_between (a : Array String) {i k : Nat} (hik : i ≤ k) :
    a.toList.drop i = between a i k ++ a.toList.drop k := by
  rw [between, Array.toList_extract, List.extract_eq_take_drop]
  have hsplit := List.take_append_drop (k - i) (a.toList.drop i)
  rwa [List.drop_drop, Nat.add_sub_cancel' hik, eq_comm] at hsplit

theorem Patches.le {i j : Nat} {hs : List Hunk} (h : Patches t i j hs) :
    i ≤ t.old.size ∧ j ≤ t.new.size := by
  induction h with
  | nil hold hnew _ => omega
  | cons hold hnew _ hshows _ ih =>
      have hle := hshows.oldLe
      have hle' := hshows.newLe
      omega

/-- A hunk that shows as many lines as its head says. -/
structure Hunk.Counted (h : Hunk) : Prop where
  old : (oldLines h.lines).length = h.old.length
  new : (newLines h.lines).length = h.new.length

theorem Shows.counted {h : Hunk}
    (hshows : Shows t h.old.start h.old.stop h.new.start h.new.stop h.lines)
    (hle : h.old.stop ≤ t.old.size ∧ h.new.stop ≤ t.new.size) : h.Counted where
  old := by rw [hshows.old, length_between t.old hle.1, Range.stop, Nat.add_sub_cancel_left]
  new := by rw [hshows.new, length_between t.new hle.2, Range.stop, Nat.add_sub_cancel_left]

section

variable {i j : Nat} {hs : List Hunk}

theorem Patches.counted (h : Patches t i j hs) : ∀ h ∈ hs, h.Counted := by
  induction h with
  | nil => exact nofun
  | cons _ _ _ hshows hrest ih => exact List.forall_mem_cons.mpr ⟨hshows.counted hrest.le, ih⟩

/-- One hunk, with what lies before it.  It fits if the change of its lines leaves those of the old
text as they are. -/
theorem applyHunks_cons {n : Nat} {h : Hunk} (hold : h.old.start = i + n)
    (hnew : h.new.start = j + n) (hsame : SameLines t i j n)
    (hshows : Shows t h.old.start h.old.stop h.new.start h.new.stop h.lines)
    (hle : h.old.stop ≤ t.old.size ∧ h.new.stop ≤ t.new.size) (f : String → String) :
    applyHunks i (t.old.toList.drop i) (h.map f :: hs) =
      if (oldLines h.lines).map f = oldLines h.lines then
        (applyHunks h.old.stop (t.old.toList.drop h.old.stop) hs).map
          (between t.new j h.new.start ++ (newLines h.lines).map f ++ ·)
      else none := by
  have hstop := hshows.oldLe
  have hstop' := hshows.newLe
  have hskipped := hsame.between_eq (by omega) (by omega)
  rw [← hold, ← hnew] at hskipped
  have hlength : (between t.old i h.old.start).length = h.old.start - i :=
    length_between t.old (by omega)
  have hlines : t.old.toList.drop i =
      between t.old i h.old.start ++ (oldLines h.lines ++ t.old.toList.drop h.old.stop) := by
    rw [hshows.old, ← drop_eq_between t.old hstop, ← drop_eq_between t.old (by omega)]
  have hfits : ∀ rest : List String, (oldLines h.lines).map f <+: oldLines h.lines ++ rest ↔
      (oldLines h.lines).map f = oldLines h.lines := by
    intro rest
    rw [List.prefix_iff_eq_take, List.length_map, List.take_left]
  have hpassed : i ≤ h.old.start := by omega
  rw [applyHunks, Hunk.map, oldLines_map, newLines_map, List.length_map, hlines, ← hlength,
    List.drop_left, List.take_left, ← List.drop_drop, List.drop_left, List.drop_left, hskipped]
  simp only [hpassed, (hshows.counted hle).old, hfits, true_and]

/-- The new text, from the place where a hunk is looked for. -/
theorem drop_new_eq {n : Nat} {h : Hunk} (hnew : h.new.start = j + n)
    (hshows : Shows t h.old.start h.old.stop h.new.start h.new.stop h.lines) :
    t.new.toList.drop j =
      between t.new j h.new.start ++ newLines h.lines ++ t.new.toList.drop h.new.stop := by
  rw [List.append_assoc, hshows.new, ← drop_eq_between t.new hshows.newLe,
    ← drop_eq_between t.new (by omega)]

theorem applyHunks_nil {n : Nat} (hold : i + n = t.old.size) (hnew : j + n = t.new.size)
    (hsame : SameLines t i j n) :
    applyHunks i (t.old.toList.drop i) [] = some (t.new.toList.drop j) := by
  have hlines := hsame.between_eq (Nat.le_of_eq hold) (Nat.le_of_eq hnew)
  have hnone : ∀ a : Array String, a.toList.drop a.size = [] :=
    fun a => List.drop_eq_nil_of_le (by simp)
  rw [applyHunks, drop_eq_between t.old (Nat.le_add_right i n),
    drop_eq_between t.new (Nat.le_add_right j n), hlines, hold, hnew, hnone, hnone]

/-- The lines that hunks show. -/
def shownLines (hs : List Hunk) : List String := hs.flatMap fun h => h.lines.map HunkLine.text

/-- The lines that are shown are lines of the two texts. -/
theorem Patches.mem_of_mem_shownLines (h : Patches t i j hs) {line : String}
    (hline : line ∈ shownLines hs) : line ∈ t.old.toList ∨ line ∈ t.new.toList := by
  have hbetween : ∀ (a : Array String) (start stop : Nat), line ∈ between a start stop →
      line ∈ a.toList := by
    intro a start stop hmem
    rw [between, Array.toList_extract, List.extract_eq_take_drop] at hmem
    exact List.mem_of_mem_drop (List.mem_of_mem_take hmem)
  induction h with
  | nil => cases hline
  | cons _ _ _ hshows _ ih =>
      rw [shownLines, List.flatMap_cons, List.mem_append, mem_map_text_iff, hshows.old,
        hshows.new] at hline
      rcases hline with (hold | hnew) | hrest
      · exact .inl (hbetween _ _ _ hold)
      · exact .inr (hbetween _ _ _ hnew)
      · exact ih hrest

/-- Hunks that show all that is different turn the old text into the new one, and they stop doing so
when any line they show is changed. -/
theorem Patches.applyHunks_map_iff (h : Patches t i j hs) (f : String → String) :
    applyHunks i (t.old.toList.drop i) (hs.map (.map f)) = some (t.new.toList.drop j) ↔
      ∀ line ∈ shownLines hs, f line = line := by
  induction h with
  | nil hold hnew hsame =>
      rw [List.map_nil, applyHunks_nil hold hnew hsame]
      exact iff_of_true rfl fun line hline => absurd hline List.not_mem_nil
  | @cons i j n h hs hold hnew hsame hshows hrest ih =>
      have hfix : ∀ lines : List String, lines.map f = lines ↔ ∀ line ∈ lines, f line = line := by
        intro lines
        conv_lhs => rhs; rw [← List.map_id lines]
        exact List.map_inj_left
      rw [shownLines, List.flatMap_cons, List.forall_mem_append, ← shownLines, ← ih, List.map_cons,
        applyHunks_cons hold hnew hsame hshows hrest.le, drop_new_eq hnew hshows]
      simp only [mem_map_text_iff, or_imp, forall_and, ← hfix]
      split
      case isFalse hne => exact iff_of_false nofun fun hall => hne hall.1.1
      case isTrue heq =>
        rw [Option.map_eq_some_iff]
        constructor
        · rintro ⟨rest, happly, hsplit⟩
          rw [List.append_assoc, List.append_assoc, List.append_cancel_left_eq] at hsplit
          obtain ⟨hlines, rfl⟩ := List.append_inj hsplit (List.length_map f)
          exact ⟨⟨heq, hlines⟩, happly⟩
        · rintro ⟨⟨-, hlines⟩, happly⟩
          exact ⟨_, happly, by rw [hlines]⟩

/-- Where changed hunks can be applied, every line they give is the one of the new text or what the
change makes of it. -/
theorem Patches.forall₂_of_applyHunks_map (h : Patches t i j hs) {f : String → String}
    {lines : List String}
    (happly : applyHunks i (t.old.toList.drop i) (hs.map (.map f)) = some lines) :
    List.Forall₂ (fun a b => a = b ∨ a = f b) lines (t.new.toList.drop j) := by
  have hsame : ∀ lines : List String, List.Forall₂ (fun a b => a = b ∨ a = f b) lines lines :=
    fun lines => List.forall₂_same.mpr fun _ _ => .inl rfl
  induction h generalizing lines with
  | nil hold hnew hequal =>
      rw [List.map_nil, applyHunks_nil hold hnew hequal, Option.some.injEq] at happly
      rw [happly]
      exact hsame lines
  | @cons i j n h hs hold hnew hequal hshows hrest ih =>
      rw [List.map_cons, applyHunks_cons hold hnew hequal hshows hrest.le] at happly
      split at happly
      case isFalse => cases happly
      case isTrue =>
        obtain ⟨rest, hrest, rfl⟩ := Option.map_eq_some_iff.mp happly
        have hlines : List.Forall₂ (fun a b => a = b ∨ a = f b) ((newLines h.lines).map f)
            (newLines h.lines) :=
          List.forall₂_map_left_iff.mpr (List.forall₂_same.mpr fun _ _ => .inr rfl)
        rw [drop_new_eq hnew hshows]
        exact List.rel_append (List.rel_append (hsame _) hlines) (ih hrest)

end

end PubSweep.Diff
