import PubSweep.Proofs.Diff.Hunks
import PubSweep.Proofs.Diff.TextLines

/-!
Reading unified diffs.

`readHunks` reads hunks as they are written in a patch: the head of a hunk says how many lines of
each text follow, and a remark takes the line feed from the line before it.  The main statement is
`readHunks_linesOf`: hunks whose text is taken apart into lines and put together again are read as
they were, less the carriage returns at the end of the lines they show.  `applyPatch_patchText_iff`
says what that means for the texts.
-/

namespace PubSweep.Diff

/-! ### Heads -/

/-- The number at the start of some characters, and what follows it. -/
def readNumber (cs : List Char) : Option (Nat × List Char) :=
  match cs.takeWhile Char.isDigit with
  | [] => none
  | ds => some (Nat.ofDigitChars 10 ds 0, cs.dropWhile Char.isDigit)

/-- The range that a head shows by a line and a length; an empty range is shown by the line before
it. -/
def Range.ofShown (line length : Nat) : Range := ⟨if length = 0 then line else line - 1, length⟩

/-- The range at the start of some characters, and what follows it; one line if no length is
given. -/
def readRange (cs : List Char) : Option (Range × List Char) := do
  let (line, rest) ← readNumber cs
  match rest with
  | ',' :: rest =>
    let (length, rest) ← readNumber rest
    some (.ofShown line length, rest)
  | rest => some (.ofShown line 1, rest)

/-- The ranges in the head of a hunk. -/
def readHead : List Char → Option (Range × Range)
  | '@' :: '@' :: ' ' :: '-' :: cs => do
    let (old, rest) ← readRange cs
    match rest with
    | ' ' :: '+' :: rest =>
      let (new, rest) ← readRange rest
      match rest with
      | ' ' :: '@' :: '@' :: _ => some (old, new)
      | _ => none
    | _ => none
  | _ => none

theorem readNumber_toString (n : Nat) {rest : List Char}
    (h : ∀ c ∈ rest.head?, c.isDigit = false) :
    readNumber ((toString n).toList ++ rest) = some (n, rest) := by
  have hdigits : ∀ c ∈ Nat.toDigits 10 n, c.isDigit = true :=
    fun c hc => Nat.isDigit_of_mem_toDigits (by decide) (by decide) hc
  have hrest : rest.takeWhile Char.isDigit = [] ∧ rest.dropWhile Char.isDigit = rest := by
    cases rest with
    | nil => exact ⟨rfl, rfl⟩
    | cons c rest =>
        have hc : c.isDigit = false := h c rfl
        exact ⟨by simp [hc], by simp [hc]⟩
  rw [Nat.toString_eq_ofList_toDigits, String.toList_ofList, readNumber,
    List.takeWhile_append_of_pos hdigits, List.dropWhile_append_of_pos hdigits, hrest.1, hrest.2,
    List.append_nil]
  split
  case h_1 hnil => exact absurd hnil Nat.toDigits_ne_nil
  case h_2 => rw [Nat.ofDigitChars_ten_toDigits]

theorem Range.ofShown_of_length {r : Range} :
    Range.ofShown (if 0 < r.length then r.start + 1 else r.start) r.length = r := by
  rw [Range.ofShown]
  by_cases hzero : r.length = 0
  · rw [if_pos hzero, if_neg (by omega)]
  · rw [if_neg hzero, if_pos (by omega), Nat.add_sub_cancel]

theorem readRange_renderRange (r : Range) (rest : List Char) :
    readRange ((renderRange r).toList ++ ' ' :: rest) = some (r, ' ' :: rest) := by
  have hblank : ∀ c ∈ (' ' :: rest).head?, c.isDigit = false := by
    rintro c ⟨⟩
    rfl
  have hcomma : ∀ c ∈ (',' :: ((toString r.length).toList ++ ' ' :: rest)).head?,
      c.isDigit = false := by
    rintro c ⟨⟩
    rfl
  have hshown := @Range.ofShown_of_length r
  rw [renderRange]
  split
  case isTrue hone =>
    rw [hone] at hshown ⊢
    rw [readRange, readNumber_toString _ hblank, ← hshown]
    rfl
  case isFalse hne =>
    rw [String.toList_append, String.toList_append, List.append_assoc, List.append_assoc,
      show ",".toList = [','] from rfl, List.singleton_append, readRange,
      readNumber_toString _ hcomma]
    simp only [Option.bind_eq_bind, Option.bind_some, readNumber_toString _ hblank, hshown]

/-- The first line of a hunk, without its line feed. -/
def Hunk.head (h : Hunk) : List Char :=
  ['@', '@', ' ', '-'] ++ ((renderRange h.old).toList ++ ' ' :: '+' ::
    ((renderRange h.new).toList ++ [' ', '@', '@']))

theorem readHead_head (h : Hunk) : readHead (h.head ++ ['\n']) = some (h.old, h.new) := by
  simp only [Hunk.head, List.append_assoc, List.cons_append, List.nil_append, readHead,
    readRange_renderRange, Option.bind_eq_bind, Option.bind_some]

/-- Ranges are shown by digits and commas. -/
theorem isDigit_of_mem_renderRange {r : Range} {c : Char} (h : c ∈ (renderRange r).toList) :
    c.isDigit = true ∨ c = ',' := by
  have hnumber : ∀ n : Nat, c ∈ (toString n).toList → c.isDigit = true := by
    intro n hc
    rw [Nat.toString_eq_ofList_toDigits, String.toList_ofList] at hc
    exact Nat.isDigit_of_mem_toDigits (by decide) (by decide) hc
  rw [renderRange] at h
  split at h
  · exact .inl (hnumber _ h)
  · rw [String.toList_append, String.toList_append, List.mem_append, List.mem_append] at h
    rcases h with (hc | hc) | hc
    · exact .inl (hnumber _ hc)
    · exact .inr (List.mem_singleton.mp hc)
    · exact .inl (hnumber _ hc)

theorem not_mem_head (h : Hunk) {c : Char} (hdigit : c.isDigit = false)
    (hc : c ∉ ['@', ' ', '-', '+', ',']) : c ∉ h.head := by
  have hrange : ∀ r : Range, c ∉ (renderRange r).toList := by
    intro r hmem
    rcases isDigit_of_mem_renderRange hmem with hd | rfl
    · exact Bool.noConfusion (hdigit.symm.trans hd)
    · exact hc (by decide)
  simp only [Hunk.head, List.mem_append, List.mem_cons, hrange, List.not_mem_nil] at hc ⊢
  tauto

/-! ### Remarks -/

/-- The remark behind a line without a line feed. -/
def remark : List Char := "\\ No newline at end of file\n".toList

/-- A line as a patch shows it, where every line has a line feed. -/
def withRemark (line : List Char) : List (List Char) :=
  if line.getLast? = some '\n' then [line] else [line ++ ['\n'], remark]

/-- Takes the remarks out; a line before a remark loses its line feed. -/
def takeRemarks : List (List Char) → List (List Char)
  | [] => []
  | line :: ('\\' :: _) :: rest => line.dropLast :: takeRemarks rest
  | line :: rest => line :: takeRemarks rest

theorem withRemark_ended (cs : List Char) : withRemark (cs ++ ['\n']) = [cs ++ ['\n']] := by
  rw [withRemark, List.getLast?_concat, if_pos rfl]

theorem withRemark_unended {cs : List Char} (h : '\n' ∉ cs) :
    withRemark cs = [cs ++ ['\n'], remark] := by
  rw [withRemark, if_neg fun hlast => h (List.mem_of_getLast? hlast)]

theorem isEnded_of_mem_withRemark {line shown : List Char} (h : IsLine line)
    (hshown : shown ∈ withRemark line) : IsEnded shown := by
  cases h with
  | @ended cs h =>
      rw [withRemark_ended, List.mem_singleton] at hshown
      exact ⟨cs, h, hshown⟩
  | unended h =>
      rw [withRemark_unended h] at hshown
      rcases List.mem_pair.mp hshown with rfl | rfl
      · exact ⟨line, h, rfl⟩
      · exact ⟨remark.dropLast, by decide, rfl⟩

/-- Carriage returns are dropped from the lines that are shown as from the lines themselves. -/
theorem map_dropReturn_withRemark {line : List Char} (h : IsLine line) :
    (withRemark line).map dropReturn = withRemark (dropReturn line) := by
  cases h with
  | ended h =>
      rw [withRemark_ended, dropReturn_append h, withRemark_ended, ← dropReturn_append h]
      rfl
  | unended h =>
      rw [withRemark_unended h, withRemark_unended (mt (dropReturn_sublist line).mem h),
        ← dropReturn_append h]
      rfl

/-- A line that is not taken for a remark. -/
def NoRemark (line : List Char) : Prop := line.head? ≠ some '\\'

theorem takeRemarks_cons {line : List Char} {rest : List (List Char)}
    (h : ∀ next ∈ rest.head?, NoRemark next) :
    takeRemarks (line :: rest) = line :: takeRemarks rest := by
  rw [takeRemarks]
  rintro cs rest' rfl
  exact h ('\\' :: cs) rfl rfl

theorem noRemark_head_flatMap {lines : List (List Char)} (h : ∀ line ∈ lines, NoRemark line) :
    ∀ first ∈ (lines.flatMap withRemark).head?, NoRemark first := by
  cases lines with
  | nil => exact nofun
  | cons line lines =>
      have hline := h line List.mem_cons_self
      rw [List.flatMap_cons, withRemark]
      split
      case isTrue =>
        rintro first ⟨⟩
        exact hline
      case isFalse =>
        rintro first ⟨⟩
        cases line with
        | nil => exact nofun
        | cons c cs => exact hline

/-- The lines are found again where the remarks are taken out. -/
theorem takeRemarks_flatMap {lines : List (List Char)} (h : ∀ line ∈ lines, NoRemark line) :
    takeRemarks (lines.flatMap withRemark) = lines := by
  induction lines with
  | nil => rfl
  | cons line lines ih =>
      have hlines := fun line hmem => h line (List.mem_cons_of_mem _ hmem)
      rw [List.flatMap_cons, withRemark]
      split
      case isTrue =>
        rw [List.singleton_append, takeRemarks_cons (noRemark_head_flatMap hlines), ih hlines]
      case isFalse =>
        change (line ++ ['\n']).dropLast :: takeRemarks (lines.flatMap withRemark) = _
        rw [List.dropLast_concat, ih hlines]

/-! ### Lines of hunks -/

namespace HunkLine

/-- A line of a hunk with its mark; a blank line has none. -/
def marked : HunkLine → List Char
  | context line => if line = "\n" then ['\n'] else ' ' :: line.toList
  | delete line => '-' :: line.toList
  | insert line => '+' :: line.toList

/-- Reads a line of a hunk. -/
def read? : List Char → Option HunkLine
  | ' ' :: cs => some (context (.ofList cs))
  | '-' :: cs => some (delete (.ofList cs))
  | '+' :: cs => some (insert (.ofList cs))
  | ['\n'] => some (context "\n")
  | _ => none

/-- How many lines of the old and of the new text are left in a hunk behind a line of it. -/
def count? : HunkLine → (old new : Nat) → Option (Nat × Nat)
  | context _, old + 1, new + 1 => some (old, new)
  | delete _, old + 1, new => some (old, new)
  | insert _, old, new + 1 => some (old, new)
  | _, _, _ => none

end HunkLine

/-- A line without the carriage return at its end. -/
def withoutReturn (line : String) : String := .ofList (dropReturn line.toList)

theorem HunkLine.read?_dropReturn_marked (l : HunkLine) :
    read? (dropReturn l.marked) = some (l.map withoutReturn) := by
  cases l with
  | delete line | insert line =>
      rw [marked, dropReturn_cons (by decide)]
      rfl
  | context line =>
      rw [marked]
      split
      case isTrue hblank =>
        rw [hblank]
        rfl
      case isFalse =>
        rw [dropReturn_cons (by decide)]
        rfl

/-- What a marked line starts with. -/
theorem HunkLine.marked_eq (l : HunkLine) :
    (∃ mark, mark ≠ '\n' ∧ mark ≠ '\r' ∧ mark ≠ '\\' ∧ l.marked = mark :: l.text.toList) ∨
      l.marked = ['\n'] := by
  cases l with
  | delete line => exact .inl ⟨'-', by decide, by decide, by decide, rfl⟩
  | insert line => exact .inl ⟨'+', by decide, by decide, by decide, rfl⟩
  | context line =>
      rw [marked]
      split
      · exact .inr rfl
      · exact .inl ⟨' ', by decide, by decide, by decide, rfl⟩

theorem toList_renderMarked {mark : Char} (hmark : mark ≠ '\n') {line : String}
    (hblank : ¬(mark = ' ' ∧ line = "\n")) :
    (renderMarked mark line).toList = (withRemark (mark :: line.toList)).flatten := by
  have hlast : (mark :: line.toList).getLast? = some '\n' ↔ line.toList.getLast? = some '\n' := by
    cases line.toList with
    | nil => simp [hmark]
    | cons c cs => rw [List.getLast?_cons_cons]
  have hremark : "\n\\ No newline at end of file\n".toList = '\n' :: remark := rfl
  rw [renderMarked, withRemark]
  by_cases hended : line.toList.getLast? = some '\n'
  · simp [hblank, hlast, hended]
  · rw [if_neg (by simpa using hblank), if_neg (mt hlast.mp hended), String.toList_append,
      String.toList_append, String.toList_singleton]
    simp [hended, hremark]

theorem HunkLine.toList_render (l : HunkLine) :
    l.render.toList = (withRemark l.marked).flatten := by
  cases l with
  | delete line => exact toList_renderMarked (by decide) (fun h => absurd h.1 (by decide))
  | insert line => exact toList_renderMarked (by decide) (fun h => absurd h.1 (by decide))
  | context line =>
      rw [marked, render]
      split
      case isTrue hblank =>
        rw [hblank]
        rfl
      case isFalse hne => exact toList_renderMarked (by decide) fun h => hne h.2

/-! ### Hunks -/

/-- The lines of a hunk. -/
def Hunk.patchLines (h : Hunk) : List (List Char) :=
  (h.head ++ ['\n']) :: h.lines.map HunkLine.marked

/-- Reads the hunks of a patch, in the middle of one that has so many lines of the old and the new
text left: the lines that are left, and the hunks behind. -/
def readFrom (old new : Nat) : List (List Char) → Option (List HunkLine × List Hunk)
  | [] => if old = 0 ∧ new = 0 then some ([], []) else none
  | line :: rest =>
    if old = 0 ∧ new = 0 then do
      let (r, r') ← readHead line
      let (lines, hs) ← readFrom r.length r'.length rest
      some ([], ⟨r, r', lines⟩ :: hs)
    else do
      let l ← HunkLine.read? line
      let (old, new) ← l.count? old new
      let (lines, hs) ← readFrom old new rest
      some (l :: lines, hs)

/-- Reads the hunks of a patch. -/
def readHunks (patch : String) : Option (List Hunk) :=
  (readFrom 0 0 (takeRemarks (splitLines patch.toList))).map (·.2)

theorem HunkLine.count?_map (l : HunkLine) (f : String → String) (lines : List HunkLine) :
    (l.map f).count? (oldLines (l :: lines)).length (newLines (l :: lines)).length =
      some ((oldLines lines).length, (newLines lines).length) := by
  cases l <;> rfl

/-- Lines of a hunk are read until as many are there as its head has said. -/
theorem readFrom_marked (lines : List HunkLine) (rest : List (List Char)) :
    readFrom (oldLines lines).length (newLines lines).length
        (lines.map (dropReturn ·.marked) ++ rest) =
      (readFrom 0 0 rest).map fun r => (lines.map (.map withoutReturn) ++ r.1, r.2) := by
  induction lines with
  | nil => simp [oldLines, newLines]
  | cons l lines ih =>
      have hleft : ¬((oldLines (l :: lines)).length = 0 ∧ (newLines (l :: lines)).length = 0) := by
        cases l <;> simp [oldLines, newLines, HunkLine.old?, HunkLine.new?]
      rw [List.map_cons, List.cons_append, readFrom, if_neg hleft, l.read?_dropReturn_marked]
      simp only [Option.bind_eq_bind, Option.bind_some, l.count?_map, ih]
      cases readFrom 0 0 rest <;> rfl

theorem dropReturn_head (h : Hunk) : dropReturn (h.head ++ ['\n']) = h.head ++ ['\n'] := by
  rw [dropReturn_append (not_mem_head h rfl (by decide)),
    dropReturn_of_not_mem (not_mem_head h rfl (by decide))]

/-- Hunks that show as many lines as their heads say are read as they are, less the carriage
returns. -/
theorem readFrom_patchLines {hs : List Hunk} (hcounted : ∀ h ∈ hs, h.Counted) :
    readFrom 0 0 ((hs.flatMap Hunk.patchLines).map dropReturn) =
      some ([], hs.map (.map withoutReturn)) := by
  induction hs with
  | nil => rfl
  | cons h hs ih =>
      obtain ⟨⟨hold, hnew⟩, hrest⟩ := List.forall_mem_cons.mp hcounted
      rw [List.flatMap_cons, List.map_append, Hunk.patchLines, List.map_cons, List.cons_append,
        readFrom, if_pos ⟨rfl, rfl⟩, dropReturn_head, readHead_head, List.map_map]
      simp only [Option.bind_eq_bind, Option.bind_some, ← hold, ← hnew]
      change ((readFrom _ _ (h.lines.map (dropReturn ·.marked) ++ _)).bind _) = _
      rw [readFrom_marked, ih hrest]
      simp [Hunk.map]

/-! ### Patches as text -/

theorem flatten_flatMap_withRemark (lines : List (List Char)) :
    (lines.flatMap withRemark).flatten = lines.flatMap fun line => (withRemark line).flatten := by
  simp only [List.flatten_eq_flatMap, List.flatMap_assoc]

theorem Hunk.toList_render (h : Hunk) :
    h.render.toList = (h.patchLines.flatMap withRemark).flatten := by
  have hhead : ("@@ -" ++ renderRange h.old ++ " +" ++ renderRange h.new ++ " @@\n").toList =
      h.head ++ ['\n'] := by
    have hback : " @@\n".toList = [' ', '@', '@'] ++ ['\n'] := rfl
    simp only [String.toList_append, Hunk.head, List.append_assoc, List.cons_append, hback]
    rfl
  rw [Hunk.render, String.toList_append, hhead, Hunk.patchLines, flatten_flatMap_withRemark,
    List.flatMap_cons, withRemark_ended, List.flatten_singleton, String.toList_join,
    List.flatMap_map, List.flatMap_map]
  simp only [HunkLine.toList_render]

theorem toList_join_render (hs : List Hunk) :
    (String.join (hs.map Hunk.render)).toList =
      ((hs.flatMap Hunk.patchLines).flatMap withRemark).flatten := by
  rw [String.toList_join, List.flatMap_map, flatten_flatMap_withRemark, List.flatMap_assoc]
  simp only [Hunk.toList_render, flatten_flatMap_withRemark]

/-- Lines of a patch begin with a mark, with the sign of a head or with their end. -/
theorem isLine_of_mem_patchLines {h : Hunk} {line : List Char}
    (hlines : ∀ l ∈ h.lines, IsLine l.text.toList) (hline : line ∈ h.patchLines) :
    IsLine line ∧ NoRemark (dropReturn line) := by
  rcases List.mem_cons.mp hline with rfl | hmem
  · rw [dropReturn_head]
    exact ⟨.ended (not_mem_head h rfl (by decide)), nofun⟩
  · obtain ⟨l, hl, rfl⟩ := List.mem_map.mp hmem
    rcases l.marked_eq with ⟨mark, hfeed, hreturn, hremark, hmarked⟩ | hblank
    · rw [hmarked, dropReturn_cons hreturn]
      exact ⟨(hlines l hl).cons hfeed, fun hhead => hremark (Option.some.inj hhead)⟩
    · rw [hblank]
      exact ⟨@IsLine.ended [] List.not_mem_nil, nofun⟩

/-- A text of hunks that is taken apart into lines and put together again. -/
theorem readHunks_linesOf {hs : List Hunk} (hcounted : ∀ h ∈ hs, h.Counted)
    (hlines : ∀ h ∈ hs, ∀ l ∈ h.lines, IsLine l.text.toList) :
    readHunks (String.join ((Patch.linesOf (String.join (hs.map Hunk.render))).map (· ++ "\n"))) =
      some (hs.map (.map withoutReturn)) := by
  have hpatch : ∀ line ∈ hs.flatMap Hunk.patchLines, IsLine line ∧ NoRemark (dropReturn line) := by
    intro line hline
    obtain ⟨h, hmem, hline⟩ := List.mem_flatMap.mp hline
    exact isLine_of_mem_patchLines (hlines h hmem) hline
  have hended : ∀ line ∈ (hs.flatMap Hunk.patchLines).flatMap withRemark, IsEnded line := by
    intro line hline
    obtain ⟨marked, hmem, hline⟩ := List.mem_flatMap.mp hline
    exact isEnded_of_mem_withRemark (hpatch marked hmem).1 hline
  have hsplit := splitLines_flatten hended
  rw [← toList_join_render] at hsplit
  have hdropped : ∀ line ∈ ((hs.flatMap Hunk.patchLines).flatMap withRemark).map dropReturn,
      IsEnded line := by
    intro line hline
    obtain ⟨line, hmem, rfl⟩ := List.mem_map.mp hline
    exact (hended line hmem).dropReturn
  have hremarks : ((hs.flatMap Hunk.patchLines).flatMap withRemark).map dropReturn =
      ((hs.flatMap Hunk.patchLines).map dropReturn).flatMap withRemark := by
    rw [List.map_flatMap, List.flatMap_map]
    exact List.flatMap_congr fun line hline => map_dropReturn_withRemark (hpatch line hline).1
  rw [readHunks, toList_join_linesOf (by rwa [hsplit]), hsplit, splitLines_flatten hdropped,
    hremarks, takeRemarks_flatMap, readFrom_patchLines hcounted]
  · rfl
  · intro line hline
    obtain ⟨line, hmem, rfl⟩ := List.mem_map.mp hline
    exact (hpatch line hmem).2

/-! ### Applying patches -/

/-- The lines of a text. -/
def textLines (text : String) : List String := (splitLines text.toList).map String.ofList

theorem join_textLines (text : String) : String.join (textLines text) = text := by
  rw [← String.toList_inj, String.toList_join, textLines, List.flatMap_map]
  simp only [String.toList_ofList, List.flatMap_id', flatten_splitLines]

/-- The difference of two texts as it stands in a patch: line by line, each with a line feed. -/
def patchText (old new : String) : String :=
  String.join ((Patch.linesOf (render old new)).map (· ++ "\n"))

/-- Applies the hunks of a patch to a text. -/
def applyPatch (patch text : String) : Option String := do
  let hs ← readHunks patch
  let lines ← applyHunks 0 (textLines text) hs
  return String.join lines

section

variable {as bs : List String} (h : List.Forall₂ (fun a b => a.toList.Sublist b.toList) as bs)

include h

theorem flatMap_toList_sublist : (as.flatMap String.toList).Sublist (bs.flatMap String.toList) := by
  induction h with
  | nil => exact .slnil
  | cons hline _ ih => exact hline.append ih

/-- Lines that lose characters give another text. -/
theorem eq_of_join_eq (hjoin : String.join as = String.join bs) : as = bs := by
  rw [← String.toList_inj, String.toList_join, String.toList_join] at hjoin
  induction h with
  | nil => rfl
  | @cons a b as bs hline hrest ih =>
      have hle := hline.length_le
      have hle' := (flatMap_toList_sublist hrest).length_le
      rw [List.flatMap_cons, List.flatMap_cons] at hjoin
      have hlength := congrArg List.length hjoin
      rw [List.length_append, List.length_append] at hlength
      have heq := hline.eq_of_length (by omega)
      rw [heq, List.append_cancel_left_eq] at hjoin
      rw [String.toList_inj.mp heq, ih hjoin]

end

section

variable (old new : String)

/-- A difference shows lines of the two texts. -/
theorem mem_textLines_of_mem_shownLines {line : String}
    (h : line ∈ shownLines (hunks (.ofTexts old new))) :
    line ∈ textLines old ∨ line ∈ textLines new :=
  (patches_hunks _).mem_of_mem_shownLines h

theorem isLine_of_mem_textLines {text line : String} (h : line ∈ textLines text) :
    IsLine line.toList := by
  obtain ⟨cs, hcs, rfl⟩ := List.mem_map.mp h
  rw [String.toList_ofList]
  exact isLine_of_mem_splitLines hcs

theorem readHunks_patchText :
    readHunks (patchText old new) = some ((hunks (.ofTexts old new)).map (.map withoutReturn)) := by
  refine readHunks_linesOf (patches_hunks _).counted ?_
  intro h hmem l hl
  have hshown : l.text ∈ shownLines (hunks (.ofTexts old new)) :=
    List.mem_flatMap.mpr ⟨h, hmem, List.mem_map_of_mem hl⟩
  exact (mem_textLines_of_mem_shownLines old new hshown).elim isLine_of_mem_textLines
    isLine_of_mem_textLines

theorem withoutReturn_eq_self_iff {line : String} :
    withoutReturn line = line ↔ ¬EndsInReturn line.toList := by
  rw [← dropReturn_eq_self_iff, withoutReturn, ← String.toList_inj, String.toList_ofList]

/-- A difference that is applied to the old text gives the new one if and only if no line that it
shows ends in a carriage return. -/
theorem applyPatch_patchText_iff :
    applyPatch (patchText old new) old = some new ↔
      ∀ line ∈ shownLines (hunks (.ofTexts old new)), ¬EndsInReturn line.toList := by
  have hpatches := patches_hunks (.ofTexts old new)
  have hold : (Lines.ofTexts old new).old.toList.drop 0 = textLines old := rfl
  have hnew : (Lines.ofTexts old new).new.toList.drop 0 = textLines new := rfl
  have hiff := hpatches.applyHunks_map_iff withoutReturn
  have hchanged := @Patches.forall₂_of_applyHunks_map _ _ _ _ hpatches withoutReturn
  rw [hold, hnew] at hiff hchanged
  simp only [withoutReturn_eq_self_iff] at hiff
  rw [← hiff, applyPatch, readHunks_patchText]
  simp only [Option.bind_eq_bind, Option.bind_some, Option.bind_eq_some_iff, Option.pure_def,
    Option.some.injEq]
  generalize applyHunks 0 (textLines old) _ = applied at hchanged ⊢
  constructor
  · rintro ⟨lines, hlines, hjoin⟩
    have hsub : List.Forall₂ (fun a b => a.toList.Sublist b.toList) lines (textLines new) := by
      refine (hchanged hlines).imp ?_
      rintro a b (rfl | rfl)
      · exact .refl _
      · rw [withoutReturn, String.toList_ofList]
        exact dropReturn_sublist b.toList
    rw [hlines, eq_of_join_eq hsub (hjoin.trans (join_textLines new).symm)]
  · intro hlines
    exact ⟨textLines new, hlines, join_textLines new⟩

end

end PubSweep.Diff
