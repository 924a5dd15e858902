import PubSweep.Diff.Hunk
import PubSweep.Patch

/-!
The lines of a text, with and without what ends them.

A text is its lines one after the other (`flatten_splitLines`), and lines that all end with a line
feed are found again (`splitLines_flatten`).  `toList_join_linesOf` says what becomes of a text
whose lines are taken off their ends and ended again: each line loses the carriage return at its
end.
-/

namespace PubSweep.Diff

/-- A line of a text: a line feed is nowhere but at its end. -/
inductive IsLine : List Char → Prop
  | ended {cs : List Char} (h : '\n' ∉ cs) : IsLine (cs ++ ['\n'])
  | unended {cs : List Char} (h : '\n' ∉ cs) : IsLine cs

/-- A line of a text that has its line feed. -/
def IsEnded (line : List Char) : Prop := ∃ cs, '\n' ∉ cs ∧ line = cs ++ ['\n']

theorem IsLine.cons {c : Char} {line : List Char} (hc : c ≠ '\n') (h : IsLine line) :
    IsLine (c :: line) := by
  cases h with
  | @ended cs h => exact @IsLine.ended (c :: cs) (List.not_mem_cons_of_ne_of_not_mem hc.symm h)
  | unended h => exact .unended (List.not_mem_cons_of_ne_of_not_mem hc.symm h)

/-! ### Lines of texts -/

theorem flatten_splitLines (cs : List Char) : (splitLines cs).flatten = cs := by
  induction cs with
  | nil => rfl
  | cons c cs ih =>
      rw [splitLines]
      split
      · rw [List.flatten_cons, ih, List.singleton_append]
      · split
        case h_1 hnone =>
          rw [hnone] at ih
          rw [← ih]
          rfl
        case h_2 line lines hlines =>
          rw [hlines] at ih
          rw [← ih]
          rfl

theorem isLine_of_mem_splitLines {cs line : List Char} (h : line ∈ splitLines cs) :
    IsLine line := by
  induction cs generalizing line with
  | nil => cases h
  | cons c cs ih =>
      rw [splitLines] at h
      split at h
      case isTrue hc =>
        rcases List.mem_cons.mp h with rfl | hmem
        · rw [hc]
          exact @IsLine.ended [] List.not_mem_nil
        · exact ih hmem
      case isFalse hc =>
        have hnil : IsLine [] := .unended List.not_mem_nil
        split at h
        case h_1 hnone =>
          rw [List.mem_singleton.mp h]
          exact hnil.cons hc
        case h_2 first lines hlines =>
          rcases List.mem_cons.mp h with rfl | hmem
          · exact (ih (hlines ▸ List.mem_cons_self)).cons hc
          · exact ih (hlines ▸ List.mem_cons_of_mem first hmem)

theorem splitLines_append {cs : List Char} (h : '\n' ∉ cs) (rest : List Char) :
    splitLines (cs ++ '\n' :: rest) = (cs ++ ['\n']) :: splitLines rest := by
  induction cs with
  | nil => rfl
  | cons c cs ih =>
      obtain ⟨hc, hcs⟩ := not_or.mp (mt List.mem_cons.mpr h)
      rw [List.cons_append, splitLines, if_neg (Ne.symm hc), ih hcs]
      rfl

/-- Lines that have their line feeds are found again. -/
theorem splitLines_flatten {lines : List (List Char)} (h : ∀ line ∈ lines, IsEnded line) :
    splitLines lines.flatten = lines := by
  induction lines with
  | nil => rfl
  | cons line lines ih =>
      obtain ⟨cs, hcs, rfl⟩ := h line List.mem_cons_self
      rw [List.flatten_cons, List.append_assoc, List.singleton_append, splitLines_append hcs,
        ih fun line hmem => h line (List.mem_cons_of_mem _ hmem)]

/-! ### Carriage returns at the end of lines -/

/-- A line without the carriage return at its end. -/
def dropReturn : List Char → List Char
  | [] => []
  | ['\r'] => []
  | ['\r', '\n'] => ['\n']
  | c :: cs => c :: dropReturn cs

@[simp] theorem dropReturn_cons {c : Char} (h : c ≠ '\r') (cs : List Char) :
    dropReturn (c :: cs) = c :: dropReturn cs := by
  rw [dropReturn]
  · exact fun hc => absurd hc h
  · exact fun hc => absurd hc h

theorem dropReturn_of_not_mem {cs : List Char} (h : '\r' ∉ cs) : dropReturn cs = cs := by
  induction cs with
  | nil => rfl
  | cons c cs ih =>
      obtain ⟨hc, hcs⟩ := not_or.mp (mt List.mem_cons.mpr h)
      rw [dropReturn_cons (Ne.symm hc), ih hcs]

/-- A line that has a carriage return at its end, before the line feed if there is one. -/
def EndsInReturn (line : List Char) : Prop := ['\r'] <:+ line ∨ ['\r', '\n'] <:+ line

instance (line : List Char) : Decidable (EndsInReturn line) :=
  inferInstanceAs (Decidable (_ ∨ _))

theorem dropReturn_eq_self_iff {line : List Char} :
    dropReturn line = line ↔ ¬EndsInReturn line := by
  fun_induction dropReturn line with
  | case1 => decide
  | case2 => decide
  | case3 => decide
  | case4 c cs hreturn hfeed ih =>
      rw [List.cons_inj_right, ih, EndsInReturn, EndsInReturn, List.suffix_cons_iff,
        List.suffix_cons_iff, List.cons_eq_cons, List.cons_eq_cons]
      apply not_congr
      constructor
      · exact Or.imp .inr .inr
      · rintro ((⟨hc, hcs⟩ | hsuffix) | (⟨hc, hcs⟩ | hsuffix))
        · exact absurd hcs.symm (hreturn hc.symm)
        · exact .inl hsuffix
        · exact absurd hcs.symm (hfeed hc.symm)
        · exact .inr hsuffix

theorem dropReturn_sublist (line : List Char) : (dropReturn line).Sublist line := by
  fun_induction dropReturn line with
  | case1 => exact .slnil
  | case2 => exact List.nil_sublist _
  | case3 => exact .cons _ (.refl _)
  | case4 c cs _ _ ih => exact ih.cons_cons c

/-- Without a line feed, the carriage return is the last character. -/
theorem dropReturn_eq_ite {cs : List Char} (h : '\n' ∉ cs) :
    dropReturn cs = if cs.getLast? = some '\r' then cs.dropLast else cs := by
  fun_induction dropReturn cs with
  | case1 => rfl
  | case2 => rfl
  | case3 => exact absurd (List.mem_cons_of_mem _ List.mem_cons_self) h
  | case4 c cs hreturn _ ih =>
      rw [ih (mt (List.mem_cons_of_mem c) h)]
      cases cs with
      | nil =>
          have hc : c ≠ '\r' := fun hc => hreturn hc rfl
          simp [hc]
      | cons d cs =>
          rw [List.getLast?_cons_cons, List.dropLast_cons_cons]
          split <;> rfl

/-- The carriage return is looked for before the line feed. -/
theorem dropReturn_append {cs : List Char} (h : '\n' ∉ cs) :
    dropReturn (cs ++ ['\n']) = dropReturn cs ++ ['\n'] := by
  fun_induction dropReturn cs with
  | case1 => rfl
  | case2 => rfl
  | case3 => exact absurd (List.mem_cons_of_mem _ List.mem_cons_self) h
  | case4 c cs hreturn _ ih =>
      rw [List.cons_append, List.cons_append, ← ih (mt (List.mem_cons_of_mem c) h)]
      apply dropReturn.eq_4
      · intro _ hnil
        exact absurd hnil (List.append_ne_nil_of_right_ne_nil cs nofun)
      · intro hc hfeed
        exact hreturn hc (List.append_eq_singleton_iff.mp hfeed |>.elim (·.1) nofun)

theorem IsEnded.dropReturn {line : List Char} (h : IsEnded line) : IsEnded (dropReturn line) := by
  obtain ⟨cs, hcs, rfl⟩ := h
  exact ⟨_, mt (dropReturn_sublist cs).mem hcs, dropReturn_append hcs⟩

/-- A text whose lines are taken off their ends and ended again. -/
theorem toList_join_linesOf {text : String} (h : ∀ line ∈ splitLines text.toList, IsEnded line) :
    (String.join ((Patch.linesOf text).map (· ++ "\n"))).toList =
      ((splitLines text.toList).map Diff.dropReturn).flatten := by
  rw [String.toList_join, Patch.linesOf, List.map_map, List.flatMap_map, List.flatMap_def]
  apply congrArg List.flatten
  apply List.map_congr_left
  intro line hline
  obtain ⟨cs, hcs, rfl⟩ := h line hline
  rw [dropReturn_append hcs, dropReturn_eq_ite hcs]
  simp

end PubSweep.Diff
