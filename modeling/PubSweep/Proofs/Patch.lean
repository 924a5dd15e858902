import PubSweep.Patch
import PubSweep.Proofs.Diff.Unified
import PubSweep.Proofs.PathMap

/-!
What a patch of several files says about each of them.

A patch is a list of sections, one for each file whose text differs, in the order of the paths
(`IsPatch`).  The hunks of a section lead from the text before to the text after, unless a line that
they show ends in a carriage return: lines are written without it, and what is left then neither
fits the text before nor gives the text after.
-/

namespace PubSweep.Patch

/-- What a patch has for one file: the path of the file, and the lines behind the header. -/
structure Section where
  path : Path
  hunks : String

namespace Section

/-- The three lines of the header and the hunks. -/
def text (s : Section) : String :=
  "diff --git a/" ++ s.path.text ++ " b/" ++ s.path.text ++ "\n--- a/" ++ s.path.text ++
    "\n+++ b/" ++ s.path.text ++ "\n" ++ s.hunks

/-- The section of a file, if its texts differ. -/
def of? (after : PathMap String) : Path × String → Option Section
  | (path, old) =>
    let new := (after.get? path).getD old
    if old = new then none else some ⟨path, Diff.patchText old new⟩

variable {after : PathMap String} {path : Path} {old : String}

theorem of?_eq_some_iff {s : Section} :
    of? after (path, old) = some s ↔
      ∃ new, after.get? path = some new ∧ old ≠ new ∧ s = ⟨path, Diff.patchText old new⟩ := by
  cases hget : after.get? path with
  | none => simp [of?, hget]
  | some new => simp [of?, hget, eq_comm]

theorem renderSection_eq_text (path : Path) (old new : String) :
    renderSection path old new = text ⟨path, Diff.patchText old new⟩ := by
  delta renderSection text Diff.patchText
  -- both sides are the same as they stand; the literals need not be evaluated
  with_reducible exact rfl

/-- A file adds its section to a patch, if it has one. -/
theorem join_toList_of? : String.join ((of? after (path, old)).toList.map text) =
    if old = (after.get? path).getD old then ""
    else renderSection path old ((after.get? path).getD old) := by
  by_cases hsame : old = (after.get? path).getD old
  · rw [of?, if_pos hsame, if_pos hsame, Option.toList_none, List.map_nil, String.join_nil]
  · rw [of?, if_neg hsame, if_neg hsame, Option.toList_some, List.map_singleton, String.join_cons,
      String.join_nil, String.append_empty, renderSection_eq_text]

end Section

/-- The sections of a patch. -/
def sections (before after : PathMap String) : List Section :=
  before.entries.filterMap (Section.of? after)

theorem render_eq_join_sections (before after : PathMap String) :
    render before after = String.join ((sections before after).map Section.text) := by
  rw [render, sections]
  induction before.entries with
  | nil => rfl
  | cons e entries ih =>
      obtain ⟨path, old⟩ := e
      rw [List.map_cons, String.join_cons, ih]
      dsimp only
      rw [← Section.join_toList_of?]
      cases hsection : Section.of? after (path, old) with
      | none => rw [List.filterMap_cons_none hsection, Option.toList_none, List.map_nil,
          String.join_nil, String.empty_append]
      | some s => rw [List.filterMap_cons_some hsection, Option.toList_some, List.map_singleton,
          String.join_cons, String.join_nil, String.append_empty, List.map_cons, String.join_cons]

theorem pairwise_sections {before : PathMap String} (h : before.Ordered)
    (after : PathMap String) :
    (sections before after).Pairwise fun s s' => s.path.compare s'.path = .lt := by
  refine h.filterMap _ ?_
  intro e e' hlt s hs s' hs'
  obtain ⟨_, -, -, rfl⟩ := Section.of?_eq_some_iff.mp hs
  obtain ⟨_, -, -, rfl⟩ := Section.of?_eq_some_iff.mp hs'
  exact hlt

/-- Files at different paths, each with two texts that differ, have one section each. -/
theorem sections_ofList_perm {files : List (Path × String × String)}
    (hpaths : files.Pairwise fun f f' => f.1.components ≠ f'.1.components)
    (hdiffer : ∀ f ∈ files, f.2.1 ≠ f.2.2) :
    (sections (.ofList (files.map fun (path, old, _) => (path, old)))
      (.ofList (files.map fun (path, _, new) => (path, new)))).Perm
        (files.map fun (path, old, new) => ⟨path, Diff.patchText old new⟩) := by
  have hold := PathMap.entries_ofList_perm (List.pairwise_map.mpr hpaths :
    (files.map fun (path, old, _) => (path, old)).Pairwise _)
  have hnew := PathMap.entries_ofList_perm (List.pairwise_map.mpr hpaths :
    (files.map fun (path, _, new) => (path, new)).Pairwise _)
  have hsections : ∀ f ∈ files,
      Section.of? (.ofList (files.map fun (path, _, new) => (path, new))) (f.1, f.2.1) =
        some ⟨f.1, Diff.patchText f.2.1 f.2.2⟩ := by
    intro f hf
    have hget := (PathMap.ordered_ofList _).get?_eq_some_iff.mpr
      ⟨f.1, hnew.mem_iff.mpr (List.mem_map_of_mem hf), Std.ReflCmp.compare_self⟩
    exact Section.of?_eq_some_iff.mpr ⟨f.2.2, hget, hdiffer f hf, rfl⟩
  refine (hold.filterMap _).trans (.of_eq ?_)
  rw [List.filterMap_map]
  exact (List.filterMap_congr hsections).trans (congrFun List.filterMap_eq_map' files)

/-- Sections that make up the patch between two maps. -/
structure IsPatch (before after : PathMap String) (sections : List Section) : Prop where
  /-- The patch is the sections one after the other. -/
  text : render before after = String.join (sections.map Section.text)
  /-- The sections come in the order of their paths, and no path has two of them. -/
  ordered : sections.Pairwise fun s s' => s.path.compare s'.path = .lt
  /-- A path has a section if and only if its text differs. -/
  differs : ∀ path, (∃ s ∈ sections, s.path.compare path = .eq) ↔
    before.get? path ≠ after.get? path
  /-- The hunks of a section turn the text before into the text after if and only if no line that
  they show ends in a carriage return. -/
  applies : ∀ s ∈ sections, ∀ old new, before.get? s.path = some old →
    after.get? s.path = some new → (Diff.applyPatch s.hunks old = some new ↔
      ∀ line ∈ Diff.shownLines (Diff.hunks (.ofTexts old new)), ¬Diff.EndsInReturn line.toList)

section

variable {before after : PathMap String} (hbefore : before.Ordered)

include hbefore

/-- A section is about the texts that are found at its path. -/
theorem exists_texts_of_mem_sections {s : Section} (h : s ∈ sections before after) :
    ∃ old new, before.get? s.path = some old ∧ after.get? s.path = some new ∧ old ≠ new ∧
      s.hunks = Diff.patchText old new := by
  obtain ⟨⟨path, old⟩, hmem, hsection⟩ := List.mem_filterMap.mp h
  obtain ⟨new, hnew, hne, rfl⟩ := Section.of?_eq_some_iff.mp hsection
  have hold := hbefore.get?_eq_some_iff.mpr ⟨path, hmem, Std.ReflCmp.compare_self⟩
  exact ⟨old, new, hold, hnew, hne, by with_reducible rfl⟩

theorem exists_section_iff (hpaths : ∀ path, (before.get? path).isSome = (after.get? path).isSome)
    (path : Path) : (∃ s ∈ sections before after, s.path.compare path = .eq) ↔
      before.get? path ≠ after.get? path := by
  constructor
  · rintro ⟨s, hs, hpath⟩
    obtain ⟨old, new, hold, hnew, hne, -⟩ := exists_texts_of_mem_sections hbefore hs
    rw [← before.get?_congr hpath, ← after.get?_congr hpath, hold, hnew]
    exact fun h => hne (Option.some.inj h)
  · intro hdiffers
    have hsome := hpaths path
    cases hold : before.get? path with
    | none =>
        rw [hold, Option.isSome_none, eq_comm, Option.isSome_eq_false_iff,
          Option.isNone_iff_eq_none] at hsome
        exact absurd (hold.trans hsome.symm) hdiffers
    | some old =>
        rw [hold, Option.isSome_some, eq_comm, Option.isSome_iff_exists] at hsome
        obtain ⟨new, hnew⟩ := hsome
        rw [hold, hnew] at hdiffers
        obtain ⟨p, hmem, hp⟩ := hbefore.get?_eq_some_iff.mp hold
        rw [after.get?_congr hp] at hnew
        have hne : old ≠ new := fun h => hdiffers (congrArg some h)
        have hsection := Section.of?_eq_some_iff.mpr ⟨new, hnew, hne, rfl⟩
        exact ⟨_, List.mem_filterMap.mpr ⟨(p, old), hmem, hsection⟩, Std.OrientedCmp.eq_symm hp⟩

theorem applyPatch_iff_of_mem_sections {s : Section} (h : s ∈ sections before after)
    {old new : String} (hold : before.get? s.path = some old)
    (hnew : after.get? s.path = some new) : Diff.applyPatch s.hunks old = some new ↔
      ∀ line ∈ Diff.shownLines (Diff.hunks (.ofTexts old new)), ¬Diff.EndsInReturn line.toList := by
  obtain ⟨old', new', hold', hnew', -, hhunks⟩ := exists_texts_of_mem_sections hbefore h
  rw [hold, Option.some.injEq] at hold'
  rw [hnew, Option.some.injEq] at hnew'
  rw [hhunks, ← hold', ← hnew']
  exact Diff.applyPatch_patchText_iff old new

/-- The patch between two maps over the same paths is made of sections. -/
theorem render_isPatch
    (hpaths : ∀ path, (before.get? path).isSome = (after.get? path).isSome) :
    ∃ sections, IsPatch before after sections := by
  refine ⟨sections before after, ?_⟩
  exact {
    text := render_eq_join_sections before after
    ordered := pairwise_sections hbefore after
    differs := exists_section_iff hbefore hpaths
    applies := fun s hs old new hold hnew =>
      applyPatch_iff_of_mem_sections hbefore hs hold hnew }

end

/-- Of two files one differs, with a blank line in it and a last line without a line feed. -/
theorem render_isPatch_two_files :
    let before := PathMap.ofList
      [(⟨"src/b.rs"⟩, "pub struct B;\n"), (⟨"a.rs"⟩, "struct A;\n\nfn f() {}")]
    let after := PathMap.ofList
      [(⟨"src/b.rs"⟩, "pub struct B;\n"), (⟨"a.rs"⟩, "pub struct A;\n\nfn f() {}")]
    before.Ordered ∧ (∀ path, (before.get? path).isSome = (after.get? path).isSome) ∧
      ∃ sections, IsPatch before after sections ∧ ∃ s ∈ sections,
        s.path.compare ⟨"a.rs"⟩ = .eq ∧
        Diff.applyPatch s.hunks "struct A;\n\nfn f() {}" = some "pub struct A;\n\nfn f() {}" := by
  intro before after
  have hordered : before.Ordered := PathMap.ordered_ofList _
  have hpaths : ∀ path, (before.get? path).isSome = (after.get? path).isSome := by
    intro path
    rw [PathMap.isSome_get?, PathMap.isSome_get?]
    rfl
  refine ⟨hordered, hpaths, ?_⟩
  obtain ⟨sections, hpatch⟩ := render_isPatch hordered hpaths
  obtain ⟨s, hs, hpath⟩ := (hpatch.differs ⟨"a.rs"⟩).mpr (by decide +kernel)
  have hold : before.get? ⟨"a.rs"⟩ = some "struct A;\n\nfn f() {}" := by decide +kernel
  have hnew : after.get? ⟨"a.rs"⟩ = some "pub struct A;\n\nfn f() {}" := by decide +kernel
  rw [← PathMap.get?_congr _ hpath] at hold hnew
  refine ⟨sections, hpatch, s, hs, hpath, (hpatch.applies s hs _ _ hold hnew).mpr ?_⟩
  intro line hline
  have hreturn : ∀ line ∈ Diff.textLines "struct A;\n\nfn f() {}" ++
      Diff.textLines "pub struct A;\n\nfn f() {}", ¬Diff.EndsInReturn line.toList := by
    decide +kernel
  exact hreturn line (List.mem_append.mpr (Diff.mem_textLines_of_mem_shownLines _ _ hline))

/-- Lines that end in a carriage return are written without it.  The hunk then does not fit the text
it was made from. -/
theorem render_drops_returns :
    render (.ofList [(⟨"a.rs"⟩, "struct A;\r\n")]) (.ofList [(⟨"a.rs"⟩, "pub struct A;\r\n")]) =
        Section.text ⟨⟨"a.rs"⟩, "@@ -1 +1 @@\n-struct A;\n+pub struct A;\n"⟩ ∧
      Diff.applyPatch "@@ -1 +1 @@\n-struct A;\n+pub struct A;\n" "struct A;\r\n" ≠
        some "pub struct A;\r\n" := by
  decide +kernel

end PubSweep.Patch
