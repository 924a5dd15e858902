import PubSweep.Path

/-!
Paths and their segments.

The segments of a path are what stands between its slashes.  `components_join` says what the
components of a path below another are, and `extension_eq_some_iff` which names have an extension.
-/

namespace PubSweep

namespace Path

/-- What stands between the slashes of a path. -/
def segments (p : Path) : List String := (splitSlashes p.text.toList).map String.ofList

/-- The path of some names. -/
def ofNames (names : List String) : Path := ⟨"/".intercalate names⟩

/-- A text that can be the name of a file. -/
def IsName (s : String) : Prop := s ≠ "" ∧ s ≠ "." ∧ s ≠ ".." ∧ '/' ∉ s.toList

instance : DecidablePred IsName := fun _ => inferInstanceAs (Decidable (_ ∧ _))

theorem IsName.not_blank {s : String} (h : IsName s) : isBlank s = false := by
  simp [isBlank, h.1, h.2.1]

/-! ### Segments -/

theorem splitSlashes_eq_splitOn (cs : List Char) : splitSlashes cs = cs.splitOn '/' := by
  induction cs with
  | nil => rfl
  | cons c cs ih =>
      rw [List.splitOn, List.splitOnP_cons_eq_if_modifyHead, ← List.splitOn, ← ih, splitSlashes]
      by_cases hc : c = '/'
      · simp [hc]
      · cases hsplit : splitSlashes cs with
        | nil =>
            rw [ih] at hsplit
            exact absurd hsplit (List.splitOn_ne_nil '/' cs)
        | cons piece pieces => simp [hc]

theorem segments_eq_splitOn (p : Path) :
    p.segments = (p.text.toList.splitOn '/').map String.ofList := by
  rw [segments, splitSlashes_eq_splitOn]

theorem segments_ne_nil (p : Path) : p.segments ≠ [] := by
  rw [segments_eq_splitOn, ne_eq, List.map_eq_nil_iff]
  exact List.splitOn_ne_nil '/' _

/-- A path is its segments with slashes between them. -/
theorem intercalate_segments (p : Path) : "/".intercalate p.segments = p.text := by
  rw [← String.toList_inj, String.toList_intercalate, segments_eq_splitOn, List.map_map]
  have hmap : (String.toList ∘ String.ofList : List Char → List Char) = id := by
    funext cs
    exact String.toList_ofList
  rw [hmap, List.map_id]
  exact List.intercalate_splitOn '/'

theorem slash_notMem_of_mem_splitOn {cs piece : List Char} (h : piece ∈ cs.splitOn '/') :
    '/' ∉ piece := by
  induction cs generalizing piece with
  | nil =>
      simp only [List.splitOn, List.splitOnP_nil, List.mem_singleton] at h
      simp [h]
  | cons c cs ih =>
      rw [List.splitOn, List.splitOnP_cons_eq_if_modifyHead, ← List.splitOn] at h
      split at h
      · rcases List.mem_cons.mp h with rfl | h
        · simp
        · exact ih h
      case isFalse hc =>
        cases hsplit : cs.splitOn '/' with
        | nil => exact absurd hsplit (List.splitOn_ne_nil '/' cs)
        | cons first rest =>
            rw [hsplit, List.modifyHead_cons] at h
            rw [hsplit] at ih
            rcases List.mem_cons.mp h with rfl | h
            · have hfirst := ih List.mem_cons_self
              simp only [beq_iff_eq] at hc
              simp [Ne.symm hc, hfirst]
            · exact ih (List.mem_cons_of_mem first h)

theorem slash_notMem_of_mem_segments {p : Path} {s : String} (h : s ∈ p.segments) :
    '/' ∉ s.toList := by
  rw [segments_eq_splitOn] at h
  obtain ⟨piece, hpiece, rfl⟩ := List.mem_map.mp h
  rw [String.toList_ofList]
  exact slash_notMem_of_mem_splitOn hpiece

/-- Texts without slashes are the segments of the path that they make. -/
theorem segments_ofNames {names : List String} (hne : names ≠ [])
    (h : ∀ s ∈ names, '/' ∉ s.toList) : (ofNames names).segments = names := by
  have hsplit := @List.splitOn_intercalate Char (names.map String.toList) _ _ '/'
    (by
      intro cs hcs
      obtain ⟨s, hs, rfl⟩ := List.mem_map.mp hcs
      exact h s hs)
    (by simpa using hne)
  have hmap : (String.ofList ∘ String.toList) = id := by
    funext s
    exact String.ofList_toList
  rw [segments_eq_splitOn, ofNames, String.toList_intercalate]
  change (List.splitOn '/' (['/'].intercalate (names.map String.toList))).map String.ofList = names
  rw [hsplit, List.map_map, hmap, List.map_id]

/-! ### Components -/

/-- The parts of a path with some segments. -/
def partsOf : List String → Parts
  | "" :: second :: rest => ⟨.rooted, second :: rest⟩
  | "." :: rest => ⟨.dotted, rest⟩
  | segments => ⟨.plain, segments⟩

theorem parts_eq (p : Path) : p.parts = partsOf p.segments := rfl

theorem partsOf_plain {first : String} (hempty : first ≠ "") (hdot : first ≠ ".")
    (rest : List String) : partsOf (first :: rest) = ⟨.plain, first :: rest⟩ := by
  simp [partsOf, hempty, hdot]

/-- A path is rooted, dotted, empty, or starts with a segment that counts. -/
theorem segments_cases {segments : List String} (hne : segments ≠ []) :
    (∃ second rest, segments = "" :: second :: rest) ∨ (∃ rest, segments = "." :: rest) ∨
      segments = [""] ∨ ∃ first rest, segments = first :: rest ∧ first ≠ "" ∧ first ≠ "." := by
  obtain ⟨first, rest, rfl⟩ := List.exists_cons_of_ne_nil hne
  by_cases hempty : first = ""
  · cases rest with
    | nil => simp [hempty]
    | cons second rest => simp [hempty]
  · by_cases hdot : first = "."
    · simp [hdot]
    · exact Or.inr (Or.inr (Or.inr ⟨first, rest, rfl, hempty, hdot⟩))

theorem bodyComponents_append (xs ys : List String) :
    bodyComponents (xs ++ ys) = bodyComponents xs ++ bodyComponents ys := by
  simp [bodyComponents]

theorem bodyComponents_of_isName {names : List String} (h : ∀ s ∈ names, IsName s) :
    bodyComponents names = names.map .name := by
  have hfilter : names.filter (!isBlank ·) = names := by
    rw [List.filter_eq_self]
    intro s hs
    rw [(h s hs).not_blank]
    rfl
  rw [bodyComponents, hfilter]
  apply List.map_congr_left
  intro s hs
  rw [Component.ofPiece, if_neg (h s hs).2.2.1]

/-- The start of a path is decided by its first segments; more segments only add to its body. -/
theorem partsOf_append {base : List String} (hne : base ≠ []) (hempty : base ≠ [""])
    (more : List String) :
    partsOf (base ++ more) = ⟨(partsOf base).start, (partsOf base).body ++ more⟩ := by
  rcases segments_cases hne with ⟨second, rest, rfl⟩ | ⟨rest, rfl⟩ | rfl | ⟨first, rest, rfl, hfirst⟩
  · rfl
  · rfl
  · exact absurd rfl hempty
  · rw [List.cons_append, partsOf_plain hfirst.1 hfirst.2, partsOf_plain hfirst.1 hfirst.2]
    rfl

/-- The components of some segments. -/
def componentsOf (segments : List String) : List Component :=
  (partsOf segments).start.components ++ bodyComponents (partsOf segments).body

theorem components_eq (p : Path) : p.components = componentsOf p.segments := rfl

theorem componentsOf_append {base : List String} (hne : base ≠ []) (hempty : base ≠ [""])
    (more : List String) :
    componentsOf (base ++ more) = componentsOf base ++ bodyComponents more := by
  rw [componentsOf, partsOf_append hne hempty, bodyComponents_append, componentsOf,
    List.append_assoc]

theorem components_ofNames {names : List String} (h : ∀ s ∈ names, IsName s) :
    (ofNames names).components = names.map .name := by
  cases names with
  | nil => rfl
  | cons first rest =>
      have hfirst := h first List.mem_cons_self
      rw [components_eq, segments_ofNames (by simp) fun s hs => (h s hs).2.2.2, componentsOf,
        partsOf_plain hfirst.1 hfirst.2.1, ← bodyComponents_of_isName h]
      rfl

/-! ### Paths below other paths -/

/-- Whether a path starts at the root can be seen from its segments. -/
theorem isAbsolute_iff {p : Path} :
    p.isAbsolute = true ↔ ∃ second rest, p.segments = "" :: second :: rest := by
  rw [isAbsolute, segments_eq_splitOn]
  cases htext : p.text.toList with
  | nil => simp [List.splitOn]
  | cons c cs =>
      rw [List.splitOn, List.splitOnP_cons_eq_if_modifyHead, ← List.splitOn]
      obtain ⟨piece, pieces, hsplit⟩ := List.exists_cons_of_ne_nil (List.splitOn_ne_nil '/' cs)
      by_cases hc : c = '/'
      · simp [hc, hsplit]
      · simp [hc, hsplit]

theorem isAbsolute_ofNames {names : List String} (h : ∀ s ∈ names, IsName s) :
    (ofNames names).isAbsolute = false := by
  rw [Bool.eq_false_iff, ne_eq, isAbsolute_iff]
  rintro ⟨second, rest, hsegments⟩
  cases names with
  | nil => simp [ofNames, segments, splitSlashes] at hsegments
  | cons first others =>
      rw [segments_ofNames (by simp) fun s hs => (h s hs).2.2.2] at hsegments
      exact (h first List.mem_cons_self).1 (List.cons.inj hsegments).1

/-- The segments of two texts with a slash between them. -/
theorem segments_append (a b : String) :
    segments ⟨a ++ "/" ++ b⟩ = segments ⟨a⟩ ++ segments ⟨b⟩ := by
  simp only [segments_eq_splitOn, List.splitOn]
  have htext : (a ++ "/" ++ b).toList = a.toList ++ '/' :: b.toList := by simp
  rw [htext, List.splitOnP_append_cons _ _ (by simp), List.map_append]

/-- The segments of a path below another: those of the other, without an empty last one, and then
the names. -/
theorem segments_join {root : Path} (hroot : root.text ≠ "") {names : List String}
    (hne : names ≠ []) (h : ∀ s ∈ names, IsName s) :
    ∃ base, base ≠ [] ∧ (root.segments = base ∧ base ≠ [""] ∨ root.segments = base ++ [""]) ∧
      (root.join (ofNames names)).segments = base ++ names := by
  have hnames := segments_ofNames hne fun s hs => (h s hs).2.2.2
  rw [join, isAbsolute_ofNames h]
  simp only [Bool.false_or, decide_eq_true_eq, hroot, if_false]
  split
  case isTrue hslash =>
    rw [beq_iff_eq, List.getLast?_eq_some_iff] at hslash
    obtain ⟨front, hfront⟩ := hslash
    have htext : root.text = String.ofList front ++ "/" ++ "" := by
      rw [← String.toList_inj, hfront]
      simp
    have hsegments : root.segments = segments ⟨String.ofList front⟩ ++ [""] := by
      have happend := segments_append (String.ofList front) ""
      rw [← htext] at happend
      exact happend
    refine ⟨segments ⟨String.ofList front⟩, segments_ne_nil _, Or.inr hsegments, ?_⟩
    have hjoin : root.text ++ (ofNames names).text =
        String.ofList front ++ "/" ++ (ofNames names).text := by
      rw [htext, String.append_empty]
    rw [hjoin, segments_append]
    exact congrArg _ hnames
  case isFalse =>
    refine ⟨root.segments, segments_ne_nil root, Or.inl ⟨rfl, ?_⟩, ?_⟩
    · intro hempty
      have htext := intercalate_segments root
      rw [hempty] at htext
      exact hroot htext.symm
    · rw [segments_append]
      exact congrArg _ hnames

theorem components_join {root : Path} (hroot : root.text ≠ "") {names : List String}
    (hne : names ≠ []) (h : ∀ s ∈ names, IsName s) :
    (root.join (ofNames names)).components = root.components ++ names.map .name := by
  obtain ⟨base, hbase, hsegments, hjoin⟩ := segments_join hroot hne h
  rw [components_eq, hjoin, components_eq, ← bodyComponents_of_isName h]
  rcases hsegments with ⟨hsame, hempty⟩ | hslash
  · rw [hsame, componentsOf_append hbase hempty]
  · rw [hslash]
    by_cases hempty : base = [""]
    · subst hempty
      obtain ⟨first, rest, rfl⟩ := List.exists_cons_of_ne_nil hne
      rfl
    · rw [componentsOf_append hbase hempty, componentsOf_append hbase hempty]
      simp [bodyComponents, isBlank]

theorem text_join_ne_empty {root : Path} (hroot : root.text ≠ "") {p : Path}
    (hp : p.isAbsolute = false) : (root.join p).text ≠ "" := by
  rw [join, hp]
  simp only [Bool.false_or, decide_eq_true_eq, hroot, if_false]
  split <;> simp [hroot]

theorem isAbsolute_join {root : Path} (hroot : root.text ≠ "") {p : Path}
    (hp : p.isAbsolute = false) : (root.join p).isAbsolute = root.isAbsolute := by
  obtain ⟨c, cs, hcs⟩ := List.exists_cons_of_ne_nil (mt String.toList_eq_nil_iff.mp hroot)
  rw [join, hp]
  simp only [Bool.false_or, decide_eq_true_eq, hroot, if_false]
  split <;> simp [isAbsolute, hcs]

/-- The path of some names ends with the last of them. -/
theorem text_ofNames_concat (names : List String) (last : String) :
    ∃ front, (ofNames (names ++ [last])).text = front ++ last := by
  cases names with
  | nil => exact ⟨"", by simp [ofNames]⟩
  | cons first rest =>
      refine ⟨"/".intercalate (first :: rest) ++ "/", ?_⟩
      rw [ofNames, String.intercalate_append_of_ne_nil (by simp) (by simp),
        String.intercalate_singleton]

/-- A path of names does not end with a slash. -/
theorem getLast?_text_ofNames {names : List String} (hne : names ≠ [])
    (h : ∀ s ∈ names, IsName s) :
    ∃ c, (ofNames names).text.toList.getLast? = some c ∧ c ≠ '/' := by
  obtain ⟨front, last, rfl⟩ := (List.eq_nil_or_concat names).resolve_left hne
  rw [List.concat_eq_append] at h ⊢
  obtain ⟨before, htext⟩ := text_ofNames_concat front last
  have hlast := h last (by simp)
  obtain ⟨c, hc⟩ := Option.isSome_iff_exists.mp
    (List.getLast?_isSome.mpr (mt String.toList_eq_nil_iff.mp hlast.1))
  refine ⟨c, ?_, ?_⟩
  · rw [htext, String.toList_append, List.getLast?_append, hc]
    rfl
  · rintro rfl
    exact hlast.2.2.2 (List.mem_of_getLast? hc)

/-- Names below names below a path are all of the names below the path. -/
theorem join_join {root : Path} (hroot : root.text ≠ "") {above below : List String}
    (habove : above ≠ []) (hbelow : below ≠ []) (h : ∀ s ∈ above ++ below, IsName s) :
    (root.join (ofNames above)).join (ofNames below) = root.join (ofNames (above ++ below)) := by
  have hfirst : ∀ s ∈ above, IsName s := fun s hs => h s (List.mem_append_left _ hs)
  have hsecond : ∀ s ∈ below, IsName s := fun s hs => h s (List.mem_append_right _ hs)
  have htext : (ofNames (above ++ below)).text =
      (ofNames above).text ++ "/" ++ (ofNames below).text :=
    String.intercalate_append_of_ne_nil habove hbelow
  obtain ⟨c, hc, hslash⟩ := getLast?_text_ofNames habove hfirst
  have hends : ∀ front : String, ((front ++ (ofNames above).text).toList.getLast? == some '/') =
      false := by
    intro front
    rw [String.toList_append, List.getLast?_append, hc]
    simpa using hslash
  have hmiddle := text_join_ne_empty hroot (isAbsolute_ofNames hfirst)
  rw [join, isAbsolute_ofNames hsecond]
  simp only [Bool.false_or, decide_eq_true_eq, hmiddle, if_false]
  simp only [join, isAbsolute_ofNames hfirst, isAbsolute_ofNames h, Bool.false_or,
    decide_eq_true_eq, hroot, if_false, htext]
  split
  · simp only [hends, Bool.false_eq_true, if_false, String.append_assoc]
  · rw [hends]
    simp only [Bool.false_eq_true, if_false, String.append_assoc]

/-! ### Names and their extensions -/

theorem fileName_ofNames {names : List String} (h : ∀ s ∈ names, IsName s) :
    (ofNames names).fileName = names.getLast? := by
  rw [fileName, components_ofNames h, List.getLast?_map]
  cases names.getLast? <;> rfl

/-- What stands before the first dot, if there is more behind the dot. -/
theorem takeWhile_ne_dot_iff {cs taken : List Char} :
    cs.takeWhile (fun c => decide (c ≠ '.')) = taken ∧ taken.length + 1 < cs.length ↔
      '.' ∉ taken ∧ ∃ rest, rest ≠ [] ∧ cs = taken ++ '.' :: rest := by
  constructor
  · rintro ⟨rfl, hlength⟩
    have hsplit := @List.takeWhile_append_dropWhile _ (fun c => decide (c ≠ '.')) cs
    have hdot : '.' ∉ cs.takeWhile (fun c => decide (c ≠ '.')) := by
      intro hmem
      simpa using List.all_eq_true.mp List.all_takeWhile '.' hmem
    refine ⟨hdot, ?_⟩
    cases hdrop : cs.dropWhile (fun c => decide (c ≠ '.')) with
    | nil =>
        rw [hdrop, List.append_nil] at hsplit
        rw [hsplit] at hlength
        omega
    | cons c rest =>
        have hc := List.head_dropWhile_not (fun c => decide (c ≠ '.')) (by rw [hdrop]; simp)
        simp only [hdrop, List.head_cons, decide_eq_false_iff_not, Decidable.not_not] at hc
        rw [hdrop, hc] at hsplit
        refine ⟨rest, ?_, hsplit.symm⟩
        rintro rfl
        rw [← congrArg List.length hsplit] at hlength
        simp at hlength
  · rintro ⟨hdot, rest, hrest, rfl⟩
    have hpos := List.length_pos_iff.mpr hrest
    constructor
    · rw [List.takeWhile_append_of_pos]
      · simp
      · intro c hc
        simp only [decide_eq_true_eq]
        rintro rfl
        exact hdot hc
    · rw [List.length_append, List.length_cons]
      omega

/-- A file has an extension if its name is made of something, a dot and the extension. -/
theorem extension_eq_some_iff {p : Path} {ext : String} (hdot : '.' ∉ ext.toList) :
    p.extension = some ext ↔ ∃ stem, stem ≠ "" ∧ p.fileName = some (stem ++ "." ++ ext) := by
  rw [extension]
  cases hname : p.fileName with
  | none => simp
  | some name =>
      -- the reversed name is the reversed extension, a dot, and at least one more character
      have hsplit := @takeWhile_ne_dot_iff name.toList.reverse ext.toList.reverse
      dsimp only
      constructor
      · intro h
        split at h
        case isFalse => cases h
        case isTrue hlength =>
          have hext := String.toList_inj.mpr (Option.some.inj h)
          rw [String.toList_ofList, List.reverse_eq_iff] at hext
          rw [hext] at hlength
          obtain ⟨-, rest, hrest, hcs⟩ := hsplit.mp ⟨hext, hlength⟩
          refine ⟨String.ofList rest.reverse, ?_, congrArg some ?_⟩
          · simpa [← String.toList_inj] using hrest
          · rw [← String.toList_inj, ← List.reverse_inj, hcs]
            simp
      · rintro ⟨stem, hstem, heq⟩
        have hcs : name.toList.reverse = ext.toList.reverse ++ '.' :: stem.toList.reverse := by
          rw [Option.some.inj heq]
          simp
        have hrest : stem.toList.reverse ≠ [] := by simpa using hstem
        obtain ⟨htaken, hlength⟩ := hsplit.mpr
          ⟨mt List.mem_reverse.mp hdot, _, hrest, hcs⟩
        simp only [htaken, hlength, if_true, List.reverse_reverse, String.ofList_toList]

end Path

end PubSweep
