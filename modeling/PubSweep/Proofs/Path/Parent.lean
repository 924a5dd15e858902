import Mathlib.Data.List.DropRight
import PubSweep.Proofs.Path.Components

/-!
The path above a path.

`parent_of_segments` says what is left of the segments of a path when its last one is taken off.
-/

namespace PubSweep

namespace Path

theorem trimRight_eq_rdropWhile (body : List String) : trimRight body = body.rdropWhile isBlank :=
  rfl

theorem filter_trimRight (body : List String) :
    (trimRight body).filter (!isBlank ·) = body.filter (!isBlank ·) := by
  rw [trimRight_eq_rdropWhile]
  induction body using List.reverseRecOn with
  | nil => rfl
  | append_singleton body s ih =>
      by_cases hs : isBlank s = true
      · rw [List.rdropWhile_concat_pos _ _ _ hs, ih]
        simp [hs]
      · rw [List.rdropWhile_concat_neg _ _ _ hs]

theorem trimRight_isPrefix (body : List String) : trimRight body <+: body :=
  List.rdropWhile_prefix isBlank body

/-- The path above one whose last piece counts: the pieces before it, without those at their end
that do not count. -/
theorem parent_eq {p : Path} {start : Start} {body : List String} {name : String}
    (hparts : p.parts = ⟨start, body ++ [name]⟩) (hname : isBlank name = false) :
    p.parent = some (ofParts start (trimRight body)) := by
  have htrim : trimRight (body ++ [name]) = body ++ [name] := by
    rw [trimRight_eq_rdropWhile, List.rdropWhile_concat_neg _ _ _ (by simp [hname])]
  rw [parent, hparts]
  simp only [htrim]
  split
  · simp_all
  · rw [List.dropLast_concat]

theorem segments_ofParts_rooted (body : List String) :
    (ofParts .rooted body).segments = "" :: (ofNames body).segments := by
  have happend := segments_append "" ("/".intercalate body)
  rw [String.empty_append] at happend
  exact happend

theorem segments_ofParts_dotted {body : List String} (h : ∀ s ∈ body, '/' ∉ s.toList) :
    (ofParts .dotted body).segments = "." :: body := by
  cases body with
  | nil => rfl
  | cons first rest =>
      have happend := segments_append "." ("/".intercalate (first :: rest))
      exact happend.trans (congrArg _ (segments_ofNames (by simp) h))

/-- The segments that count of the path of some texts without slashes. -/
theorem filter_segments_ofNames {names : List String} (h : ∀ s ∈ names, '/' ∉ s.toList) :
    (ofNames names).segments.filter (!isBlank ·) = names.filter (!isBlank ·) := by
  cases names with
  | nil => rfl
  | cons first rest => rw [segments_ofNames (by simp) h]

theorem length_segments_ofNames_le {names : List String} (h : ∀ s ∈ names, '/' ∉ s.toList) :
    (ofNames names).segments.length ≤ names.length + 1 := by
  cases names with
  | nil => exact Nat.le_refl _
  | cons first rest =>
      rw [segments_ofNames (by simp) h]
      exact Nat.le_succ _

theorem text_ne_empty {p : Path} (h : p.segments ≠ [""]) : p.text ≠ "" := by
  obtain ⟨text⟩ := p
  rintro rfl
  exact h rfl

/-- A path that is not empty, starts where another does, and has the segments that count of some
segments, and at most one more. -/
structure Reaches (p : Path) (front : List String) (q : Path) : Prop where
  text : q.text ≠ ""
  absolute : q.isAbsolute = true ↔ p.isAbsolute = true
  counting : q.segments.filter (!isBlank ·) = front.filter (!isBlank ·)
  length : q.segments.length ≤ front.length + 1

section Parent

variable {p : Path} {first name : String} {body : List String}

theorem reaches_rooted (hsegments : p.segments = "" :: body ++ [name])
    (hslash : ∀ s ∈ trimRight body, '/' ∉ s.toList) :
    Reaches p ("" :: body) (ofParts .rooted (trimRight body)) := by
  have hq := segments_ofParts_rooted (trimRight body)
  obtain ⟨second, rest, hsecond⟩ :=
    List.exists_cons_of_ne_nil (segments_ne_nil (ofNames (trimRight body)))
  refine ⟨text_ne_empty (by simp [hq, hsecond]), ?_, ?_, ?_⟩
  · rw [isAbsolute_iff, isAbsolute_iff, hq, hsegments, hsecond]
    cases body <;> simp
  · rw [hq, List.filter_cons_of_neg (by simp [isBlank]),
      List.filter_cons_of_neg (by simp [isBlank]), filter_segments_ofNames hslash,
      filter_trimRight]
  · have hlength := length_segments_ofNames_le hslash
    have htrim := (trimRight_isPrefix body).length_le
    rw [hq, List.length_cons, List.length_cons]
    omega

theorem reaches_dotted (hsegments : p.segments = "." :: body ++ [name])
    (hslash : ∀ s ∈ trimRight body, '/' ∉ s.toList) :
    Reaches p ("." :: body) (ofParts .dotted (trimRight body)) := by
  have hq := segments_ofParts_dotted hslash
  refine ⟨text_ne_empty (by simp [hq]), by simp [isAbsolute_iff, hq, hsegments], ?_, ?_⟩
  · rw [hq, List.filter_cons_of_neg (by simp [isBlank]),
      List.filter_cons_of_neg (by simp [isBlank]), filter_trimRight]
  · have htrim := (trimRight_isPrefix body).length_le
    rw [hq, List.length_cons, List.length_cons]
    omega

/-- The first segment of a path that is neither rooted nor dotted counts, so it is never taken
off. -/
theorem reaches_plain (hsegments : p.segments = first :: body ++ [name]) (hempty : first ≠ "")
    (hdot : first ≠ ".") (hslash : ∀ s ∈ trimRight (first :: body), '/' ∉ s.toList) :
    Reaches p (first :: body) (ofParts .plain (trimRight (first :: body))) := by
  have hne : trimRight (first :: body) ≠ [] := by
    intro hnil
    have hfilter := filter_trimRight (first :: body)
    rw [hnil, List.filter_cons_of_pos (by simp [isBlank, hempty, hdot])] at hfilter
    cases hfilter
  have hq : (ofParts .plain (trimRight (first :: body))).segments = trimRight (first :: body) :=
    segments_ofNames hne hslash
  obtain ⟨head, rest, hhead⟩ := List.exists_cons_of_ne_nil hne
  have hfirst : head = first := by
    have hprefix := trimRight_isPrefix (first :: body)
    rw [hhead, List.cons_prefix_cons] at hprefix
    exact hprefix.1
  rw [hfirst] at hhead
  refine ⟨text_ne_empty ?_, ?_, ?_, ?_⟩
  · rw [hq, hhead]
    simp [hempty]
  · rw [isAbsolute_iff, isAbsolute_iff, hq, hhead, hsegments]
    simp [hempty]
  · rw [hq, filter_trimRight]
  · rw [hq]
    exact Nat.le_succ_of_le (trimRight_isPrefix (first :: body)).length_le

/-- The path above one with some segments has the same segments without the last, up to segments
that do not count. -/
theorem parent_of_segments {front : List String} (hsegments : p.segments = front ++ [name])
    (hfront : front ≠ []) (hname : isBlank name = false) :
    ∃ q, p.parent = some q ∧ Reaches p front q := by
  have hslash : ∀ body : List String, (∀ s ∈ body, s ∈ front) →
      ∀ s ∈ trimRight body, '/' ∉ s.toList := by
    intro body hbody s hs
    apply @slash_notMem_of_mem_segments p
    rw [hsegments]
    exact List.mem_append_left _ (hbody s ((trimRight_isPrefix body).subset hs))
  obtain ⟨first, body, rfl⟩ := List.exists_cons_of_ne_nil hfront
  have hbody : ∀ s ∈ body, s ∈ first :: body := fun s hs => List.mem_cons_of_mem first hs
  by_cases hempty : first = ""
  · subst hempty
    have hparts : p.parts = ⟨.rooted, body ++ [name]⟩ := by
      rw [parts_eq, hsegments]
      cases body <;> rfl
    exact ⟨_, parent_eq hparts hname, reaches_rooted hsegments (hslash body hbody)⟩
  · by_cases hdot : first = "."
    · subst hdot
      have hparts : p.parts = ⟨.dotted, body ++ [name]⟩ := by
        rw [parts_eq, hsegments]
        rfl
      exact ⟨_, parent_eq hparts hname, reaches_dotted hsegments (hslash body hbody)⟩
    · have hparts : p.parts = ⟨.plain, (first :: body) ++ [name]⟩ := by
        rw [parts_eq, hsegments, List.cons_append, partsOf_plain hempty hdot]
      exact ⟨_, parent_eq hparts hname,
        reaches_plain hsegments hempty hdot (hslash _ fun s hs => hs)⟩

end Parent

end Path

end PubSweep
