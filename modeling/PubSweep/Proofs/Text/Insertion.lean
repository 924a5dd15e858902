import PubSweep.Proofs.Text.Cut

/-!
A token put into a text at several offsets at once.

`insertAt` looks at the text only once, from its start.  The main statement is `splice_insertAt`:
putting the token in at one more offset, moved by the tokens already in front of it, gives the
text with that offset marked as well.
-/

namespace PubSweep.Text

/-- The text with a token put in at every marked offset, its end included.  The first character
has the offset `offset`. -/
def insertAt (marks : List Nat) (token : List Char) : (offset : Nat) → List Char → List Char
  | offset, [] => if offset ∈ marks then token else []
  | offset, c :: cs =>
    (if offset ∈ marks then token else []) ++
      c :: insertAt marks token (offset + c.utf8Size) cs

/-- The same for a text that goes on: at its end nothing is put in. -/
def insertInside (marks : List Nat) (token : List Char) : (offset : Nat) → List Char → List Char
  | _, [] => []
  | offset, c :: cs =>
    (if offset ∈ marks then token else []) ++
      c :: insertInside marks token (offset + c.utf8Size) cs

variable {token : List Char}

theorem insertAt_append (marks : List Nat) (offset : Nat) (before after : List Char) :
    insertAt marks token offset (before ++ after) =
      insertInside marks token offset before ++
        insertAt marks token (offset + byteLength before) after := by
  induction before generalizing offset with
  | nil => simp [insertInside]
  | cons c before ih => simp [insertAt, insertInside, ih, Nat.add_assoc]

/-- Only marks that are not behind the text count. -/
theorem insertAt_congr {marks marks' : List Nat} {offset : Nat} {cs : List Char}
    (h : ∀ m, offset ≤ m → (m ∈ marks ↔ m ∈ marks')) :
    insertAt marks token offset cs = insertAt marks' token offset cs := by
  induction cs generalizing offset with
  | nil => simp [insertAt, h offset (Nat.le_refl offset)]
  | cons c cs ih =>
      have hrest : insertAt marks token (offset + c.utf8Size) cs =
          insertAt marks' token (offset + c.utf8Size) cs := by
        apply ih
        intro m hm
        exact h m (by omega)
      simp [insertAt, h offset (Nat.le_refl offset), hrest]

theorem insertInside_congr {marks marks' : List Nat} {offset : Nat} {cs : List Char}
    (h : ∀ m, m < offset + byteLength cs → (m ∈ marks ↔ m ∈ marks')) :
    insertInside marks token offset cs = insertInside marks' token offset cs := by
  induction cs generalizing offset with
  | nil => rfl
  | cons c cs ih =>
      have hpos := c.utf8Size_pos
      rw [byteLength_cons] at h
      have hhead := h offset (by omega)
      have hrest : insertInside marks token (offset + c.utf8Size) cs =
          insertInside marks' token (offset + c.utf8Size) cs := by
        apply ih
        intro m hm
        exact h m (by omega)
      simp [insertInside, hhead, hrest]

@[simp] theorem insertAt_nil (offset : Nat) (cs : List Char) :
    insertAt [] token offset cs = cs := by
  induction cs generalizing offset with
  | nil => rfl
  | cons c cs ih => simp [insertAt, ih]

/-- A new mark at the start of a text adds the token there and nothing else. -/
theorem insertAt_cons_self {marks : List Nat} {offset : Nat} (hnew : offset ∉ marks)
    (cs : List Char) :
    insertAt (offset :: marks) token offset cs = token ++ insertAt marks token offset cs := by
  cases cs with
  | nil => simp [insertAt, hnew]
  | cons c cs =>
      have hpos := c.utf8Size_pos
      have hrest : insertAt (offset :: marks) token (offset + c.utf8Size) cs =
          insertAt marks token (offset + c.utf8Size) cs := by
        apply insertAt_congr
        intro m hm
        have hne : m ≠ offset := by omega
        simp [hne]
      simp [insertAt, hnew, hrest]

/-- Splits the count of some marks at one offset, which is marked at most once. -/
theorem countP_eq_add_of_nodup {marks : List Nat} (hnodup : marks.Nodup) (all rest : Nat → Bool)
    (offset : Nat) (hsplit : ∀ m ∈ marks, all m = (m == offset || rest m))
    (hoffset : rest offset = false) :
    marks.countP all = (if offset ∈ marks then 1 else 0) + marks.countP rest := by
  induction marks with
  | nil => simp
  | cons m marks ih =>
      rw [List.nodup_cons] at hnodup
      have hmarks := ih hnodup.2 fun k hk => hsplit k (List.mem_cons_of_mem m hk)
      have hhead := hsplit m List.mem_cons_self
      rw [List.countP_cons, List.countP_cons, hmarks, hhead]
      by_cases heq : m = offset
      · subst heq
        simp [hnodup.1, hoffset]
        omega
      · have hne : offset ≠ m := Ne.symm heq
        simp [heq, hne, Nat.add_assoc]

/-- The length of a text with a token put in: the token counts once for each mark. -/
theorem byteLength_insertInside {marks : List Nat} (hnodup : marks.Nodup) (token : List Char)
    (offset : Nat) (cs : List Char) (hbound : ∀ m ∈ marks, offset ≤ m → m < offset + byteLength cs →
      isBoundary (m - offset) cs = true) :
    byteLength (insertInside marks token offset cs) = byteLength cs +
      byteLength token *
        marks.countP fun m => decide (offset ≤ m) && decide (m < offset + byteLength cs) := by
  induction cs generalizing offset with
  | nil =>
      have hnone : (marks.countP fun m => decide (offset ≤ m) && decide (m < offset)) = 0 := by
        rw [List.countP_eq_zero]
        intro m _
        simp only [Bool.and_eq_true, decide_eq_true_eq, not_and, Nat.not_lt]
        omega
      rw [insertInside, byteLength_nil, Nat.add_zero, hnone, Nat.mul_zero]
  | cons c cs ih =>
      have hpos := c.utf8Size_pos
      have hstep : ∀ m ∈ marks, offset < m → m < offset + byteLength (c :: cs) →
          offset + c.utf8Size ≤ m ∧ isBoundary (m - (offset + c.utf8Size)) cs = true := by
        intro m hm hlow hhigh
        have hcut := hbound m hm (Nat.le_of_lt hlow) hhigh
        rcases isBoundary_cons_iff.mp hcut with hzero | ⟨rest, hrest, hcut⟩
        · omega
        · have hm' : m - (offset + c.utf8Size) = rest := by omega
          exact ⟨by omega, by rw [hm']; exact hcut⟩
      have hrest := ih (offset + c.utf8Size) fun m hm hlow hhigh =>
        (hstep m hm (by omega) (by rw [byteLength_cons]; omega)).2
      have hcount := countP_eq_add_of_nodup hnodup
        (fun m => decide (offset ≤ m) && decide (m < offset + byteLength (c :: cs)))
        (fun m => decide (offset + c.utf8Size ≤ m) &&
          decide (m < offset + c.utf8Size + byteLength cs))
        offset
        (by
          intro m hm
          rw [Bool.eq_iff_iff]
          simp only [Bool.and_eq_true, Bool.or_eq_true, decide_eq_true_eq, beq_iff_eq]
          constructor
          · rintro ⟨hlow, hhigh⟩
            rcases Nat.eq_or_lt_of_le hlow with heq | hlt
            · exact Or.inl heq.symm
            · have hbehind := (hstep m hm hlt hhigh).1
              rw [byteLength_cons] at hhigh
              exact Or.inr ⟨hbehind, by omega⟩
          · rw [byteLength_cons]
            omega)
        (by simp; omega)
      rw [hcount, insertInside, byteLength_append, byteLength_cons, hrest, Nat.mul_add]
      split <;> simp <;> omega

/-- Putting the token in at one more offset.  The offset has moved by the tokens in front of it. -/
theorem splice_insertAt {marks : List Nat} (hnodup : marks.Nodup) {cs : List Char}
    (hbound : ∀ m ∈ marks, isBoundary m cs = true) {offset : Nat}
    (hoffset : isBoundary offset cs = true) (hnew : offset ∉ marks) :
    splice (.empty (offset + byteLength token * marks.countP (· < offset))) token
        (insertAt marks token 0 cs) =
      .ok (insertAt (offset :: marks) token 0 cs) := by
  obtain ⟨before, after, rfl, rfl⟩ := isBoundary_iff.mp hoffset
  have hinside : insertInside (byteLength before :: marks) token 0 before =
      insertInside marks token 0 before := by
    apply insertInside_congr
    intro m hm
    have hne : m ≠ byteLength before := by omega
    simp [hne]
  have hlength := byteLength_insertInside hnodup token 0 before (by
    intro m hm _ hlt
    obtain ⟨first, rest, hsplit, hfirst⟩ := isBoundary_iff.mp (hbound m hm)
    -- The mark lies in the first part, so the cut at the mark is a cut of that part.
    rcases List.append_eq_append_iff.mp hsplit with ⟨more, rfl, rfl⟩ | ⟨more, rfl, rfl⟩
    · have hmore : byteLength more = 0 ∧ byteLength before = m := by
        rw [byteLength_append] at hfirst
        omega
      omega
    · exact isBoundary_iff.mpr ⟨first, more, rfl, by omega⟩)
  simp only [Nat.zero_le, decide_true, Bool.true_and, Nat.zero_add] at hlength
  rw [← hlength, insertAt_append, insertAt_append, hinside, Nat.zero_add,
    insertAt_cons_self hnew, splice_empty, List.append_assoc]

end PubSweep.Text
