import PubSweep.Text.Bytes

/-!
Cutting and splicing texts at byte offsets.

A cut succeeds exactly where a part of the text ends (`cut?_eq_some_iff`), and a splice exactly
where the span is a part of the text (`splice_eq_ok_iff`).
-/

namespace PubSweep.Text

@[simp] theorem byteLength_nil : byteLength [] = 0 := rfl

@[simp] theorem byteLength_cons (c : Char) (cs : List Char) :
    byteLength (c :: cs) = c.utf8Size + byteLength cs := rfl

@[simp] theorem byteLength_append (before after : List Char) :
    byteLength (before ++ after) = byteLength before + byteLength after := by
  induction before with
  | nil => simp
  | cons c before ih => simp [ih, Nat.add_assoc]

theorem cut?_append (before after : List Char) :
    cut? (byteLength before) (before ++ after) = some (before, after) := by
  induction before with
  | nil => cases after <;> rfl
  | cons c before ih =>
      have hpos := c.utf8Size_pos
      obtain ⟨n, hn⟩ : ∃ n, c.utf8Size + byteLength before = n + 1 :=
        ⟨c.utf8Size + byteLength before - 1, by omega⟩
      have hrest : n + 1 - c.utf8Size = byteLength before := by omega
      rw [byteLength_cons, List.cons_append, hn, cut?, if_pos (by omega), hrest, ih]
      rfl

/-- A cut gives two parts of the text, the first of them as long as the offset. -/
theorem cut?_eq_some_iff {offset : Nat} {cs before after : List Char} :
    cut? offset cs = some (before, after) ↔ cs = before ++ after ∧ byteLength before = offset := by
  constructor
  · intro hcut
    induction cs generalizing offset before with
    | nil =>
        cases offset with
        | zero =>
            simp only [cut?, Option.some.injEq, Prod.mk.injEq] at hcut
            obtain ⟨rfl, rfl⟩ := hcut
            simp
        | succ n => simp [cut?] at hcut
    | cons c cs ih =>
        cases offset with
        | zero =>
            simp only [cut?, Option.some.injEq, Prod.mk.injEq] at hcut
            obtain ⟨rfl, rfl⟩ := hcut
            simp
        | succ n =>
            rw [cut?] at hcut
            split at hcut
            case isFalse => cases hcut
            case isTrue hsize =>
              obtain ⟨⟨first, rest⟩, hinner, heq⟩ := Option.map_eq_some_iff.mp hcut
              simp only [Prod.mk.injEq] at heq
              obtain ⟨rfl, rfl⟩ := heq
              obtain ⟨rfl, hlength⟩ := ih hinner
              refine ⟨rfl, ?_⟩
              rw [byteLength_cons, hlength]
              omega
  · rintro ⟨rfl, rfl⟩
    exact cut?_append before after

/-- An offset is a boundary if a part of the text ends there. -/
theorem isBoundary_iff {offset : Nat} {cs : List Char} :
    isBoundary offset cs = true ↔
      ∃ before after, cs = before ++ after ∧ byteLength before = offset := by
  rw [isBoundary, Option.isSome_iff_exists]
  constructor
  · rintro ⟨⟨before, after⟩, hcut⟩
    exact ⟨before, after, cut?_eq_some_iff.mp hcut⟩
  · rintro ⟨before, after, hparts⟩
    exact ⟨(before, after), cut?_eq_some_iff.mpr hparts⟩

theorem le_byteLength_of_isBoundary {offset : Nat} {cs : List Char}
    (h : isBoundary offset cs = true) : offset ≤ byteLength cs := by
  obtain ⟨before, after, rfl, rfl⟩ := isBoundary_iff.mp h
  simp

/-- Behind a character, boundaries are those of the rest. -/
theorem isBoundary_cons_iff {offset : Nat} {c : Char} {cs : List Char} :
    isBoundary offset (c :: cs) = true ↔
      offset = 0 ∨ ∃ rest, offset = c.utf8Size + rest ∧ isBoundary rest cs = true := by
  simp only [isBoundary_iff]
  constructor
  · rintro ⟨before, after, heq, hlength⟩
    cases before with
    | nil => exact Or.inl hlength.symm
    | cons d before =>
        rw [List.cons_append, List.cons.injEq] at heq
        obtain ⟨rfl, rfl⟩ := heq
        exact Or.inr ⟨byteLength before, hlength.symm, before, after, rfl, rfl⟩
  · rintro (rfl | ⟨rest, rfl, before, after, rfl, rfl⟩)
    · exact ⟨[], c :: cs, rfl, rfl⟩
    · exact ⟨c :: before, after, rfl, rfl⟩

/-- The boundaries in the first part of a text do not depend on what follows. -/
theorem isBoundary_append {offset : Nat} {before : List Char} (h : offset ≤ byteLength before)
    (after : List Char) : isBoundary offset (before ++ after) = isBoundary offset before := by
  rw [Bool.eq_iff_iff, isBoundary_iff, isBoundary_iff]
  constructor
  · rintro ⟨first, rest, hsplit, hfirst⟩
    rcases List.append_eq_append_iff.mp hsplit with ⟨more, rfl, rfl⟩ | ⟨more, rfl, rfl⟩
    · refine ⟨before, [], (List.append_nil before).symm, ?_⟩
      rw [byteLength_append] at hfirst
      omega
    · exact ⟨first, more, rfl, hfirst⟩
  · rintro ⟨first, rest, rfl, hfirst⟩
    exact ⟨first, rest ++ after, List.append_assoc .., hfirst⟩

/-- The ends of a span are in order, and both lie in a text between two characters. -/
structure Fits (span : Span) (cs : List Char) : Prop where
  ordered : span.start ≤ span.stop
  bounded : span.stop ≤ byteLength cs
  start : isBoundary span.start cs = true
  stop : isBoundary span.stop cs = true

instance (span : Span) (cs : List Char) : Decidable (Fits span cs) :=
  decidable_of_iff (span.start ≤ span.stop ∧ span.stop ≤ byteLength cs ∧
      isBoundary span.start cs = true ∧ isBoundary span.stop cs = true)
    ⟨fun ⟨ordered, bounded, start, stop⟩ => ⟨ordered, bounded, start, stop⟩,
      fun h => ⟨h.ordered, h.bounded, h.start, h.stop⟩⟩

/-- A span fits a text if it is one of its parts. -/
theorem fits_iff {span : Span} {cs : List Char} :
    Fits span cs ↔ ∃ before old after, cs = before ++ old ++ after ∧
      byteLength before = span.start ∧ byteLength before + byteLength old = span.stop := by
  constructor
  · intro h
    obtain ⟨first, after, rfl, hfirst⟩ := isBoundary_iff.mp h.stop
    have hstart : isBoundary span.start first = true := by
      rw [← isBoundary_append (by rw [hfirst]; exact h.ordered) after]
      exact h.start
    obtain ⟨before, old, rfl, hbefore⟩ := isBoundary_iff.mp hstart
    rw [byteLength_append] at hfirst
    exact ⟨before, old, after, rfl, hbefore, hfirst⟩
  · rintro ⟨before, old, after, rfl, hbefore, hold⟩
    constructor
    · omega
    · simp only [byteLength_append]
      omega
    · exact isBoundary_iff.mpr ⟨before, old ++ after, List.append_assoc .., hbefore⟩
    · exact isBoundary_iff.mpr ⟨before ++ old, after, rfl, by rw [byteLength_append, hold]⟩

/-- A splice takes a part of the text out and puts the replacement in. -/
theorem splice_append {span : Span} {before old : List Char}
    (hstart : byteLength before = span.start)
    (hstop : byteLength before + byteLength old = span.stop) (replacement after : List Char) :
    splice span replacement (before ++ old ++ after) = .ok (before ++ replacement ++ after) := by
  have hfirst : cut? span.start (before ++ old ++ after) = some (before, old ++ after) := by
    rw [List.append_assoc, ← hstart, cut?_append]
  have hlast : cut? span.stop (before ++ old ++ after) = some (before ++ old, after) := by
    rw [← hstop, ← byteLength_append, cut?_append]
  have hbounds : ¬ (span.stop < span.start ∨ byteLength (before ++ old ++ after) < span.stop) := by
    simp only [byteLength_append]
    omega
  rw [splice, if_neg (by simpa using hbounds), hfirst, hlast]

/-- A splice fails exactly for a span that does not fit. -/
theorem splice_eq_ok_iff {span : Span} {replacement cs new : List Char} :
    splice span replacement cs = .ok new ↔ ∃ before old after, cs = before ++ old ++ after ∧
      byteLength before = span.start ∧ byteLength before + byteLength old = span.stop ∧
      new = before ++ replacement ++ after := by
  constructor
  · intro h
    have hfits : Fits span cs := by
      rw [splice] at h
      split at h
      case isTrue => cases h
      case isFalse hbounds =>
        simp only [Bool.or_eq_true, decide_eq_true_eq, not_or, Nat.not_lt] at hbounds
        split at h
        case h_1 hstart hstop =>
          exact ⟨hbounds.1, hbounds.2, by rw [isBoundary, hstart]; rfl,
            by rw [isBoundary, hstop]; rfl⟩
        case h_2 => cases h
    obtain ⟨before, old, after, rfl, hbefore, hold⟩ := fits_iff.mp hfits
    rw [splice_append hbefore hold] at h
    exact ⟨before, old, after, rfl, hbefore, hold, (Except.ok.inj h).symm⟩
  · rintro ⟨before, old, after, rfl, hbefore, hold, rfl⟩
    exact splice_append hbefore hold replacement after

/-- Putting a text in between two parts. -/
theorem splice_empty (before after token : List Char) :
    splice (.empty (byteLength before)) token (before ++ after) =
      .ok (before ++ token ++ after) := by
  simp [splice, Span.empty, cut?_append]

/-! ### Bytes -/

@[simp] theorem bytesOf_append (before after : List Char) :
    bytesOf (before ++ after) = bytesOf before ++ bytesOf after :=
  List.flatMap_append

@[simp] theorem length_bytesOf (cs : List Char) : (bytesOf cs).length = byteLength cs := by
  induction cs with
  | nil => rfl
  | cons c cs ih =>
      have hcons : bytesOf (c :: cs) = String.utf8EncodeChar c ++ bytesOf cs := rfl
      rw [hcons, List.length_append, String.length_utf8EncodeChar, ih, byteLength_cons]

/-- A character beyond ASCII has no bytes below 128. -/
theorem le_toNat_of_mem_utf8EncodeChar {c : Char} (hc : 127 < c.val.toNat) {b : UInt8}
    (h : b ∈ String.utf8EncodeChar c) : 128 ≤ b.toNat := by
  simp only [String.utf8EncodeChar] at h
  grind [UInt8.toNat_ofNat']

/-- A character of ASCII is known by its byte. -/
theorem mem_utf8EncodeChar_iff {c d : Char} (hd : d.val.toNat < 128) :
    UInt8.ofNat d.val.toNat ∈ String.utf8EncodeChar c ↔ c = d := by
  have hbyte : (UInt8.ofNat d.val.toNat).toNat = d.val.toNat := by
    rw [UInt8.toNat_ofNat', Nat.mod_eq_of_lt (by omega)]
  constructor
  · intro h
    have hc : ¬ 127 < c.val.toNat := by
      intro hlarge
      have hle := le_toNat_of_mem_utf8EncodeChar hlarge h
      omega
    rw [String.utf8EncodeChar, if_pos (by omega), List.mem_singleton] at h
    have hsame := congrArg UInt8.toNat h
    rw [hbyte, UInt8.toNat_ofNat', Nat.mod_eq_of_lt (by omega)] at hsame
    exact Char.ext (UInt32.toNat_inj.mp hsame.symm)
  · rintro rfl
    rw [String.utf8EncodeChar, if_pos (by omega)]
    exact List.mem_singleton_self _

end PubSweep.Text
