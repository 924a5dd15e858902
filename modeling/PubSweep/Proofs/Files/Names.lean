import PubSweep.Files.Tree
import PubSweep.Proofs.Path.Components
import PubSweep.Proofs.Text.Cut

/-!
File names as bytes and as texts.

A text and its bytes determine each other (`decode?_eq_some_iff`), and so do a location whose names
are texts and these texts (`mapM_decode?_eq_some_iff`).  The steps of a path are its segments
(`stepsOf_eq`).
-/

namespace PubSweep.Files

open PubSweep.Path

/-! ### Texts and their bytes -/

theorem toByteArray_encode (s : String) : (⟨(encode s).toArray⟩ : ByteArray) = s.toByteArray := by
  apply ByteArray.ext
  have hbytes : s.toByteArray = s.toList.utf8Encode := by
    rw [← String.toByteArray_ofList, String.ofList_toList]
  rw [hbytes, List.utf8Encode, List.data_toByteArray]
  rfl

theorem decode?_encode (s : String) : decode? (encode s) = some s := by
  rw [decode?, toByteArray_encode, String.fromUTF8?, dif_pos s.isValidUTF8]
  rfl

/-- Bytes are read as a text exactly if they are the bytes of the text. -/
theorem decode?_eq_some_iff {bytes : List UInt8} {s : String} :
    decode? bytes = some s ↔ bytes = encode s := by
  constructor
  · intro h
    rw [decode?, String.fromUTF8?] at h
    split at h
    case isTrue hvalid =>
      have hbytes := toByteArray_encode (String.fromUTF8 ⟨bytes.toArray⟩ hvalid)
      rw [← Option.some.inj h]
      simpa [String.fromUTF8] using hbytes.symm
    case isFalse => cases h
  · rintro rfl
    exact decode?_encode s

theorem encode_injective : Function.Injective encode := by
  intro s t h
  have hdecode := decode?_encode s
  rw [h, decode?_encode] at hdecode
  exact (Option.some.inj hdecode).symm

theorem mapM_decode?_eq_some_iff {location : Location} {names : List String} :
    location.mapM decode? = some names ↔ location = names.map encode := by
  induction location generalizing names with
  | nil =>
      rw [List.mapM_nil]
      cases names <;> simp
  | cons name location ih =>
      rw [List.mapM_cons]
      cases hname : decode? name with
      | none =>
          simp only [Option.bind_eq_bind, Option.bind_none, reduceCtorEq, false_iff]
          cases names with
          | nil => simp
          | cons first rest =>
              rintro ⟨rfl, -⟩
              rw [decode?_encode] at hname
              cases hname
      | some s =>
          rw [decode?_eq_some_iff] at hname
          cases names with
          | nil => cases location.mapM decode? <;> simp
          | cons first rest =>
              simp only [Option.bind_eq_bind, Option.bind_some, Option.pure_def,
                Option.bind_eq_some_iff, Option.some.injEq, List.cons.injEq, List.map_cons, hname,
                encode_injective.eq_iff, ih]
              constructor
              · rintro ⟨others, hothers, rfl, rfl⟩
                exact ⟨rfl, hothers⟩
              · rintro ⟨rfl, hothers⟩
                exact ⟨rest, hothers, rfl, rfl⟩

/-! ### Bytes of single characters -/

theorem slash_mem_utf8EncodeChar_iff {c : Char} :
    slash ∈ String.utf8EncodeChar c ↔ c = '/' :=
  Text.mem_utf8EncodeChar_iff (d := '/') (by decide)

/-- A text starts with a dot if its bytes do. -/
theorem head?_encode_eq_dot_iff {s : String} :
    (encode s).head? = some 46 ↔ s.toList.head? = some '.' := by
  rw [encode, Text.bytesOf]
  cases s.toList with
  | nil => simp
  | cons c cs =>
      obtain ⟨b, bs, hc⟩ := List.exists_cons_of_ne_nil (String.utf8EncodeChar_ne_nil (c := c))
      simp only [List.flatMap_cons, hc, List.cons_append, List.head?_cons, Option.some.injEq]
      constructor
      · rintro rfl
        exact (Text.mem_utf8EncodeChar_iff (d := '.') (by decide)).mp (hc ▸ List.mem_cons_self)
      · rintro rfl
        exact (List.cons.inj hc).1.symm

/-! ### The steps of a path -/

theorem pieces_ne_nil (bytes : List UInt8) : pieces bytes ≠ [] := by
  cases bytes with
  | nil => simp [pieces]
  | cons b bytes =>
      rw [pieces]
      split
      · simp
      · split <;> simp

theorem pieces_append {bytes : List UInt8} (h : slash ∉ bytes) (more : List UInt8) :
    pieces (bytes ++ more) = (pieces more).modifyHead (bytes ++ ·) := by
  obtain ⟨first, rest, hmore⟩ := List.exists_cons_of_ne_nil (pieces_ne_nil more)
  induction bytes with
  | nil => rw [List.nil_append, hmore]; rfl
  | cons b bytes ih =>
      rw [List.mem_cons, not_or] at h
      rw [List.cons_append, pieces, if_neg (Ne.symm h.1), ih h.2, hmore]
      rfl

theorem pieces_bytesOf (cs : List Char) :
    pieces (Text.bytesOf cs) = (splitSlashes cs).map Text.bytesOf := by
  induction cs with
  | nil => rfl
  | cons c cs ih =>
      by_cases hc : c = '/'
      · subst hc
        have hbytes : Text.bytesOf ('/' :: cs) = slash :: Text.bytesOf cs := rfl
        rw [hbytes, pieces, if_pos rfl, ih, splitSlashes, if_pos rfl]
        rfl
      · have hslash : slash ∉ String.utf8EncodeChar c := by
          rw [slash_mem_utf8EncodeChar_iff]
          exact hc
        have hbytes : Text.bytesOf (c :: cs) = String.utf8EncodeChar c ++ Text.bytesOf cs := rfl
        rw [hbytes, pieces_append hslash, ih, splitSlashes, if_neg hc]
        cases hsplit : splitSlashes cs with
        | nil =>
            rw [splitSlashes_eq_splitOn] at hsplit
            exact absurd hsplit (List.splitOn_ne_nil '/' cs)
        | cons piece pieces => rfl

/-- The steps of a path are the bytes of its segments. -/
theorem stepsOf_eq (p : Path) : FileSystem.stepsOf p = p.segments.map encode := by
  rw [FileSystem.stepsOf, encode, pieces_bytesOf, segments, List.map_map]
  apply List.map_congr_left
  intro cs _
  rw [Function.comp_apply, encode, String.toList_ofList]

end PubSweep.Files
