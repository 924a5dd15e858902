import Mathlib.Data.List.Induction
import Mathlib.Data.List.TakeWhile
import PubSweep.Proofs.Time.Calendar

/-!
The text of a moment reads back as the moment.

A text has its numbers in a fixed order, so each part is read back in front of any rest of the text;
the calendar then gives the moment from the numbers.  What is read from any text is a moment with a
text of its own.
-/

namespace PubSweep.Timestamp

/-! ## Numerals -/

/-- Some digits for a number. -/
structure IsNumeral (n : Nat) (ds : List Char) : Prop where
  digit : ∀ c ∈ ds, c.isDigit = true
  ne_nil : ds ≠ []
  value : decimal ds = n

theorem decimal_eq_ofDigitChars (ds : List Char) : decimal ds = Nat.ofDigitChars 10 ds 0 := rfl

theorem toNat_of_isDigit {c : Char} (h : c.isDigit = true) : 48 ≤ c.toNat ∧ c.toNat ≤ 57 := by
  simpa [Char.isDigit, UInt32.le_iff_toNat_le] using h

theorem isBlank_of_isDigit {c : Char} (h : c.isDigit = true) : Text.isBlank c = false := by
  have hrange := toNat_of_isDigit h
  simp only [Text.isBlank, Bool.or_eq_false_iff, Bool.and_eq_false_iff, decide_eq_false_iff_not]
  omega

theorem toList_padded (width n : Nat) :
    (padded width n).toList =
      List.replicate (width - (Nat.toDigits 10 n).length) '0' ++ Nat.toDigits 10 n := by
  simp only [padded, Nat.toString_eq_ofList_toDigits, String.toList_append, String.toList_ofList,
    String.length_ofList]

theorem isNumeral_padded (width n : Nat) : IsNumeral n (padded width n).toList := by
  rw [toList_padded]
  refine ⟨?_, by simp [Nat.toDigits_ne_nil], ?_⟩
  · intro c hc
    obtain hc | hc := List.mem_append.1 hc
    · rw [List.eq_of_mem_replicate hc]
      rfl
    · exact Nat.isDigit_of_mem_toDigits (by decide) (by decide) hc
  · rw [decimal_eq_ofDigitChars, Nat.ofDigitChars_append, Nat.ofDigitChars_replicate_zero,
      Nat.mul_zero, Nat.ofDigitChars_ten_toDigits]

theorem length_padded {width n : Nat} (hw : 0 < width) (h : n < 10 ^ width) :
    (padded width n).toList.length = width := by
  have hle := (Nat.length_toDigits_le_iff (b := 10) (by decide) hw).2 h
  rw [toList_padded, List.length_append, List.length_replicate]
  omega

theorem skipBlank_cons {c : Char} {cs : List Char} (h : Text.isBlank c = false) :
    skipBlank (c :: cs) = c :: cs := by
  simp [skipBlank, h]

namespace IsNumeral

variable {n : Nat} {ds : List Char}

theorem skipBlank_append (h : IsNumeral n ds) (rest : List Char) :
    skipBlank (ds ++ rest) = ds ++ rest := by
  cases ds with
  | nil => exact absurd rfl h.ne_nil
  | cons c cs => exact skipBlank_cons (isBlank_of_isDigit (h.digit c (by simp)))

/-- A numeral is read up to its width. -/
theorem number?_append (h : IsNumeral n ds) (rest : List Char) :
    number? ds.length (ds ++ rest) = some (n, rest) := by
  have hdigits : ds.takeWhile Char.isDigit = ds := List.takeWhile_eq_self_iff.2 h.digit
  simp [number?, h.skipBlank_append, hdigits, h.ne_nil, h.value]

/-- The digits in front of a text that goes on with another character than a digit. -/
theorem takeWhile_append (h : IsNumeral n ds) {c : Char} (hc : c.isDigit = false)
    (rest : List Char) : (ds ++ c :: rest).takeWhile Char.isDigit = ds := by
  rw [List.takeWhile_append_of_pos h.digit]
  simp [hc]

/-- A numeral is read as a year after a sign. -/
theorem year?_minus (h : IsNumeral n ds) (rest : List Char) :
    year? ('-' :: (ds ++ '-' :: rest)) = some (-(n : Int), '-' :: rest) := by
  have hread := h.takeWhile_append (c := '-') rfl rest
  simp [year?, skipBlank_cons (c := '-') rfl, hread, h.ne_nil, h.value]

theorem year?_plus (h : IsNumeral n ds) (rest : List Char) :
    year? ('+' :: (ds ++ '-' :: rest)) = some ((n : Int), '-' :: rest) := by
  have hread := h.takeWhile_append (c := '-') rfl rest
  simp [year?, skipBlank_cons (c := '+') rfl, hread, h.ne_nil, h.value]

end IsNumeral

theorem mark?_cons {c : Char} (h : Text.isBlank c = false) (cs : List Char) :
    mark? c (c :: cs) = some cs := by
  simp [mark?, skipBlank_cons h]

/-- A year that starts with a digit is read as a number of four digits. -/
theorem year?_cons {c : Char} (h : c.isDigit = true) (cs : List Char) :
    year? (c :: cs) = (number? 4 (c :: cs)).map fun (n, rest) => ((n : Int), rest) := by
  have hminus : c ≠ '-' := by rintro rfl; cases h
  have hplus : c ≠ '+' := by rintro rfl; cases h
  simp only [year?, skipBlank_cons (isBlank_of_isDigit h)]
  split <;> simp_all

/-- A year reads back, with a sign or without. -/
theorem year?_renderYear (year : Int) (rest : List Char) :
    year? ((renderYear year).toList ++ '-' :: rest) = some (year, '-' :: rest) := by
  simp only [renderYear, Bool.and_eq_true, decide_eq_true_eq]
  split
  case isTrue h =>
    have hds := isNumeral_padded 4 year.toNat
    have hlen : (padded 4 year.toNat).toList.length = 4 := length_padded (by decide) (by omega)
    have hread := hds.number?_append ('-' :: rest)
    rw [hlen] at hread
    have hyear : year? ((padded 4 year.toNat).toList ++ '-' :: rest) =
        some ((year.toNat : Int), '-' :: rest) := by
      cases hcs : (padded 4 year.toNat).toList with
      | nil => exact absurd hcs hds.ne_nil
      | cons c cs =>
        rw [hcs] at hread hds
        rw [List.cons_append, year?_cons (hds.digit c (by simp)), ← List.cons_append, hread]
        rfl
    rw [hyear, Int.toNat_of_nonneg h.1]
  case isFalse h =>
    have hds := isNumeral_padded 4 year.natAbs
    split
    case isTrue hneg =>
      have habs : -(year.natAbs : Int) = year := by omega
      have hsign : ("-" : String).toList = ['-'] := by simp
      rw [String.toList_append, hsign, List.append_assoc, List.singleton_append, hds.year?_minus,
        habs]
    case isFalse hneg =>
      have habs : (year.natAbs : Int) = year := by omega
      have hsign : ("+" : String).toList = ['+'] := by simp
      rw [String.toList_append, hsign, List.append_assoc, List.singleton_append, hds.year?_plus,
        habs]

/-- A fraction of some digits reads as a number of nanoseconds. -/
theorem fraction?_padded {k n : Nat} (hpos : 0 < k) (hk : k ≤ 9) (hn : n < 10 ^ k)
    (rest : List Char) :
    fraction? (("." ++ padded k n).toList ++ 'Z' :: rest) =
      some (n * 10 ^ (9 - k), 'Z' :: rest) := by
  have hds := isNumeral_padded k n
  have hlen := length_padded hpos hn
  have hread := hds.takeWhile_append (c := 'Z') rfl rest
  have htake : (padded k n).toList.take 9 = (padded k n).toList :=
    List.take_of_length_le (by omega)
  simp [fraction?, hread, hds.ne_nil, htake, hds.value, hlen]

/-- A fraction reads back, whatever number of digits it needs. -/
theorem fraction?_renderFraction {nanos : Nat} (h : nanos < 1000000000) (rest : List Char) :
    fraction? ((renderFraction nanos).toList ++ 'Z' :: rest) = some (nanos, 'Z' :: rest) := by
  simp only [renderFraction]
  split
  case isTrue hzero => simp [fraction?, hzero]
  split
  case isTrue hmillis =>
    have hscale : nanos / 1000000 * 10 ^ (9 - 3) = nanos := by omega
    rw [fraction?_padded (by decide) (by decide) (by omega), hscale]
  split
  case isTrue hmicros =>
    have hscale : nanos / 1000 * 10 ^ (9 - 6) = nanos := by omega
    rw [fraction?_padded (by decide) (by decide) (by omega), hscale]
  case isFalse =>
    rw [fraction?_padded (by decide) (by decide) (by omega), Nat.sub_self, Nat.pow_zero,
      Nat.mul_one]

theorem number?_padded {n : Nat} (h : n < 100) (rest : List Char) :
    number? 2 ((padded 2 n).toList ++ rest) = some (n, rest) := by
  have hread := (isNumeral_padded 2 n).number?_append rest
  rwa [length_padded (by decide) h] at hread

/-! ## The text of a moment -/

/-- The numbers in the text of a moment. -/
def reading (t : Timestamp) : Reading :=
  let date := dateOf (t.seconds / 86400)
  let time := (t.seconds % 86400).toNat
  ⟨date.1, date.2.1, date.2.2, time / 3600, time / 60 % 60, time % 60 + t.nanos / 1000000000,
    t.nanos % 1000000000, 0⟩

/-- The characters of a date. -/
def dateChars (r : Reading) : List Char :=
  (renderYear r.year).toList ++ '-' :: ((padded 2 r.month).toList ++ '-' :: (padded 2 r.day).toList)

/-- The characters of a time of day. -/
def clockChars (r : Reading) : List Char :=
  (padded 2 r.hour).toList ++ ':' :: ((padded 2 r.minute).toList ++
    ':' :: ((padded 2 r.second).toList ++ (renderFraction r.nanos).toList))

theorem toList_render (t : Timestamp) :
    t.render.toList = dateChars t.reading ++ 'T' :: (clockChars t.reading ++ ['Z']) := by
  have hfdiv := Int.fdiv_eq_ediv_of_nonneg t.seconds (b := 86400) (by decide)
  have hmod : t.seconds - t.seconds / 86400 * 86400 = t.seconds % 86400 := by omega
  simp [render, dateChars, clockChars, reading, hfdiv, hmod]

section Reading

variable {r : Reading}

/-- A reading whose numbers have the width of their places in the text. -/
structure Reading.Fits (r : Reading) : Prop where
  month : r.month < 100
  day : r.day < 100
  hour : r.hour < 100
  minute : r.minute < 100
  second : r.second < 100
  nanos : r.nanos < 1000000000

theorem date?_dateChars (h : r.Fits) (rest : List Char) :
    date? (dateChars r ++ rest) = some ((r.year, r.month, r.day), rest) := by
  have hmark := mark?_cons (c := '-') rfl
  simp only [date?, dateChars, List.append_assoc, List.cons_append, year?_renderYear,
    Option.bind_eq_bind, Option.bind_some, hmark, number?_padded h.month, number?_padded h.day,
    Option.pure_def]

theorem clock?_clockChars (h : r.Fits) (rest : List Char) :
    clock? (clockChars r ++ 'Z' :: rest) =
      some ((r.hour, r.minute, r.second, r.nanos), 'Z' :: rest) := by
  have hmark := mark?_cons (c := ':') rfl
  simp only [clock?, clockChars, List.append_assoc, List.cons_append, Option.bind_eq_bind,
    Option.bind_some, hmark, number?_padded h.hour, number?_padded h.minute,
    number?_padded h.second, fraction?_renderFraction h.nanos, Option.pure_def]

theorem Reading.isLegal_iff :
    r.isLegal = true ↔
      (yearRange.1 ≤ r.year ∧ r.year ≤ yearRange.2) ∧
      (1 ≤ r.month ∧ r.month ≤ 12 ∧ 1 ≤ r.day ∧ r.day ≤ daysInMonth r.year r.month) ∧
      (r.hour ≤ 23 ∧ r.minute ≤ 59 ∧ r.second ≤ 60) ∧ r.offset.natAbs < 86400 := by
  simp [Reading.isLegal, and_assoc]

end Reading

/-! ## Moments with a text of their own -/

/-- A moment with a text of its own: its year is in the range, and a leap second is the last one of
a minute. -/
structure IsValid (t : Timestamp) : Prop where
  year : t.isRepresentable = true
  nanos : t.nanos < 2000000000
  leap : 1000000000 ≤ t.nanos → t.seconds % 60 = 59

namespace IsValid

variable {t : Timestamp}

theorem fits (h : t.IsValid) : t.reading.Fits := by
  obtain ⟨-, hmonth, -, hday⟩ := dateOf_legal (t.seconds / 86400)
  have hle := daysInMonth_le t.reading.year t.reading.month
  have hnanos := h.nanos
  constructor
  all_goals
    simp only [reading] at *
    omega

theorem read?_render (h : t.IsValid) : read? t.render = some t.reading := by
  have hbetween : ∀ cs, between? ('T' :: cs) = some cs := fun cs => by simp [between?]
  have hoffset : offset? (skipBlank ['Z']) = some (t.reading.offset, []) := rfl
  rw [read?, toList_render, date?_dateChars h.fits]
  simp only [Option.bind_eq_bind, Option.bind_some, hbetween, clock?_clockChars h.fits, hoffset]
  rfl

theorem isLegal_reading (h : t.IsValid) : t.reading.isLegal = true := by
  obtain ⟨hyear, hnanos, hleap⟩ := h
  have hfdiv := Int.fdiv_eq_ediv_of_nonneg t.seconds (b := 86400) (by decide)
  simp only [isRepresentable, hfdiv, Bool.and_eq_true, decide_eq_true_eq] at hyear
  rw [Reading.isLegal_iff]
  refine ⟨hyear, dateOf_legal (t.seconds / 86400), ?_, by simp [reading]⟩
  simp only [reading]
  omega

/-- The numbers in the text of a moment tell the moment; in a leap second, the second is 60. -/
theorem moment_reading (h : t.IsValid) : t.reading.moment = t := by
  obtain ⟨-, hnanos, hleap⟩ := h
  have hdays := daysOf_dateOf (t.seconds / 86400)
  obtain ⟨seconds, nanos⟩ := t
  simp only [reading] at *
  simp only [Reading.moment, hdays]
  split <;> simp only [Timestamp.mk.injEq] <;> omega

/-- The text of a moment reads back as the moment. -/
theorem parse?_render (h : t.IsValid) : parse? t.render = some t := by
  rw [parse?, h.read?_render, Option.bind_some, h.moment_reading, h.isLegal_reading, h.year]
  rfl

end IsValid

/-! ## What texts tell -/

theorem decimal_lt {ds : List Char} (h : ∀ c ∈ ds, c.isDigit = true) :
    decimal ds < 10 ^ ds.length := by
  induction ds using List.reverseRecOn with
  | nil => decide
  | append_singleton ds c ih =>
      have hc := toNat_of_isDigit (h c (by simp))
      have hlt := ih fun d hd => h d (by simp [hd])
      have happ : decimal (ds ++ [c]) = 10 * decimal ds + (c.toNat - 48) := by simp [decimal]
      rw [happ, List.length_append, List.length_singleton, Nat.pow_succ]
      omega

/-- A fraction that is read is less than a second, since digits behind the ninth do not count. -/
theorem fraction?_lt {cs rest : List Char} {n : Nat} (h : fraction? cs = some (n, rest)) :
    n < 1000000000 := by
  unfold fraction? at h
  split at h
  case h_1 more =>
    dsimp only at h
    split at h
    · cases h
    · cases h
      set used := (more.takeWhile Char.isDigit).take 9 with hused
      have hdigit : ∀ c ∈ used, c.isDigit = true := fun c hc =>
        List.mem_takeWhile_imp (List.mem_of_mem_take hc)
      have hlen : used.length ≤ 9 := by simp [hused]
      calc decimal used * 10 ^ (9 - used.length)
        _ < 10 ^ used.length * 10 ^ (9 - used.length) :=
          Nat.mul_lt_mul_of_pos_right (decimal_lt hdigit) (by positivity)
        _ = 1000000000 := by rw [← Nat.pow_add, Nat.add_sub_cancel' hlen]
  case h_2 =>
    cases h
    decide

/-- The distance from universal time is in whole minutes. -/
theorem offset?_mod {cs rest : List Char} {n : Int} (h : offset? cs = some (n, rest)) :
    n % 60 = 0 := by
  unfold offset? at h
  split at h
  · cases h
    rfl
  · cases h
    rfl
  · split at h
    · cases h
      rfl
    · split at h
      · simp only [Option.bind_eq_bind, Option.bind_eq_some_iff] at h
        obtain ⟨⟨hours, cs⟩, -, ⟨minutes, cs'⟩, -, h⟩ := h
        dsimp only at h
        split at h
        · cases h
        · cases h
          split <;> omega
      · cases h
  · cases h

theorem read?_bounds {text : String} {r : Reading} (h : read? text = some r) :
    r.nanos < 1000000000 ∧ r.offset % 60 = 0 := by
  simp only [read?, clock?, Option.bind_eq_bind, Option.bind_eq_some_iff, Option.pure_def] at h
  obtain ⟨_, -, _, -, _, ⟨_, -, _, -, _, -, _, -, _, -, _, hnanos, hclock⟩, _, hoffset, h⟩ := h
  cases hclock
  split at h
  · cases h
    exact ⟨fraction?_lt hnanos, offset?_mod hoffset⟩
  · cases h

/-- What a text tells is a moment with a text of its own.  A leap second stays at the end of its
minute, since places differ by whole minutes. -/
theorem isValid_of_parse? {text : String} {t : Timestamp} (h : parse? text = some t) :
    t.IsValid := by
  obtain ⟨r, hr, h⟩ := Option.bind_eq_some_iff.1 h
  obtain ⟨hnanos, hoffset⟩ := read?_bounds hr
  split at h
  case isFalse => cases h
  case isTrue hcheck =>
    cases h
    obtain ⟨-, hyear⟩ := Bool.and_eq_true_iff.1 hcheck
    refine ⟨hyear, ?_, ?_⟩
    all_goals
      simp only [Reading.moment]
      split <;> dsimp only <;> omega

/-- The moments whose texts read back as them are the ones with a text of their own. -/
theorem parse?_render_iff {t : Timestamp} : parse? t.render = some t ↔ t.IsValid :=
  ⟨isValid_of_parse?, IsValid.parse?_render⟩

end PubSweep.Timestamp
