import PubSweep.Parsing.Lexer
import PubSweep.Proofs.Parsing.Stack

/-!
Tokens in their places.

The scanner and the patterns find tokens that start where they are looked for or behind it, and that
end in the text.  So the next token of a version is one that can come behind it (`Lexer.lex_isNext`).
-/

namespace PubSweep.Parsing

open Grammar Subtree

/-! ### The scanner -/

namespace Scanner

variable {s : Source} {p : Char → Bool} {i j : Nat}

theorem lt_size_of_getElem?_eq_some {c : Char} (h : s.chars[i]? = some c) : i < s.size :=
  (Array.getElem?_eq_some_iff.mp h).1

theorem lt_size_of_holds (h : holds s p i = true) : i < s.size := by
  rw [holds, Option.any_eq_true_iff_get] at h
  obtain ⟨hsome, -⟩ := h
  exact lt_size_of_getElem?_eq_some (Option.some_get hsome).symm

theorem le_readFrom (hi : i ≤ s.size) : i ≤ s.readFrom i ∧ s.readFrom i ≤ s.size := by
  rw [Source.readFrom]
  split
  · rename_i hmark
    simp only [Bool.and_eq_true, decide_eq_true_eq, beq_iff_eq] at hmark
    exact ⟨by omega, lt_size_of_getElem?_eq_some hmark.2⟩
  · exact ⟨Nat.le_refl i, hi⟩

theorem le_skipWhile (fuel : Nat) (hi : i ≤ s.size) :
    i ≤ skipWhile s.chars p fuel i ∧ skipWhile s.chars p fuel i ≤ s.size := by
  induction fuel generalizing i with
  | zero => exact ⟨Nat.le_refl i, hi⟩
  | succ fuel ih =>
      rw [skipWhile]
      split
      · rename_i c hc
        split
        · obtain ⟨hle, hsize⟩ := ih (lt_size_of_getElem?_eq_some hc)
          exact ⟨Nat.le_of_succ_le hle, hsize⟩
        · exact ⟨Nat.le_refl i, hi⟩
      · exact ⟨Nat.le_refl i, hi⟩

theorem le_passWhile (p : Char → Bool) (hi : i ≤ s.size) :
    i ≤ passWhile s p i ∧ passWhile s p i ≤ s.size :=
  le_skipWhile (s.size - i) hi

theorem le_stringContent (h : stringContent s i = some j) : i ≤ j ∧ j ≤ s.size := by
  obtain ⟨hcontent, hj⟩ := Option.ite_none_right_eq_some.mp h
  cases hj
  simp only [Bool.and_eq_true, decide_eq_true_eq] at hcontent
  exact ⟨Nat.le_of_lt hcontent.2, Nat.le_of_lt hcontent.1⟩

theorem le_rawOpen {marks : Nat} (h : rawOpen s i = some (j, marks)) : i ≤ j ∧ j ≤ s.size := by
  rw [rawOpen] at h
  have hprefix : i ≤ if holds s (fun c => c == 'b' || c == 'c') i then i + 1 else i := by
    split <;> omega
  generalize (if holds s (fun c => c == 'b' || c == 'c') i then i + 1 else i) = start at h hprefix
  obtain ⟨hopen, h⟩ := Option.ite_none_right_eq_some.mp h
  obtain ⟨hquote, h⟩ := Option.ite_none_right_eq_some.mp h
  cases h
  have hmarks := le_passWhile (i := start + 1) (· == '#') (lt_size_of_holds hopen)
  exact ⟨by omega, lt_size_of_holds hquote⟩

theorem le_rawContent {marks : Nat} (fuel : Nat) (hi : i ≤ s.size)
    (h : rawContent s marks fuel i = some j) : i ≤ j ∧ j ≤ s.size := by
  induction fuel generalizing i with
  | zero => cases h
  | succ fuel ih =>
      rw [rawContent] at h
      split at h
      · cases h
      · rename_i c hc
        have hlt : i + 1 ≤ s.size := lt_size_of_getElem?_eq_some hc
        split at h
        · have hmarks := le_passWhile (· == '#') hlt
          dsimp only at h
          split at h
          · cases h
            exact ⟨Nat.le_refl _, hi⟩
          · obtain ⟨hle, hsize⟩ := ih (by omega) h
            exact ⟨by omega, hsize⟩
        · obtain ⟨hle, hsize⟩ := ih hlt h
          exact ⟨Nat.le_of_succ_le hle, hsize⟩

theorem le_float (hi : i < s.size) (h : float s i = some j) : i ≤ j ∧ j ≤ s.size := by
  have hwhole := le_passWhile (i := i + 1) isNumberChar hi
  rw [float] at h
  generalize passWhile s isNumberChar (i + 1) = whole at h hwhole
  dsimp only at h
  obtain ⟨-, h⟩ := Option.ite_none_left_eq_some.mp h
  have hmantissa : i ≤ (if holds s (· == '.') whole then passWhile s isNumberChar (whole + 1)
      else whole) ∧ (if holds s (· == '.') whole then passWhile s isNumberChar (whole + 1)
      else whole) ≤ s.size := by
    split
    · rename_i hfraction
      have := le_passWhile (i := whole + 1) isNumberChar (lt_size_of_holds hfraction)
      omega
    · omega
  generalize (if holds s (· == '.') whole then passWhile s isNumberChar (whole + 1)
    else whole) = mantissa at h hmantissa
  obtain ⟨-, h⟩ := Option.ite_none_left_eq_some.mp h
  have hsign : mantissa ≤ if holds s (fun c => c == '+' || c == '-') (mantissa + 1)
      then mantissa + 2 else mantissa + 1 := by
    split <;> omega
  generalize (if holds s (fun c => c == '+' || c == '-') (mantissa + 1) then mantissa + 2
    else mantissa + 1) = sign at h hsign
  generalize holds s (fun c => c == 'e' || c == 'E') mantissa = hasExponent at h
  by_cases hbare : (hasExponent && !holds s isNumberChar sign) = true
  · rw [if_pos hbare] at h
    cases h
    exact hmantissa
  · rw [if_neg hbare] at h
    have hdigits : i ≤ (if hasExponent then passWhile s isNumberChar sign else mantissa) ∧
        (if hasExponent then passWhile s isNumberChar sign else mantissa) ≤ s.size := by
      split
      · rename_i hexponent
        simp only [hexponent, Bool.true_and, Bool.not_eq_true', Bool.not_eq_false] at hbare
        have := le_passWhile isNumberChar (Nat.le_of_lt (lt_size_of_holds hbare))
        omega
      · exact hmantissa
    generalize (if hasExponent then passWhile s isNumberChar sign else mantissa) = digits
      at h hdigits
    split at h
    · rename_i htype
      cases h
      rw [Bool.and_eq_true] at htype
      have := le_passWhile Char.isDigit (Nat.le_of_lt (lt_size_of_holds htype.2))
      omega
    · cases h
      exact hdigits

theorem le_lineDoc (hi : i ≤ s.size) : i ≤ lineDoc s i ∧ lineDoc s i ≤ s.size := by
  have h := le_passWhile (· != '\n') hi
  rw [lineDoc]
  split <;> omega

/-- A comment that is read ends at its mark, or where reading went on from. -/
theorem le_blockContentFrom (fuel : Nat) {low mark depth : Nat} {state : CommentState}
    (hi : low ≤ i ∧ i ≤ s.size) (hmark : low ≤ mark ∧ mark ≤ s.size + 1) :
    low ≤ (blockContentFrom s fuel i mark depth state).2 ∧
      (blockContentFrom s fuel i mark depth state).2 ≤ s.size + 1 := by
  induction fuel generalizing i mark depth state with
  | zero => exact hmark
  | succ fuel ih =>
      rw [blockContentFrom]
      by_cases hdepth : depth = 0
      · rw [if_pos hdepth]
        exact hmark
      · rw [if_neg hdepth]
        cases hc : s.chars[i]? with
        | none => exact hmark
        | some c =>
            have hlt : i < s.size := lt_size_of_getElem?_eq_some hc
            refine ih ⟨by omega, hlt⟩ ?_
            cases state <;> dsimp only <;> (repeat' split) <;> omega

theorem le_blockContent {mark : Nat} (hi : i ≤ s.size) (hmark : i ≤ mark ∧ mark ≤ s.size + 1)
    (h : blockContent s i mark = some j) : i ≤ j ∧ j ≤ s.size + 1 := by
  rw [blockContent] at h
  obtain ⟨-, h⟩ := Option.ite_none_left_eq_some.mp h
  have hend (state : CommentState) := @le_blockContentFrom s (min (i + 1) s.size)
    (s.size - min (i + 1) s.size + 1) i mark 1 state (by omega) hmark
  rw [← Option.some_inj.mp h]
  exact hend _

theorem le_block {valid : ScannedToken → Bool} {token : ScannedToken} (hi : i ≤ s.size)
    (h : block s valid i = some (token, j)) : i ≤ j ∧ j ≤ s.size := by
  rw [block] at h
  by_cases hinner : (valid .innerBlockMark && s.chars[i]? == some '!') = true
  · rw [if_pos hinner] at h
    cases h
    omega
  · rw [if_neg hinner] at h
    generalize (valid .outerBlockMark && s.chars[i]? == some '*') = starred at h
    obtain ⟨-, h⟩ := Option.ite_none_left_eq_some.mp h
    split at h
    · cases h
      omega
    · obtain ⟨-, h⟩ := Option.ite_none_right_eq_some.mp h
      obtain ⟨stop, hstop, hj⟩ := Option.map_eq_some_iff.mp h
      have hle := le_blockContent hi (by split <;> omega) hstop
      cases hj
      split <;> omega

/-- A scanned token starts where it is looked for or behind it, and ends in the text. -/
theorem le_scan {valid : ScannedToken → Bool} {marks : Nat} {x : Scanned} (hi : i ≤ s.size)
    (h : scan s valid marks i = some x) : i ≤ x.start ∧ x.start ≤ x.stop ∧ x.stop ≤ s.size := by
  obtain ⟨hread, hsize⟩ := le_readFrom hi
  rw [scan] at h
  generalize s.readFrom i = start at h hread hsize
  obtain ⟨-, h⟩ := Option.ite_none_left_eq_some.mp h
  split at h
  · obtain ⟨⟨token, stop⟩, hfound, rfl⟩ := Option.map_eq_some_iff.mp h
    exact ⟨hread, le_block hsize hfound⟩
  · split at h
    · obtain ⟨stop, hfound, rfl⟩ := Option.map_eq_some_iff.mp h
      exact ⟨hread, le_stringContent hfound⟩
    · split at h
      · cases h
        exact ⟨hread, le_lineDoc hsize⟩
      · have hspace := le_passWhile isSpace hsize
        generalize passWhile s isSpace start = first at h hspace
        have hfirst : i ≤ first := Nat.le_trans hread hspace.1
        dsimp only at h
        split at h
        · obtain ⟨⟨stop, marks⟩, hfound, rfl⟩ := Option.map_eq_some_iff.mp h
          exact ⟨hfirst, le_rawOpen hfound⟩
        · split at h
          · obtain ⟨stop, hfound, rfl⟩ := Option.map_eq_some_iff.mp h
            exact ⟨hfirst, le_rawContent _ hspace.2 hfound⟩
          · split at h
            · rename_i hclose
              rw [Bool.and_eq_true] at hclose
              have hlt := lt_size_of_holds hclose.2
              cases h
              dsimp only
              omega
            · obtain ⟨hdigit, h⟩ := Option.ite_none_right_eq_some.mp h
              obtain ⟨stop, hfound, rfl⟩ := Option.map_eq_some_iff.mp h
              rw [Bool.and_eq_true] at hdigit
              exact ⟨hfirst, le_float (lt_size_of_holds hdigit.2) hfound⟩

end Scanner

/-! ### Patterns -/

/-- A scan by patterns stays in the text behind the place `low` where it began. -/
structure ScanInside (low size : Nat) (x : TokenAutomaton.Scan) : Prop where
  start : low ≤ x.start ∧ x.start ≤ x.reached
  reached : x.reached ≤ size
  found : ∀ m ∈ x.found, low ≤ m.start ∧ m.start ≤ m.stop ∧ m.stop ≤ size

section

variable {a : TokenAutomaton} {classes : Array Nat} {atEnd : Bool} {low : Nat}

theorem scanFrom_inside (fuel : Nat) {set : List Nat} {start current : Nat} {blank : Bool}
    {found : Option TokenAutomaton.Match} (hstart : low ≤ start ∧ start ≤ current)
    (hcurrent : current ≤ classes.size)
    (hfound : ∀ m ∈ found, low ≤ m.start ∧ m.start ≤ m.stop ∧ m.stop ≤ classes.size) :
    ScanInside low classes.size (a.scanFrom classes atEnd fuel set start current blank found) := by
  induction fuel generalizing set start current blank found with
  | zero => exact ⟨hstart, hcurrent, hfound⟩
  | succ fuel ih =>
      rw [TokenAutomaton.scanFrom]
      -- whichever match is kept, the scan goes on in the same way
      cases a.completion set
      case' none => have hbest := hfound
      case' some c =>
        have hbest : ∀ m ∈ some (⟨c.token, start, current⟩ : TokenAutomaton.Match),
            low ≤ m.start ∧ m.start ≤ m.stop ∧ m.stop ≤ classes.size := by
          rintro _ ⟨⟩
          exact ⟨hstart.1, hstart.2, hcurrent⟩
      all_goals
        dsimp only
        cases hclass : classes[current]? with
        | none =>
            dsimp only
            split
            · refine ⟨hstart, hcurrent, ?_⟩
              rintro _ ⟨⟩
              exact ⟨hstart.1, hstart.2, hcurrent⟩
            · exact ⟨hstart, hcurrent, hbest⟩
        | some byte =>
            have hlt : current < classes.size := (Array.getElem?_eq_some_iff.mp hclass).1
            dsimp only
            cases a.move set byte with
            | none => exact ⟨hstart, hcurrent, hbest⟩
            | some m =>
                dsimp only
                split
                · exact ⟨hstart, hcurrent, hbest⟩
                · split
                  · exact ih ⟨by omega, Nat.le_refl _⟩ hlt hbest
                  · exact ih ⟨hstart.1, by omega⟩ hlt hbest

theorem scan_inside {set : List Nat} {current : Nat} (hcurrent : current ≤ classes.size) :
    ScanInside current classes.size (a.scan set atEnd classes current) :=
  scanFrom_inside _ ⟨Nat.le_refl _, Nat.le_refl _⟩ hcurrent nofun

end

/-! ### Tokens of a version -/

theorem isNext_leaf {limit before start stop : Nat} (kind : SubtreeKind) (hstart : before ≤ start)
    (hstop : start ≤ stop) (hlimit : stop ≤ limit) :
    IsNext limit before (.leaf kind before start stop) :=
  ⟨Nat.le_refl _, placed_leaf hstart hstop, hlimit⟩

namespace Lexer

variable {table : Table} {source : Source} (hclasses : source.classes.size = source.size)

theorem isNext_ofMatch {limit before : Nat} (state : Nat) {m : TokenAutomaton.Match}
    (hm : before ≤ m.start ∧ m.start ≤ m.stop ∧ m.stop ≤ limit) :
    IsNext limit before (ofMatch table source state before m) := by
  have hleaf := isNext_leaf (.symbol m.symbol) hm.1 hm.2.1 hm.2.2
  rw [ofMatch]
  dsimp only
  split
  · split
    · exact hleaf
    · split
      · exact hleaf.withInfo rfl rfl rfl
      · exact hleaf.withInfo rfl rfl rfl
  · exact hleaf

theorem isNext_ofScanned {limit before : Nat} (scanner : Option Nat) {x : Scanned}
    (hx : before ≤ x.start ∧ x.start ≤ x.stop ∧ x.stop ≤ limit) :
    IsNext limit before (ofScanned table before scanner x) :=
  (isNext_leaf (.symbol (scannedSymbol table x.token)) hx.1 hx.2.1 hx.2.2).withInfo rfl rfl rfl

theorem le_scanned {state marks i : Nat} {x : Scanned} (hi : i ≤ source.size)
    (h : scanned table source state marks i = some x) :
    i ≤ x.start ∧ x.start ≤ x.stop ∧ x.stop ≤ source.size := by
  obtain ⟨-, h⟩ := Option.ite_none_left_eq_some.mp h
  exact Scanner.le_scan hi h

include hclasses

theorem matched_inside {state i : Nat} (hi : i ≤ source.size) :
    ScanInside i source.size (matched table source state i) := by
  obtain ⟨hread, hsize⟩ := Scanner.le_readFrom hi
  have h := @scan_inside table.automaton source.classes
    (table.choices.getD ((table.choiceOf.getD state none).getD 0) default).atEnd
    (table.choices.getD ((table.choiceOf.getD state none).getD 0) default).start
    (source.readFrom i) (by rwa [hclasses])
  rw [hclasses] at h
  exact ⟨⟨Nat.le_trans hread h.start.1, h.start.2⟩, h.reached,
    fun m hm => ⟨Nat.le_trans hread (h.found m hm).1, (h.found m hm).2⟩⟩

/-- The token that is found from a place on, behind text that is skipped. -/
theorem lexFrom_isNext {stack : Stack} {version parseState before : Nat} {scanner : Option Nat}
    (fuel : Nat) {state i : Nat} {recovering : Bool} {skipped : Option (Nat × Nat)}
    (hi : before ≤ i ∧ i ≤ source.size)
    (hskipped : ∀ x ∈ skipped, before ≤ x.1 ∧ x.1 ≤ x.2 ∧ x.1 ≤ i ∧ x.2 ≤ source.size) :
    IsNext source.size before (lexFrom table source stack version parseState before scanner fuel
      state i recovering skipped) := by
  induction fuel generalizing state i recovering skipped with
  | zero =>
      rw [lexFrom]
      cases skipped with
      | none => exact isNext_leaf _ hi.1 (Nat.le_refl i) hi.2
      | some x =>
          have hx := hskipped x rfl
          exact isNext_leaf _ hx.1 hx.2.1 hx.2.2.2
  | succ fuel ih =>
      have herror {x : Nat × Nat} (hx : x ∈ skipped) :
          IsNext source.size before (.leaf .error before x.1 x.2) :=
        isNext_leaf _ (hskipped x hx).1 (hskipped x hx).2.1 (hskipped x hx).2.2.2
      have hgap {scan : TokenAutomaton.Scan} (hscan : ScanInside i source.size scan) :
          let gap := skipped.getD (scan.start, scan.start)
          before ≤ gap.1 ∧ gap.1 ≤ gap.2 ∧ gap.1 ≤ scan.reached ∧ gap.2 ≤ source.size := by
        have hstart := hscan.start
        have hreached := hscan.reached
        cases skipped with
        | none =>
            dsimp only [Option.getD_none]
            omega
        | some x =>
            have hx := hskipped x rfl
            dsimp only [Option.getD_some]
            omega
      unfold lexFrom
      dsimp only
      split
      · rename_i x hscanned
        have hx := le_scanned hi.2 (Option.eq_some_of_filter_eq_some hscanned)
        exact isNext_ofScanned scanner ⟨Nat.le_trans hi.1 hx.1, hx.2⟩
      · exact herror rfl
      · have hmatched := @matched_inside table source hclasses state i hi.2
        generalize matched table source state i = scan at hmatched ⊢
        split
        · rename_i m hfound
          have hm := hmatched.found m hfound
          exact isNext_ofMatch parseState ⟨Nat.le_trans hi.1 hm.1, hm.2⟩
        · exact herror rfl
        · have hskip := hgap hmatched
          generalize Option.getD _ (scan.start, scan.start) = gap at hskip ⊢
          have hreached := hmatched.reached
          have hle := Nat.le_trans hmatched.start.1 hmatched.start.2
          split
          · exact ih ⟨Nat.le_refl before, Nat.le_trans hi.1 hi.2⟩ nofun
          · split
            · refine ih ⟨by omega, hreached⟩ ?_
              rintro _ ⟨⟩
              exact ⟨hskip.1, hskip.2.2.1, hskip.2.2.1, hreached⟩
            · split
              · refine ih ⟨by omega, by omega⟩ ?_
                rintro _ ⟨⟩
                dsimp only
                omega
              · exact isNext_leaf _ hskip.1 hskip.2.1 hskip.2.2.2

theorem lex_isNext {stack : Stack} {version state : Nat} {t : Subtree}
    (hposition : stack.position version ≤ source.size)
    (h : lex table source stack version state = some t) :
    IsNext source.size (stack.position version) t := by
  obtain ⟨-, h⟩ := Option.ite_none_left_eq_some.mp h
  rw [← Option.some_inj.mp h]
  exact lexFrom_isNext hclasses _ ⟨Nat.le_refl _, hposition⟩ nofun

end Lexer

end PubSweep.Parsing
