import PubSweep.Parsing.Run
import PubSweep.Proofs.Parsing.Recovery
import PubSweep.Proofs.Parsing.Tokens

/-!
A whole parse.

Every step of a parse keeps it sound, whatever the table says.  So a parse ends with a tree that
lies in the text, and whose parts lie inside it, one behind the other (`parseSubtree_isNext`).
-/

namespace PubSweep.Parsing

open Grammar Subtree

namespace Parse

open Stack

section

variable (table : Table) {source : Source} {limit v a : Nat} {p : Parse} {lookahead : Subtree}

/-! ### One version -/

theorem shift_sound (h : p.Sound limit) (hat : p.stack.At v a) (hnext : IsNext limit a lookahead)
    (target : Nat) : (p.shift table v lookahead target).Sound limit := by
  have hpush := h.stack.pushNext table hat (hnext.withExtra false) target
  exact h.withStack (scanner_grown hpush.sound v lookahead.info.scanner).sound

theorem pause_sound (h : p.Sound limit) (hat : p.stack.At v a) (hnext : IsNext limit a lookahead) :
    (p.pause v lookahead).Sound limit := by
  refine h.withStack (h.stack.modifyHead fun hv => ⟨(h.stack.soundHead hv).node, ?_⟩)
  rintro t ⟨⟩
  change IsNext limit (p.stack.position v) lookahead
  exact hat.place ▸ hnext

/-- What is left of a parse by a list of actions.  A version that was not taken on is still at its
place, and so is a new version that the reductions have led to. -/
def Step.Sound (limit v a : Nat) : Step → Prop
  | .done p => p.Sound limit
  | .reduced p new => p.Sound limit ∧ ∀ w ∈ new, v < w ∧ p.stack.At w a
  | .stuck p => p.Sound limit ∧ p.stack.At v a

theorem perform_sound {lookahead : Option Subtree} (hlookahead : ∀ t ∈ lookahead, IsNext limit a t)
    (actions : List Action) {reduced : Option (Option Nat)} (h : p.Sound limit)
    (hat : p.stack.At v a) (hreduced : ∀ w ∈ reduced.join, v < w ∧ p.stack.At w a) :
    (perform table source v lookahead actions reduced p).Sound limit v a := by
  induction actions generalizing reduced p with
  | nil =>
      cases reduced with
      | none => exact ⟨h, hat⟩
      | some new => exact ⟨h, hreduced⟩
  | cons action rest ih =>
      cases action with
      | shift target repeats =>
          unfold perform
          split
          · exact ih h hat hreduced
          · cases lookahead with
            | none => exact ⟨h, hat⟩
            | some t => exact shift_sound table h hat (hlookahead t rfl) target
      | reduce r =>
          rw [perform]
          obtain ⟨hfresh, hnew⟩ := reduce_fresh table source h.stack hat r lookahead.isNone
          refine ih (h.withStack hfresh.sound) (hfresh.at h.stack hat) ?_
          intro w hw
          rcases Option.or_eq_some_iff.mp hw with hw | ⟨-, hw⟩
          · obtain ⟨hle, hlt⟩ := hnew w hw
            exact ⟨Nat.lt_of_lt_of_le hat.version hle, hfresh.fresh w hle hlt⟩
          · obtain ⟨hvw, hwat⟩ := hreduced w hw
            exact ⟨hvw, hfresh.at h.stack hwat⟩
      | accept =>
          cases lookahead with
          | none => exact ⟨h, hat⟩
          | some t => exact accept_sound table source h hat (hlookahead t rfl)
      | recover =>
          cases lookahead with
          | none => exact ⟨h, hat⟩
          | some t => exact recover_sound table source h hat (hlookahead t rfl)

theorem at_of_isActive {s : Stack} (hv : v < s.versions) (hactive : (s.head v).status.isActive) :
    s.At v (s.position v) := by
  refine ⟨hv, rfl, ?_⟩
  intro t ht
  rw [ht] at hactive
  cases hactive

section

variable (hclasses : source.classes.size = source.size)
include hclasses

theorem advanceWith_sound (fuel : Nat) {lookahead : Option Subtree} (h : p.Sound source.size)
    (hat : p.stack.At v a) (hlookahead : ∀ t ∈ lookahead, IsNext source.size a t) :
    (advanceWith table source v fuel lookahead p).Sound source.size := by
  induction fuel generalizing lookahead p with
  | zero => exact h.withStack (h.stack.halt v)
  | succ fuel ih =>
      unfold advanceWith
      dsimp only
      generalize hperform : perform table source v lookahead _ none p = step
      have hstep : step.Sound source.size v a :=
        hperform ▸ perform_sound table hlookahead _ h hat nofun
      split
      · exact hstep
      · exact hstep.1.withStack (hstep.1.stack.halt v)
      · rename_i reduced w
        obtain ⟨hvw, hwat⟩ := hstep.2 w rfl
        have hhere := hwat.renumber hvw
        have hsound := @Stack.Sound.renumber source.size reduced.stack w v hstep.1.stack hwat.version
        refine ih (hstep.1.withStack hsound) hhere ?_
        intro t ht
        rcases Option.or_eq_some_iff.mp ht with ht | ⟨-, ht⟩
        · exact hlookahead t ht
        · exact hhere.place ▸ Lexer.lex_isNext hclasses (hsound.position_le v) ht
      · obtain ⟨hparse, hhere⟩ := hstep
        split
        · exact hparse.withStack (hparse.stack.halt v)
        · rename_i t
          have ht := hlookahead t rfl
          split
          · refine ih hparse hhere ?_
            rintro _ ⟨⟩
            exact ht.withInfo rfl rfl rfl
          · split
            · exact recover_sound table source hparse hhere ht
            · exact pause_sound hparse hhere ht

theorem advance_sound (h : p.Sound source.size) (hv : v < p.stack.versions)
    (hactive : (p.stack.head v).status.isActive) :
    (p.advance table source v).Sound source.size :=
  advanceWith_sound table hclasses _ h (at_of_isActive hv hactive) fun _ ht =>
    Lexer.lex_isNext hclasses (h.stack.position_le v) ht

theorem advanceVersion_sound (fuel last : Nat) (h : p.Sound source.size) :
    (advanceVersion table source v fuel last p).2.Sound source.size := by
  induction fuel generalizing p with
  | zero => exact h
  | succ fuel ih =>
      rw [advanceVersion]
      dsimp only
      split
      case isFalse => exact h
      case isTrue hgoes =>
        rw [Bool.and_eq_true, decide_eq_true_eq] at hgoes
        have hadvanced := advance_sound table hclasses h hgoes.1 hgoes.2
        split
        · exact hadvanced
        · split
          · exact hadvanced
          · exact ih hadvanced

theorem advanceAll_sound (fuel v last : Nat) (h : p.Sound source.size) :
    (advanceAll table source fuel v last p).2.Sound source.size := by
  induction fuel generalizing v last p with
  | zero => exact h
  | succ fuel ih =>
      rw [advanceAll]
      split
      · have hadvanced := advanceVersion_sound table hclasses (v := v) (8 * (source.size + 64)) last h
        generalize advanceVersion table source v (8 * (source.size + 64)) last p = advanced
          at hadvanced ⊢
        exact ih _ _ hadvanced
      · exact h

end

/-! ### All versions -/

theorem condenseAt_sound (status : VersionStatus) (fuel : Nat) {j i : Nat} {s : Stack}
    (hs : s.Sound limit) : (condenseAt table status fuel j i s).2.Sound limit := by
  induction fuel generalizing j i s with
  | zero => exact hs
  | succ fuel ih =>
      have hstatus := (statusOf_grown hs j).sound
      unfold condenseAt
      split
      · exact hs
      · dsimp only
        generalize s.statusOf j = other at hstatus ⊢
        split
        · exact hstatus.remove i
        · split
          · rename_i hmerge
            exact (hstatus.merge hmerge).1
          · exact ih hstatus
        · split
          · rename_i hmerge
            exact (hstatus.merge hmerge).1
          · exact ih hstatus
        · split
          · rename_i hmerge
            exact (hstatus.merge hmerge).1
          · exact ih (hstatus.withHeads fun _ => mem_swap)
        · exact ih (hstatus.remove j)

theorem condenseFrom_sound (fuel : Nat) {i : Nat} {least : Option Nat} {s : Stack}
    (hs : s.Sound limit) : (condenseFrom table fuel i least s).2.Sound limit := by
  induction fuel generalizing i least s with
  | zero => exact hs
  | succ fuel ih =>
      rw [condenseFrom]
      split
      · exact hs
      · split
        · exact ih (hs.remove i)
        · have hstatus := (statusOf_grown hs i).sound
          generalize s.statusOf i = status at hstatus ⊢
          have hcondensed := condenseAt_sound table status.1 (status.2.versions + 1)
            (j := 0) (i := i) hstatus
          dsimp only
          generalize condenseAt table status.1 (status.2.versions + 1) 0 i status.2 = condensed
            at hcondensed ⊢
          exact ih hcondensed

/-- A version that waits goes on from where it is with the token that it waits with. -/
theorem Sound.resumed (h : p.Sound limit) (hpaused : (p.stack.head v).status = .paused lookahead) :
    let s := p.stack.modifyHead v fun h => { h with status := .active }
    s.Sound limit ∧ s.At v (p.stack.position v) ∧ IsNext limit (p.stack.position v) lookahead := by
  have hv : v < p.stack.versions := by
    by_contra hlt
    rw [head_of_versions_le (Nat.le_of_not_lt hlt)] at hpaused
    cases hpaused
  have hhead := h.stack.soundHead hv
  have hactive := head_modifyHead p.stack hv (fun h => { h with status := .active }) v
  rw [if_pos rfl] at hactive
  refine ⟨h.stack.modifyHead fun _ => ⟨hhead.node, nofun⟩, ⟨?_, ?_, ?_⟩, hhead.paused _ hpaused⟩
  · rw [versions_modifyHead]
    exact hv
  · rw [Stack.position_eq, hactive]
    rfl
  · rw [hactive]
    exact nofun

variable (source) in
theorem resume_sound (fuel : Nat) {i n : Nat} {running : Bool} {least : Option Nat}
    (h : p.Sound limit) : (resume table source fuel i n running least p).2.Sound limit := by
  induction fuel generalizing i n running least p with
  | zero => exact h
  | succ fuel ih =>
      unfold resume
      split
      · exact h
      · split
        · rename_i lookahead hpaused
          split
          · obtain ⟨hsound, hat, hnext⟩ := h.resumed hpaused
            exact ih (handleError_sound table source (h.withStack hsound) hat hnext)
          · exact ih (h.withStack (h.stack.remove i))
        · exact ih h

variable (source) in
theorem condense_sound (h : p.Sound limit) : (p.condense table source).2.Sound limit := by
  rw [condense]
  dsimp only
  generalize hcondense : condenseFrom table _ 0 none p.stack = condensed
  have hcondensed : condensed.2.Sound limit := hcondense ▸ condenseFrom_sound table _ h.stack
  exact resume_sound table source _ (h.withStack (hcondensed.withHeads fun _ => mem_extract))

/-! ### All rounds -/

theorem loop_sound (hclasses : source.classes.size = source.size) (fuel last : Nat)
    (h : p.Sound source.size) : (loop table source fuel last p).Sound source.size := by
  induction fuel generalizing last p with
  | zero => exact h
  | succ fuel ih =>
      have hadvanced := advanceAll_sound table hclasses (64 + p.stack.versions) 0 last h
      have hcondensed := condense_sound table source hadvanced
      unfold loop
      dsimp only
      split
      · exact hcondensed
      · exact ih _ hcondensed

theorem initial_sound (limit : Nat) : Sound limit { stack := .initial } := by
  have hnodes {n : Nat} (hn : n < 1) : (#[{ state := 1 }] : Array StackNode).getD n default =
      { state := 1 } := by
    obtain rfl : n = 0 := Nat.lt_one_iff.mp hn
    rfl
  refine ⟨⟨Nat.one_pos, ⟨?_, ?_⟩, ?_⟩, ?_⟩
  · intro n hn l hl
    rw [Stack.initial, hnodes hn] at hl
    exact absurd hl (Array.not_mem_empty l)
  · intro n hn
    rw [placeOf, Stack.initial, hnodes hn]
    exact Nat.zero_le _
  · intro x hx
    rw [Stack.initial, Array.mem_singleton] at hx
    subst hx
    refine ⟨Nat.one_pos, ?_⟩
    intro t ht
    cases ht
  · intro t ht
    cases ht

end

end Parse

/-- The subtree of a whole text lies in the text. -/
theorem parseSubtree_isNext (table : Table) {source : Source}
    (hclasses : source.classes.size = source.size) :
    IsNext source.size 0 (parseSubtree table source) := by
  have hloop := Parse.loop_sound table hclasses (8 * (source.size + 64)) 0
    (Parse.initial_sound source.size)
  rw [parseSubtree]
  generalize Parse.loop table source (8 * (source.size + 64)) 0 { stack := .initial } = p
    at hloop ⊢
  cases hfinished : p.finished with
  | some t => exact hloop.finished t hfinished
  | none =>
      -- a parse that finds nothing takes the whole text as one error
      have hleaf : Subtree.Placed (.leaf .error 0 0 source.size) :=
        placed_leaf (Nat.le_refl 0) (Nat.zero_le _)
      exact (over_node table source .error #[] #[] 0
        (follow_singleton.mpr ⟨Nat.le_refl 0, hleaf⟩) nofun).isNext (Nat.le_refl _)

end PubSweep.Parsing
