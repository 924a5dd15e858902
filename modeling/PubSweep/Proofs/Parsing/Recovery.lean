import PubSweep.Parsing.Recovery
import PubSweep.Proofs.Parsing.Reduction

/-!
Recovery keeps a parse sound.

Whatever a version tries at a token that it cannot use, it tries in new versions, all but the skipping
of the token; what it guesses has no width, and what it skips goes into an error that stands where
the skipped subtrees stood.
-/

namespace PubSweep.Parsing

open Grammar Subtree

namespace Stack

section

variable {limit a : Nat} {s : Stack}

theorem progress_grown (hs : s.Sound limit) (v : Nat) : Grown limit s (s.progress v).2 := by
  rw [progress]
  split
  · refine hs.remember v ?_
    exact fun h => ⟨rfl, rfl⟩
  · exact .refl hs

theorem statusOf_grown (hs : s.Sound limit) (v : Nat) : Grown limit s (s.statusOf v).2 :=
  progress_grown hs v

theorem recordSummary_grown (hs : s.Sound limit) (v : Nat) : Grown limit s (s.recordSummary v) := by
  refine hs.remember v ?_
  exact fun h => ⟨rfl, rfl⟩

/-- A scanner that has read on. -/
theorem scanner_grown (hs : s.Sound limit) (v : Nat) (marks : Option Nat) :
    Grown limit s
      (match marks with
      | some marks => s.modifyHead v fun h => { h with scanner := some marks }
      | none => s) := by
  cases marks with
  | none => exact .refl hs
  | some marks =>
      refine hs.remember v ?_
      exact fun h => ⟨rfl, rfl⟩

theorem node_halt (s : Stack) (w i : Nat) : ((s.halt w).head i).node = (s.head i).node := by
  by_cases hi : i = w
  · subst hi
    by_cases hlt : i < s.versions
    · rw [halt, head_modifyHead s hlt, if_pos rfl]
    · rw [head_of_versions_le (Nat.le_of_not_lt hlt), head_of_versions_le]
      rw [halt, versions_modifyHead]
      exact Nat.le_of_not_lt hlt
  · exact congrArg Head.node (getD_modify_of_ne hi _)

theorem At.halt {v : Nat} (hat : s.At v a) (w : Nat) : (s.halt w).At v a := by
  refine ⟨?_, ?_, ?_⟩
  · rw [Stack.halt, versions_modifyHead]
    exact hat.version
  · rw [Stack.position_eq, node_halt]
    exact hat.place
  · by_cases hv : v = w
    · subst hv
      rw [Stack.halt, head_modifyHead s hat.version, if_pos rfl]
      exact nofun
    · have hkeeps : s.Keeps (· ≠ w) (s.halt w) := keeps_modifyHead s w _
      rw [(hkeeps.heads v hv hat.version).2.status]
      exact hat.running

end

end Stack

namespace Parse

open Stack

section

variable (table : Table) (source : Source) {limit stop v w a : Nat} {before s s' : Stack}
  {last : Option Nat} {x : Slice} {slices : List Slice}

/-! ### Back to an earlier state -/

theorem findBetter_grown (hs : s.Sound limit) (v position : Nat) (status : VersionStatus)
    (fuel i : Nat) : Grown limit s (findBetter v position status fuel i s).2 := by
  induction fuel generalizing i s with
  | zero => exact .refl hs
  | succ fuel ih =>
      have hstatus := statusOf_grown hs i
      rw [findBetter]
      split
      · exact .refl hs
      · split
        · exact ih hs (i + 1)
        · dsimp only
          split
          · exact hstatus
          · split
            · exact hstatus
            · exact hstatus.trans (ih hstatus.sound (i + 1))
          · exact hstatus.trans (ih hstatus.sound (i + 1))

/-- A parse whose stack has only grown. -/
structure Grown (limit : Nat) (p p' : Parse) : Prop where
  stack : Stack.Grown limit p.stack p'.stack
  finished : p'.finished = p.finished

theorem Grown.refl {p : Parse} (hs : p.stack.Sound limit) : Grown limit p p :=
  ⟨.refl hs, rfl⟩

theorem Grown.trans {p p' p'' : Parse} (h : Grown limit p p') (h' : Grown limit p' p'') :
    Grown limit p p'' :=
  ⟨h.stack.trans h'.stack, h'.finished.trans h.finished⟩

theorem Grown.parse {p p' : Parse} (h : Grown limit p p') (hp : p.Sound limit) : p'.Sound limit :=
  ⟨h.stack.sound, h.finished ▸ hp.finished⟩

theorem hasBetter_grown {p : Parse} (hs : p.stack.Sound limit) (v cost : Nat) :
    Grown limit p (p.hasBetter v cost).2 := by
  have hprogress := progress_grown hs v
  rw [hasBetter]
  split
  · exact .refl hs
  · exact ⟨hprogress.trans (findBetter_grown hprogress.sound _ _ _ _ _), rfl⟩

/-- Slices of new versions that are still to be put into errors.  Those of the last version that
was done are passed over; all others reach from where their version is up to a place. -/
structure Awaiting (limit stop : Nat) (before s : Stack) (last : Option Nat)
    (slices : List Slice) : Prop extends Stack.Grown limit before s where
  sorted : slices.Pairwise fun x y => x.version ≤ y.version
  version : ∀ x ∈ slices, before.versions ≤ x.version
  done_le : ∀ w ∈ last, ∀ x ∈ slices, w ≤ x.version
  waiting : ∀ x ∈ slices, last ≠ some x.version → s.At x.version (s.position x.version) ∧
    Spans s.nodes (s.head x.version).node x.trees stop

theorem Awaiting.tail (h : Awaiting limit stop before s last (x :: slices)) :
    Awaiting limit stop before s last slices where
  toGrown := h.toGrown
  sorted := h.sorted.of_cons
  version y hy := h.version y (List.mem_cons_of_mem x hy)
  done_le w hw y hy := h.done_le w hw y (List.mem_cons_of_mem x hy)
  waiting y hy := h.waiting y (List.mem_cons_of_mem x hy)

theorem Awaiting.halt (h : Awaiting limit stop before s last (x :: slices)) :
    Awaiting limit stop before (s.halt x.version) last slices where
  toGrown := h.change (h.sound.halt _) (keeps_modifyHead s _ _) (h.version x List.mem_cons_self)
  sorted := h.tail.sorted
  version := h.tail.version
  done_le := h.tail.done_le
  waiting y hy hlast := by
    obtain ⟨hat, hspans⟩ := h.tail.waiting y hy hlast
    have hplace : (s.halt x.version).position y.version = s.position y.version :=
      congrArg (placeOf s.nodes) (node_halt s x.version y.version)
    rw [hplace, node_halt]
    exact ⟨hat.halt _, hspans⟩

/-- The first slice is done, and no other version than its own has changed. -/
theorem Awaiting.done (h : Awaiting limit stop before s last (x :: slices))
    (hsound : s'.Sound limit) (hkeeps : s.Keeps (· ≠ x.version) s') :
    Awaiting limit stop before s' (some x.version) slices where
  toGrown := h.change hsound hkeeps (h.version x List.mem_cons_self)
  sorted := h.tail.sorted
  version := h.tail.version
  done_le := by
    rintro _ ⟨⟩ y hy
    exact List.rel_of_pairwise_cons h.sorted hy
  waiting y hy hne := by
    have hne : y.version ≠ x.version := fun heq => hne (congrArg some heq.symm)
    -- the slices are sorted, so those of an earlier version are all done
    have hlast : last ≠ some y.version := by
      intro heq
      have hle := h.done_le y.version heq x List.mem_cons_self
      exact hne (Nat.le_antisymm hle (List.rel_of_pairwise_cons h.sorted hy))
    obtain ⟨hat, hspans⟩ := h.tail.waiting y hy hlast
    rw [hkeeps.position_eq h.sound hne hat.version, (hkeeps.heads _ hne hat.version).2.node]
    exact ⟨hat.keep h.sound hkeeps hne, hspans.extend hkeeps.nodes⟩

/-- What was taken off goes into an error, together with what was in an error below. -/
theorem advanced_error {popped : Stack × Option Subtree} (h : ErrorTaken limit a s w popped)
    {trees : List Subtree} (htrees : Follow a trees) (hlimit : stopOf a trees ≤ limit)
    (goal : Nat) :
    let parts := splitExtras ((popped.2.map (·.children)).getD [] ++ trees)
    let s' := parts.2.foldl (fun s t => s.push table w (some t) goal)
      (if parts.1.isEmpty then popped.1
        else popped.1.push table w
          (some ((Subtree.node table source .error #[] #[] 0 parts.1).withExtra true)) goal)
    s'.Sound limit ∧ s.Keeps (· ≠ w) s' := by
  intro parts s'
  obtain ⟨b, hat, hinside, hend⟩ := h.inside
  have hfollow : Follow b (parts.1 ++ parts.2) := by
    rw [splitExtras_append]
    exact follow_append.mpr ⟨hinside, htrees.mono hend⟩
  have hstop : stopOf b (parts.1 ++ parts.2) ≤ limit := by
    rw [splitExtras_append, stopOf_append]
    exact Nat.le_trans (stopOf_mono hend trees) hlimit
  by_cases hempty : parts.1 = []
  · have hs' : s' = parts.2.foldl (fun s t => s.push table w (some t) goal) popped.1 := by
      simp only [s', hempty, List.isEmpty_nil, if_true]
    rw [hempty, List.nil_append] at hfollow hstop
    have hpush := h.sound.pushAll table hat hfollow hstop goal
    rw [hs']
    exact ⟨hpush.sound, h.keeps.trans hpush.keeps⟩
  · have hnode := over_node table source .error #[] #[] 0
      (follow_append.mp hfollow).1 fun h => absurd h hempty
    have hpush := h.sound.pushOver table hat hfollow hstop (hnode.withExtra true) goal
    have hs' : s' = parts.2.foldl (fun s t => s.push table w (some t) goal)
        (popped.1.push table w
          (some ((Subtree.node table source .error #[] #[] 0 parts.1).withExtra true)) goal) := by
      simp only [s', List.isEmpty_iff, hempty, if_false]
    rw [hs']
    exact ⟨hpush.sound, h.keeps.trans hpush.keeps⟩

/-- All slices are put into errors, or their versions are over. -/
theorem Awaiting.foldl {step : Stack × Option Nat → Slice → Stack × Option Nat}
    (hstep : ∀ acc x slices, Awaiting limit stop before acc.1 acc.2 (x :: slices) →
      Awaiting limit stop before (step acc x).1 (step acc x).2 slices)
    {acc : Stack × Option Nat} (h : Awaiting limit stop before acc.1 acc.2 slices) :
    Awaiting limit stop before (slices.foldl step acc).1 (slices.foldl step acc).2 [] := by
  induction slices generalizing acc with
  | nil => exact h
  | cons x slices ih => exact ih (hstep acc x slices h)

theorem recoverTo_grown (hs : s.Sound limit) (v depth goal : Nat) :
    Stack.Grown limit s (recoverTo table source s v depth goal).2 := by
  have hpopped := popCount_popped hs (rfl : s.position v = _) depth
  have hlimit : s.position v ≤ limit := hs.position_le v
  rw [recoverTo]
  generalize s.popCount v depth = popped at hpopped ⊢
  have hstart : Awaiting limit (s.position v) s popped.1 none popped.2 := by
    refine ⟨hpopped.toGrown, hpopped.slices.sorted, ?_, nofun, ?_⟩
    · exact fun x hx => (hpopped.slices.version x hx).1
    · intro x hx _
      obtain ⟨hle, hlt⟩ := hpopped.slices.version x hx
      exact ⟨hpopped.slices.at_version hle hlt, hpopped.slices.spans x hx⟩
  refine (Awaiting.foldl ?_ hstart).toGrown
  rintro ⟨s', last⟩ x slices h
  dsimp only at h ⊢
  split
  · exact h.tail
  · rename_i hnot
    split
    · exact h.halt
    · obtain ⟨hat, hspans⟩ := h.waiting x List.mem_cons_self hnot
      have htaken := popError_taken h.sound hat
      obtain ⟨hsound, hkeeps⟩ := advanced_error table source htaken hspans.follow
        (hspans.stop ▸ hlimit) goal
      exact h.done hsound hkeeps

theorem tryStates_grown (v position progress cost versions : Nat) (lookahead : Subtree)
    (entries : List SummaryEntry) {p : Parse} (hs : p.stack.Sound limit) :
    Grown limit p
      (tryStates table source v position progress cost versions lookahead entries p).2 := by
  induction entries generalizing p with
  | nil => exact .refl hs
  | cons e rest ih =>
      rw [tryStates]
      dsimp only
      split
      · exact ih hs
      · generalize cost + Subtree.skipCost * e.depth + _ + _ = total
        have hbetter := hasBetter_grown hs v total
        split
        · exact hbetter
        · split
          · exact hbetter.trans (ih hbetter.stack.sound)
          · generalize (if 0 < progress then e.depth + 1 else e.depth) = depth
            have hback : Grown limit (p.hasBetter v total).2
                { (p.hasBetter v total).2 with
                  stack := (recoverTo table source (p.hasBetter v total).2.stack v depth e.state).2 } :=
              ⟨recoverTo_grown table source hbetter.stack.sound v depth e.state, rfl⟩
            split
            · exact hbetter.trans hback
            · exact (hbetter.trans hback).trans (ih hback.stack.sound)

theorem dropInactive_sound (hs : s.Sound limit) (first : Nat) :
    (dropInactive s first).Sound limit := by
  refine hs.withHeads ?_
  intro x hx
  rcases Array.mem_append.mp hx with hold | hnew
  · exact mem_extract hold
  · exact mem_extract (Array.mem_filter.mp hnew).1

theorem keeps_dropInactive (s : Stack) (first : Nat) :
    s.Keeps (· < first) (dropInactive s first) :=
  (keeps_extract s first).trans ((keeps_append _ _).mono fun _ _ => trivial)

/-! ### Over a token -/

/-- A skipped token goes into an error, together with what was skipped in front of it. -/
theorem skipToken_sound (hs : s.Sound limit) (hat : s.At v a) {lookahead : Subtree}
    (hnext : IsNext limit a lookahead) (progress : Nat) :
    (skipToken table source s v progress lookahead).Sound limit := by
  rw [skipToken]
  dsimp only
  have hone : Over a [lookahead] (Subtree.node table source .skipped #[] #[] 0 [lookahead]) :=
    over_node table source .skipped #[] #[] 0 (follow_singleton.mpr ⟨hnext.before, hnext.placed⟩)
      nofun
  generalize Subtree.node table source .skipped #[] #[] 0 [lookahead] = one at hone ⊢
  have hskip : IsNext limit a one := hone.isNext hnext.stop
  generalize hskipped : (if 0 < progress then _ else (one, s) : Subtree × Stack) = skipped
  obtain ⟨b, hsound, hhere, hnode⟩ : ∃ b, skipped.2.Sound limit ∧ skipped.2.At v b ∧
      IsNext limit b skipped.1 := by
    rw [← hskipped]
    split
    case isFalse => exact ⟨a, hs, hat, hskip⟩
    case isTrue =>
      have hpopped := popCount_popped hs hat.place 1
      generalize s.popCount v 1 = popped at hpopped ⊢
      rcases hslices : popped.2 with _ | ⟨x, rest⟩
      · exact ⟨a, hpopped.sound, hpopped.at hs hat, hskip⟩
      · have hx : x ∈ popped.2 := hslices ▸ List.mem_cons_self
        obtain ⟨hle, hlt⟩ := hpopped.slices.version x hx
        have hspans := hpopped.slices.spans x hx
        dsimp only
        generalize hcut : (if rest.isEmpty then popped.1
          else { popped.1 with heads := popped.1.heads.extract 0 (x.version + 1) }) = cut
        have hkept : cut.Sound limit ∧ popped.1.Keeps (· < x.version + 1) cut := by
          rw [← hcut]
          split
          · exact ⟨hpopped.sound, .refl _ _⟩
          · exact ⟨hpopped.sound.withHeads fun _ => mem_extract, keeps_extract _ _⟩
        have hxat := (hpopped.slices.at_version hle hlt).keep hpopped.sound hkept.2
          (Nat.lt_succ_self _)
        have hvx : v < x.version := Nat.lt_of_lt_of_le hat.version hle
        have hfollow : Follow (popped.1.position x.version) (x.trees ++ [one]) := by
          refine follow_append.mpr ⟨hspans.follow, ?_⟩
          rw [Stack.position_eq, hspans.stop]
          exact follow_singleton.mpr ⟨hskip.before, hskip.placed⟩
        refine ⟨_, hkept.1.renumber hxat.version, hxat.renumber hvx,
          (over_node table source .skipped #[] #[] 0 hfollow (by simp)).isNext ?_⟩
        rw [stopOf_append]
        exact hskip.stop
  have hpush := hsound.pushNext table hhere hnode 0
  exact (scanner_grown hpush.sound v lookahead.info.scanner).sound

theorem recover_sound {p : Parse} (h : p.Sound limit) (hat : p.stack.At v a) {lookahead : Subtree}
    (hnext : IsNext limit a lookahead) : (p.recover table source v lookahead).Sound limit := by
  have hprogress : Grown limit p { p with stack := (p.stack.progress v).2 } :=
    ⟨progress_grown h.stack v, rfl⟩
  rw [recover]
  dsimp only
  generalize { p with stack := (p.stack.progress v).2 } = p₁ at hprogress ⊢
  generalize htried : (if lookahead.isError then (false, p₁) else _ : Bool × Parse) = tried
  have hgrown : Grown limit p tried.2 := by
    rw [← htried]
    split
    · exact hprogress
    · exact hprogress.trans (tryStates_grown table source _ _ _ _ _ _ _ hprogress.stack.sound)
  -- only the versions that were there before are kept for sure, and `v` is one of them
  have hdropped := dropInactive_sound hgrown.stack.sound p.stack.versions
  have hkeeps := keeps_dropInactive tried.2.stack p.stack.versions
  have hhere := (hgrown.stack.at h.stack hat).keep hgrown.stack.sound hkeeps hat.version
  have hparse := (hgrown.parse h).withStack hdropped
  generalize dropInactive tried.2.stack p.stack.versions = dropped at hdropped hhere hparse ⊢
  split
  · -- at the end of the text the error has no width
    have hempty : Over a [] (Subtree.node table source .error #[] #[] (p.stack.position v) []) :=
      over_node table source .error #[] #[] _ (follow_nil a) fun _ => hat.place
    have hpush := hdropped.pushNext table hhere
      (hempty.isNext (hat.place ▸ h.stack.position_le v)) 1
    rw [hempty.stop] at hpush
    exact accept_sound table source (hparse.withStack hpush.sound) hpush.here hnext
  · split
    · exact hparse.withStack (hdropped.halt v)
    · generalize (p.stack.progress v).2.cost v + Subtree.skipCost + _ + _ = total
      have hbetter := hasBetter_grown hparse.stack v total
      split
      · exact (hbetter.parse hparse).withStack (hbetter.stack.sound.halt v)
      · exact (hbetter.parse hparse).withStack (skipToken_sound table source
          hbetter.stack.sound (hbetter.stack.at hdropped hhere) hnext _)

/-! ### A missing token -/

/-- A guess is made in a new version, and the guessed token has no width. -/
theorem guess_grown (hs : s.Sound limit) (hat : s.At v a) (lookahead : Subtree)
    (tokens : List Nat) :
    Stack.Grown limit s (guess table source v a lookahead tokens s).2 := by
  induction tokens generalizing s with
  | nil =>
      unfold guess
      exact .refl hs
  | cons token rest ih =>
      unfold guess
      dsimp only
      split
      · exact ih hs hat
      · split
        · rename_i symbol _
          obtain ⟨hcopied, hcopy⟩ := hs.copy hat
          have hversions := s.versions_copy v
          rw [show (s.copy v).1 = s.versions from rfl]
          generalize (s.copy v).2 = copied at hcopied hcopy hversions ⊢
          generalize hmissing : Subtree.mk _ [] = missing
          have hleaf : IsNext limit a missing ∧ missing.info.stop = a := by
            rw [← hmissing]
            exact ⟨⟨Nat.le_refl a, placed_leaf (Nat.le_refl a) (Nat.le_refl a),
              hat.place ▸ hs.position_le v⟩, rfl⟩
          have hpush := hcopied.sound.pushNext table hcopy hleaf.1
            (Lookup.next table (s.state v) token)
          rw [hleaf.2] at hpush
          have hpushed := hcopied.change hpush.sound hpush.keeps (Nat.le_refl _)
          have hadded := Above.new hpushed (hpush.versions.trans hversions) hpush.here
          have hgrown := (reduceAll_above table source symbol (.inr (Nat.le_refl _)) hadded).grown (Nat.le_refl _)
          split
          · exact hgrown
          · exact hgrown.trans (ih hgrown.sound (hgrown.at hs hat))
        · exact ih hs hat

/-- All versions at the place of the error are still there when it is marked. -/
theorem markErrors_at (hs : s.Sound limit) (lookahead : Subtree) {versions : List Nat}
    (hversions : ∀ w ∈ versions, s.At w a) (guessed : Bool) :
    let s' := markErrors table source a lookahead versions guessed s
    s'.Sound limit ∧ ∀ w, s.At w a → s'.At w a := by
  induction versions generalizing guessed s with
  | nil => exact ⟨hs, fun _ h => h⟩
  | cons v rest ih =>
      have hat := hversions v List.mem_cons_self
      rw [markErrors]
      generalize hguess : (if guessed then (true, s) else _ : Bool × Stack) = found
      have hfound : Stack.Grown limit s found.2 := by
        rw [← hguess]
        split
        · exact .refl hs
        · exact guess_grown table source hs hat lookahead _
      have hpush := hfound.sound.push table (hfound.at hs hat) none nofun 0
      have hstay (w : Nat) (hw : s.At w a) : (found.2.push table v none 0).At w a := by
        by_cases hwv : w = v
        · exact hwv ▸ hpush.here
        · exact (hfound.at hs hw).keep hfound.sound hpush.keeps hwv
      obtain ⟨hsound, hall⟩ := ih hpush.sound
        (fun w hw => hstay w (hversions w (List.mem_cons_of_mem v hw))) found.1
      exact ⟨hsound, fun w hw => hall w (hstay w hw)⟩

/-- The versions that were added are merged into the first one, where they can be. -/
theorem foldl_merge_at (hs : s.Sound limit) (hat : s.At v a) {previous : Nat} (hv : v < previous)
    (added : List Nat) :
    let s' := added.foldl (fun (s : Stack) _ => (s.merge table v previous).getD s) s
    s'.Sound limit ∧ s'.At v a := by
  induction added generalizing s with
  | nil => exact ⟨hs, hat⟩
  | cons _ added ih =>
      rw [List.foldl_cons]
      cases hmerge : s.merge table v previous with
      | none => exact ih hs hat
      | some merged =>
          obtain ⟨hsound, -, hkeeps⟩ := hs.merge hmerge
          have hremoved := (keeps_remove s previous).trans (hkeeps.mono fun _ _ => trivial)
          exact ih hsound (hat.keep hs hremoved hv)

theorem handleError_sound {p : Parse} (h : p.Sound limit) (hat : p.stack.At v a)
    {lookahead : Subtree} (hnext : IsNext limit a lookahead) :
    (p.handleError table source v lookahead).Sound limit := by
  have hreduced := reduceAll_above table source Productions.endSymbol (.inl rfl)
    (.start h.stack hat)
  rw [handleError]
  generalize p.stack.reduceAll table source v Productions.endSymbol = reduced at hreduced ⊢
  have hhere := hreduced.here hat.version
  dsimp only
  generalize hadded : (List.range (reduced.2.versions - p.stack.versions)).map
    (p.stack.versions + ·) = added
  -- all versions that the reductions have added are at the same place
  have hversions : ∀ w ∈ v :: added, reduced.2.At w a := by
    intro w hw
    rcases List.mem_cons.mp hw with rfl | hw
    · exact hhere
    · obtain ⟨i, hi, rfl⟩ := List.mem_map.mp (hadded ▸ hw)
      have hi := List.mem_range.mp hi
      exact hreduced.fresh _ (Nat.le_add_right _ _) (by omega)
  rw [hhere.place]
  obtain ⟨hsound, hall⟩ := markErrors_at table source hreduced.sound lookahead hversions
    false
  generalize markErrors table source a lookahead (v :: added) false reduced.2 = marked
    at hsound hall ⊢
  obtain ⟨hmerged, hback⟩ := foldl_merge_at table hsound (hall v hhere) hat.version added
  generalize List.foldl _ marked added = merged at hmerged hback ⊢
  have hsummary := recordSummary_grown hmerged v
  exact recover_sound table source (h.withStack hsummary.sound) (hsummary.at hmerged hback) hnext

end

end Parse

end PubSweep.Parsing
