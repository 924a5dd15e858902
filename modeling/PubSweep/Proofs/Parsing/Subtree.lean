import Mathlib.Data.List.DropRight
import PubSweep.Parsing.Subtree

/-!
Subtrees in their places.

A subtree is placed (`Subtree.Placed`) if its parts lie inside it, one behind the other, and if the
same holds of its parts.  Whatever a parse builds of subtrees that follow one another is placed
(`over_node`).
-/

namespace PubSweep.Parsing.Subtree

open Grammar

/-- Where some subtrees that begin at `a` end. -/
def stopOf : (a : Nat) → List Subtree → Nat
  | a, [] => a
  | _, t :: ts => stopOf t.info.stop ts

mutual
/-- The parts of a subtree lie inside it and follow one another, and so do theirs. -/
def Placed : Subtree → Prop
  | mk i cs => i.before ≤ i.start ∧ i.start ≤ i.stop ∧ (∀ c ∈ cs.head?, i.start ≤ c.info.start) ∧
      Follow i.before cs ∧ stopOf i.before cs ≤ i.stop

/-- Subtrees that are placed and follow one another, the first not before `a`. -/
def Follow : (a : Nat) → List Subtree → Prop
  | _, [] => True
  | a, t :: ts => a ≤ t.info.before ∧ t.Placed ∧ Follow t.info.stop ts
end

/-- Induction on some subtrees: the parts of the first one, and the others. -/
@[elab_as_elim]
theorem induct {motive : List Subtree → Prop} (nil : motive [])
    (cons : ∀ i ds cs, motive ds → motive cs → motive (.mk i ds :: cs)) : ∀ cs, motive cs
  | [] => nil
  | .mk i ds :: cs => cons i ds cs (induct nil cons ds) (induct nil cons cs)

/-! ### Subtrees that follow one another -/

section

variable {a b : Nat} {ts us : List Subtree}

theorem follow_nil (a : Nat) : Follow a [] := by
  rw [Follow]
  trivial

theorem follow_cons {t : Subtree} :
    Follow a (t :: ts) ↔ a ≤ t.info.before ∧ t.Placed ∧ Follow t.info.stop ts := by
  rw [Follow]

theorem follow_singleton {t : Subtree} : Follow a [t] ↔ a ≤ t.info.before ∧ t.Placed := by
  simp [follow_cons, follow_nil]

theorem stopOf_append (a : Nat) (ts us : List Subtree) :
    stopOf a (ts ++ us) = stopOf (stopOf a ts) us := by
  induction ts generalizing a with
  | nil => rfl
  | cons t ts ih => exact ih t.info.stop

theorem stopOf_mono (hle : b ≤ a) (ts : List Subtree) : stopOf b ts ≤ stopOf a ts := by
  cases ts with
  | nil => exact hle
  | cons t ts => exact Nat.le_refl _

theorem follow_append : Follow a (ts ++ us) ↔ Follow a ts ∧ Follow (stopOf a ts) us := by
  induction ts generalizing a with
  | nil => simp [follow_nil, stopOf]
  | cons t ts ih => rw [List.cons_append, follow_cons, follow_cons, ih, stopOf, and_assoc, and_assoc]

theorem Follow.mono (h : Follow a ts) (hle : b ≤ a) : Follow b ts := by
  cases ts with
  | nil => exact follow_nil b
  | cons t ts =>
      rw [follow_cons] at h ⊢
      exact ⟨Nat.le_trans hle h.1, h.2⟩

/-- What is known of a placed subtree without looking inside. -/
theorem Placed.ordered {t : Subtree} (h : t.Placed) :
    t.info.before ≤ t.info.start ∧ t.info.start ≤ t.info.stop := by
  obtain ⟨i, cs⟩ := t
  rw [Placed] at h
  exact ⟨h.1, h.2.1⟩

theorem Placed.before_le_stop {t : Subtree} (h : t.Placed) : t.info.before ≤ t.info.stop :=
  Nat.le_trans h.ordered.1 h.ordered.2

theorem Placed.follow_children {t : Subtree} (h : t.Placed) :
    Follow t.info.before t.children ∧ stopOf t.info.before t.children ≤ t.info.stop := by
  obtain ⟨i, cs⟩ := t
  rw [Placed] at h
  exact ⟨h.2.2.2.1, h.2.2.2.2⟩

theorem Follow.le_stopOf (h : Follow a ts) : a ≤ stopOf a ts := by
  induction ts generalizing a with
  | nil => exact Nat.le_refl a
  | cons t ts ih =>
      obtain ⟨hle, hplaced, hrest⟩ := follow_cons.mp h
      exact Nat.le_trans hle (Nat.le_trans hplaced.before_le_stop (ih hrest))

/-- The parts of a subtree can stand in its place among others. -/
theorem Follow.open_at {t : Subtree} (h : Follow a (ts ++ t :: us)) :
    Follow a (ts ++ t.children ++ us) ∧
      stopOf a (ts ++ t.children ++ us) ≤ stopOf a (ts ++ t :: us) := by
  obtain ⟨hts, ht⟩ := follow_append.mp h
  obtain ⟨hbefore, hplaced, hus⟩ := follow_cons.mp ht
  obtain ⟨hchildren, hend⟩ := hplaced.follow_children
  have hstop : stopOf (stopOf a ts) t.children ≤ t.info.stop :=
    Nat.le_trans (stopOf_mono hbefore _) hend
  simp only [follow_append, stopOf_append]
  exact ⟨⟨⟨hts, hchildren.mono hbefore⟩, hus.mono hstop⟩, stopOf_mono hstop us⟩

/-- Subtrees that follow one another start one behind the other. -/
theorem Follow.start_le (h : Follow a ts) {t : Subtree} (ht : t ∈ ts) : a ≤ t.info.start := by
  induction ts generalizing a with
  | nil => cases ht
  | cons first rest ih =>
      obtain ⟨hle, hplaced, hrest⟩ := follow_cons.mp h
      rcases List.mem_cons.mp ht with rfl | hmem
      · exact Nat.le_trans hle hplaced.ordered.1
      · exact Nat.le_trans (Nat.le_trans hle hplaced.before_le_stop) (ih hrest hmem)

theorem Placed.start_le {t c : Subtree} (h : t.Placed) (hc : c ∈ t.children) :
    t.info.start ≤ c.info.start := by
  obtain ⟨i, cs⟩ := t
  rw [Placed] at h
  obtain ⟨-, -, hhead, hfollow, -⟩ := h
  cases cs with
  | nil => cases hc
  | cons first rest =>
      have hfirst : i.start ≤ first.info.start := hhead first rfl
      obtain ⟨-, hplaced, hrest⟩ := follow_cons.mp hfollow
      rcases List.mem_cons.mp hc with rfl | hmem
      · exact hfirst
      · exact Nat.le_trans hfirst (Nat.le_trans hplaced.ordered.2 (hrest.start_le hmem))

end

/-! ### Building subtrees -/

/-- Only places matter. -/
theorem placed_congr {i j : SubtreeInfo} {cs : List Subtree} (hbefore : i.before = j.before)
    (hstart : i.start = j.start) (hstop : i.stop = j.stop) :
    (mk i cs).Placed ↔ (mk j cs).Placed := by
  rw [Placed, Placed, hbefore, hstart, hstop]

theorem Placed.withInfo {t : Subtree} (h : t.Placed) {i : SubtreeInfo}
    (hbefore : i.before = t.info.before) (hstart : i.start = t.info.start)
    (hstop : i.stop = t.info.stop) : (mk i t.children).Placed := by
  obtain ⟨j, cs⟩ := t
  exact (placed_congr hbefore hstart hstop).mpr h

theorem placed_leaf {i : SubtreeInfo} (hbefore : i.before ≤ i.start) (hstop : i.start ≤ i.stop) :
    (mk i []).Placed := by
  rw [Placed]
  exact ⟨hbefore, hstop, by simp, follow_nil _, Nat.le_trans hbefore hstop⟩

theorem Placed.withExtra {t : Subtree} (h : t.Placed) (extra : Bool) : (t.withExtra extra).Placed :=
  h.withInfo rfl rfl rfl

/-- A subtree that can come behind a place. -/
structure IsNext (limit a : Nat) (t : Subtree) : Prop where
  before : a ≤ t.info.before
  placed : t.Placed
  stop : t.info.stop ≤ limit

/-- A subtree that stands where some subtrees stand that come behind a place. -/
structure Over (a : Nat) (cs : List Subtree) (t : Subtree) : Prop where
  before : a ≤ t.info.before
  placed : t.Placed
  stop : t.info.stop = stopOf a cs

section

variable {limit a b : Nat} {cs : List Subtree} {t : Subtree}

theorem IsNext.withInfo (h : IsNext limit a t) {i : SubtreeInfo} (hbefore : i.before = t.info.before)
    (hstart : i.start = t.info.start) (hstop : i.stop = t.info.stop) :
    IsNext limit a (.mk i t.children) :=
  ⟨hbefore ▸ h.before, h.placed.withInfo hbefore hstart hstop, hstop ▸ h.stop⟩

theorem IsNext.of_le (h : IsNext limit a t) (hle : b ≤ a) : IsNext limit b t :=
  ⟨Nat.le_trans hle h.before, h.placed, h.stop⟩

theorem IsNext.withExtra (h : IsNext limit a t) (extra : Bool) : IsNext limit a (t.withExtra extra) :=
  h.withInfo rfl rfl rfl

theorem Over.withExtra (h : Over a cs t) (extra : Bool) : Over a cs (t.withExtra extra) :=
  ⟨h.before, h.placed.withExtra extra, h.stop⟩

theorem Over.isNext (h : Over a cs t) (hlimit : stopOf a cs ≤ limit) : IsNext limit a t :=
  ⟨h.before, h.placed, h.stop ▸ hlimit⟩

theorem foldl_addChild (table : Table) (isError : Bool) (labels : Array (Option Label))
    (cs : List Subtree) (acc : SubtreeInfo × Nat) :
    let i := (cs.foldl (addChild table isError labels) acc).1
    i.before = acc.1.before ∧ i.start = acc.1.start ∧ i.stop = stopOf acc.1.stop cs := by
  induction cs generalizing acc with
  | nil => exact ⟨rfl, rfl, rfl⟩
  | cons c cs ih => exact ih (addChild table isError labels acc c)

/-- A node over subtrees that follow one another spans them; a node over none stands where it is
told. -/
theorem over_node (table : Table) (source : Source) (kind : SubtreeKind)
    (labels : Array (Option Label)) (fields : Array (Option String)) (position : Nat)
    (h : Follow a cs) (hempty : cs = [] → position = a) :
    Over a cs (node table source kind labels fields position cs) := by
  cases cs with
  | nil =>
      cases hempty rfl
      exact ⟨Nat.le_refl _, placed_leaf (Nat.le_refl _) (Nat.le_refl _), rfl⟩
  | cons c cs =>
      obtain ⟨hle, hplaced, hrest⟩ := follow_cons.mp h
      generalize hnode : node table source kind labels fields position (c :: cs) = t
      have hchildren : t.children = c :: cs := hnode ▸ rfl
      obtain ⟨hbefore, hstart, hstop⟩ : t.info.before = c.info.before ∧
          t.info.start = c.info.start ∧ t.info.stop = stopOf c.info.stop cs := by
        rw [← hnode]
        exact foldl_addChild table (kind == .error || kind == .skipped) labels (c :: cs)
          ({ kind, before := c.info.before, start := c.info.start, stop := c.info.stop, labels,
              fields }, 0)
      refine ⟨hbefore ▸ hle, ?_, hstop⟩
      obtain ⟨i, ds⟩ := t
      cases hchildren
      dsimp only [info] at hbefore hstart hstop
      rw [Placed, hbefore, hstart, hstop]
      refine ⟨hplaced.ordered.1, Nat.le_trans hplaced.ordered.2 hrest.le_stopOf, ?_, ?_, ?_⟩
      · rintro _ ⟨⟩
        exact Nat.le_refl _
      · exact follow_cons.mpr ⟨Nat.le_refl _, hplaced, hrest⟩
      · exact Nat.le_refl _

end

theorem splitExtras_append (trees : List Subtree) :
    (splitExtras trees).1 ++ (splitExtras trees).2 = trees := by
  have hsuffix : (splitExtras trees).2 <:+ trees :=
    List.rtakeWhile_suffix (fun t : Subtree => t.info.extra) trees
  have hextras := List.suffix_iff_eq_drop.mp hsuffix
  calc (splitExtras trees).1 ++ (splitExtras trees).2
      = trees.take (trees.length - (splitExtras trees).2.length) ++
          trees.drop (trees.length - (splitExtras trees).2.length) :=
        congrArg ((splitExtras trees).1 ++ ·) hextras
    _ = trees := List.take_append_drop _ _

end PubSweep.Parsing.Subtree
