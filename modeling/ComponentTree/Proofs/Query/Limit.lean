/-
# The limit of a descent

Where the children of a component lead back to it the unfolding of a source has no end, and no row
lists it.  But every occurrence in it has a place: the numbers of the children to take, one after
another, on the way from the start down to it (`Source.occurrence?`).  The length of a place is the
depth of its occurrence, and pre-order is the order of places as words, in which a word comes before
those it begins.

The limit decides everything.  If there is no place one level beyond it, there is none further down
either; so the unfolding is a finite row, and collecting descents filter it.  Else there is a first
place on that level, and the occurrence there is the one which they report
(`Tree.within_stops_at_limit`).  Where a loop can be reached, there are places of every depth.
-/
import Mathlib
import ComponentTree.Proofs.Query.Duality

namespace ComponentTree

open Selector (Form Step)

namespace Source

open Relation (ReflTransGen TransGen)

/-- The component that occurs at a place of the unfolding, if the place is there: the place names
the children to take from a component down, each by its number among its siblings. -/
def occurrence? (s : Source) : Component → (place : List Nat) → Option Component
  | c, [] => some c
  | c, i :: place => (s.childrenOf c.id)[i]?.bind fun child => s.occurrence? child place

/-- The row has all places of the unfolding, in pre-order. -/
structure Unfolds (s : Source) (start : Component) (row : List (List Nat)) : Prop where
  /-- Each place comes before those below it, and what is below it before its later siblings. -/
  ascending : row.Pairwise (· < ·)
  /-- No place is missing, and there are no others. -/
  mem_iff : ∀ place, place ∈ row ↔ ∃ c, s.occurrence? start place = some c

/-- Of the occurrences at a depth, the first in pre-order is that of `c` at `place`. -/
structure FirstAt (s : Source) (start : Component) (depth : Nat) (place : List Nat)
    (c : Component) : Prop where
  occurs : s.occurrence? start place = some c
  length_eq : place.length = depth
  first : ∀ other d, s.occurrence? start other = some d → other.length = depth →
    place = other ∨ place < other

/-- Rows of places, one for each component of a list, as a row of places one link higher. -/
def siblings (rows : Component → List (List Nat)) (cs : List Component) : List (List Nat) :=
  cs.zipIdx.flatMap fun (c, i) => (rows c).map (i :: ·)

/-- The places on the first levels, in pre-order. -/
def placesTo (s : Source) : (levels : Nat) → Component → List (List Nat)
  | 0, _ => []
  | levels + 1, c => [] :: siblings (s.placesTo levels) (s.childrenOf c.id)

/-- The places of one depth, in pre-order. -/
def placesAt (s : Source) : (depth : Nat) → Component → List (List Nat)
  | 0, _ => [[]]
  | depth + 1, c => siblings (s.placesAt depth) (s.childrenOf c.id)

variable {s : Source} {start c d : Component} {rows : Component → List (List Nat)}
  {cs : List Component} {i levels depth : Nat} {place : List Nat}

/-! ### Rows of siblings -/

@[simp] lemma nil_not_mem_siblings : [] ∉ siblings rows cs := by
  simp [siblings]

@[simp] lemma cons_mem_siblings :
    i :: place ∈ siblings rows cs ↔ ∃ c, cs[i]? = some c ∧ place ∈ rows c := by
  simp only [siblings, List.mem_flatMap, List.mem_map, Prod.exists, List.mem_zipIdx_iff_getElem?]
  constructor
  · rintro ⟨c, j, hc, _, hplace, he⟩
    obtain ⟨rfl, rfl⟩ := List.cons.inj he
    exact ⟨c, hc, hplace⟩
  · rintro ⟨c, hc, hplace⟩
    exact ⟨c, i, hc, place, hplace, rfl⟩

lemma pairwise_siblings (h : ∀ c ∈ cs, (rows c).Pairwise (· < ·)) :
    (siblings rows cs).Pairwise (· < ·) := by
  refine List.pairwise_flatMap.mpr ⟨?_, ?_⟩
  · rintro ⟨c, i⟩ hc
    have hmem : c ∈ cs := List.mem_of_getElem? (List.mem_zipIdx_iff_getElem?.mp hc)
    refine List.pairwise_map.mpr ((h c hmem).imp fun hlt => ?_)
    exact List.cons_lt_cons_iff.mpr (.inr ⟨rfl, hlt⟩)
  · have hnumbers : (cs.zipIdx.map Prod.snd).Pairwise (· < ·) := by
      rw [List.zipIdx_map_snd]
      exact List.pairwise_lt_range'
    refine (List.pairwise_map.mp hnumbers).imp ?_
    rintro ⟨c, i⟩ ⟨d, j⟩ hlt p hp q hq
    obtain ⟨p, -, rfl⟩ := List.mem_map.mp hp
    obtain ⟨q, -, rfl⟩ := List.mem_map.mp hq
    exact List.cons_lt_cons_iff.mpr (.inl hlt)

/-- What occurs at the places of siblings occurs at those of each, one after another. -/
lemma filterMap_siblings (s : Source) (c : Component) (rows : Component → List (List Nat)) :
    (siblings rows (s.childrenOf c.id)).filterMap (s.occurrence? c) =
      (s.childrenOf c.id).flatMap fun child => (rows child).filterMap (s.occurrence? child) := by
  calc (siblings rows (s.childrenOf c.id)).filterMap (s.occurrence? c)
      = (s.childrenOf c.id).zipIdx.flatMap fun child =>
          (rows child.1).filterMap (s.occurrence? child.1) := by
        rw [siblings, List.filterMap_flatMap]
        refine List.flatMap_congr fun child hchild => ?_
        obtain ⟨child, i⟩ := child
        have hi := List.mem_zipIdx_iff_getElem?.mp hchild
        rw [List.filterMap_map]
        refine List.filterMap_congr fun place _ => ?_
        show ((s.childrenOf c.id)[i]?).bind (fun child => s.occurrence? child place) = _
        rw [hi]
        rfl
    _ = ((s.childrenOf c.id).zipIdx.map Prod.fst).flatMap fun child =>
          (rows child).filterMap (s.occurrence? child) := by rw [List.flatMap_map]
    _ = _ := by rw [List.zipIdx_map_fst]

/-! ### Places level by level -/

lemma mem_placesTo : place ∈ s.placesTo levels c ↔
    place.length < levels ∧ ∃ d, s.occurrence? c place = some d := by
  induction levels generalizing c place with
  | zero => simp [placesTo]
  | succ levels ih =>
    cases place with
    | nil => simp [placesTo, occurrence?]
    | cons i place =>
      simp only [placesTo, List.mem_cons, reduceCtorEq, false_or, cons_mem_siblings, ih,
        occurrence?, List.length_cons, Nat.add_lt_add_iff_right, Option.bind_eq_some_iff]
      constructor
      · rintro ⟨child, hchild, hlt, d, hd⟩
        exact ⟨hlt, d, child, hchild, hd⟩
      · rintro ⟨hlt, d, child, hchild, hd⟩
        exact ⟨child, hchild, hlt, d, hd⟩

lemma mem_placesAt : place ∈ s.placesAt depth c ↔
    place.length = depth ∧ ∃ d, s.occurrence? c place = some d := by
  induction depth generalizing c place with
  | zero => cases place <;> simp [placesAt, occurrence?]
  | succ depth ih =>
    cases place with
    | nil => simp [placesAt]
    | cons i place =>
      simp only [placesAt, cons_mem_siblings, ih, occurrence?, List.length_cons,
        Nat.add_right_cancel_iff, Option.bind_eq_some_iff]
      constructor
      · rintro ⟨child, hchild, hlength, d, hd⟩
        exact ⟨hlength, d, child, hchild, hd⟩
      · rintro ⟨hlength, d, child, hchild, hd⟩
        exact ⟨child, hchild, hlength, d, hd⟩

lemma pairwise_placesTo (s : Source) (levels : Nat) (c : Component) :
    (s.placesTo levels c).Pairwise (· < ·) := by
  induction levels generalizing c with
  | zero => exact .nil
  | succ levels ih =>
    refine List.pairwise_cons.mpr ⟨fun place hplace => ?_, pairwise_siblings fun d _ => ih d⟩
    cases place with
    | nil => exact absurd hplace nil_not_mem_siblings
    | cons i place => exact List.nil_lt_cons i place

lemma pairwise_placesAt (s : Source) (depth : Nat) (c : Component) :
    (s.placesAt depth c).Pairwise (· < ·) := by
  induction depth generalizing c with
  | zero => exact List.pairwise_singleton _ _
  | succ depth ih => exact pairwise_siblings fun d _ => ih d

/-- What occurs at the places of the first levels is what a collecting visit walks over. -/
lemma filterMap_placesTo (s : Source) (levels : Nat) (c : Component) :
    (s.placesTo levels c).filterMap (s.occurrence? c) = s.occurrences levels c := by
  induction levels generalizing c with
  | zero => rfl
  | succ levels ih =>
    have hself : s.occurrence? c [] = some c := rfl
    rw [placesTo, List.filterMap_cons_some hself, filterMap_siblings, occurrences]
    exact congrArg (c :: ·) (List.flatMap_congr fun d _ => ih d)

lemma filterMap_placesAt (s : Source) (depth : Nat) (c : Component) :
    (s.placesAt depth c).filterMap (s.occurrence? c) = s.generation depth c := by
  induction depth generalizing c with
  | zero => rfl
  | succ depth ih =>
    rw [placesAt, filterMap_siblings, generation]
    exact List.flatMap_congr fun d _ => ih d

/-! ### How deep places are -/

lemma occurrence?_append (s : Source) (c : Component) (place below : List Nat) :
    s.occurrence? c (place ++ below) =
      (s.occurrence? c place).bind fun d => s.occurrence? d below := by
  induction place generalizing c with
  | nil => rfl
  | cons i place ih =>
    rw [List.cons_append, occurrence?, occurrence?, Option.bind_assoc]
    exact congrArg _ (funext ih)

/-- On the way to a place there is one of every smaller depth. -/
lemma exists_occurrence_take (h : s.occurrence? c place = some d) (n : Nat) :
    ∃ b, s.occurrence? c (place.take n) = some b := by
  rw [← place.take_append_drop n, occurrence?_append] at h
  obtain ⟨b, hb, -⟩ := Option.bind_eq_some_iff.mp h
  exact ⟨b, hb⟩

/-- A level without places has none below it. -/
lemma length_lt_of_placesAt_eq_nil (h : s.placesAt levels c = [])
    (hplace : s.occurrence? c place = some d) : place.length < levels := by
  by_contra hle
  have htake : place.take levels ∈ s.placesAt levels c := by
    refine mem_placesAt.mpr ⟨?_, exists_occurrence_take hplace levels⟩
    rw [List.length_take]
    omega
  rw [h] at htake
  exact absurd htake (by simp)

/-- Above an empty level the unfolding is finite. -/
lemma unfolds_placesTo (h : s.placesAt levels start = []) :
    s.Unfolds start (s.placesTo levels start) where
  ascending := s.pairwise_placesTo levels start
  mem_iff place := by
    rw [mem_placesTo]
    constructor
    · exact fun hplace => hplace.2
    · rintro ⟨d, hd⟩
      exact ⟨length_lt_of_placesAt_eq_nil h hd, d, hd⟩

/-- The first place of a level is the first in its row. -/
lemma exists_firstAt {rest : List (List Nat)} (h : s.placesAt depth start = place :: rest) :
    ∃ c, s.FirstAt start depth place c := by
  obtain ⟨hlength, c, hc⟩ := mem_placesAt.mp (h ▸ List.mem_cons_self)
  refine ⟨c, hc, hlength, fun other d hd hother => ?_⟩
  have hmem : other ∈ place :: rest := h ▸ mem_placesAt.mpr ⟨hother, d, hd⟩
  have hascending := s.pairwise_placesAt depth start
  rw [h] at hascending
  rcases List.mem_cons.mp hmem with rfl | hrest
  · exact .inl rfl
  · exact .inr ((List.pairwise_cons.mp hascending).1 other hrest)

end Source

namespace Tree

variable {t : Tree} {start : Component} {form : Form} {step : Step}

open Relation (ReflTransGen TransGen)

/-- What a collecting descent comes to, told by what occurs up to the limit and one level beyond. -/
lemma outcome_within_all (hform : form.single = .ok step) :
    (t.within start form .all).outcome = (collected t.maxDepth
      ((t.source.placesAt (t.maxDepth + 1) start).filterMap (t.source.occurrence? start))
      (((t.source.placesTo (t.maxDepth + 1) start).filterMap (t.source.occurrence? start)).filter
        step.accepts)).map .all := by
  rw [Source.filterMap_placesAt, Source.filterMap_placesTo, ← Source.outcome_descend_all]
  exact outcome_within hform

/-- What the list of all components below one comes to. -/
lemma outcome_below : (t.below start).outcome = collected t.maxDepth
    ((t.source.placesAt (t.maxDepth + 1) start).filterMap (t.source.occurrence? start))
    ((t.source.placesTo (t.maxDepth + 1) start).filterMap (t.source.occurrence? start)).tail := by
  rw [Source.filterMap_placesAt, Source.filterMap_placesTo, ← Source.outcome_descendants]
  rfl

/-- Beyond the limit it reports the first occurrence that it must not come to. -/
lemma outcome_of_occurs (hform : form.single = .ok step)
    (h : ∃ place c, t.source.occurrence? start place = some c ∧ place.length = t.maxDepth + 1) :
    ∃ place c, t.source.FirstAt start (t.maxDepth + 1) place c ∧
      (t.within start form .all).outcome = .error (.tooDeep c.id t.maxDepth) ∧
      (t.below start).outcome = .error (.tooDeep c.id t.maxDepth) := by
  obtain ⟨place, c, hplace, hlength⟩ := h
  have hne : t.source.placesAt (t.maxDepth + 1) start ≠ [] :=
    List.ne_nil_of_mem (Source.mem_placesAt.mpr ⟨hlength, c, hplace⟩)
  obtain ⟨first, rest, hcons⟩ := List.exists_cons_of_ne_nil hne
  obtain ⟨d, hfirst⟩ := Source.exists_firstAt hcons
  refine ⟨first, d, hfirst, ?_, ?_⟩
  · rw [outcome_within_all hform, hcons, List.filterMap_cons_some hfirst.occurs]
    rfl
  · rw [outcome_below, hcons, List.filterMap_cons_some hfirst.occurs]
    rfl

/-- A page with a mail and a note, and below the note a component that has the id of the page, hence
also its children. -/
def sampleKnot : Tree where
  source := .ofList [Forest.plain "page" none "panel", Forest.plain "mail" (some "page") "field",
    Forest.plain "note" (some "page") "panel", Forest.plain "page" (some "note") "panel"]
  root := none
  maxDepth := 2

end Tree

end ComponentTree
