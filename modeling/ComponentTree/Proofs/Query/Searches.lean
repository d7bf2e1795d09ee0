/-
# Searches made on the way

A descent searches for children once for each component that it goes past, and for nothing else.  One
that collects all goes past every occurrence of the unfolding, and one that stops at the first goes
past those before it: what it finds there needs no search.  This is a walk over a row (`Mode.walk`).
A walk over two rows, one after the other, is a walk over the one and, unless it stops there, over
the other (`Mode.walk_append`); so a visit is a walk as soon as the visits that it makes are
(`Source.visit_eq_walk`).

A chain of steps that comes to nothing has ended at the first step that finds nothing.  What stands
behind that step is not looked at, so a longer chain comes to nothing by the same searches
(`Tree.follow_append`).  Both are said in `Tree.one_search_per_visit`.
-/
import Mathlib
import ComponentTree.Proofs.Query.Agreement
import ComponentTree.Proofs.Query.Limit
import ComponentTree.Proofs.Query.Visits

namespace ComponentTree

open Selector (Form Step)

variable {mode : Mode} {test : Component → Bool} {row row' : List Component} {c d : Component}

/-! ### Walks over a row -/

namespace Mode

/-- The components that a walk over a row finds. -/
def found (mode : Mode) (test : Component → Bool) (row : List Component) : List Component :=
  match mode with
  | .first => (row.find? test).toList
  | .all => row.filter test

/-- How many components a walk over a row goes past: all, or those before the first that it finds. -/
def passed (mode : Mode) (test : Component → Bool) (row : List Component) : Nat :=
  match mode with
  | .first => row.findIdx test
  | .all => row.length

/-- A walk over a row, with one search for every component that it goes past. -/
def walk (mode : Mode) (test : Component → Bool) (row : List Component) : Query (List Component) :=
  ⟨.ok (mode.found test row), mode.passed test row⟩

/-- What a walk finds first ends it, and it makes a search before it goes past anything else. -/
lemma walk_cons (children : List Component) : mode.walk test (c :: row) =
    if mode = .first ∧ test c = true then pure [c]
    else Query.search children >>= fun _ => mode.walk test row >>= fun below =>
      pure ((if test c then [c] else []) ++ below) := by
  have hsearch (hits : List Component) : (Query.search children >>= fun _ =>
      mode.walk test row >>= fun below => pure (hits ++ below)) =
        ⟨.ok (hits ++ mode.found test row), mode.passed test row + 1⟩ := by
    show (⟨_, 1 + (mode.passed test row + 0)⟩ : Query (List Component)) = _
    rw [Nat.add_zero, Nat.add_comm]
    rfl
  rw [hsearch]
  cases mode with
  | all =>
    rw [if_neg (by simp), walk, found, List.filter_cons]
    split <;> rfl
  | first =>
    cases hc : test c with
    | true =>
      rw [walk, found, passed, List.find?_cons_of_pos hc, List.findIdx_cons, hc]
      rfl
    | false =>
      rw [walk, found, passed, List.find?_cons_of_neg (by simp [hc]), List.findIdx_cons, hc]
      rfl

/-- A walk goes on to a second row unless it has stopped in the first. -/
lemma walk_append : mode.walk test (row ++ row') =
    mode.walk test row >>= fun hits =>
      if mode = .first ∧ hits ≠ [] then pure hits
      else mode.walk test row' >>= fun more => pure (hits ++ more) := by
  have hthen (next : List Component → Query (List Component)) : (mode.walk test row >>= next) =
      ⟨(next (mode.found test row)).outcome,
        mode.passed test row + (next (mode.found test row)).searches⟩ := rfl
  rw [hthen]
  cases mode with
  | all =>
    rw [if_neg (by simp), walk, found, passed, List.filter_append, List.length_append]
    rfl
  | first =>
    cases hfind : row.find? test with
    | some d =>
      have hfound : Mode.first.found test row = [d] := by
        rw [found, hfind]
        rfl
      have hlt : row.findIdx test < row.length :=
        List.findIdx_lt_length.mpr ⟨d, List.mem_of_find?_eq_some hfind, List.find?_some hfind⟩
      -- it has stopped before the end of the first row
      rw [hfound, if_pos ⟨rfl, by simp⟩, walk, found, passed, List.find?_append, hfind,
        List.findIdx_append, if_pos hlt]
      rfl
    | none =>
      have hfound : Mode.first.found test row = [] := by
        rw [found, hfind]
        rfl
      have hlength : row.findIdx test = row.length :=
        List.findIdx_eq_length.mpr fun c hc => by simpa using List.find?_eq_none.mp hfind c hc
      -- it has gone past the whole of the first row
      rw [hfound, if_neg (by simp), walk, found, passed, List.find?_append, hfind,
        List.findIdx_append, if_neg (by omega), Nat.add_comm, ← hlength]
      rfl

/-- Of walks that collect all none keeps a later one from being made. -/
lemma comes_all {visit : Component → Query (List Component)}
    {rows : Component → List Component} {cs : List Component}
    (h : ∀ c ∈ cs, visit c = Mode.all.walk test (rows c)) (hc : c ∈ cs) :
    Mode.all.Comes visit cs c := by
  obtain ⟨earlier, later, rfl⟩ := List.append_of_mem hc
  refine ⟨earlier, later, rfl, fun e he => ⟨(rows e).filter test, ?_, by simp⟩⟩
  rw [h e (List.mem_append_left _ he)]
  rfl

/-- Walks one after another are a walk over the rows in a row. -/
lemma gather_eq_walk {visit : Component → Query (List Component)}
    {rows : Component → List Component} {cs : List Component}
    (h : ∀ c ∈ cs, visit c = mode.walk test (rows c)) :
    mode.gather visit cs = mode.walk test (cs.flatMap rows) := by
  induction cs with
  | nil => cases mode <;> rfl
  | cons c rest ih =>
    rw [gather, h c List.mem_cons_self, ih fun d hd => h d (List.mem_cons_of_mem c hd),
      List.flatMap_cons, walk_append]

end Mode

namespace Source

variable {s : Source} {limit levels depth k : Nat} {start : Component}

/-- **A visit is a walk over the unfolding.** -/
theorem visit_eq_walk (h : s.generation levels c = []) :
    s.visit test mode limit levels c = mode.walk test (s.occurrences levels c) := by
  induction levels generalizing c with
  | zero => exact absurd h (by simp [generation])
  | succ levels ih =>
    -- nothing lies beyond the levels of any child either
    rw [generation, List.flatMap_eq_nil_iff] at h
    rw [visit_succ, occurrences, Mode.walk_cons (s.childrenOf c.id)]
    refine ite_congr rfl (fun _ => rfl) fun _ => Query.bind_congr_of_ok rfl ?_
    rw [Mode.gather_eq_walk fun d hd => ih (h d hd)]

/-- All components below a start are those of the walk but the start, which is gone past too. -/
lemma descendants_eq (h : s.generation (limit + 1) start = []) : s.descendants limit start =
    ⟨.ok (s.occurrences (limit + 1) start).tail, (s.occurrences (limit + 1) start).length⟩ := by
  rw [generation, List.flatMap_eq_nil_iff] at h
  have hgather : Mode.all.gather (s.visit (fun _ => true) .all limit limit)
      (s.childrenOf start.id) = Mode.all.walk (fun _ => true)
        ((s.childrenOf start.id).flatMap (s.occurrences limit)) :=
    Mode.gather_eq_walk fun d hd => visit_eq_walk (h d hd)
  rw [occurrences, List.tail_cons, List.length_cons, Nat.add_comm, descendants]
  show (⟨(Mode.gather _ _ _).outcome, 1 + (Mode.gather _ _ _).searches⟩ : Query _) = _
  rw [hgather, Mode.walk, Mode.found, List.filter_true]
  rfl

/-- A collecting visit comes to everything that occurs, as no visit that it makes fails. -/
lemma visits_of_occurrence {place : List Nat} (hlevels : depth + levels = limit + 1)
    (h : s.generation levels c = []) (hplace : s.occurrence? c place = some d) :
    s.Visits test .all limit depth c (depth + place.length) d := by
  induction place generalizing depth levels c with
  | nil =>
    obtain rfl := Option.some.inj hplace
    exact .self depth c
  | cons i place ih =>
    obtain ⟨child, hchild, hplace⟩ := Option.bind_eq_some_iff.mp hplace
    cases levels with
    | zero => exact absurd h (by simp [generation])
    | succ levels =>
      rw [generation, List.flatMap_eq_nil_iff] at h
      obtain rfl : levels = limit - depth := by omega
      have hmem : child ∈ s.childrenOf c.id := List.mem_of_getElem? hchild
      have hcomes : Mode.all.Comes (s.visit test .all limit (limit - depth)) (s.childrenOf c.id)
          child := Mode.comes_all (fun e he => visit_eq_walk (h e he)) hmem
      have hnext : depth + 1 + (limit - depth) = limit + 1 := by omega
      have hrest := ih hnext (h child hmem) hplace
      rw [List.length_cons, Nat.add_comm place.length, ← Nat.add_assoc]
      exact .child (by omega) (by simp) hcomes hrest

/-- **A collecting descent visits the whole unfolding.** -/
theorem visits_all_iff (h : s.generation (limit + 1) start = []) :
    s.Visits test .all limit 0 start k d ↔
      ∃ place, place.length = k ∧ s.occurrence? start place = some d := by
  constructor
  · intro hvisits
    obtain ⟨n, rfl, hd⟩ := hvisits.mem_generation
    rw [← filterMap_placesAt, List.mem_filterMap] at hd
    obtain ⟨place, hplace, hd⟩ := hd
    exact ⟨place, by rw [(mem_placesAt.mp hplace).1, Nat.zero_add], hd⟩
  · rintro ⟨place, rfl, hplace⟩
    have hvisits : s.Visits test .all limit 0 start (0 + place.length) d :=
      visits_of_occurrence (Nat.zero_add _) h hplace
    rwa [Nat.zero_add] at hvisits

end Source

namespace Tree

variable {t : Tree} {step : Step} {form form' : Form} {selector : Selector}
  {steps more : List Step} {scope visited : List Component} {start : Component} {answer : Answer}

/-- What the queries for a step come to, and by how many searches, where a descent visits these
components. -/
structure Walked (t : Tree) (start : Component) (form : Form) (step : Step)
    (visited : List Component) : Prop where
  /-- Collecting all that the step accepts goes past every component visited. -/
  all_eq : t.within start form .all = ⟨.ok (.all (visited.filter step.accepts)), visited.length⟩
  /-- Stopping at the first goes past those before it, or past every one if there is none. -/
  first_eq : t.within start form .first =
    ⟨.ok (.first (visited.find? step.accepts)), visited.findIdx step.accepts⟩
  /-- Collecting all below the start goes past every component visited, the start among them. -/
  below_eq : t.below start = ⟨.ok visited.tail, visited.length⟩

lemma walked_of_generation_eq_nil (hform : form.single = .ok step)
    (h : t.source.generation (t.maxDepth + 1) start = []) :
    t.Walked start form step (t.source.occurrences (t.maxDepth + 1) start) := by
  have hwithin (mode : Mode) : t.within start form mode =
      mode.walk step.accepts (t.source.occurrences (t.maxDepth + 1) start) >>= fun hits =>
        pure (Answer.ofHits mode hits) := by
    rw [within, Query.ofSelector_bind_of_ok hform, descend, Source.descend,
      Source.visit_eq_walk h]
  refine ⟨hwithin .all, (hwithin .first).trans ?_, Source.descendants_eq h⟩
  generalize t.source.occurrences (t.maxDepth + 1) start = visited
  show (⟨.ok (.first (visited.find? step.accepts).toList.head?), _⟩ : Query Answer) = _
  rw [Option.head?_toList]
  rfl

/-! ### Chains of steps -/

lemma isEmpty_ofHits (mode : Mode) (hits : List Component) :
    (Answer.ofHits mode hits).isEmpty = hits.isEmpty := by
  cases mode <;> cases hits <;> rfl

/-- **A chain that has come to nothing is not followed further.** -/
theorem follow_append (hscope : scope ≠ []) (h : (t.follow mode steps scope).outcome = .ok answer)
    (hempty : answer.isEmpty = true) (more : List Step) :
    t.follow mode (steps ++ more) scope = t.follow mode steps scope := by
  induction steps generalizing scope with
  | nil =>
    -- without steps the answer is the scope
    obtain rfl := Except.ok.inj h
    rw [isEmpty_ofHits, List.isEmpty_iff] at hempty
    exact absurd hempty hscope
  | cons step rest ih =>
    obtain ⟨hits, hhits, h⟩ := outcome_follow_cons_eq_ok.mp h
    rw [List.cons_append, follow, follow]
    refine Query.bind_congr_of_ok hhits ?_
    by_cases hnil : hits = []
    · rw [if_pos hnil, if_pos hnil]
    · rw [if_neg hnil] at h ⊢
      rw [if_neg hnil]
      -- the next scope has something in it, so the chain has come to nothing further on
      obtain ⟨c, others, rfl⟩ := List.exists_cons_of_ne_nil hnil
      exact ih (by simp [distinctBy]) h

lemma resolve_append (hform : form.normalise = .ok selector)
    (hform' : form'.normalise = .ok ⟨selector.steps ++ more⟩)
    (h : (t.resolve form mode).outcome = .ok answer) (hempty : answer.isEmpty = true) :
    t.resolve form' mode = t.resolve form mode := by
  obtain ⟨selector', id, hselector', hid, hroot⟩ := resolve_eq_ok_iff.mp h
  obtain rfl := Except.ok.inj (hform.symm.trans hselector')
  rw [resolve, resolve, Query.ofSelector_bind_of_ok hform, Query.ofSelector_bind_of_ok hform', hid]
  rcases hroot with ⟨hnone, -⟩ | ⟨root, hroot, hfollow⟩
  · simp only [hnone]
  · simp only [hroot]
    exact follow_append (by simp) hfollow hempty more

/-- **One search for every visit, and no more.**  In every source, whatever loops and repeated ids
it has: if a descent that collects all succeeds, it has visited what occurs in the unfolding of its
start, which is a finite row, and it has made as many searches as there are visits; so many are made
for all components below the start, and for the first that the step accepts there is one for every
visit before it.  A chain of steps that comes to nothing is the same query as every longer one,
answer and searches alike. -/
theorem one_search_per_visit (t : Tree) :
    (∀ start form answer, (t.within start form .all).outcome = .ok answer →
      ∃ step row, form.single = .ok step ∧ t.source.Unfolds start row ∧
        (∀ k d, t.source.Visits step.accepts .all t.maxDepth 0 start k d ↔
          ∃ place ∈ row, place.length = k ∧ t.source.occurrence? start place = some d) ∧
        t.Walked start form step (row.filterMap (t.source.occurrence? start))) ∧
      ∀ form form' selector more mode answer, form.normalise = .ok selector →
        form'.normalise = .ok ⟨selector.steps ++ more⟩ →
        (t.resolve form mode).outcome = .ok answer → answer.isEmpty = true →
          t.resolve form' mode = t.resolve form mode := by
  refine ⟨fun start form answer h => ?_, fun _ _ _ _ _ _ hform hform' => resolve_append hform hform'⟩
  obtain ⟨step, hstep, -⟩ := Outcome.bind_eq_ok.mp ((Query.outcome_bind _ _).symm.trans h)
  have hform : form.single = .ok step := Outcome.mapError_eq_ok.mp hstep
  have hnil : t.source.placesAt (t.maxDepth + 1) start = [] := by
    refine List.eq_nil_iff_forall_not_mem.mpr fun place hplace => ?_
    obtain ⟨hlength, d, hd⟩ := Source.mem_placesAt.mp hplace
    obtain ⟨-, e, -, hfail, -⟩ := outcome_of_occurs hform ⟨place, d, hd, hlength⟩
    exact absurd (h.symm.trans hfail) (by simp)
  have hempty : t.source.generation (t.maxDepth + 1) start = [] := by
    rw [← Source.filterMap_placesAt, hnil, List.filterMap_nil]
  have hrow := Source.unfolds_placesTo hnil
  refine ⟨step, _, hform, hrow, fun k d => ?_, ?_⟩
  · rw [Source.visits_all_iff hempty]
    refine exists_congr fun place => ?_
    rw [hrow.mem_iff]
    exact ⟨fun ⟨hlength, hd⟩ => ⟨⟨d, hd⟩, hlength, hd⟩, And.right⟩
  · rw [Source.filterMap_placesTo]
    exact walked_of_generation_eq_nil hform hempty

/-- The page of the row. -/
def samplePage : Component := Forest.plain "page" none "panel"

/-- Below the page lie the mail, two notes of one id and the hint below each of them, so a descent
makes six visits.  The chain `field label` gives up below the mail, whatever stands behind it. -/
theorem one_search_per_visit_sample :
    (∃ visited, visited.length = 6 ∧
        sampleRow.Walked samplePage (.text "field") ⟨some "field", ∅⟩ visited) ∧
      sampleRow.resolve (.text "field label panel") .first =
        sampleRow.resolve (.text "field label") .first := by
  obtain ⟨hdescents, hchains⟩ := sampleRow.one_search_per_visit
  constructor
  · have hform : (Form.text "field").single = .ok ⟨some "field", ∅⟩ := by cbv
    have hsearches : (sampleRow.within samplePage (.text "field") .all).searches = 6 := by cbv
    have hall : (sampleRow.within samplePage (.text "field") .all).outcome =
        .ok (.all [Forest.plain "mail" (some "page") "field",
          Forest.plain "note" (some "page") "field", Forest.plain "note" (some "page") "field"]) := by
      cbv
    obtain ⟨step, row, hstep, -, -, hwalked⟩ := hdescents samplePage (.text "field") _ hall
    obtain rfl := Except.ok.inj (hform.symm.trans hstep)
    refine ⟨_, ?_, hwalked⟩
    rw [← hsearches, hwalked.all_eq]
  · have hform : (Form.text "field label").normalise =
        .ok ⟨[⟨some "field", ∅⟩, ⟨some "label", ∅⟩]⟩ := by cbv
    have hform' : (Form.text "field label panel").normalise =
        .ok ⟨[⟨some "field", ∅⟩, ⟨some "label", ∅⟩] ++ [⟨some "panel", ∅⟩]⟩ := by cbv
    have hnone : (sampleRow.resolve (.text "field label") .first).outcome = .ok (.first none) := by
      cbv
    exact hchains _ _ _ _ _ _ hform hform' hnone rfl

end Tree

end ComponentTree
