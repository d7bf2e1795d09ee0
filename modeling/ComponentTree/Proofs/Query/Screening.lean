/-
# Selectors are checked first

A query checks its selector before it looks anything up.  When the check fails, that is the
failure of the query, whatever is in the tree, and no search was made; and once the check is
passed nothing fails for the selector any more (`Query.Screens`).  The check is that the form can
be normalised, and for a query of one step also that there are no more steps.

There is one exception: a descent from an id looks the id up before it counts the steps, so with an
id that is not there several steps go unnoticed (`Tree.not_screens_withinId_of_unknown`).  An
ascent from an id counts them first.
-/
import ComponentTree.Query.Tree
import ComponentTree.Proofs.Forest.Changes

namespace ComponentTree

open Selector (Form Step)

namespace Query

variable {α β γ : Type}

/-- Whatever the query fails for, it is not a selector. -/
def SelectorFree (q : Query α) : Prop := ∀ e, q.outcome ≠ .error (.selector e)

/-- The query fails for a selector exactly when a check of the selector alone does, with the same
error, and then it has not made any search. -/
structure Screens (q : Query α) (check : Except Selector.Error β) : Prop where
  outcome_iff : ∀ e, q.outcome = .error (.selector e) ↔ check = .error e
  searches_eq_zero : ∀ e, q.outcome = .error (.selector e) → q.searches = 0

/-! ### Queries that do not fail for a selector -/

lemma selectorFree_pure (a : α) : SelectorFree (pure a : Query α) := by
  intro e he
  exact absurd he (by simp)

lemma selectorFree_fail {f : Failure} (h : ∀ e, f ≠ .selector e) :
    SelectorFree (fail f : Query α) := by
  intro e he
  exact h e (Except.error.inj he)

lemma selectorFree_search (found : List Component) : SelectorFree (search found) := by
  intro e he
  exact absurd he (by simp [search])

lemma SelectorFree.bind {q : Query α} {next : α → Query β} (hq : q.SelectorFree)
    (hnext : ∀ a, (next a).SelectorFree) : (q >>= next).SelectorFree := by
  intro e he
  rw [outcome_bind, Outcome.bind_eq_error] at he
  rcases he with he | ⟨a, -, he⟩
  · exact hq e he
  · exact hnext a e he

lemma SelectorFree.screens {q : Query α} (h : q.SelectorFree) (b : β) :
    q.Screens (.ok b) where
  outcome_iff e := by
    constructor
    · exact fun he => absurd he (h e)
    · exact fun he => absurd he (by simp)
  searches_eq_zero e he := absurd he (h e)

/-! ### A check in front of a query -/

/-- A selector that is no selector ends the query before it begins, and one that is a selector
takes no part in what makes the rest fail. -/
lemma screens_bind {s : Except Selector.Error α} {next : α → Query γ}
    {check : α → Except Selector.Error β} (h : ∀ a, s = .ok a → (next a).Screens (check a)) :
    (ofSelector s >>= next).Screens (s >>= check) := by
  cases s with
  | error e' =>
    refine ⟨fun e => ?_, fun e _ => rfl⟩
    show Except.error (Failure.selector e') = .error (.selector e) ↔ Except.error e' = .error e
    simp
  | ok a =>
    obtain ⟨houtcome, hsearches⟩ := h a rfl
    refine ⟨houtcome, fun e he => ?_⟩
    show 0 + (next a).searches = 0
    rw [Nat.zero_add, hsearches e he]

/-- With nothing else to check, a query screens the selector that it begins with. -/
lemma screens_of_selectorFree (s : Except Selector.Error α) {next : α → Query γ}
    (h : ∀ a, (next a).SelectorFree) : (ofSelector s >>= next).Screens s := by
  have hs : (ofSelector s >>= next).Screens (s >>= pure) :=
    screens_bind fun a _ => (h a).screens a
  rwa [bind_pure] at hs

end Query

/-! ### The walks of a source -/

lemma Mode.selectorFree_gather (mode : Mode) {visit : Component → Query (List Component)}
    (h : ∀ c, (visit c).SelectorFree) (cs : List Component) :
    (mode.gather visit cs).SelectorFree := by
  induction cs with
  | nil => exact Query.selectorFree_pure []
  | cons c rest ih =>
    rw [gather]
    refine (h c).bind fun hits => ?_
    split
    · exact Query.selectorFree_pure hits
    · exact ih.bind fun more => Query.selectorFree_pure (hits ++ more)

namespace Source

variable (s : Source) (test : Component → Bool) (mode : Mode) (limit : Nat)

lemma selectorFree_visit (levels : Nat) (c : Component) :
    (s.visit test mode limit levels c).SelectorFree := by
  induction levels generalizing c with
  | zero => exact Query.selectorFree_fail fun e he => Failure.noConfusion he
  | succ levels ih =>
    rw [visit]
    generalize (if test c = true then [c] else []) = here
    split
    · exact Query.selectorFree_pure _
    · refine (Query.selectorFree_search _).bind fun children => ?_
      exact (mode.selectorFree_gather ih children).bind fun below => Query.selectorFree_pure _

lemma ascend_ne_error_selector (start : Component) (e : Selector.Error) :
    s.ascend test mode start ≠ .error (.selector e) := by
  rw [ascend]
  cases mode with
  | all => rw [Ancestry.select]; split <;> simp
  | first => rw [Ancestry.select]; split <;> simp

end Source

namespace Tree

variable (t : Tree) (form : Form) (mode : Mode)

lemma selectorFree_descend (step : Step) (start : Component) :
    (t.descend step mode start).SelectorFree :=
  t.source.selectorFree_visit step.accepts mode t.maxDepth (t.maxDepth + 1) start

lemma selectorFree_follow (steps : List Step) (scope : List Component) :
    (t.follow mode steps scope).SelectorFree := by
  induction steps generalizing scope with
  | nil => exact Query.selectorFree_pure _
  | cons step rest ih =>
    rw [follow]
    refine (mode.selectorFree_gather (t.selectorFree_descend mode step) scope).bind fun hits => ?_
    split
    · exact Query.selectorFree_pure _
    · exact ih _

/-! ### The queries of a tree -/

lemma screens_within (start : Component) : (t.within start form mode).Screens form.single := by
  refine Query.screens_of_selectorFree form.single fun step => ?_
  exact (t.selectorFree_descend mode step start).bind fun hits => Query.selectorFree_pure _

lemma screens_aboveId (id : String) : (t.aboveId id form mode).Screens form.single := by
  refine Query.screens_of_selectorFree form.single fun step => ?_
  cases t.get? id with
  | none => exact Query.selectorFree_pure _
  | some start =>
    refine Query.SelectorFree.bind ?_ fun hits => Query.selectorFree_pure _
    exact fun e => t.source.ascend_ne_error_selector step.accepts mode start e

/-- From an id that is there, a descent checks all that a descent from its component does. -/
lemma screens_withinId_of_known {id : String} {start : Component} (h : t.get? id = some start) :
    (t.withinId id form mode).Screens form.single := by
  refine Query.screens_bind fun selector _ => ?_
  rw [h]
  exact t.screens_within (.steps selector.steps) mode start

/-- From an id that is not there, the number of steps is not looked at. -/
lemma screens_withinId_of_unknown {id : String} (h : t.get? id = none) :
    (t.withinId id form mode).Screens form.normalise := by
  refine Query.screens_of_selectorFree form.normalise fun selector => ?_
  rw [h]
  exact Query.selectorFree_pure _

lemma screens_resolve : (t.resolve form mode).Screens form.normalise := by
  refine Query.screens_of_selectorFree form.normalise fun selector => ?_
  cases t.root with
  | none => exact Query.selectorFree_fail fun e he => Failure.noConfusion he
  | some id =>
    dsimp only
    cases t.get? id with
    | none => exact Query.selectorFree_pure _
    | some root => exact t.selectorFree_follow mode selector.steps [root]

/-- **Selectors are checked first, and whatever the tree is.**  A descent from a component, an
ascent from an id and a chain from the root fail for their selector exactly when the check of it
fails, with its error, and before any search; so does a descent from an id, except that from an id
that is not there only the normal form is checked.  None of the checks looks at the tree. -/
theorem screens_selectors :
    (∀ start, (t.within start form mode).Screens form.single) ∧
      (∀ id, (t.aboveId id form mode).Screens form.single) ∧
      (∀ id, (t.get? id).isSome = true → (t.withinId id form mode).Screens form.single) ∧
      (∀ id, (t.get? id).isSome = false → (t.withinId id form mode).Screens form.normalise) ∧
      (t.resolve form mode).Screens form.normalise := by
  refine ⟨t.screens_within form mode, t.screens_aboveId form mode, fun id h => ?_, fun id h => ?_,
    t.screens_resolve form mode⟩
  · obtain ⟨start, hstart⟩ := Option.isSome_iff_exists.mp h
    exact t.screens_withinId_of_known form mode hstart
  · rw [Option.isSome_eq_false_iff, Option.isNone_iff_eq_none] at h
    exact t.screens_withinId_of_unknown form mode h

/-- The sample as a tree. -/
def sample : Tree := ⟨Forest.sample.source, some "page", 3⟩

/-- From the sample's page two steps are noticed, and from an id that is not there a truth value
in the place of a selector. -/
theorem screens_selectors_sample :
    (sample.get? "page").isSome = true ∧ (sample.get? "gone").isSome = false ∧
      (∀ e, (sample.withinId "page" (.text "panel field") .first).outcome =
        .error (.selector e) ↔ e = .severalSteps 2) ∧
      ∀ e, (sample.withinId "gone" (.json (.bool true)) .first).outcome =
        .error (.selector e) ↔ e = .truthValue := by
  have hpage : (sample.get? "page").isSome = true := by cbv
  have hgone : (sample.get? "gone").isSome = false := by cbv
  have hsteps : (Form.text "panel field").single = .error (.severalSteps 2) := by cbv
  have hvalue : (Form.json (.bool true)).normalise = .error .truthValue := rfl
  obtain ⟨-, -, hknown, -⟩ := screens_selectors sample (.text "panel field") .first
  obtain ⟨-, -, -, hunknown, -⟩ := screens_selectors sample (.json (.bool true)) .first
  refine ⟨hpage, hgone, fun e => ?_, fun e => ?_⟩
  · rw [(hknown "page" hpage).outcome_iff, hsteps, Except.error.injEq, eq_comm]
  · rw [(hunknown "gone" hgone).outcome_iff, hvalue, Except.error.injEq, eq_comm]

/-- A descent from an id that is not there does not count the steps: it has the answer of a search
that found nothing. -/
theorem not_screens_withinId_of_unknown :
    ¬ ((⟨(∅ : Forest).source, none, defaultMaxDepth⟩ : Tree).withinId "gone" (.text "panel field")
      .first).Screens (Form.text "panel field").single := by
  intro h
  have hsingle : (Form.text "panel field").single = .error (.severalSteps 2) := by cbv
  have hanswer : ((⟨(∅ : Forest).source, none, defaultMaxDepth⟩ : Tree).withinId "gone"
      (.text "panel field") .first).outcome = .ok (.first none) := by cbv
  have hfail := (h.outcome_iff (.severalSteps 2)).mpr hsingle
  rw [hanswer] at hfail
  exact absurd hfail (by simp)

end Tree

end ComponentTree
