/-
# First and all

A query that stops at the first component agrees with the one that collects all.  For a descent and
for an ascent they agree as closely as they can (`Agreement`): where all are found, the first of
them is; where the collecting query fails, the other one fails alike or has found a component
before; and it has no failure of its own.

A chain of steps that stops at the first is greedy.  Each step commits to the one component that it
finds first, and the next step looks nowhere else.  So the chain may give up where a component is to
be found elsewhere, but what it finds is the first of all (`Tree.resolve_first_of_all`).

Both hold in every source, whatever loops and repeated ids it has.
-/
import Mathlib
import ComponentTree.Proofs.Query.FirstMatch
import ComponentTree.Query.Tree

namespace ComponentTree

open Selector (Form Step)

/-- What a query for the first component comes to beside the same query for all, where `P` is what
is asked of a component. -/
structure Agreement (P : Component → Prop) (all first : Except Failure Answer) : Prop where
  /-- Where all are found, the first of them is, or nothing if there are none. -/
  of_ok : ∀ answer, all = .ok answer → ∃ hits, answer = .all hits ∧ first = .ok (.first hits.head?)
  /-- A failure comes again, unless a component is found before it. -/
  of_error : ∀ e, all = .error e →
    first = .error e ∨ ∃ c, P c ∧ first = .ok (.first (some c))
  /-- There is no failure that only the query for the first has. -/
  error_of : ∀ e, first = .error e → all = .error e

variable {P Q : Component → Prop} {test : Component → Bool}

namespace Agreement

lemma error (e : Failure) : Agreement P (.error e) (.error e) where
  of_ok _ h := absurd h (by simp)
  of_error _ h := .inl h
  error_of _ h := h

/-- Two answers, of which the one has the first component of the other. -/
lemma ok (hits : List Component) : Agreement P (.ok (.all hits)) (.ok (.first hits.head?)) where
  of_ok answer h := ⟨hits, (Except.ok.inj h).symm, rfl⟩
  of_error _ h := absurd h (by simp)
  error_of _ h := absurd h (by simp)

lemma found (e : Failure) {c : Component} (h : P c) :
    Agreement P (.error e) (.ok (.first (some c))) where
  of_ok _ h := absurd h (by simp)
  of_error _ _ := .inr ⟨c, h, rfl⟩
  error_of _ h := absurd h (by simp)

lemma mono {all first : Except Failure Answer} (h : Agreement P all first)
    (hPQ : ∀ c, P c → Q c) : Agreement Q all first where
  of_ok := h.of_ok
  of_error e he := (h.of_error e he).imp_right fun ⟨c, hc, hfirst⟩ => ⟨c, hPQ c hc, hfirst⟩
  error_of := h.error_of

/-- A query checks its selector before anything else, whatever its mode. -/
lemma ofSelector {α : Type} {s : Except Selector.Error α} {all first : α → Query Answer}
    (h : ∀ a, s = .ok a → Agreement P (all a).outcome (first a).outcome) :
    Agreement P (Query.ofSelector s >>= all).outcome (Query.ofSelector s >>= first).outcome := by
  rw [Query.outcome_bind, Query.outcome_bind]
  cases s with
  | error e => exact .error (.selector e)
  | ok a => exact h a rfl

end Agreement

/-- What two searches find in the two modes, made into answers. -/
lemma FirstOf.agreement {all first : Query (List Component)}
    (h : FirstOf test all.outcome first.outcome) (hP : ∀ c, test c = true → P c) :
    Agreement P (all >>= fun hits => pure (Answer.ofHits .all hits)).outcome
      (first >>= fun hits => pure (Answer.ofHits .first hits)).outcome := by
  rw [Query.outcome_bind, Query.outcome_bind]
  generalize all.outcome = a, first.outcome = b at h
  cases h with
  | @ok hits _ =>
    have hhead : (hits.take 1).head? = hits.head? := by rw [List.head?_take, if_neg (by simp)]
    show Agreement P (.ok (.all hits)) (.ok (.first (hits.take 1).head?))
    rw [hhead]
    exact .ok hits
  | error e => exact .error e
  | found e hc => exact .found e (hP _ hc)

/-- **The way up is the same in both modes**, and the first component is looked for along it. -/
lemma Ancestry.firstOf_select (a : Ancestry) (test : Component → Bool) :
    FirstOf test (a.select test .all) (a.select test .first) := by
  obtain ⟨ancestors, loop⟩ := a
  cases loop with
  | some id =>
    rw [select, select]
    cases hfind : ancestors.find? test with
    | some c => exact .found _ (List.find?_some hfind)
    | none => exact .error _
  | none =>
    have hall : ∀ c ∈ ancestors.filter test, test c = true := fun c hc => (List.mem_filter.mp hc).2
    have hfirst : Ancestry.select ⟨ancestors, none⟩ test .first =
        .ok ((ancestors.filter test).take 1) := by
      rw [select, List.take_one, List.head?_filter]
      cases ancestors.find? test <;> rfl
    rw [hfirst]
    exact .ok hall

/-- The selector is one of one step, and the step accepts the component. -/
def Selector.Form.Picks (form : Form) (c : Component) : Prop :=
  ∃ step, form.single = .ok step ∧ step.accepts c = true

namespace Tree

variable (t : Tree) (form : Form)

lemma agreement_within (start : Component) : Agreement form.Picks
    (t.within start form .all).outcome (t.within start form .first).outcome := by
  refine Agreement.ofSelector fun step hstep => ?_
  have hdescend := t.source.firstOf_descend step.accepts t.maxDepth start
  exact FirstOf.agreement hdescend fun c hc => ⟨step, hstep, hc⟩

lemma agreement_withinId (id : String) : Agreement form.Picks
    (t.withinId id form .all).outcome (t.withinId id form .first).outcome := by
  refine Agreement.ofSelector fun selector hselector => ?_
  cases t.get? id with
  | none => exact .ok []
  | some start =>
    refine (t.agreement_within (.steps selector.steps) start).mono ?_
    rintro c ⟨step, hstep, hc⟩
    refine ⟨step, ?_, hc⟩
    rw [Form.single, hselector]
    exact hstep

lemma agreement_aboveId (id : String) : Agreement form.Picks
    (t.aboveId id form .all).outcome (t.aboveId id form .first).outcome := by
  refine Agreement.ofSelector fun step hstep => ?_
  cases t.get? id with
  | none => exact .ok []
  | some start =>
    have hascend : FirstOf step.accepts
        (Query.ofOutcome (t.source.ascend step.accepts .all start)).outcome
        (Query.ofOutcome (t.source.ascend step.accepts .first start)).outcome :=
      (t.source.ancestry start).firstOf_select step.accepts
    exact FirstOf.agreement hascend fun c hc => ⟨step, hstep, hc⟩

/-- **First and all agree, failures included.**  In every tree, a descent from a component or from
an id and an ascent from an id that stop at the first component find the first of all; where
collecting all fails they fail alike or find a component that the selector picks; and they fail for
nothing else. -/
theorem first_agrees_with_all :
    (∀ start, Agreement form.Picks (t.within start form .all).outcome
        (t.within start form .first).outcome) ∧
      (∀ id, Agreement form.Picks (t.withinId id form .all).outcome
        (t.withinId id form .first).outcome) ∧
      ∀ id, Agreement form.Picks (t.aboveId id form .all).outcome
        (t.aboveId id form .first).outcome :=
  ⟨t.agreement_within form, t.agreement_withinId form, t.agreement_aboveId form⟩

/-! ### Chains of steps -/

variable {t form} {step : Step} {steps : List Step} {c : Component} {scope hits : List Component}
  {answer : Answer} {mode : Mode}

lemma outcome_gather_singleton {visit : Component → Query (List Component)} :
    (mode.gather visit [c]).outcome = (visit c).outcome := by
  rw [Mode.outcome_gather_cons]
  cases (visit c).outcome with
  | error e => rfl
  | ok hits =>
    show (if mode = .first ∧ hits ≠ [] then Except.ok hits else .ok (hits ++ [])) = .ok hits
    rw [List.append_nil, ite_self]

/-- A step is followed by the rest of the chain if it finds anything. -/
lemma outcome_follow_cons_eq_ok : (t.follow mode (step :: steps) scope).outcome = .ok answer ↔
    ∃ hits, (mode.gather (t.descend step mode) scope).outcome = .ok hits ∧
      (if hits = [] then .ok (Answer.empty mode)
        else (t.follow mode steps (distinctBy Component.id hits)).outcome) = .ok answer := by
  rw [follow, Query.outcome_bind, Outcome.bind_eq_ok]
  refine exists_congr fun hits => and_congr_right fun _ => ?_
  split <;> rfl

lemma exists_all_of_follow (h : (t.follow .all steps scope).outcome = .ok answer) :
    ∃ hits, answer = .all hits := by
  induction steps generalizing scope with
  | nil => exact ⟨scope, (Except.ok.inj h).symm⟩
  | cons step rest ih =>
    obtain ⟨found, -, h⟩ := outcome_follow_cons_eq_ok.mp h
    split at h
    · exact ⟨[], (Except.ok.inj h).symm⟩
    · exact ih h

lemma outcome_descend_first (h : (t.descend step .all c).outcome = .ok hits) :
    (t.descend step .first c).outcome = .ok (hits.take 1) := by
  have hfirst := t.source.firstOf_descend step.accepts t.maxDepth c
  rw [show (t.source.descend step.accepts .all t.maxDepth c).outcome = .ok hits from h] at hfirst
  exact hfirst.eq_ok_take_one

/-- **Greedy chains.**  A chain that stops at the first follows only the first component of every
scope.  What it finds is the first of all, as the first of a scope is found first in the first of
the scope before; but it may give up. -/
theorem follow_first (h : (t.follow .all steps scope).outcome = .ok (.all hits)) :
    ∃ found, (t.follow .first steps (scope.take 1)).outcome = .ok (.first found) ∧
      (found = none ∨ found = hits.head?) := by
  induction steps generalizing scope with
  | nil =>
    obtain rfl := Answer.all.inj (Except.ok.inj h)
    refine ⟨scope.head?, ?_, .inr rfl⟩
    cases scope <;> rfl
  | cons step rest ih =>
    obtain ⟨all, hall, h⟩ := outcome_follow_cons_eq_ok.mp h
    cases scope with
    | nil => exact ⟨none, rfl, .inl rfl⟩
    | cons c others =>
      rw [Mode.outcome_gather_all_cons] at hall
      obtain ⟨here, hhere, hall⟩ := Outcome.bind_eq_ok.mp hall
      obtain ⟨more, -, happend⟩ := Outcome.bind_eq_ok.mp hall
      obtain rfl := Except.ok.inj happend
      have hfirst : (Mode.first.gather (t.descend step .first) [c]).outcome =
          .ok (here.take 1) := by
        rw [outcome_gather_singleton, outcome_descend_first hhere]
      cases here with
      | nil =>
        -- nothing within `c`: the chain gives up, whatever the others have
        exact ⟨none, outcome_follow_cons_eq_ok.mpr ⟨[], hfirst, rfl⟩, .inl rfl⟩
      | cons d below =>
        -- `d` stands first among the hits, also when they are told apart by their ids
        rw [if_neg (by simp)] at h
        obtain ⟨found, hfound, hor⟩ := ih h
        exact ⟨found, outcome_follow_cons_eq_ok.mpr ⟨[d], hfirst, hfound⟩, hor⟩

/-- A single step from a single component has nothing to give up. -/
lemma follow_first_of_length_le_one (hsteps : steps.length ≤ 1)
    (h : (t.follow .all steps [c]).outcome = .ok (.all hits)) :
    (t.follow .first steps [c]).outcome = .ok (.first hits.head?) := by
  match steps with
  | [] =>
    obtain rfl := Answer.all.inj (Except.ok.inj h)
    rfl
  | [step] =>
    obtain ⟨all, hall, h⟩ := outcome_follow_cons_eq_ok.mp h
    rw [outcome_gather_singleton] at hall
    have hfirst : (Mode.first.gather (t.descend step .first) [c]).outcome = .ok (all.take 1) := by
      rw [outcome_gather_singleton, outcome_descend_first hall]
    refine outcome_follow_cons_eq_ok.mpr ⟨all.take 1, hfirst, ?_⟩
    cases all with
    | nil =>
      obtain rfl := Answer.all.inj (Except.ok.inj h)
      rfl
    | cons d below =>
      obtain rfl := Answer.all.inj (Except.ok.inj h)
      rfl

/-- When a chain from the root has an answer. -/
lemma resolve_eq_ok_iff : (t.resolve form mode).outcome = .ok answer ↔
    ∃ selector id, form.normalise = .ok selector ∧ t.root = some id ∧
      (t.get? id = none ∧ answer = Answer.empty mode ∨
        ∃ root, t.get? id = some root ∧
          (t.follow mode selector.steps [root]).outcome = .ok answer) := by
  rw [resolve, Query.outcome_bind, Outcome.bind_eq_ok]
  refine exists_congr fun selector => ?_
  rw [show (Query.ofSelector form.normalise).outcome = form.normalise.mapError .selector from rfl,
    Outcome.mapError_eq_ok]
  cases t.root with
  | none => simp [Query.fail, Query.ofOutcome]
  | some id =>
    dsimp only
    cases hroot : t.get? id with
    | none => simp [hroot, eq_comm]
    | some root => simp [hroot]

/-- **A chain that stops at the first finds the first of all or gives up.**  Where collecting all
along a chain of steps succeeds, the chain that stops at the first component of each step succeeds
too, and comes to nothing or to the first of all; with at most one step it comes to that, or to
nothing if there is none. -/
theorem resolve_first_of_all (h : (t.resolve form .all).outcome = .ok answer) :
    ∃ hits found, answer = .all hits ∧ (t.resolve form .first).outcome = .ok (.first found) ∧
      (found = none ∨ found = hits.head?) ∧
      ∀ selector, form.normalise = .ok selector → selector.size ≤ 1 → found = hits.head? := by
  obtain ⟨selector, id, hform, hid, ⟨hnone, rfl⟩ | ⟨root, hroot, hfollow⟩⟩ :=
    resolve_eq_ok_iff.mp h
  · have hempty : (t.resolve form .first).outcome = .ok (.first none) :=
      resolve_eq_ok_iff.mpr ⟨selector, id, hform, hid, .inl ⟨hnone, rfl⟩⟩
    exact ⟨[], none, rfl, hempty, .inl rfl, fun _ _ _ => rfl⟩
  · obtain ⟨hits, rfl⟩ := exists_all_of_follow hfollow
    obtain ⟨found, hfirst, hfound⟩ := follow_first hfollow
    have hresolve : (t.resolve form .first).outcome = .ok (.first found) :=
      resolve_eq_ok_iff.mpr ⟨selector, id, hform, hid, .inr ⟨root, hroot, hfirst⟩⟩
    refine ⟨hits, found, rfl, hresolve, hfound, fun selector' hform' hsize => ?_⟩
    obtain rfl := Except.ok.inj (hform.symm.trans hform')
    have hone := follow_first_of_length_le_one hsize hfollow
    exact Answer.first.inj (Except.ok.inj (hfirst.symm.trans hone))

/-- A label below a note. -/
def sampleHint : Component := ⟨"hint", some "note", ⟨[⟨"label", ∅⟩]⟩, ∅⟩

/-- A row of components: of the fields below the page the second and the third have one id, and a
label is its own parent. -/
def sampleRow : Tree where
  source := .ofList [⟨"page", none, ⟨[⟨"panel", ∅⟩]⟩, ∅⟩,
    ⟨"mail", some "page", ⟨[⟨"field", ∅⟩]⟩, ∅⟩,
    ⟨"note", some "page", ⟨[⟨"field", ∅⟩]⟩, ∅⟩, ⟨"note", some "page", ⟨[⟨"field", ∅⟩]⟩, ∅⟩,
    sampleHint, ⟨"loop", some "loop", ⟨[⟨"label", ∅⟩]⟩, ∅⟩]
  root := some "page"
  maxDepth := 3

/-- The chain `field label` collects the hint, but the chain that stops at the first field comes to
the mail and gives up there. -/
theorem resolve_first_of_all_sample :
    (sampleRow.resolve (.text "field label") .all).outcome = .ok (.all [sampleHint]) ∧
      (∃ hits found, Answer.all [sampleHint] = .all hits ∧
        (sampleRow.resolve (.text "field label") .first).outcome = .ok (.first found) ∧
        (found = none ∨ found = hits.head?) ∧
        ∀ selector, (Form.text "field label").normalise = .ok selector → selector.size ≤ 1 →
          found = hits.head?) ∧
      (sampleRow.resolve (.text "field label") .first).outcome = .ok (.first none) := by
  have hall : (sampleRow.resolve (.text "field label") .all).outcome =
      .ok (.all [sampleHint]) := by cbv
  exact ⟨hall, resolve_first_of_all hall, by cbv⟩

end Tree

end ComponentTree
