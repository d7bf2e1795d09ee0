/-
# Up and down are dual

Whether a component lies below another can be asked in five ways: is the one among the ancestors of
the other, by a query or by the list of all ancestors; is the other among the components below it,
by a query or by the list of all of them; and does a search for its id, which stops at the first,
come to it.  The first two walk along parent links, the others look for children again and again,
and all five agree (`ascent_descent_tfae`).

The search for an id finds the component of that id and no other, as `id` stands for the id itself,
whatever properties and defaults components have under that name.
-/
import ComponentTree.Proofs.Query.Ascent
import ComponentTree.Proofs.Query.Descent
import ComponentTree.Proofs.Query.FirstMatch
import ComponentTree.Proofs.Selector.Clauses

namespace ComponentTree

open Json (Value)
open Selector (Form Step)

/-! ### All components below one -/

/-- What the list of all components below a start gives. -/
theorem Source.outcome_descendants (s : Source) (limit : Nat) (start : Component) :
    (s.descendants limit start).outcome =
      collected limit (s.generation (limit + 1) start)
        (s.occurrences (limit + 1) start).tail := by
  have hvisit : ∀ c ∈ s.childrenOf start.id,
      (s.visit (fun _ => true) .all limit limit c).outcome =
        collected limit (s.generation limit c) (s.occurrences limit c) := by
    intro c _
    rw [outcome_visit_all, List.filter_true]
  rw [descendants, Query.outcome_bind]
  exact Mode.outcome_gather_all hvisit

namespace Selector

/-- The step that asks for an id. -/
def Step.withId (id : String) : Step := ⟨none, (∅ : Dict Value).insert Component.idKey (.string id)⟩

lemma accepts_withId {id : String} {c : Component} :
    (Step.withId id).accepts c = true ↔ c.id = id := by
  rw [Step.withId, accepts_singleton, has_idKey, Value.string.injEq, eq_comm]

end Selector

namespace Forest

variable {f : Forest} {start c p : Component} {limit : Nat}

/-- With a limit no smaller than the number of components nothing lies beyond it. -/
lemma outcome_descend_of_size_le (hf : f.WellFormed) (hstart : f.get? start.id = some start)
    (hlimit : f.size ≤ limit) (test : Component → Bool) :
    (f.source.descend test .all limit start).outcome =
      .ok ((f.preorder start).filter test) := by
  refine outcome_descend_eq_ok hf hstart fun _ _ hclimb => ?_
  exact hf.le_of_climb hstart (Nat.le_succ_of_le hlimit) hclimb

lemma outcome_descendants (hf : f.WellFormed) (hstart : f.get? start.id = some start)
    (hlimit : f.size ≤ limit) :
    (f.source.descendants limit start).outcome = .ok (f.preorder start).tail := by
  have hnil : f.source.generation (limit + 1) start = [] :=
    Source.generation_eq_nil_of_le (Nat.le_succ_of_le hlimit) (generation_size hf hstart)
  rw [Source.outcome_descendants, hnil, occurrences_eq_preorder hf hstart hnil, collected_nil]

lemma mem_tail_preorder (hf : f.WellFormed) (hstart : f.get? start.id = some start)
    (hne : c ≠ start) : c ∈ (f.preorder start).tail ↔ c ∈ f.preorder start := by
  rw [preorder_eq hf hstart, List.tail_cons, List.mem_cons, or_iff_right hne]

/-- A search for an id comes to its component or to nothing. -/
lemma head?_filter_withId (hf : f.WellFormed) (hstart : f.get? start.id = some start)
    (hc : f.get? c.id = some c) :
    ((f.preorder start).filter (Step.withId c.id).accepts).head? = some c ↔
      c ∈ f.preorder start := by
  rw [List.head?_filter]
  constructor
  · exact List.mem_of_find?_eq_some
  · intro hmem
    have haccepts : (Step.withId c.id).accepts c = true := Selector.accepts_withId.mpr rfl
    obtain ⟨d, hd⟩ := Option.isSome_iff_exists.mp
      (List.find?_isSome.mpr ⟨c, hmem, haccepts⟩)
    obtain ⟨hget, -⟩ := (mem_preorder hf hstart).mp (List.mem_of_find?_eq_some hd)
    have hid : d.id = c.id := Selector.accepts_withId.mp (List.find?_some hd)
    rw [hd, eq_of_get? hget hc hid]

end Forest

namespace Tree

variable {f : Forest} {c p : Component} {every named : Form} {limit : Nat}

lemma outcome_aboveId_all (hf : f.WellFormed) (hc : f.get? c.id = some c)
    (root : Option String) {step : Step} (hform : every.single = .ok step) :
    ((⟨f.source, root, limit⟩ : Tree).aboveId c.id every .all).outcome =
      .ok (.all ((f.source.ancestry c).ancestors.filter step.accepts)) := by
  have hget : (⟨f.source, root, limit⟩ : Tree).get? c.id = some c := hc
  rw [aboveId, Query.outcome_bind, hform, hget]
  show ((Query.ofOutcome (f.source.ascend step.accepts .all c)) >>= _).outcome = _
  rw [Query.outcome_bind, Forest.ascend_all hf hc]
  rfl

/-- A search for an id, which stops at the first. -/
lemma outcome_within_withId_iff (hf : f.WellFormed) (hp : f.get? p.id = some p)
    (hc : f.get? c.id = some c) (root : Option String) (hlimit : f.size ≤ limit)
    (hform : named.single = .ok (Step.withId c.id)) :
    ((⟨f.source, root, limit⟩ : Tree).within p named .first).outcome = .ok (.first (some c)) ↔
      c ∈ f.preorder p := by
  have hfirst := f.source.firstOf_descend (Step.withId c.id).accepts limit p
  rw [Forest.outcome_descend_of_size_le hf hp hlimit] at hfirst
  have hdescend : ((⟨f.source, root, limit⟩ : Tree).descend (Step.withId c.id) .first p).outcome =
      .ok (((f.preorder p).filter (Step.withId c.id).accepts).take 1) := hfirst.eq_ok_take_one
  rw [outcome_within hform, hdescend, ← Forest.head?_filter_withId hf hp hc]
  show Except.ok (Answer.first (List.take 1 _).head?) = _ ↔ _
  rw [List.head?_take]
  simp

/-- **Up and down are dual.**  In a forest that is reached by changes, with a limit no smaller than
the number of its components, all queries for one component above another or below it succeed, and
of two different components `c` lies below `p` exactly if `p` is among the ancestors of `c`, among
what a query for all components above `c` picks, if `c` is among all components below `p`, among what
a query for all components within `p` picks, and if a search within `p` for the id of `c` comes to
it. -/
theorem ascent_descent_tfae (hf : f.Reachable) (root : Option String) (hlimit : f.size ≤ limit)
    (hp : f.get? p.id = some p) (hc : f.get? c.id = some c) (hne : p ≠ c)
    (hevery : every.single = .ok Step.any) (hnamed : named.single = .ok (Step.withId c.id)) :
    ∃ up parents children down,
      ((⟨f.source, root, limit⟩ : Tree).aboveId c.id every .all).outcome = .ok (.all up) ∧
      ((⟨f.source, root, limit⟩ : Tree).above c).outcome = .ok parents ∧
      ((⟨f.source, root, limit⟩ : Tree).below p).outcome = .ok children ∧
      ((⟨f.source, root, limit⟩ : Tree).within p every .all).outcome = .ok (.all down) ∧
      [f.Within c p, p ∈ up, p ∈ parents, c ∈ children, c ∈ down,
        ((⟨f.source, root, limit⟩ : Tree).within p named .first).outcome =
          .ok (.first (some c))].TFAE := by
  have hwf := hf.wellFormed
  have hany : ∀ l : List Component, l.filter Step.any.accepts = l := fun l =>
    List.filter_eq_self.mpr fun d _ => Selector.accepts_any d
  have hup : ((⟨f.source, root, limit⟩ : Tree).aboveId c.id every .all).outcome = _ :=
    outcome_aboveId_all hwf hc root hevery
  have hparents : ((⟨f.source, root, limit⟩ : Tree).above c).outcome = _ :=
    Forest.ascend_all hwf hc Step.any.accepts
  have hdown : ((⟨f.source, root, limit⟩ : Tree).within p every .all).outcome =
      .ok (.all ((f.preorder p).filter Step.any.accepts)) := by
    rw [outcome_within hevery]
    show ((f.source.descend Step.any.accepts .all limit p).outcome).map _ = _
    rw [Forest.outcome_descend_of_size_le hwf hp hlimit]
    rfl
  rw [hany] at hup hparents hdown
  refine ⟨_, _, _, _, hup, hparents, Forest.outcome_descendants hwf hp hlimit, hdown, ?_⟩
  have hancestors : p ∈ (f.source.ancestry c).ancestors ↔ f.Within c p := by
    rw [Forest.mem_ancestors hwf hc]
    exact ⟨fun h => h.2.2, fun h => ⟨hp, hne, h⟩⟩
  have hpreorder : c ∈ f.preorder p ↔ f.Within c p := by
    rw [Forest.mem_preorder hwf hp, and_iff_right hc]
  tfae_have 1 ↔ 2 := hancestors.symm
  tfae_have 1 ↔ 3 := hancestors.symm
  tfae_have 1 ↔ 5 := hpreorder.symm
  tfae_have 4 ↔ 5 := Forest.mem_tail_preorder hwf hp hne.symm
  tfae_have 6 ↔ 5 := outcome_within_withId_iff hwf hp hc root hlimit hnamed
  tfae_finish

/-- The field of the sample with a property that says it were the page. -/
def sampleMail : Component :=
  (Forest.plain "mail" (some "form") "field").withProperty "id" (.string "page")

/-- The sample with that field. -/
def masked : Forest := Forest.sample.after (.setProperty "mail" "id" (.string "page"))

/-- The page and the field, two links below it. -/
theorem ascent_descent_tfae_sample :
    ∃ up parents children down,
      ((⟨masked.source, none, 4⟩ : Tree).aboveId "mail" (.text "") .all).outcome =
        .ok (.all up) ∧
      ((⟨masked.source, none, 4⟩ : Tree).above sampleMail).outcome = .ok parents ∧
      ((⟨masked.source, none, 4⟩ : Tree).below Forest.samplePage).outcome = .ok children ∧
      ((⟨masked.source, none, 4⟩ : Tree).within Forest.samplePage (.text "") .all).outcome =
        .ok (.all down) ∧
      [masked.Within sampleMail Forest.samplePage, Forest.samplePage ∈ up,
        Forest.samplePage ∈ parents, sampleMail ∈ children, sampleMail ∈ down,
        ((⟨masked.source, none, 4⟩ : Tree).within Forest.samplePage
          (.json (.object [("id", .string "mail")])) .first).outcome =
            .ok (.first (some sampleMail))].TFAE := by
  have hpage : masked.get? Forest.samplePage.id = some Forest.samplePage := by cbv
  have hmail : masked.get? sampleMail.id = some sampleMail := by cbv
  have hsize : masked.size ≤ 4 := by cbv
  have hne : Forest.samplePage ≠ sampleMail := fun he => by
    have hid : Forest.samplePage.id ≠ sampleMail.id := by decide
    exact hid (congrArg Component.id he)
  have hevery : (Form.text "").single = .ok Step.any := by cbv
  have hnamed : (Form.json (.object [("id", .string "mail")])).single =
      .ok (Step.withId sampleMail.id) := rfl
  exact ascent_descent_tfae (Forest.reachable_sample.after _) none hsize hpage hmail hne hevery
    hnamed

end Tree

end ComponentTree
