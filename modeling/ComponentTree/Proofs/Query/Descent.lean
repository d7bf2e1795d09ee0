/-
# Descents in a forest

A collecting descent in a forest gives what a step accepts of the subtree of its start: every
such component once, in document order, and nothing else.  This needs a limit that no component
of the subtree lies beyond; with a smaller one the descent fails and says which component it
came to, a component that lies exactly one link beyond the limit.
-/
import ComponentTree.Query.Tree
import ComponentTree.Proofs.Forest.DocumentOrder

namespace ComponentTree

open Selector (Form Step)

namespace Forest

variable {f : Forest} {start : Component} {test : Component → Bool} {limit : Nat}

/-- A limit is large enough if it is no smaller than the number of the other components. -/
lemma WellFormed.le_of_climb (hf : f.WellFormed) (hstart : f.get? start.id = some start)
    (hlimit : f.size ≤ limit + 1) {id : String} {n : Nat}
    (h : Climb f.table n id start.id) : n ≤ limit := by
  have hlt := h.lt_size hf.acyclic hstart
  have hsize := hf.size_table
  omega

/-- Within the limit, a collecting descent filters the subtree in pre-order. -/
theorem outcome_descend_eq_ok (hf : f.WellFormed) (hstart : f.get? start.id = some start)
    (hdepth : ∀ id n, Climb f.table n id start.id → n ≤ limit) :
    (f.source.descend test .all limit start).outcome =
      .ok ((f.preorder start).filter test) := by
  have hnil : f.source.generation (limit + 1) start = [] := by
    refine (generation_eq_nil_iff hf hstart).mpr fun d _ hclimb => ?_
    exact Nat.not_succ_le_self limit (hdepth d.id _ hclimb)
  rw [Source.outcome_descend_all, hnil, occurrences_eq_preorder hf hstart hnil, collected_nil]

/-- Beyond the limit, a collecting descent fails with a component just beyond it. -/
theorem outcome_descend_eq_error (hf : f.WellFormed) (hstart : f.get? start.id = some start)
    (test : Component → Bool) (hdeep : ∃ id n, Climb f.table n id start.id ∧ limit < n) :
    ∃ d, f.get? d.id = some d ∧ Climb f.table (limit + 1) d.id start.id ∧
      (f.source.descend test .all limit start).outcome = .error (.tooDeep d.id limit) := by
  have hne : f.source.generation (limit + 1) start ≠ [] := by
    intro hnil
    obtain ⟨id, n, hclimb, hlt⟩ := hdeep
    obtain ⟨d, hd, rfl⟩ := exists_get?_of_reach hf hstart hclimb.reach
    exact (generation_eq_nil_iff hf hstart).mp (Source.generation_eq_nil_of_le hlt hnil) d hd hclimb
  obtain ⟨d, rest, hcons⟩ := List.exists_cons_of_ne_nil hne
  obtain ⟨hd, hclimb⟩ := (mem_generation hf hstart).mp (hcons ▸ List.mem_cons_self)
  refine ⟨d, hd, hclimb, ?_⟩
  rw [Source.outcome_descend_all, hcons]
  rfl

end Forest

namespace Tree

variable {form : Form} {step : Step}

lemma outcome_within {t : Tree} {start : Component} {mode : Mode} (h : form.single = .ok step) :
    (t.within start form mode).outcome =
      (t.descend step mode start).outcome.map (Answer.ofHits mode) := by
  rw [within, Query.ofSelector_bind_of_ok h, Query.outcome_bind]
  cases (t.descend step mode start).outcome <;> rfl

/-- **A collecting descent lists what its step accepts.**  In a forest that is reached by
changes, with a limit that no component lies beyond, it gives the accepted components of the
subtree of its start, each once, in document order, and no others. -/
theorem within_lists_accepted {f : Forest} (hf : f.Reachable) (root : Option String)
    {start : Component} (hstart : f.get? start.id = some start) (hform : form.single = .ok step)
    {limit : Nat} (hdepth : ∀ id n, Forest.Climb f.table n id start.id → n ≤ limit) :
    ∃ hits, ((⟨f.source, root, limit⟩ : Tree).within start form .all).outcome = .ok (.all hits) ∧
      f.Lists start (fun c => step.accepts c = true) hits := by
  have hwf := hf.wellFormed
  refine ⟨(f.preorder start).filter step.accepts, ?_, ?_⟩
  · rw [outcome_within hform]
    show ((f.source.descend step.accepts .all limit start).outcome).map _ = _
    rw [Forest.outcome_descend_eq_ok hwf hstart hdepth]
    rfl
  · refine Forest.lists_of_sublist_preorder hwf hstart List.filter_sublist fun c hc => ?_
    rw [List.mem_filter]
    exact and_iff_right hc

/-- The fields of the sample's page, one of them below the form. -/
theorem within_lists_accepted_sample :
    ∃ hits, ((⟨Forest.sample.source, none, 3⟩ : Tree).within Forest.samplePage
        (.steps [⟨some "field", ∅⟩]) .all).outcome = .ok (.all hits) ∧
      Forest.sample.Lists Forest.samplePage
        (fun c => (⟨some "field", ∅⟩ : Step).accepts c = true) hits := by
  refine within_lists_accepted Forest.reachable_sample none Forest.get?_samplePage rfl ?_
  exact fun _ _ hclimb => Forest.reachable_sample.wellFormed.le_of_climb Forest.get?_samplePage
    (by rw [Forest.size_sample]) hclimb

end Tree

end ComponentTree
