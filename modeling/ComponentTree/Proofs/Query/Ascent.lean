/-
# Ascents in a forest

In a forest without loops the way up from a component never comes back to where it was, so the ids
that an ascent keeps are never met again.  It ends above the last ancestor, and what it has listed
are the ancestors: the components other than the start whose subtree the start lies within
(`mem_ancestors`).
-/
import ComponentTree.Query.Ascent
import ComponentTree.Proofs.Forest.Subtree

namespace ComponentTree

/-! ### Ascents in any source -/

namespace Source

variable {seen : List String} {link : Option String} {d : Component}

lemma not_mem_of_mem_climb (s : Source) (h : d ∈ (s.climb seen link).ancestors) : d.id ∉ seen := by
  fun_induction climb s seen link with
  | case1 => exact absurd h (by simp)
  | case2 => exact absurd h (by simp)
  | case3 seen link c hc hseen _ above ih =>
    rcases List.mem_cons.mp h with rfl | h
    · exact hseen
    · exact fun hd => ih h (List.mem_cons_of_mem c.id hd)

/-- A way up passes no id twice. -/
lemma nodup_ids_climb (s : Source) (seen : List String) (link : Option String) :
    ((s.climb seen link).ancestors.map (·.id)).Nodup := by
  fun_induction climb s seen link with
  | case1 => exact List.nodup_nil
  | case2 => exact List.nodup_nil
  | case3 seen link c hc hseen _ above ih =>
    refine List.nodup_cons.mpr ⟨fun hmem => ?_, ih⟩
    obtain ⟨d, hd, hid⟩ := List.mem_map.mp hmem
    exact s.not_mem_of_mem_climb hd (hid ▸ List.mem_cons_self)

end Source

/-- Where the way up ends, an ascent has an answer, and finds ancestors only. -/
lemma Ancestry.exists_select_eq_ok {a : Ancestry} (h : a.loop = none) (test : Component → Bool)
    (mode : Mode) : ∃ hits, a.select test mode = .ok hits ∧ hits.Sublist a.ancestors := by
  cases mode with
  | all => exact ⟨a.ancestors.filter test, by rw [select, h], List.filter_sublist⟩
  | first =>
    cases hfind : a.ancestors.find? test with
    | some c =>
      have hmem : c ∈ a.ancestors := List.mem_of_find?_eq_some hfind
      exact ⟨[c], by rw [select, hfind], List.singleton_sublist.mpr hmem⟩
    | none => exact ⟨[], by rw [select, hfind, h], List.nil_sublist _⟩

/-! ### Ascents in a forest -/

namespace Forest

open Relation (ReflTransGen)

variable {f : Forest} {start c d : Component} {seen : List String} {link : Option String}

/-- A link leads to a component that is there. -/
lemma bind_get?_eq_some (hf : f.WellFormed) (h : link.bind f.source.get? = some c) :
    link = some c.id ∧ f.get? c.id = some c := by
  obtain ⟨p, rfl, hc⟩ := Option.bind_eq_some_iff.mp h
  rw [hf.id_eq p c hc]
  exact ⟨rfl, hc⟩

/-- A way up along a link that leads to none of the ids passed before ends, and lists the components
that it passes. -/
lemma climb_of_not_reach (hf : f.WellFormed)
    (h : ∀ p, link = some p → ∀ id ∈ seen, ¬ ReflTransGen (Linked f.table) p id) :
    (f.source.climb seen link).loop = none ∧
      ∀ d, d ∈ (f.source.climb seen link).ancestors ↔
        f.get? d.id = some d ∧ ∃ p, link = some p ∧ ReflTransGen (Linked f.table) p d.id := by
  fun_induction Source.climb f.source seen link with
  | case1 seen link hnone =>
    refine ⟨rfl, fun d => iff_of_false (by simp) ?_⟩
    rintro ⟨hd, p, rfl, hreach⟩
    -- where nothing is, no way goes on
    have hp : ∀ b, ¬ Linked f.table p b := fun b => not_linked_of_get?_eq_none hnone
    rw [(reach_iff_eq_of_not_linked hp).mp hreach, show f.get? p = none from hnone] at hd
    exact absurd hd (by simp)
  | case2 seen link c hc hseen =>
    obtain ⟨hlink, -⟩ := bind_get?_eq_some hf hc
    exact absurd .refl (h c.id hlink c.id hseen)
  | case3 seen link c hc _ _ above ih =>
    obtain ⟨rfl, hget⟩ := bind_get?_eq_some hf hc
    have habove : ∀ q, c.parent = some q → ∀ id ∈ c.id :: seen,
        ¬ ReflTransGen (Linked f.table) q id := by
      intro q hq id hid hreach
      have hlink : Linked f.table c.id q := (linked_iff hget).mpr hq
      rcases List.mem_cons.mp hid with rfl | hid
      · exact hf.acyclic.not_reach_of_linked hlink hreach
      · exact h c.id rfl id hid (.head hlink hreach)
    obtain ⟨hloop, hmem⟩ := ih habove
    refine ⟨hloop, fun d => ?_⟩
    rw [List.mem_cons, hmem]
    constructor
    · rintro (rfl | ⟨hd, q, hq, hreach⟩)
      · exact ⟨hget, d.id, rfl, .refl⟩
      · exact ⟨hd, c.id, rfl, .head ((linked_iff hget).mpr hq) hreach⟩
    · rintro ⟨hd, p, hp, hreach⟩
      rw [← Option.some.inj hp] at hreach
      rcases ReflTransGen.cases_head hreach with hid | ⟨q, hlink, hreach⟩
      · exact .inl (eq_of_get? hd hget hid.symm)
      · exact .inr ⟨hd, q, (linked_iff hget).mp hlink, hreach⟩

/-- The way up from a component never comes back to it. -/
lemma ancestry_of_get? (hf : f.WellFormed) (hstart : f.get? start.id = some start) :
    (f.source.ancestry start).loop = none ∧
      ∀ d, d ∈ (f.source.ancestry start).ancestors ↔ f.get? d.id = some d ∧
        ∃ p, start.parent = some p ∧ ReflTransGen (Linked f.table) p d.id := by
  refine climb_of_not_reach hf fun p hp id hid => ?_
  rw [List.mem_singleton.mp hid]
  exact hf.acyclic.not_reach_of_linked ((linked_iff hstart).mpr hp)

lemma loop_ancestry (hf : f.WellFormed) (hstart : f.get? start.id = some start) :
    (f.source.ancestry start).loop = none := (ancestry_of_get? hf hstart).1

/-- **The ancestors of a component are the others within whose subtree it lies.** -/
theorem mem_ancestors (hf : f.WellFormed) (hstart : f.get? start.id = some start) :
    d ∈ (f.source.ancestry start).ancestors ↔
      f.get? d.id = some d ∧ d ≠ start ∧ f.Within start d := by
  rw [(ancestry_of_get? hf hstart).2]
  refine and_congr_right fun hd => ?_
  constructor
  · rintro ⟨p, hp, hreach⟩
    have hlink : Linked f.table start.id p := (linked_iff hstart).mpr hp
    refine ⟨?_, .head hlink hreach⟩
    rintro rfl
    exact hf.acyclic.not_reach_of_linked hlink hreach
  · rintro ⟨hne, hwithin⟩
    rcases ReflTransGen.cases_head hwithin with hid | ⟨p, hlink, hreach⟩
    · exact absurd (eq_of_get? hd hstart hid.symm) hne
    · exact ⟨p, (linked_iff hstart).mp hlink, hreach⟩

/-- **A component has fewer ancestors than the forest has components**, as they all differ from it
and from one another. -/
theorem length_ancestors_lt (hf : f.WellFormed) (hstart : f.get? start.id = some start) :
    (f.source.ancestry start).ancestors.length < f.size := by
  have hnodup : (start.id :: (f.source.ancestry start).ancestors.map (·.id)).Nodup := by
    refine List.nodup_cons.mpr ⟨fun hmem => ?_, f.source.nodup_ids_climb [start.id] start.parent⟩
    obtain ⟨d, hd, hid⟩ := List.mem_map.mp hmem
    exact f.source.not_mem_of_mem_climb hd (hid ▸ List.mem_singleton_self start.id)
  have hsub : start.id :: (f.source.ancestry start).ancestors.map (·.id) ⊆ f.order := by
    refine List.cons_subset.mpr ⟨(hf.mem_order_iff start.id).mpr ⟨start, hstart⟩, fun id hid => ?_⟩
    obtain ⟨d, hd, rfl⟩ := List.mem_map.mp hid
    exact (hf.mem_order_iff d.id).mpr ⟨d, ((mem_ancestors hf hstart).mp hd).1⟩
  have hlength := (List.subperm_of_subset hnodup hsub).length_le
  rwa [List.length_cons, List.length_map] at hlength

/-- A collecting ascent filters the ancestors. -/
theorem ascend_all (hf : f.WellFormed) (hstart : f.get? start.id = some start)
    (test : Component → Bool) : f.source.ascend test .all start =
      .ok ((f.source.ancestry start).ancestors.filter test) := by
  rw [Source.ascend, Ancestry.select, loop_ancestry hf hstart]

end Forest

end ComponentTree
