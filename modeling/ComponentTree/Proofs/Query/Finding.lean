/-
# Finding components by id and by parent

The keys `id` and `parentId` stand for the ids that a component has, and for nothing else.  A property
of one of these names, or a default that a type declares for it, is never looked at.  So in a forest
that is reached by changes a search for an id gives the component that is registered under it, and a
search for a parent gives the children of that id in their order, whatever the components say of
themselves (`find_by_id_and_parent`).
-/
import ComponentTree.Proofs.Query.Duality

namespace ComponentTree

open Json (Value)
open Selector (Form Step)

namespace Selector

/-- The step that asks for the id of a parent. -/
def Step.withParent (id : String) : Step :=
  ⟨none, (∅ : Dict Value).insert Component.parentKey (.string id)⟩

lemma accepts_withParent {id : String} {c : Component} :
    (Step.withParent id).accepts c = true ↔ c.parent = some id := by
  rw [Step.withParent, accepts_singleton, has_parentKey]
  simp

end Selector

namespace Forest

variable {f : Forest} {id : String}

/-- Under an id there is one component or none. -/
lemma WellFormed.filter_id (hf : f.WellFormed) (id : String) :
    f.toList.filter (fun c => c.id = id) = (f.get? id).toList := by
  cases hget : f.get? id with
  | none =>
    refine List.filter_eq_nil_iff.mpr fun c hc => ?_
    have hne : c.id ≠ id := by
      rintro rfl
      rw [hf.mem_toList.mp hc] at hget
      exact absurd hget (by simp)
    simpa using hne
  | some c =>
    have hid : c.id = id := hf.id_eq id c hget
    refine List.perm_singleton.mp ?_
    refine (List.perm_ext_iff_of_nodup (hf.nodup_toList.filter _) (List.nodup_singleton c)).mpr ?_
    intro d
    rw [List.mem_filter, hf.mem_toList, List.mem_singleton, decide_eq_true_eq]
    constructor
    · rintro ⟨hd, rfl⟩
      exact eq_of_get? hd (hf.get?_id hget) hid.symm
    · rintro rfl
      exact ⟨hf.get?_id hget, hid⟩

lemma search_withId (hf : f.WellFormed) (id : String) :
    f.source.search (Step.withId id).accepts = (f.get? id).toList := by
  rw [← hf.filter_id]
  refine List.filter_congr fun c _ => ?_
  rw [Bool.eq_iff_iff, Selector.accepts_withId, decide_eq_true_eq]

lemma search_withParent (f : Forest) (id : String) :
    f.source.search (Step.withParent id).accepts = f.source.childrenOf id := by
  rw [childrenOf_source]
  refine List.filter_congr fun c _ => ?_
  rw [Bool.eq_iff_iff, Selector.accepts_withParent, beq_iff_eq]

end Forest

namespace Tree

variable {f : Forest}

/-- **Ids and parents are what they are registered as.**  In a forest that is reached by changes, a
search for an id gives the component that is registered under it, or nothing if there is none; and a
search for the id of a parent gives the children of that id in their order, which are the registered
components that have it for their parent. -/
theorem find_by_id_and_parent (hf : f.Reachable) (root : Option String) (limit : Nat) (id : String) :
    ∃ named placed : Step, (Form.json (.object [("id", .string id)])).single = .ok named ∧
      (Form.json (.object [("parentId", .string id)])).single = .ok placed ∧
      (⟨f.source, root, limit⟩ : Tree).find named.accepts = Query.search (f.get? id).toList ∧
      (∀ c, f.get? id = some c → c.id = id) ∧
      (⟨f.source, root, limit⟩ : Tree).find placed.accepts =
        Query.search (f.source.childrenOf id) ∧
      ∀ c, c ∈ f.source.childrenOf id ↔ f.get? c.id = some c ∧ c.parent = some id := by
  have hwf := hf.wellFormed
  refine ⟨Step.withId id, Step.withParent id, rfl, rfl, ?_, hwf.id_eq id, ?_, fun c => ?_⟩
  · exact congrArg Query.search (Forest.search_withId hwf id)
  · exact congrArg Query.search (f.search_withParent id)
  · rw [Forest.mem_childrenOf hwf]
    exact and_congr_right fun hc => Forest.linked_iff hc

/-- A component without a parent, whose type declares that it were the form and below the form. -/
def sampleGuest : Component where
  id := "guest"
  parent := none
  lineage := ⟨[⟨"poser", ((∅ : Dict Value).insert "id" (.string "form")).insert "parentId"
    (.string "form")⟩]⟩
  properties := (∅ : Dict Value).insert "parentId" (.string "form")

/-- The sample with that guest and with a property of the note that says it were below the form. -/
def posing : Forest :=
  (Forest.sample.after (.setProperty "note" "parentId" (.string "form"))).after
    (.register sampleGuest)

/-- The mail is the one component below the form. -/
theorem find_by_id_and_parent_sample :
    ∃ named placed : Step, (Form.json (.object [("id", .string "form")])).single = .ok named ∧
      (Form.json (.object [("parentId", .string "form")])).single = .ok placed ∧
      (⟨posing.source, none, 8⟩ : Tree).find named.accepts =
        Query.search [Forest.plain "form" (some "page") "panel"] ∧
      (⟨posing.source, none, 8⟩ : Tree).find placed.accepts =
        Query.search [Forest.plain "mail" (some "form") "field"] := by
  have hreachable : posing.Reachable := (Forest.reachable_sample.after _).after _
  have hform : posing.get? "form" = some (Forest.plain "form" (some "page") "panel") := by cbv
  have hchildren : posing.source.childrenOf "form" = [Forest.plain "mail" (some "form") "field"] := by
    cbv
  obtain ⟨named, placed, hnamed, hplaced, hid, -, hparent, -⟩ :=
    find_by_id_and_parent hreachable none 8 "form"
  rw [hform] at hid
  rw [hchildren] at hparent
  exact ⟨named, placed, hnamed, hplaced, hid, hparent⟩

end Tree

end ComponentTree
