/-
# Paths of ids

A path of ids that was kept for later is looked at again when the tree has changed.  What is left of
it are the ids that are still there, in their order and as often as they were named.  The first id of
a path that is there is the first of these, with one exception: the empty id is passed over, although
a component may be registered under it (`Tree.firstKnown_eq`).  So the two answers fit together
exactly if what is left of the path does not begin with the empty id.
-/
import Mathlib
import ComponentTree.Proofs.Forest.Changes
import ComponentTree.Query.Tree

namespace ComponentTree

namespace Forest

variable {f : Forest} {id : String}

/-- The ids listed are those that are there. -/
lemma WellFormed.contains_iff_mem_order (hf : f.WellFormed) : f.contains id = true ↔ id ∈ f.order := by
  rw [hf.mem_order_iff]
  exact f.table.contains_iff id

end Forest

namespace Tree

variable {path : List String} {id : String}

/-! ### In any tree -/

/-- The first id of a path that is there is the first that is left and not empty. -/
lemma firstKnown_eq (t : Tree) (path : List String) :
    t.firstKnown path = ((t.known path).filter (· ≠ "")).head? := by
  rw [known, List.filter_filter, List.head?_filter, firstKnown]
  refine congrArg (path.find? ·) (funext fun id => ?_)
  simp

/-- The two ways to look at a path agree unless the empty id is left first. -/
lemma firstKnown_eq_head?_iff (t : Tree) (path : List String) :
    t.firstKnown path = (t.known path).head? ↔ (t.known path).head? ≠ some "" := by
  rw [firstKnown_eq]
  cases t.known path with
  | nil => simp
  | cons id rest =>
    rw [List.head?_cons, Ne, Option.some_inj]
    by_cases hid : id = ""
    · subst hid
      refine iff_of_false (fun h => ?_) (by simp)
      have hmem : "" ∈ (("" :: rest).filter (· ≠ "")) := List.mem_of_head? h
      simp at hmem
    · rw [List.filter_cons_of_pos (by simpa using hid), List.head?_cons]
      exact iff_of_true rfl hid

/-- An id is left as often as it was named if it is there, and not at all if it is not. -/
lemma count_known (t : Tree) (path : List String) (id : String) :
    (t.known path).count id = if t.contains id = true then path.count id else 0 := by
  rw [known]
  split
  · next h => exact List.count_filter h
  · next h =>
    refine List.count_eq_zero.mpr fun hmem => ?_
    exact h (List.mem_filter.mp hmem).2

lemma mem_known_of_firstKnown {t : Tree} (h : t.firstKnown path = some id) : id ∈ t.known path := by
  rw [firstKnown_eq] at h
  exact List.mem_of_mem_filter (List.mem_of_head? h)

/-! ### In a forest -/

/-- **What is left of a path.**  In a forest that is reached by changes, what is left of a path are
the ids of it that are registered, in their order and as often as they were named.  The first id of
the path that is there is the first of these that is not the empty id, so it is the first of all
unless that is the empty id.  Under each id that comes back the component is found. -/
theorem path_reconciled {f : Forest} (hf : f.Reachable) (root : Option String) (limit : Nat)
    (path : List String) :
    ((⟨f.source, root, limit⟩ : Tree).known path).Sublist path ∧
      (∀ id, ((⟨f.source, root, limit⟩ : Tree).known path).count id =
        if id ∈ f.order then path.count id else 0) ∧
      (⟨f.source, root, limit⟩ : Tree).firstKnown path =
        (((⟨f.source, root, limit⟩ : Tree).known path).filter (· ≠ "")).head? ∧
      ((⟨f.source, root, limit⟩ : Tree).firstKnown path =
          ((⟨f.source, root, limit⟩ : Tree).known path).head? ↔
        ((⟨f.source, root, limit⟩ : Tree).known path).head? ≠ some "") ∧
      (∀ id ∈ (⟨f.source, root, limit⟩ : Tree).known path, ∃ c, f.get? id = some c ∧ c.id = id) ∧
      ∀ id, (⟨f.source, root, limit⟩ : Tree).firstKnown path = some id →
        ∃ c, f.get? id = some c ∧ c.id = id := by
  have hwf := hf.wellFormed
  set t : Tree := ⟨f.source, root, limit⟩ with ht
  have hcontains : ∀ id, t.contains id = true ↔ id ∈ f.order := fun id => hwf.contains_iff_mem_order
  have hfound : ∀ id ∈ t.known path, ∃ c, f.get? id = some c ∧ c.id = id := by
    intro id hid
    obtain ⟨c, hc⟩ := (hwf.mem_order_iff id).mp ((hcontains id).mp (List.mem_filter.mp hid).2)
    exact ⟨c, hc, hwf.id_eq id c hc⟩
  refine ⟨List.filter_sublist, fun id => ?_, t.firstKnown_eq path, t.firstKnown_eq_head?_iff path,
    hfound, fun id hid => hfound id (mem_known_of_firstKnown hid)⟩
  rw [t.count_known path id]
  exact if_congr (hcontains id) rfl rfl

/-- The sample with a component that has the empty id. -/
def sampleNameless : Forest := Forest.sample.after (.register (Forest.plain "" none "field"))

lemma reachable_sampleNameless : sampleNameless.Reachable := Forest.reachable_sample.after _

/-- What is left of a path begins with the empty id, but the first id found is that of the form. -/
theorem path_reconciled_sample :
    sampleNameless.Reachable ∧
      (⟨sampleNameless.source, none, 8⟩ : Tree).known ["gone", "", "form", "", "form"] =
        ["", "form", "", "form"] ∧
      (⟨sampleNameless.source, none, 8⟩ : Tree).firstKnown ["gone", "", "form", "", "form"] =
        some "form" ∧
      ∃ c, sampleNameless.get? "form" = some c ∧ c.id = "form" := by
  have hknown : (⟨sampleNameless.source, none, 8⟩ : Tree).known ["gone", "", "form", "", "form"] =
      ["", "form", "", "form"] := by cbv
  obtain ⟨-, -, hfirst, -, hfound, -⟩ :=
    path_reconciled reachable_sampleNameless none 8 ["gone", "", "form", "", "form"]
  rw [hknown] at hfirst hfound
  exact ⟨reachable_sampleNameless, hknown, hfirst, hfound "form" (by simp)⟩

/-- The empty id is left of a path, and nothing is found. -/
theorem not_firstKnown_eq_head?_of_nameless :
    sampleNameless.Reachable ∧
      ¬ (⟨sampleNameless.source, none, 8⟩ : Tree).firstKnown [""] =
        ((⟨sampleNameless.source, none, 8⟩ : Tree).known [""]).head? := by
  have hknown : (⟨sampleNameless.source, none, 8⟩ : Tree).known [""] = [""] := by cbv
  have hfirst : (⟨sampleNameless.source, none, 8⟩ : Tree).firstKnown [""] = none := by cbv
  refine ⟨reachable_sampleNameless, ?_⟩
  rw [hknown, hfirst]
  simp

end Tree

end ComponentTree
