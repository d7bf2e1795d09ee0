/-
# Queries below a component are local

A descent asks its source for the children of what it comes to, and for nothing else.  So two sources
that give each component of a part the same children, all of them within the part, answer every
descent that begins there alike, with the same components, the same failure and the same number of
searches (`Source.Agree`).

A change of a forest concerns one component, its subject, and the list of the others stays as it is
(`Forest.WellFormed.filter_after`).  If the subject lies within the subtree of a start neither before
nor after the change, it is nobody's child there, and the two forests agree on the subtree.  What
else the change does to the forest, above the start or beside it, makes no difference to queries
below (`Tree.queries_after_of_outside`), and neither do any number of such changes
(`Forest.Spares`, `Tree.queries_foldl_after_of_spares`).
-/
import ComponentTree.Query.Tree
import ComponentTree.Proofs.Forest.Listing

namespace ComponentTree

open Json (Value)
open Relation (ReflTransGen)
open Selector (Form Step)

/-! ### Sources that agree on a part -/

lemma Mode.gather_congr {mode : Mode} {visit visit' : Component → Query (List Component)}
    {cs : List Component} (h : ∀ c ∈ cs, visit c = visit' c) :
    mode.gather visit cs = mode.gather visit' cs := by
  induction cs with
  | nil => rfl
  | cons c rest ih =>
    rw [gather, gather, h c List.mem_cons_self, ih fun d hd => h d (List.mem_cons_of_mem c hd)]

namespace Source

/-- The sources give the same children to each component of a part, and these are of the part too. -/
structure Agree (s s' : Source) (part : Component → Prop) : Prop where
  childrenOf_eq : ∀ c, part c → s.childrenOf c.id = s'.childrenOf c.id
  part_of_mem : ∀ c, part c → ∀ d ∈ s.childrenOf c.id, part d

namespace Agree

variable {s s' : Source} {part : Component → Prop} {c start : Component}

/-- **A visit does not see what is outside of the part.** -/
theorem visit_eq (h : s.Agree s' part) (hc : part c) (test : Component → Bool) (mode : Mode)
    (limit levels : Nat) : s.visit test mode limit levels c = s'.visit test mode limit levels c := by
  induction levels generalizing c with
  | zero => rfl
  | succ levels ih =>
    rw [visit, visit, ← h.childrenOf_eq c hc]
    refine if_congr Iff.rfl rfl (Query.bind_congr_of_ok rfl ?_)
    have hgather : mode.gather (s.visit test mode limit levels) (s.childrenOf c.id) =
        mode.gather (s'.visit test mode limit levels) (s.childrenOf c.id) :=
      Mode.gather_congr fun d hd => ih (h.part_of_mem c hc d hd)
    rw [hgather]

lemma descend_eq (h : s.Agree s' part) (hstart : part start) (test : Component → Bool)
    (mode : Mode) (limit : Nat) :
    s.descend test mode limit start = s'.descend test mode limit start :=
  h.visit_eq hstart test mode limit (limit + 1)

lemma descendants_eq (h : s.Agree s' part) (hstart : part start) (limit : Nat) :
    s.descendants limit start = s'.descendants limit start := by
  rw [descendants, descendants, ← h.childrenOf_eq start hstart]
  refine Query.bind_congr_of_ok rfl (Mode.gather_congr fun d hd => ?_)
  exact h.visit_eq (h.part_of_mem start hstart d hd) _ _ _ _

lemma refl (s : Source) : s.Agree s fun _ => True := ⟨fun _ _ => rfl, fun _ _ _ _ => trivial⟩

lemma trans {s'' : Source} {part' : Component → Prop} (h : s.Agree s' part)
    (h' : s'.Agree s'' part') : s.Agree s'' fun c => part c ∧ part' c where
  childrenOf_eq c hc := (h.childrenOf_eq c hc.1).trans (h'.childrenOf_eq c hc.2)
  part_of_mem c hc d hd :=
    ⟨h.part_of_mem c hc.1 d hd, h'.part_of_mem c hc.2 d (h.childrenOf_eq c hc.1 ▸ hd)⟩

end Agree

end Source

/-! ### The subject of a change -/

/-- The id of the component that a change concerns. -/
def Forest.Change.subject : Forest.Change → String
  | register c => c.id
  | unregister id => id
  | reparent id _ => id
  | setProperty id _ _ => id

namespace Listing

open Forest (Change)

variable {l : List Component} {id : String}

lemma filter_modify {change : Component → Component} (h : ∀ c, (change c).id = c.id) :
    (modify l id change).filter (·.id ≠ id) = l.filter (·.id ≠ id) := by
  induction l with
  | nil => rfl
  | cons c rest ih =>
    rw [modify, List.map_cons, ← modify]
    by_cases hc : c.id = id
    · have hnew : (change c).id = id := (h c).trans hc
      rw [if_pos hc, List.filter_cons_of_neg (by simpa using hnew),
        List.filter_cons_of_neg (by simpa using hc), ih]
    · rw [if_neg hc, List.filter_cons_of_pos (by simpa using hc),
        List.filter_cons_of_pos (by simpa using hc), ih]

/-- **A change leaves all components but its subject as and where they are.** -/
theorem filter_after (l : List Component) (change : Change) :
    (after l change).filter (·.id ≠ change.subject) = l.filter (·.id ≠ change.subject) := by
  cases change with
  | register c =>
    rw [after, register]
    cases get? l c.id with
    | some d => rfl
    | none =>
      cases checkLink l c.id c.parent with
      | error r => rfl
      | ok u =>
        show (l ++ [c]).filter (·.id ≠ c.id) = l.filter (·.id ≠ c.id)
        simp
  | unregister id =>
    rw [after, unregister]
    cases get? l id with
    | none => rfl
    | some c =>
      show (l.filter (·.id ≠ id)).filter (·.id ≠ id) = l.filter (·.id ≠ id)
      simp
  | reparent id parent =>
    rw [after, reparent]
    cases get? l id with
    | none => rfl
    | some c =>
      cases checkLink l id parent with
      | error r => rfl
      | ok u => exact filter_modify fun _ => rfl
  | setProperty id key value =>
    rw [after, setProperty]
    cases get? l id with
    | none => rfl
    | some c => exact filter_modify fun _ => rfl

end Listing

namespace Forest

variable {f : Forest} {c start : Component} {id x : String} {change : Change}

namespace WellFormed

lemma filter_after (hf : f.WellFormed) (change : Change) :
    (f.after change).toList.filter (·.id ≠ change.subject) =
      f.toList.filter (·.id ≠ change.subject) := by
  rw [hf.toList_after, Listing.filter_after]

lemma get?_after_of_ne (hf : f.WellFormed) (hc : f.get? c.id = some c)
    (hne : c.id ≠ change.subject) : (f.after change).get? c.id = some c := by
  have hmem : c ∈ f.toList.filter (·.id ≠ change.subject) :=
    List.mem_filter.mpr ⟨hf.mem_toList.mpr hc, by simpa using hne⟩
  rw [← hf.filter_after] at hmem
  exact (hf.after change).mem_toList.mp (List.mem_of_mem_filter hmem)

/-- A component that is no child of an id is not needed to list the children. -/
lemma childrenOf_eq_filter (hf : f.WellFormed) (hx : ¬ Linked f.table x id) :
    f.source.childrenOf id =
      (f.toList.filter (·.id ≠ x)).filter fun c => c.parent == some id := by
  rw [childrenOf_source, List.filter_filter]
  refine List.filter_congr fun c hc => ?_
  by_cases hparent : c.parent = some id
  · have hlinked : Linked f.table c.id id := (linked_iff (hf.mem_toList.mp hc)).mpr hparent
    have hne : c.id ≠ x := by
      rintro rfl
      exact hx hlinked
    simp [hparent, hne]
  · simp [hparent]

lemma childrenOf_after (hf : f.WellFormed) (hbefore : ¬ Linked f.table change.subject id)
    (hafter : ¬ Linked (f.after change).table change.subject id) :
    f.source.childrenOf id = (f.after change).source.childrenOf id := by
  rw [hf.childrenOf_eq_filter hbefore, (hf.after change).childrenOf_eq_filter hafter,
    hf.filter_after]

/-- **A change whose subject is outside of a subtree leaves the subtree as it is.** -/
theorem agree_after (hf : f.WellFormed)
    (hbefore : ¬ ReflTransGen (Linked f.table) change.subject start.id)
    (hafter : ¬ ReflTransGen (Linked (f.after change).table) change.subject start.id) :
    f.source.Agree (f.after change).source
      fun c => f.Within c start ∧ (f.after change).Within c start := by
  have hchildren : ∀ c, f.Within c start ∧ (f.after change).Within c start →
      f.source.childrenOf c.id = (f.after change).source.childrenOf c.id := by
    rintro c ⟨hc, hc'⟩
    exact hf.childrenOf_after (fun h => hbefore (.head h hc)) fun h => hafter (.head h hc')
  refine ⟨hchildren, fun c hc d hd => ?_⟩
  have hd' : d ∈ (f.after change).source.childrenOf c.id := hchildren c hc ▸ hd
  exact ⟨.head ((mem_childrenOf hf).mp hd).2 hc.1,
    .head ((mem_childrenOf (hf.after change)).mp hd').2 hc.2⟩

end WellFormed

/-- The changes, made one after another, spare what is below an id: the subject of none of them lies
there, neither before the change nor after it. -/
inductive Spares (id : String) : Forest → List Change → Prop
  | nil (f : Forest) : Spares id f []
  | cons {f : Forest} {change : Change} {rest : List Change}
      (hbefore : ¬ ReflTransGen (Linked f.table) change.subject id)
      (hafter : ¬ ReflTransGen (Linked (f.after change).table) change.subject id)
      (h : Spares id (f.after change) rest) : Spares id f (change :: rest)

/-- Changes that spare a subtree leave it as it is. -/
lemma Spares.agree {changes : List Change} (h : f.Spares start.id changes) (hf : f.WellFormed)
    (hstart : f.get? start.id = some start) : (changes.foldl after f).get? start.id = some start ∧
      ∃ part, part start ∧ f.source.Agree (changes.foldl after f).source part := by
  induction h with
  | nil f => exact ⟨hstart, _, trivial, .refl f.source⟩
  | @cons f change rest hbefore hafter _ ih =>
    have hne : start.id ≠ change.subject := fun he => hbefore (he ▸ .refl)
    obtain ⟨hget, part, hpart, hagree⟩ := ih (hf.after change) (hf.get?_after_of_ne hstart hne)
    exact ⟨hget, _, ⟨⟨.refl, .refl⟩, hpart⟩, (hf.agree_after hbefore hafter).trans hagree⟩

end Forest

/-! ### Queries before and after changes -/

namespace Tree

variable {f : Forest} {start : Component}

lemma answers_of_agree {s s' : Source} {part : Component → Prop} (h : s.Agree s' part)
    (hpart : part start) (hget : s.get? start.id = some start)
    (hget' : s'.get? start.id = some start) (root : Option String) (limit : Nat) :
    (∀ form mode, (⟨s', root, limit⟩ : Tree).within start form mode =
        (⟨s, root, limit⟩ : Tree).within start form mode) ∧
      (∀ form mode, (⟨s', root, limit⟩ : Tree).withinId start.id form mode =
        (⟨s, root, limit⟩ : Tree).withinId start.id form mode) ∧
      (⟨s', root, limit⟩ : Tree).below start = (⟨s, root, limit⟩ : Tree).below start := by
  have hwithin : ∀ form mode, (⟨s', root, limit⟩ : Tree).within start form mode =
      (⟨s, root, limit⟩ : Tree).within start form mode := by
    intro form mode
    have hdescend : ∀ step : Step, (⟨s', root, limit⟩ : Tree).descend step mode start =
        (⟨s, root, limit⟩ : Tree).descend step mode start := fun step =>
      (h.descend_eq hpart step.accepts mode limit).symm
    simp only [within, hdescend]
  refine ⟨hwithin, fun form mode => ?_, (h.descendants_eq hpart limit).symm⟩
  have hnow : (⟨s', root, limit⟩ : Tree).get? start.id = some start := hget'
  have hthen : (⟨s, root, limit⟩ : Tree).get? start.id = some start := hget
  simp only [withinId, hnow, hthen, hwithin]

/-- **Queries below a component are local.**  If a change of a forest that is reached by changes
concerns a component which neither before nor after it is the start or below it, then the start stays
as it is, and whatever is asked for within the start or below it, in whatever mode and up to whatever
limit, the answer or the failure is the one before the change, and as many searches are made. -/
theorem queries_after_of_outside (hf : f.Reachable) (hstart : f.get? start.id = some start)
    (change : Forest.Change)
    (hbefore : ¬ ReflTransGen (Forest.Linked f.table) change.subject start.id)
    (hafter : ¬ ReflTransGen (Forest.Linked (f.after change).table) change.subject start.id)
    (root : Option String) (limit : Nat) :
    (f.after change).get? start.id = some start ∧
      (∀ form mode, (⟨(f.after change).source, root, limit⟩ : Tree).within start form mode =
        (⟨f.source, root, limit⟩ : Tree).within start form mode) ∧
      (∀ form mode, (⟨(f.after change).source, root, limit⟩ : Tree).withinId start.id form mode =
        (⟨f.source, root, limit⟩ : Tree).withinId start.id form mode) ∧
      (⟨(f.after change).source, root, limit⟩ : Tree).below start =
        (⟨f.source, root, limit⟩ : Tree).below start := by
  have hwf := hf.wellFormed
  have hne : start.id ≠ change.subject := fun he => hbefore (he ▸ .refl)
  have hget : (f.after change).get? start.id = some start := hwf.get?_after_of_ne hstart hne
  have hagree := hwf.agree_after hbefore hafter
  exact ⟨hget, answers_of_agree hagree ⟨.refl, .refl⟩ hstart hget root limit⟩

/-- The sample with the window of the page, which was not there. -/
def framed : Forest := Forest.sample.after (.register (Forest.plain "window" none "frame"))

/-- To register the window, the parent of the page, changes no answer within the page. -/
theorem queries_after_of_outside_sample :
    framed.get? "page" = some Forest.samplePage ∧
      (∀ form mode, (⟨framed.source, none, 8⟩ : Tree).within Forest.samplePage form mode =
        (⟨Forest.sample.source, none, 8⟩ : Tree).within Forest.samplePage form mode) ∧
      (∀ form mode, (⟨framed.source, none, 8⟩ : Tree).withinId "page" form mode =
        (⟨Forest.sample.source, none, 8⟩ : Tree).withinId "page" form mode) ∧
      (⟨framed.source, none, 8⟩ : Tree).below Forest.samplePage =
        (⟨Forest.sample.source, none, 8⟩ : Tree).below Forest.samplePage := by
  have hbefore : ¬ ReflTransGen (Forest.Linked Forest.sample.table) "window" "page" := by
    rw [← Forest.closesLoop_iff, Bool.not_eq_true]
    cbv
  have hafter : ¬ ReflTransGen (Forest.Linked framed.table) "window" "page" := by
    rw [← Forest.closesLoop_iff, Bool.not_eq_true]
    cbv
  exact queries_after_of_outside Forest.reachable_sample Forest.get?_samplePage
    (.register (Forest.plain "window" none "frame")) hbefore hafter none 8

/-- **Changes that spare a subtree cannot be seen from it**, however many they are: what is asked for
within the start or below it gives what it gave before the first of them. -/
theorem queries_foldl_after_of_spares (hf : f.Reachable) (hstart : f.get? start.id = some start)
    {changes : List Forest.Change} (h : f.Spares start.id changes) (root : Option String)
    (limit : Nat) :
    (∀ form mode,
        (⟨(changes.foldl Forest.after f).source, root, limit⟩ : Tree).within start form mode =
          (⟨f.source, root, limit⟩ : Tree).within start form mode) ∧
      (∀ form mode,
        (⟨(changes.foldl Forest.after f).source, root, limit⟩ : Tree).withinId start.id form mode =
          (⟨f.source, root, limit⟩ : Tree).withinId start.id form mode) ∧
      (⟨(changes.foldl Forest.after f).source, root, limit⟩ : Tree).below start =
        (⟨f.source, root, limit⟩ : Tree).below start := by
  obtain ⟨hget, part, hpart, hagree⟩ := h.agree hf.wellFormed hstart
  exact answers_of_agree hagree hpart hstart hget root limit

end Tree

end ComponentTree
