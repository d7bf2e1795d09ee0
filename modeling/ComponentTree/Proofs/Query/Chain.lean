/-
# Chains of steps in a forest

A chain of steps is followed scope by scope: a step is searched for below every component of its
scope, and what it finds is the scope of the next.  The components of a scope may lie below one
another, so one component may be found several times.  It is kept where it was found first, and
this keeps every scope in document order: what a later component of the scope adds lies behind
the whole subtree of an earlier one (`distinctBy_scope_sublist`).

With that, a chain finds what it says (`Tree.resolve_lists_chosen`): the components at the end of
a way down on which each step accepts the component it comes to.
-/
import ComponentTree.Proofs.Query.Descent

namespace ComponentTree

open Selector (Form Step)
open List (Sublist)

namespace Forest

open Relation (ReflTransGen)
open Precedence

/-- A chain of steps leads from a component to another: each step accepts a component of the
subtree of the one before, and the last of these is the one led to. -/
def Chosen (f : Forest) : List Step → Component → Component → Prop
  | [], start, c => c = start
  | step :: rest, start, c => ∃ next, f.get? next.id = some next ∧ f.Within next start ∧
      step.accepts next = true ∧ f.Chosen rest next c

variable {f : Forest} {root n b c : Component} {scope s t : List Component}
  {test : Component → Bool} {limit : Nat}

/-! ### The scope of a step -/

/-- In a subtree in pre-order, what is below a component follows it at once. -/
lemma preorder_isPrefix_of_suffix (hf : f.WellFormed) (hroot : f.get? root.id = some root)
    (h : n :: t <:+ f.preorder root) : f.preorder n <+: n :: t := by
  have hnodup := nodup_preorder hf hroot
  have hmem : n ∈ f.preorder root := h.subset List.mem_cons_self
  obtain ⟨hn, hwithin⟩ := (mem_preorder hf hroot).mp hmem
  obtain ⟨s, hs⟩ := h
  obtain ⟨s', u, hs'⟩ := preorder_isInfix hf hn hroot hwithin
  rw [preorder_eq hf hn, List.append_assoc, List.cons_append] at hs'
  -- `n` stands at one place only
  rw [← hs'] at hnodup
  have hnot := (List.nodup_cons.mp (List.nodup_middle.mp hnodup)).1
  rw [List.mem_append, not_or] at hnot
  obtain ⟨-, -, ht⟩ := (List.append_cons_inj_of_notMem hnot.1 hnot.2).mp (hs'.trans hs.symm)
  rw [preorder_eq hf hn, ← ht]
  exact List.prefix_append _ u

lemma mem_flatMap_scope (hf : f.WellFormed) (hroot : f.get? root.id = some root)
    (hscope : scope.Sublist (f.preorder root)) :
    b ∈ scope.flatMap (fun n => (f.preorder n).filter test) ↔
      ∃ n ∈ scope, f.get? b.id = some b ∧ f.Within b n ∧ test b = true := by
  rw [List.mem_flatMap]
  refine exists_congr fun n => and_congr_right fun hn => ?_
  obtain ⟨hn, -⟩ := (mem_preorder hf hroot).mp (hscope.subset hn)
  rw [List.mem_filter, mem_preorder hf hn, and_assoc]

/-- **Keeping first occurrences keeps document order.** -/
theorem distinctBy_scope_sublist (hf : f.WellFormed) (hroot : f.get? root.id = some root)
    (test : Component → Bool) (hscope : scope.Sublist s) (hs : s <:+ f.preorder root) :
    (distinctBy Component.id (scope.flatMap fun n => (f.preorder n).filter test)).Sublist s := by
  induction scope generalizing s with
  | nil => exact List.nil_sublist _
  | cons n rest ih =>
    -- `s` is cut at `n`, and what follows `n` begins with all that is below it
    obtain ⟨s₁, s₂, rfl, hn, hrest⟩ := List.cons_sublist_iff.mp hscope
    obtain ⟨u, v, rfl⟩ := List.append_of_mem hn
    have hsuffix : n :: (v ++ s₂) <:+ f.preorder root := by
      refine List.IsSuffix.trans ?_ hs
      rw [List.append_assoc, List.cons_append]
      exact List.suffix_append _ _
    have hget : f.get? n.id = some n :=
      ((mem_preorder hf hroot).mp (hsuffix.subset List.mem_cons_self)).1
    obtain ⟨w, hw⟩ := preorder_isPrefix_of_suffix hf hroot hsuffix
    have hself : distinctBy Component.id ((f.preorder n).filter test) =
        (f.preorder n).filter test :=
      distinctBy_eq_self ((nodup_ids_preorder hf hget).sublist (List.filter_sublist.map _))
    have hrest' : (distinctBy Component.id
        (rest.flatMap fun n => (f.preorder n).filter test)).Sublist (v ++ s₂) :=
      ih (hrest.trans (List.sublist_append_right v s₂)) ((List.suffix_cons n _).trans hsuffix)
    have hrestroot : rest.Sublist (f.preorder root) :=
      ((List.sublist_cons_self n rest).trans hscope).trans hs.sublist
    have htail : (f.source.childrenOf n.id).flatMap f.preorder ++ w = v ++ s₂ := by
      rw [preorder_eq hf hget, List.cons_append] at hw
      exact (List.cons.inj hw).2
    rw [List.append_assoc, List.cons_append, ← hw, List.flatMap_cons, distinctBy_append, hself]
    refine Sublist.trans (Sublist.append List.filter_sublist ?_) (List.sublist_append_right u _)
    -- what the rest of the scope adds is not below `n`, hence it lies behind its subtree
    refine sublist_of_not_mem_append (List.filter_sublist.trans (htail ▸ hrest')) fun b hb hbn => ?_
    obtain ⟨hb, hnew⟩ := List.mem_filter.mp hb
    obtain ⟨-, -, -, -, htest⟩ := (mem_flatMap_scope hf hroot hrestroot).mp
      ((distinctBy_sublist _ _).subset hb)
    refine of_decide_eq_true hnew (List.mem_map_of_mem (List.mem_filter.mpr ⟨?_, htest⟩))
    rw [preorder_eq hf hget]
    exact List.mem_cons_of_mem n hbn

lemma mem_distinctBy_scope (hf : f.WellFormed) (hroot : f.get? root.id = some root)
    (hscope : scope.Sublist (f.preorder root)) :
    b ∈ distinctBy Component.id (scope.flatMap fun n => (f.preorder n).filter test) ↔
      ∃ n ∈ scope, f.get? b.id = some b ∧ f.Within b n ∧ test b = true := by
  rw [← mem_flatMap_scope hf hroot hscope]
  refine ⟨fun hb => (distinctBy_sublist _ _).subset hb, fun hb => ?_⟩
  -- what is kept under the id of `b` is `b`, as both are components of the forest
  obtain ⟨d, hd, hid⟩ := List.mem_map.mp
    ((mem_map_distinctBy Component.id _ b.id).mpr (List.mem_map_of_mem hb))
  obtain ⟨-, -, hd', -⟩ := (mem_flatMap_scope hf hroot hscope).mp
    ((distinctBy_sublist _ _).subset hd)
  obtain ⟨-, -, hb', -⟩ := (mem_flatMap_scope hf hroot hscope).mp hb
  rwa [← eq_of_get? hd' hb' hid]

/-- A limit that suffices below `root` suffices below everything in its subtree. -/
lemma le_of_climb_of_within (hdepth : ∀ id n, Climb f.table n id root.id → n ≤ limit)
    (h : f.Within b root) (id : String) (k : Nat) (hclimb : Climb f.table k id b.id) :
    k ≤ limit := by
  obtain ⟨m, hm⟩ := exists_climb_of_reach h
  have := hdepth id (k + m) (hclimb.trans hm)
  omega

end Forest

/-! ### Following a chain -/

namespace Tree

variable {f : Forest} {root : Component} {form : Form} {selector : Selector} {limit : Nat}

lemma outcome_follow_nil (t : Tree) (steps : List Step) :
    (t.follow .all steps []).outcome = .ok (.all []) := by
  cases steps <;> rfl

lemma outcome_follow_cons {t : Tree} {step : Step} {rest : List Step}
    {scope hits : List Component}
    (h : (Mode.all.gather (t.descend step .all) scope).outcome = .ok hits) :
    (t.follow .all (step :: rest) scope).outcome =
      (t.follow .all rest (distinctBy Component.id hits)).outcome := by
  rw [follow, Query.outcome_bind, h]
  show (if hits = [] then _ else _ : Query Answer).outcome = _
  split
  · next hnil =>
    subst hnil
    exact (t.outcome_follow_nil rest).symm
  · rfl

lemma outcome_resolve {t : Tree} {id : String} {mode : Mode}
    (hform : form.normalise = .ok selector) (hid : t.root = some id)
    (hroot : t.get? id = some root) :
    (t.resolve form mode).outcome = (t.follow mode selector.steps [root]).outcome := by
  rw [resolve, Query.ofSelector_bind_of_ok hform, hid]
  dsimp only
  rw [hroot]

/-- Each scope on the way is in document order, and so is what comes out at the end. -/
theorem outcome_follow (hf : f.WellFormed) (hroot : f.get? root.id = some root)
    (hdepth : ∀ id n, Forest.Climb f.table n id root.id → n ≤ limit) (start : Option String)
    (steps : List Step) {scope : List Component} (hscope : scope.Sublist (f.preorder root)) :
    ∃ hits, ((⟨f.source, start, limit⟩ : Tree).follow .all steps scope).outcome =
        .ok (.all hits) ∧
      hits.Sublist (f.preorder root) ∧ ∀ c, c ∈ hits ↔ ∃ n ∈ scope, f.Chosen steps n c := by
  induction steps generalizing scope with
  | nil => exact ⟨scope, rfl, hscope, fun c => by simp [Forest.Chosen]⟩
  | cons step rest ih =>
    have hvisit : ∀ n ∈ scope,
        ((⟨f.source, start, limit⟩ : Tree).descend step .all n).outcome =
          collected limit [] ((f.preorder n).filter step.accepts) := by
      intro n hn
      obtain ⟨hn, hwithin⟩ := (Forest.mem_preorder hf hroot).mp (hscope.subset hn)
      exact Forest.outcome_descend_eq_ok hf hn
        (Forest.le_of_climb_of_within hdepth hwithin)
    have hgather := Mode.outcome_gather_all hvisit
    rw [List.flatMap_eq_nil_iff.mpr fun _ _ => rfl, collected_nil] at hgather
    obtain ⟨hits, hout, hsub, hmem⟩ :=
      ih (Forest.distinctBy_scope_sublist hf hroot step.accepts hscope (List.suffix_refl _))
    refine ⟨hits, (outcome_follow_cons hgather).trans hout, hsub, fun c => ?_⟩
    rw [hmem]
    constructor
    · rintro ⟨next, hnext, hchosen⟩
      obtain ⟨n, hn, hget, hwithin, haccepts⟩ :=
        (Forest.mem_distinctBy_scope hf hroot hscope).mp hnext
      exact ⟨n, hn, next, hget, hwithin, haccepts, hchosen⟩
    · rintro ⟨n, hn, next, hget, hwithin, haccepts, hchosen⟩
      have hnext := (Forest.mem_distinctBy_scope hf hroot hscope).mpr
        ⟨n, hn, hget, hwithin, haccepts⟩
      exact ⟨next, hnext, hchosen⟩

/-- **A chain of steps lists what it chooses.**  In a forest that is reached by changes, with a
limit that no component below the root lies beyond, the answer is the part of the root's subtree,
in document order, to which the chain leads from the root; without steps that is the root, and
no limit is needed.  If there are steps and a component does lie beyond the limit, the answer is
that failure. -/
theorem resolve_lists_chosen (hf : f.Reachable) (hroot : f.get? root.id = some root)
    (hform : form.normalise = .ok selector) (limit : Nat) :
    ((selector.steps = [] ∨ ∀ id n, Forest.Climb f.table n id root.id → n ≤ limit) →
      ∃ listing hits, f.Lists root (fun _ => True) listing ∧ hits.Sublist listing ∧
        f.Lists root (f.Chosen selector.steps root) hits ∧
        ((⟨f.source, some root.id, limit⟩ : Tree).resolve form .all).outcome =
          .ok (.all hits)) ∧
      (selector.steps ≠ [] → (∃ id n, Forest.Climb f.table n id root.id ∧ limit < n) →
        ∃ id, ((⟨f.source, some root.id, limit⟩ : Tree).resolve form .all).outcome =
          .error (.tooDeep id limit)) := by
  have hwf := hf.wellFormed
  have hself : [root].Sublist (f.preorder root) := by
    rw [Forest.preorder_eq hwf hroot]
    exact List.singleton_sublist.mpr List.mem_cons_self
  have hfollow : ((⟨f.source, some root.id, limit⟩ : Tree).resolve form .all).outcome =
      ((⟨f.source, some root.id, limit⟩ : Tree).follow .all selector.steps [root]).outcome :=
    outcome_resolve hform rfl hroot
  rw [hfollow]
  constructor
  · intro hlimit
    obtain ⟨hits, hout, hsub, hmem⟩ : ∃ hits,
        ((⟨f.source, some root.id, limit⟩ : Tree).follow .all selector.steps [root]).outcome =
          .ok (.all hits) ∧ hits.Sublist (f.preorder root) ∧
        ∀ c, c ∈ hits ↔ ∃ n ∈ [root], f.Chosen selector.steps n c := by
      rcases hlimit with hnil | hdepth
      · rw [hnil]
        exact ⟨[root], rfl, hself, fun c => by simp [Forest.Chosen]⟩
      · exact outcome_follow hwf hroot hdepth _ _ hself
    refine ⟨f.preorder root, hits, Forest.lists_preorder hwf hroot, hsub, ?_, hout⟩
    refine Forest.lists_of_sublist_preorder hwf hroot hsub fun c _ => ?_
    rw [hmem]
    simp
  · intro hsteps hdeep
    obtain ⟨step, rest, hcons⟩ := List.exists_cons_of_ne_nil hsteps
    obtain ⟨d, -, -, hfail⟩ :=
      Forest.outcome_descend_eq_error hwf hroot step.accepts hdeep
    refine ⟨d.id, ?_⟩
    rw [hcons, follow, Query.outcome_bind, Mode.gather, Query.outcome_bind]
    show ((f.source.descend step.accepts .all limit root).outcome >>= _) >>= _ = _
    rw [hfail]
    rfl

/-- The chain `panel field` from the sample's page: both the page and the form are panels, and
the field below the form is listed once.  One link is too few for it. -/
theorem resolve_lists_chosen_sample :
    (∃ listing hits, Forest.sample.Lists Forest.samplePage (fun _ => True) listing ∧
        hits.Sublist listing ∧
        Forest.sample.Lists Forest.samplePage
          (Forest.sample.Chosen [⟨some "panel", ∅⟩, ⟨some "field", ∅⟩] Forest.samplePage) hits ∧
        ((⟨Forest.sample.source, some "page", 3⟩ : Tree).resolve (.text "panel field")
          .all).outcome = .ok (.all hits)) ∧
      ∃ id, ((⟨Forest.sample.source, some "page", 1⟩ : Tree).resolve (.text "panel field")
        .all).outcome = .error (.tooDeep id 1) := by
  have hform : (Form.text "panel field").normalise =
      .ok ⟨[⟨some "panel", ∅⟩, ⟨some "field", ∅⟩]⟩ := by cbv
  have hdeep : Forest.Climb Forest.sample.table 2 "mail" "page" :=
    .up ⟨Forest.plain "mail" (some "form") "field", by cbv, rfl⟩
      (.up ⟨Forest.plain "form" (some "page") "panel", by cbv, rfl⟩ (.here "page"))
  have hchain := resolve_lists_chosen Forest.reachable_sample Forest.get?_samplePage hform
  refine ⟨(hchain 3).1 (.inr fun _ _ hclimb => ?_),
    (hchain 1).2 (by simp) ⟨"mail", 2, hdeep, by decide⟩⟩
  exact Forest.reachable_sample.wellFormed.le_of_climb Forest.get?_samplePage
    (by rw [Forest.size_sample]) hclimb

end Tree

end ComponentTree
