/-
# Walks in a forest end well

The failures of walks are there for sources that promise nothing.  In a forest that is reached by
changes an ascent never comes back to an id, so it has an answer, and a shorter one than the forest
has components.  The visits of a descent are less deep than the forest has components, whatever the
limit is (`Tree.VisitsAt.lt_size`).  So a limit that is one less than the number of components is as
good as none, and the depth, which grows by one from a visit to those it makes, does not outgrow a
counter that can count the components.

All of this is one fact, that no way up has as many links as there are components
(`Forest.Climb.lt_size`), said of the different walks.
-/
import ComponentTree.Proofs.Query.Agreement
import ComponentTree.Proofs.Query.Ascent
import ComponentTree.Proofs.Query.Duality
import ComponentTree.Proofs.Query.Screening
import ComponentTree.Proofs.Query.Visits

namespace ComponentTree

open Selector (Form Step)

namespace Query

variable {α β γ : Type} {P : α → Prop}

/-- The query fails only for its selector, which is checked first; else it has an answer of which
`P` holds. -/
def Answers (q : Query α) (check : Except Selector.Error β) (P : α → Prop) : Prop :=
  match check with
  | .error e => q.outcome = .error (.selector e)
  | .ok _ => ∃ a, q.outcome = .ok a ∧ P a

lemma answers_of_ok {s : Except Selector.Error β} {next : β → Query α}
    (h : ∀ b, s = .ok b → ∃ a, (next b).outcome = .ok a ∧ P a) :
    (ofSelector s >>= next).Answers s P := by
  cases s with
  | error e => rfl
  | ok b => exact h b rfl

lemma answers_bind {s : Except Selector.Error β} {check : β → Except Selector.Error γ}
    {next : β → Query α} (h : ∀ b, s = .ok b → (next b).Answers (check b) P) :
    (ofSelector s >>= next).Answers (s >>= check) P := by
  cases s with
  | error e => rfl
  | ok b => exact h b rfl

end Query

namespace Forest

variable {f : Forest} {c d top : Component} {test : Component → Bool} {mode : Mode}
  {limit depth k : Nat}

/-- Below a component no visit is as deep as the forest has components, counted from any component
that lies as far above as the visit begins deep. -/
lemma lt_size_of_visits (hf : f.WellFormed) (htop : f.get? top.id = some top)
    (hc : f.get? c.id = some c) (hup : Climb f.table depth c.id top.id)
    (h : f.source.Visits test mode limit depth c k d) : k < f.size := by
  obtain ⟨n, rfl, hd⟩ := h.mem_generation
  obtain ⟨-, hclimb⟩ := (mem_generation hf hc).mp hd
  rw [Nat.add_comm, ← hf.size_table]
  exact (hclimb.trans hup).lt_size hf.acyclic htop

lemma get?_of_visits (hf : f.WellFormed) (hc : f.get? c.id = some c)
    (h : f.source.Visits test mode limit depth c k d) : f.get? d.id = some d := by
  obtain ⟨n, -, hd⟩ := h.mem_generation
  exact ((mem_generation hf hc).mp hd).1

/-- Within a limit that is one less than the number of components every descent has an answer. -/
lemma exists_outcome_descend (hf : f.WellFormed) (hc : f.get? c.id = some c)
    (hlimit : f.size ≤ limit + 1) (test : Component → Bool) (mode : Mode) :
    ∃ hits, (f.source.descend test mode limit c).outcome = .ok hits := by
  cases h : (f.source.descend test mode limit c).outcome with
  | ok hits => exact ⟨hits, rfl⟩
  | error e =>
    obtain ⟨d, -, hd⟩ := Source.visits_of_visit_eq_error (Nat.zero_add (limit + 1)) h
    exact absurd (lt_size_of_visits hf hc hc (.here c.id) hd) (Nat.not_lt.mpr hlimit)

lemma exists_outcome_descendants (hf : f.WellFormed) (hc : f.get? c.id = some c)
    (hlimit : f.size ≤ limit + 1) : ∃ hits, (f.source.descendants limit c).outcome = .ok hits := by
  have hnil : f.source.generation (limit + 1) c = [] :=
    Source.generation_eq_nil_of_le hlimit (generation_size hf hc)
  exact ⟨_, by rw [Source.outcome_descendants, hnil, collected_nil]⟩

end Forest

namespace Tree

variable {f : Forest} {t : Tree} {c d n : Component} {step : Step} {steps : List Step}
  {scope : List Component} {mode : Mode} {k : Nat}

/-! ### The visits that queries make -/

/-- Chains of steps descend from components of the forest only. -/
lemma Searches.get?_eq (hf : f.WellFormed) (ht : t.source = f.source)
    (hscope : ∀ n ∈ scope, f.get? n.id = some n) (h : t.Searches mode steps scope step n) :
    f.get? n.id = some n := by
  induction h with
  | first hcomes => exact hscope _ hcomes.mem
  | rest hhits _ ih =>
    refine ih fun d hd => ?_
    obtain ⟨n, here, hcomes, hhere, hd⟩ :=
      Mode.exists_comes_of_mem hhits ((distinctBy_sublist _ _).subset hd)
    obtain ⟨k, hk⟩ := Source.visits_of_mem (Nat.zero_add (t.maxDepth + 1)) hhere hd
    rw [ht] at hk
    exact Forest.get?_of_visits hf (hscope n hcomes.mem) hk

/-- A query that starts at `c` makes a visit at depth `k`. -/
inductive VisitsAt (t : Tree) (c : Component) : Nat → Prop
  /-- A descent from `c`. -/
  | within {step : Step} {mode : Mode} {k : Nat} {d : Component}
      (h : t.source.Visits step.accepts mode t.maxDepth 0 c k d) : VisitsAt t c k
  /-- The list of all components below `c`, which begins at its children. -/
  | below {child d : Component} {k : Nat} (hchild : child ∈ t.source.childrenOf c.id)
      (h : t.source.Visits (fun _ => true) .all t.maxDepth 1 child k d) : VisitsAt t c k
  /-- A chain of steps with the root `c`. -/
  | resolve {steps : List Step} {step : Step} {mode : Mode} {n d : Component} {k : Nat}
      (hsearches : t.Searches mode steps [c] step n)
      (h : t.source.Visits step.accepts mode t.maxDepth 0 n k d) : VisitsAt t c k

/-- **No visit is as deep as the forest has components.** -/
theorem VisitsAt.lt_size (hf : f.WellFormed) (ht : t.source = f.source)
    (hc : f.get? c.id = some c) (h : t.VisitsAt c k) : k < f.size := by
  cases h with
  | within h =>
    rw [ht] at h
    exact Forest.lt_size_of_visits hf hc hc (.here c.id) h
  | below hchild h =>
    rw [ht] at h hchild
    obtain ⟨hchild, hlink⟩ := (Forest.mem_childrenOf hf).mp hchild
    exact Forest.lt_size_of_visits hf hc hchild (.up hlink (.here c.id)) h
  | resolve hsearches h =>
    have hscope : ∀ n ∈ [c], f.get? n.id = some n := by simpa using hc
    have hn := hsearches.get?_eq hf ht hscope
    rw [ht] at h
    exact Forest.lt_size_of_visits hf hn hn (.here _) h

/-! ### Answers -/

lemma get?_of_source (ht : t.source = f.source) (hc : f.get? c.id = some c) :
    t.get? c.id = some c := by
  rw [get?, ht]
  exact hc

lemma exists_outcome_follow (hf : f.WellFormed) (ht : t.source = f.source)
    (hlimit : f.size ≤ t.maxDepth + 1) (hscope : ∀ n ∈ scope, f.get? n.id = some n) (mode : Mode)
    (steps : List Step) : ∃ answer, (t.follow mode steps scope).outcome = .ok answer := by
  cases h : (t.follow mode steps scope).outcome with
  | ok answer => exact ⟨answer, rfl⟩
  | error e =>
    obtain ⟨step, n, hsearches, hn⟩ := exists_searches_of_follow_eq_error h
    obtain ⟨hits, hhits⟩ := Forest.exists_outcome_descend hf (hsearches.get?_eq hf ht hscope)
      hlimit step.accepts mode
    rw [descend, ht, hhits] at hn
    exact absurd hn (by simp)

lemma answers_within (hf : f.WellFormed) (ht : t.source = f.source) (hc : f.get? c.id = some c)
    (hlimit : f.size ≤ t.maxDepth + 1) (form : Form) (mode : Mode) :
    (t.within c form mode).Answers form.single fun _ => True := by
  refine Query.answers_of_ok fun step _ => ?_
  obtain ⟨hits, hhits⟩ := Forest.exists_outcome_descend hf hc hlimit step.accepts mode
  rw [Query.outcome_bind, descend, ht, hhits]
  exact ⟨_, rfl, trivial⟩

lemma answers_withinId (hf : f.WellFormed) (ht : t.source = f.source)
    (hc : f.get? c.id = some c) (hlimit : f.size ≤ t.maxDepth + 1) (form : Form) (mode : Mode) :
    (t.withinId c.id form mode).Answers form.single fun _ => True := by
  refine Query.answers_bind fun selector _ => ?_
  rw [get?_of_source ht hc]
  exact answers_within hf ht hc hlimit (.steps selector.steps) mode

lemma answers_resolve (hf : f.WellFormed) (ht : t.source = f.source)
    (hc : f.get? c.id = some c) (hlimit : f.size ≤ t.maxDepth + 1) (hroot : t.root = some c.id)
    (form : Form) (mode : Mode) : (t.resolve form mode).Answers form.normalise fun _ => True := by
  have hscope : ∀ n ∈ [c], f.get? n.id = some n := by simpa using hc
  refine Query.answers_of_ok fun selector _ => ?_
  obtain ⟨answer, hanswer⟩ := exists_outcome_follow hf ht hlimit hscope mode selector.steps
  rw [hroot]
  dsimp only
  rw [get?_of_source ht hc]
  exact ⟨answer, hanswer, trivial⟩

/-- An ascent has an answer, and one that is shorter than the forest has components. -/
lemma exists_ascend (hf : f.WellFormed) (ht : t.source = f.source) (hc : f.get? c.id = some c)
    (test : Component → Bool) (mode : Mode) :
    ∃ hits, t.source.ascend test mode c = .ok hits ∧ hits.length < f.size := by
  obtain ⟨hits, hhits, hsub⟩ :=
    Ancestry.exists_select_eq_ok (Forest.loop_ancestry hf hc) test mode
  rw [ht]
  exact ⟨hits, hhits, hsub.length_le.trans_lt (Forest.length_ancestors_lt hf hc)⟩

lemma answers_aboveId (hf : f.WellFormed) (ht : t.source = f.source) (hc : f.get? c.id = some c)
    (form : Form) (mode : Mode) :
    (t.aboveId c.id form mode).Answers form.single fun a => a.toList.length < f.size := by
  refine Query.answers_of_ok fun step _ => ?_
  obtain ⟨hits, hhits, hlength⟩ := exists_ascend hf ht hc step.accepts mode
  rw [get?_of_source ht hc]
  dsimp only
  rw [Query.outcome_bind, hhits]
  refine ⟨_, rfl, Nat.lt_of_le_of_lt ?_ hlength⟩
  cases mode with
  | all => exact Nat.le_refl _
  | first => cases hits <;> simp [Answer.ofHits, Answer.toList]

/-- **Walks in a forest end well.**  In a forest that is reached by changes, from a component that
is there:

* queries for what is above the component never fail for a loop, and list fewer components than
  there are;
* with a limit no smaller than the number of the other components, queries for what is within the
  component or below it and chains of steps with it as their root never fail for the limit;
* with any limit, all visits that these make have a depth less than the number of components, so the
  next depth is still a number that fits into a word into which that number fits. -/
theorem walks_end_well (hf : f.Reachable) (ht : t.source = f.source)
    (hc : f.get? c.id = some c) :
    ((∀ form mode, (t.aboveId c.id form mode).Answers form.single
          fun a => a.toList.length < f.size) ∧
        (∃ above, (t.above c).outcome = .ok above ∧ above.length < f.size) ∧
        ∃ ids, (t.aboveIds c).outcome = .ok ids ∧ ids.length < f.size) ∧
      (f.size ≤ t.maxDepth + 1 →
        (∀ form mode, (t.within c form mode).Answers form.single fun _ => True) ∧
        (∀ form mode, (t.withinId c.id form mode).Answers form.single fun _ => True) ∧
        (∃ below, (t.below c).outcome = .ok below) ∧
        (t.root = some c.id →
          ∀ form mode, (t.resolve form mode).Answers form.normalise fun _ => True)) ∧
      ∀ k, t.VisitsAt c k →
        k < f.size ∧ ∀ w, f.size < 2 ^ w → (BitVec.ofNat w k + 1#w).toNat = k + 1 := by
  have hwf := hf.wellFormed
  refine ⟨⟨answers_aboveId hwf ht hc, ?_, ?_⟩, fun hlimit => ⟨?_, ?_, ?_, ?_⟩, fun k hk => ?_⟩
  · exact exists_ascend hwf ht hc Step.any.accepts .all
  · obtain ⟨hits, hhits, hlength⟩ := exists_ascend hwf ht hc Step.any.accepts .all
    refine ⟨hits.map (·.id), ?_, by rwa [List.length_map]⟩
    rw [aboveIds, Query.outcome_bind, above, hhits]
    rfl
  · exact answers_within hwf ht hc hlimit
  · exact answers_withinId hwf ht hc hlimit
  · rw [below, ht]
    exact Forest.exists_outcome_descendants hwf hc hlimit
  · exact answers_resolve hwf ht hc hlimit
  · have hlt := hk.lt_size hwf ht hc
    refine ⟨hlt, fun w hw => ?_⟩
    rw [BitVec.toNat_add, BitVec.toNat_ofNat, BitVec.toNat_ofNat, ← Nat.add_mod]
    exact Nat.mod_eq_of_lt (by omega)

/-- A descent from the sample's page comes to the mail, two links below. -/
lemma visitsAt_sample : sample.VisitsAt Forest.samplePage 2 := by
  have hpage : sample.source.childrenOf Forest.samplePage.id =
      [Forest.plain "form" (some "page") "panel", Forest.plain "note" (some "page") "field"] := by
    cbv
  have hform : sample.source.childrenOf (Forest.plain "form" (some "page") "panel").id =
      [Forest.plain "mail" (some "form") "field"] := by cbv
  have hvisits : sample.source.Visits Step.any.accepts .all sample.maxDepth 0 Forest.samplePage 2
      (Forest.plain "mail" (some "form") "field") := by
    refine .child (by decide) (fun h => Mode.noConfusion h) (hpage ▸ Mode.comes_head) ?_
    exact .child (by decide) (fun h => Mode.noConfusion h) (hform ▸ Mode.comes_head) (.self _ _)
  exact .within hvisits

/-- In the sample's tree, whose limit is one less than the number of components, chains of steps
from the page always have an answer; there are visits at depth 2, and none is deeper than 3. -/
theorem walks_end_well_sample :
    Forest.sample.Reachable ∧ sample.source = Forest.sample.source ∧
      Forest.sample.get? Forest.samplePage.id = some Forest.samplePage ∧
      Forest.sample.size ≤ sample.maxDepth + 1 ∧ sample.root = some Forest.samplePage.id ∧
      (∀ form mode, (sample.resolve form mode).Answers form.normalise fun _ => True) ∧
      sample.VisitsAt Forest.samplePage 2 ∧ ∀ k, sample.VisitsAt Forest.samplePage k → k < 4 := by
  have hsource : sample.source = Forest.sample.source := rfl
  have hsize : Forest.sample.size ≤ sample.maxDepth + 1 := by
    rw [Forest.size_sample]
    decide
  obtain ⟨-, hanswers, hvisits⟩ :=
    walks_end_well Forest.reachable_sample hsource Forest.get?_samplePage
  obtain ⟨-, -, -, hresolve⟩ := hanswers hsize
  refine ⟨Forest.reachable_sample, hsource, Forest.get?_samplePage, hsize, rfl, hresolve rfl,
    visitsAt_sample, fun k hk => ?_⟩
  rw [← Forest.size_sample]
  exact (hvisits k hk).1

end Tree

end ComponentTree
