/-
# Larger limits

A descent that fails for its limit might go on with a larger one.  One that does not fail has come
nowhere near the limit, or it has stopped at a first component before it came there; either way it
makes the same visits with every larger limit.  So what changes with the limit are those failures
alone, and a query that has an answer keeps it, together with the number of its searches
(`Query.Persists`).

The relation is kept by one query after another, which is all that descents and chains are made of,
so it holds in every source, whatever loops and repeated ids it has, though below what is visited
another limit may open up as many levels as it likes (`Tree.persists_of_le`).
-/
import Mathlib
import ComponentTree.Outcome
import ComponentTree.Proofs.Query.Limit
import ComponentTree.Query.Tree

namespace ComponentTree

open Selector (Form Step)

namespace Query

variable {α β : Type} {limit : Nat}

/-- What comes of the first query comes of the second, unless that was the failure for the limit. -/
structure Persists (limit : Nat) (q q' : Query α) : Prop where
  /-- An answer is given again, with as many searches. -/
  of_ok : ∀ a, q.outcome = .ok a → q'.outcome = .ok a ∧ q'.searches = q.searches
  /-- So is a failure for anything else. -/
  of_error : ∀ e, q.outcome = .error e → (∀ id, e ≠ .tooDeep id limit) →
    q'.outcome = .error e ∧ q'.searches = q.searches

namespace Persists

lemma refl (q : Query α) : q.Persists limit q := ⟨fun _ h => ⟨h, rfl⟩, fun _ h _ => ⟨h, rfl⟩⟩

/-- A failure for the limit may become anything. -/
lemma tooDeep (id : String) (q : Query α) : (fail (.tooDeep id limit)).Persists limit q where
  of_ok _ h := absurd h (by simp [fail, ofOutcome])
  of_error _ h hne := absurd (Except.error.inj h).symm (hne id)

/-- One query after another. -/
lemma bind {q q' : Query α} {next next' : α → Query β} (h : q.Persists limit q')
    (hnext : ∀ a, q.outcome = .ok a → (next a).Persists limit (next' a)) :
    (q >>= next).Persists limit (q' >>= next') where
  of_ok b hb := by
    rw [outcome_bind] at hb
    obtain ⟨a, ha, hb⟩ := Outcome.bind_eq_ok.mp hb
    obtain ⟨ha', hsearches⟩ := h.of_ok a ha
    obtain ⟨hb', hmore⟩ := (hnext a ha).of_ok b hb
    refine ⟨?_, ?_⟩
    · rw [outcome_bind, ha']
      exact hb'
    · rw [searches_bind_of_ok ha, searches_bind_of_ok ha', hsearches, hmore]
  of_error e he hne := by
    rw [outcome_bind] at he
    rcases Outcome.bind_eq_error.mp he with he | ⟨a, ha, he⟩
    · obtain ⟨he', hsearches⟩ := h.of_error e he hne
      refine ⟨?_, ?_⟩
      · rw [outcome_bind, he']
        rfl
      · rw [searches_bind_of_error he, searches_bind_of_error he', hsearches]
    · obtain ⟨ha', hsearches⟩ := h.of_ok a ha
      obtain ⟨he', hmore⟩ := (hnext a ha).of_error e he hne
      refine ⟨?_, ?_⟩
      · rw [outcome_bind, ha']
        exact he'
      · rw [searches_bind_of_ok ha, searches_bind_of_ok ha', hsearches, hmore]

/-- A query that does not depend on the limit, and one after it that may. -/
lemma bind_left (q : Query α) {next next' : α → Query β}
    (hnext : ∀ a, (next a).Persists limit (next' a)) :
    (q >>= next).Persists limit (q >>= next') :=
  (refl q).bind fun a _ => hnext a

/-- A query that may depend on the limit, and one after it that does not. -/
lemma bind_right {q q' : Query α} (h : q.Persists limit q') (next : α → Query β) :
    (q >>= next).Persists limit (q' >>= next) :=
  h.bind fun a _ => refl (next a)

end Persists

end Query

open Query (Persists)

/-! ### Descents -/

lemma Mode.persists_gather {mode : Mode} {limit : Nat}
    {visit visit' : Component → Query (List Component)} {cs : List Component}
    (h : ∀ c ∈ cs, (visit c).Persists limit (visit' c)) :
    (mode.gather visit cs).Persists limit (mode.gather visit' cs) := by
  induction cs with
  | nil => exact .refl _
  | cons c rest ih =>
    refine (h c List.mem_cons_self).bind fun hits _ => ?_
    split
    · exact .refl _
    · exact (ih fun d hd => h d (List.mem_cons_of_mem c hd)).bind_right _

namespace Source

variable (s : Source) (test : Component → Bool) (mode : Mode) {limit limit' : Nat}

/-- **A visit that does not come to the limit does not see it.** -/
theorem persists_visit {levels levels' : Nat} (hle : levels ≤ levels') (c : Component) :
    (s.visit test mode limit levels c).Persists limit
      (s.visit test mode limit' levels' c) := by
  induction levels generalizing levels' c with
  | zero =>
    -- all levels are used up: this is the failure that another limit may mend
    exact .tooDeep c.id _
  | succ levels ih =>
    obtain ⟨levels', rfl⟩ := Nat.exists_eq_add_of_le' (Nat.le_trans (Nat.le_add_left 1 levels) hle)
    rw [visit_succ, visit_succ]
    -- the limit decides neither where a visit stops nor which children it goes on to
    split
    · exact .refl _
    · refine .bind_left _ fun children => .bind_right (Mode.persists_gather fun d _ => ?_) _
      exact ih (Nat.le_of_succ_le_succ hle) d

lemma persists_descend (hle : limit ≤ limit') (start : Component) :
    (s.descend test mode limit start).Persists limit (s.descend test mode limit' start) :=
  s.persists_visit test mode (Nat.succ_le_succ hle) start

lemma persists_descendants (hle : limit ≤ limit') (start : Component) :
    (s.descendants limit start).Persists limit (s.descendants limit' start) :=
  .bind_left _ fun _ => Mode.persists_gather fun c _ => s.persists_visit _ .all hle c

end Source

namespace Tree

variable (t : Tree) {limit : Nat}

/-- The tree with another limit. -/
def withLimit (limit : Nat) : Tree := { t with maxDepth := limit }

@[simp] lemma root_withLimit : (t.withLimit limit).root = t.root := rfl

@[simp] lemma get?_withLimit (id : String) : (t.withLimit limit).get? id = t.get? id := rfl

lemma persists_follow (hle : t.maxDepth ≤ limit) (mode : Mode) (steps : List Step)
    (scope : List Component) : (t.follow mode steps scope).Persists t.maxDepth
      ((t.withLimit limit).follow mode steps scope) := by
  induction steps generalizing scope with
  | nil => exact .refl _
  | cons step rest ih =>
    have hgather : (mode.gather (t.descend step mode) scope).Persists t.maxDepth
        (mode.gather ((t.withLimit limit).descend step mode) scope) :=
      Mode.persists_gather fun c _ => t.source.persists_descend step.accepts mode hle c
    refine hgather.bind fun hits _ => ?_
    split
    · exact .refl _
    · exact ih _

lemma persists_within (hle : t.maxDepth ≤ limit) (start : Component) (form : Form) (mode : Mode) :
    (t.within start form mode).Persists t.maxDepth
      ((t.withLimit limit).within start form mode) :=
  .bind_left _ fun step =>
    (t.source.persists_descend step.accepts mode hle start).bind_right _

lemma persists_withinId (hle : t.maxDepth ≤ limit) (id : String) (form : Form) (mode : Mode) :
    (t.withinId id form mode).Persists t.maxDepth
      ((t.withLimit limit).withinId id form mode) := by
  refine .bind_left _ fun selector => ?_
  rw [get?_withLimit]
  cases t.get? id with
  | none => exact .refl _
  | some start => exact t.persists_within hle start (.steps selector.steps) mode

lemma persists_resolve (hle : t.maxDepth ≤ limit) (form : Form) (mode : Mode) :
    (t.resolve form mode).Persists t.maxDepth ((t.withLimit limit).resolve form mode) := by
  refine .bind_left _ fun selector => ?_
  rw [root_withLimit]
  cases t.root with
  | none => exact .refl _
  | some id =>
    dsimp only
    rw [get?_withLimit]
    cases t.get? id with
    | none => exact .refl _
    | some root => exact t.persists_follow hle mode selector.steps [root]

/-- **A larger limit changes no answer.**  In every tree, whatever loops and repeated ids its source
has: if a query for what is within a component or below it, within the component of an id, or along
a chain of steps has an answer, then it has the same answer with every larger limit, and makes as
many searches; and if it fails for anything but the limit, it fails with that again. -/
theorem persists_of_le (hle : t.maxDepth ≤ limit) :
    (∀ start form mode, (t.within start form mode).Persists t.maxDepth
        ((t.withLimit limit).within start form mode)) ∧
      (∀ id form mode, (t.withinId id form mode).Persists t.maxDepth
        ((t.withLimit limit).withinId id form mode)) ∧
      (∀ start, (t.below start).Persists t.maxDepth ((t.withLimit limit).below start)) ∧
      ∀ form mode, (t.resolve form mode).Persists t.maxDepth
        ((t.withLimit limit).resolve form mode) :=
  ⟨t.persists_within hle, t.persists_withinId hle, t.source.persists_descendants hle,
    t.persists_resolve hle⟩

/-- In the knot the first field below the page is found, though below the page nothing ends, and
nothing lies below the mail.  A limit of nine links makes no difference to either, nor to the failure
for a selector of two steps. -/
theorem persists_of_le_sample :
    sampleKnot.maxDepth ≤ 9 ∧
      ((sampleKnot.withLimit 9).within (Forest.plain "page" none "panel") (.text "field")
        .first).outcome = .ok (.first (some (Forest.plain "mail" (some "page") "field"))) ∧
      ((sampleKnot.withLimit 9).below (Forest.plain "mail" (some "page") "field")).outcome =
        .ok [] ∧
      ((sampleKnot.withLimit 9).withinId "page" (.text "panel field") .all).outcome =
        .error (.selector (.severalSteps 2)) := by
  have hle : sampleKnot.maxDepth ≤ 9 := by decide
  have hfirst : (sampleKnot.within (Forest.plain "page" none "panel") (.text "field")
      .first).outcome = .ok (.first (some (Forest.plain "mail" (some "page") "field"))) := by cbv
  have hbelow : (sampleKnot.below (Forest.plain "mail" (some "page") "field")).outcome =
      .ok [] := by cbv
  have hsteps : (sampleKnot.withinId "page" (.text "panel field") .all).outcome =
      .error (.selector (.severalSteps 2)) := by cbv
  obtain ⟨hwithin, hwithinId, hall, -⟩ := sampleKnot.persists_of_le hle
  exact ⟨hle, ((hwithin _ _ _).of_ok _ hfirst).1, ((hall _).of_ok _ hbelow).1,
    ((hwithinId _ _ _).of_error _ hsteps (by simp)).1⟩

end Tree

end ComponentTree
