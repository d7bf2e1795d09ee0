/-
# Unfolding a source

Below a component of a source lie its children, below them theirs, and so on without end where
the source has loops.  Cut off after some levels this unfolding is a finite row of occurrences
in pre-order (`occurrences`); the occurrences that lie just beyond are those of one level
(`generation`).

A collecting descent is a walk over this row, and the level beyond decides how it ends
(`outcome_visit_all`): if the level is empty, the descent gives what passes the test among the
occurrences, in their order, and else it fails and names the first component of that level.
This holds of every source, whatever loops and repeated ids it has.
-/
import Mathlib.Data.List.Basic
import ComponentTree.Query.Descent

namespace ComponentTree

/-- What a search gives that must not come to any of the components in `deep`. -/
def collected (limit : Nat) (deep hits : List Component) : Except Failure (List Component) :=
  match deep with
  | [] => .ok hits
  | d :: _ => .error (.tooDeep d.id limit)

@[simp] theorem collected_nil (limit : Nat) (hits : List Component) :
    collected limit [] hits = .ok hits := rfl

theorem collected_append (limit : Nat) (deep here hits : List Component) :
    collected limit deep (here ++ hits) =
      collected limit deep hits >>= fun below => .ok (here ++ below) := by
  cases deep <;> rfl

namespace Mode

/-- Visits one after another come to the deep components of each, and the first of these ends
them all. -/
theorem outcome_gather_all {visit : Component → Query (List Component)} {limit : Nat}
    {deep hits : Component → List Component} {cs : List Component}
    (h : ∀ c ∈ cs, (visit c).outcome = collected limit (deep c) (hits c)) :
    (Mode.all.gather visit cs).outcome =
      collected limit (cs.flatMap deep) (cs.flatMap hits) := by
  induction cs with
  | nil => rfl
  | cons c rest ih =>
    have hrest := ih fun d hd => h d (List.mem_cons_of_mem _ hd)
    simp only [gather, Query.outcome_bind, h c List.mem_cons_self, List.flatMap_cons]
    cases deep c with
    | cons d _ => rfl
    | nil =>
      rw [List.nil_append, collected_append, ← hrest]
      exact Query.outcome_bind _ _

end Mode

namespace Source

/-- The occurrences of components on the first `levels` levels from a component down, in
pre-order: the component, then its children in the order of the source, each with all that is
below it. -/
def occurrences (s : Source) : (levels : Nat) → Component → List Component
  | 0, _ => []
  | levels + 1, c => c :: (s.childrenOf c.id).flatMap (s.occurrences levels)

/-- The occurrences of components `n` links below a component, from the first to the last. -/
def generation (s : Source) : (n : Nat) → Component → List Component
  | 0, c => [c]
  | n + 1, c => (s.childrenOf c.id).flatMap (s.generation n)

variable (s : Source) (test : Component → Bool) (limit : Nat)

/-- **What a collecting visit gives.** -/
theorem outcome_visit_all (levels : Nat) (c : Component) :
    (s.visit test .all limit levels c).outcome =
      collected limit (s.generation levels c) ((s.occurrences levels c).filter test) := by
  induction levels generalizing c with
  | zero => rfl
  | succ levels ih =>
    have hfilter : (s.occurrences (levels + 1) c).filter test =
        (if test c then [c] else []) ++
          (s.childrenOf c.id).flatMap fun d => (s.occurrences levels d).filter test := by
      rw [occurrences, List.filter_cons, List.filter_flatMap]
      split <;> rfl
    rw [hfilter, generation, collected_append, ← Mode.outcome_gather_all fun d _ => ih d]
    simp only [visit, reduceCtorEq, false_and, if_false, Query.outcome_bind]
    rfl

/-- What a collecting descent gives. -/
theorem outcome_descend_all (start : Component) :
    (s.descend test .all limit start).outcome =
      collected limit (s.generation (limit + 1) start)
        ((s.occurrences (limit + 1) start).filter test) :=
  s.outcome_visit_all test limit (limit + 1) start

variable {s}

/-- Below an empty level there is none. -/
theorem generation_eq_nil_of_le {n m : Nat} (hle : n ≤ m) {c : Component}
    (h : s.generation n c = []) : s.generation m c = [] := by
  induction m generalizing n c with
  | zero =>
    obtain rfl := Nat.le_zero.mp hle
    exact h
  | succ m ih =>
    cases n with
    | zero => exact absurd h (by simp [generation])
    | succ n =>
      rw [generation, List.flatMap_eq_nil_iff] at h ⊢
      exact fun d hd => ih (Nat.le_of_succ_le_succ hle) (h d hd)

/-- From an empty level on, cutting off later changes nothing. -/
theorem occurrences_eq_of_le {n m : Nat} (hle : n ≤ m) {c : Component}
    (h : s.generation n c = []) : s.occurrences m c = s.occurrences n c := by
  induction n generalizing m c with
  | zero => exact absurd h (by simp [generation])
  | succ n ih =>
    obtain ⟨m, rfl⟩ := Nat.exists_eq_add_of_le' (Nat.le_trans (Nat.le_add_left 1 n) hle)
    rw [generation, List.flatMap_eq_nil_iff] at h
    rw [occurrences, occurrences]
    refine congrArg (c :: ·) (List.flatMap_congr fun d hd => ?_)
    exact ih (Nat.le_of_succ_le_succ hle) (h d hd)

end Source

end ComponentTree
