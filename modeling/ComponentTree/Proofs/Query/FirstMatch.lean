/-
# Stopping at the first

A descent that stops at the first component comes to the same components in the same order as one
that collects all, and only ends earlier.  So beside what the collecting descent gives there are
few things that it can give (`FirstOf`): where that succeeds, its first component or none; where
that fails, the same failure, or a component that was found before.

The relation is kept when one search is put before another, which is all that a descent is made of
(`FirstOf.append`).  It holds in every source, whatever loops and repeated ids it has.
-/
import Mathlib.Tactic.Lemma
import ComponentTree.Query.Descent

namespace ComponentTree

/-- What a search that stops at the first gives beside what the collecting search gives. -/
inductive FirstOf (test : Component → Bool) :
    Except Failure (List Component) → Except Failure (List Component) → Prop
  /-- The first of what is collected, which passes the test like all of it. -/
  | ok {hits : List Component} (h : ∀ c ∈ hits, test c = true) :
      FirstOf test (.ok hits) (.ok (hits.take 1))
  /-- The same failure. -/
  | error (f : Failure) : FirstOf test (.error f) (.error f)
  /-- A component that was found before the failure. -/
  | found (f : Failure) {c : Component} (h : test c = true) :
      FirstOf test (.error f) (.ok [c])

variable {test : Component → Bool}

namespace FirstOf

lemma eq_ok_take_one {hits : List Component} {first : Except Failure (List Component)}
    (h : FirstOf test (.ok hits) first) : first = .ok (hits.take 1) := by
  cases h
  rfl

/-- One search before another: the second is not made for the first component if the first search
has found one. -/
lemma append {a a' b b' : Except Failure (List Component)} (h : FirstOf test a a')
    (h' : FirstOf test b b') :
    FirstOf test (a >>= fun hits => b >>= fun more => .ok (hits ++ more))
      (a' >>= fun hits => if hits = [] then b' else .ok hits) := by
  cases h with
  | error f => exact .error f
  | found f hc => exact .found f hc
  | @ok hits hhits =>
    cases hits with
    | nil => cases b <;> exact h'
    | cons c rest =>
      cases h' with
      | @ok more hmore =>
        have hall : ∀ d ∈ c :: rest ++ more, test d = true := by
          intro d hd
          rcases List.mem_append.mp hd with hd | hd
          · exact hhits d hd
          · exact hmore d hd
        exact .ok hall
      | error f => exact .found f (hhits c List.mem_cons_self)
      | found f _ => exact .found f (hhits c List.mem_cons_self)

end FirstOf

/-- With nothing before it a search gives what it finds. -/
lemma bind_nil_append (found : Except Failure (List Component)) :
    (found >>= fun more => .ok ([] ++ more)) = found := by
  cases found <;> rfl

namespace Mode

variable {visit all first : Component → Query (List Component)} {c : Component}
  {rest cs : List Component}

lemma outcome_gather_all_cons : (Mode.all.gather visit (c :: rest)).outcome =
    (visit c).outcome >>= fun hits =>
      (Mode.all.gather visit rest).outcome >>= fun more => .ok (hits ++ more) := by
  rw [outcome_gather_cons]
  exact congrArg _ (funext fun hits => if_neg (by simp))

lemma outcome_gather_first_cons : (Mode.first.gather visit (c :: rest)).outcome =
    (visit c).outcome >>= fun hits =>
      if hits = [] then (Mode.first.gather visit rest).outcome else .ok hits := by
  rw [outcome_gather_cons]
  refine congrArg _ (funext fun hits => ?_)
  cases hits with
  | nil => exact bind_nil_append _
  | cons _ _ => rfl

/-- Visits one after another. -/
lemma firstOf_gather (h : ∀ c ∈ cs, FirstOf test (all c).outcome (first c).outcome) :
    FirstOf test (Mode.all.gather all cs).outcome (Mode.first.gather first cs).outcome := by
  induction cs with
  | nil => exact .ok (by simp)
  | cons c rest ih =>
    rw [outcome_gather_all_cons, outcome_gather_first_cons]
    exact (h c List.mem_cons_self).append (ih fun d hd => h d (List.mem_cons_of_mem c hd))

end Mode

namespace Source

variable (s : Source) (test : Component → Bool) (limit : Nat)

lemma outcome_visit_all_succ (levels : Nat) (c : Component) :
    (s.visit test .all limit (levels + 1) c).outcome =
      (.ok (if test c then [c] else []) : Except Failure (List Component)) >>= fun here =>
        (Mode.all.gather (s.visit test .all limit levels) (s.childrenOf c.id)).outcome >>=
          fun below => .ok (here ++ below) := by
  rw [outcome_visit_succ, if_neg (by simp)]
  rfl

lemma outcome_visit_first_succ (levels : Nat) (c : Component) :
    (s.visit test .first limit (levels + 1) c).outcome =
      (.ok (if test c then [c] else []) : Except Failure (List Component)) >>= fun here =>
        if here = [] then
          (Mode.first.gather (s.visit test .first limit levels) (s.childrenOf c.id)).outcome
        else .ok here := by
  rw [outcome_visit_succ]
  by_cases hc : test c = true
  · rw [if_pos ⟨rfl, hc⟩, if_pos hc]
    rfl
  · rw [if_neg fun h => hc h.2, if_neg hc]
    exact bind_nil_append _

/-- **A descent that stops at the first ends like the collecting one or before it.** -/
theorem firstOf_visit (levels : Nat) (c : Component) :
    FirstOf test (s.visit test .all limit levels c).outcome
      (s.visit test .first limit levels c).outcome := by
  induction levels generalizing c with
  | zero => exact .error _
  | succ levels ih =>
    rw [outcome_visit_all_succ, outcome_visit_first_succ]
    have hhere : FirstOf test (.ok (if test c = true then [c] else []))
        (.ok (if test c = true then [c] else [])) := by
      split
      · next hc =>
        have hone : ∀ d ∈ [c], test d = true := by simpa using hc
        exact .ok hone
      · have hnone : ∀ d ∈ ([] : List Component), test d = true := by simp
        exact .ok hnone
    exact hhere.append (Mode.firstOf_gather fun d _ => ih d)

lemma firstOf_descend (start : Component) :
    FirstOf test (s.descend test .all limit start).outcome
      (s.descend test .first limit start).outcome :=
  s.firstOf_visit test limit (limit + 1) start

end Source

end ComponentTree
