/-
# The way down

A descent visits a component, then its children in the order of the source, each with all
that is below it, before the next.  It collects the components that pass a test, or stops at
the first of them.  A component more than `limit` links below the start makes it fail; since
the components of a source may form loops, only this bound makes every descent end.
-/
import ComponentTree.Query.Basic

namespace ComponentTree

namespace Mode

/-- Visit one component after another and put what they give in a row.  In the mode `first`,
stop with the first that gives anything. -/
def gather (mode : Mode) (visit : Component → Query (List Component)) :
    List Component → Query (List Component)
  | [] => pure []
  | c :: rest => do
    let hits ← visit c
    if mode = .first ∧ hits ≠ [] then return hits
    else
      let more ← gather mode visit rest
      return hits ++ more

theorem outcome_gather_cons (mode : Mode) (visit : Component → Query (List Component))
    (c : Component) (rest : List Component) : (mode.gather visit (c :: rest)).outcome =
      (visit c).outcome >>= fun here =>
        if mode = .first ∧ here ≠ [] then .ok here
        else (mode.gather visit rest).outcome >>= fun more => .ok (here ++ more) := by
  rw [gather, Query.outcome_bind]
  refine congrArg _ (funext fun here => ?_)
  split
  · rfl
  · exact Query.outcome_bind _ _

end Mode

namespace Source

/-- Visit a component and what is below it, where the component itself and all below it may
take up `levels` levels. -/
def visit (s : Source) (test : Component → Bool) (mode : Mode) (limit : Nat) :
    (levels : Nat) → Component → Query (List Component)
  | 0, c => .fail (.tooDeep c.id limit)
  | levels + 1, c => do
    let here := if test c then [c] else []
    if mode = .first ∧ here ≠ [] then return here
    else
      let children ← Query.search (s.childrenOf c.id)
      let below ← mode.gather (s.visit test mode limit levels) children
      return here ++ below

theorem visit_succ (s : Source) (test : Component → Bool) (mode : Mode) (limit levels : Nat)
    (c : Component) : s.visit test mode limit (levels + 1) c =
      if mode = .first ∧ test c = true then pure [c]
      else Query.search (s.childrenOf c.id) >>= fun children =>
        mode.gather (s.visit test mode limit levels) children >>= fun below =>
          pure ((if test c then [c] else []) ++ below) := by
  have hhere : (if test c = true then [c] else []) ≠ [] ↔ test c = true := by
    split <;> simp_all
  rw [visit]
  by_cases hstop : mode = .first ∧ test c = true
  · rw [if_pos hstop, if_pos ⟨hstop.1, hhere.mpr hstop.2⟩, if_pos hstop.2]
  · rw [if_neg hstop, if_neg fun h => hstop ⟨h.1, hhere.mp h.2⟩]

theorem outcome_visit_succ (s : Source) (test : Component → Bool) (mode : Mode)
    (limit levels : Nat) (c : Component) : (s.visit test mode limit (levels + 1) c).outcome =
      if mode = .first ∧ test c = true then .ok [c]
      else (mode.gather (s.visit test mode limit levels) (s.childrenOf c.id)).outcome >>=
        fun below => .ok ((if test c then [c] else []) ++ below) := by
  rw [visit_succ, apply_ite Query.outcome, Query.outcome_bind]
  refine ite_congr rfl (fun _ => rfl) fun _ => ?_
  exact Query.outcome_bind _ _

/-- The components that pass a test among a start and all below it, which may lie up to
`limit` links below. -/
def descend (s : Source) (test : Component → Bool) (mode : Mode) (limit : Nat)
    (start : Component) : Query (List Component) :=
  s.visit test mode limit (limit + 1) start

/-- All components below a start, which may lie up to `limit` links below. -/
def descendants (s : Source) (limit : Nat) (start : Component) : Query (List Component) := do
  let children ← Query.search (s.childrenOf start.id)
  Mode.all.gather (s.visit (fun _ => true) .all limit limit) children

end Source

end ComponentTree
