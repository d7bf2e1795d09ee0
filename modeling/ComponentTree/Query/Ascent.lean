/-
# The way up

The ancestors of a component are found by following parent ids.  The way ends at a component
without a parent or with one that is not there.  Where parent links form a loop, it ends when
it comes to an id for the second time, and that id is remembered (`Source.ancestry`).
-/
import ComponentTree.Query.Basic

namespace ComponentTree

/-- The components on the way up from one. -/
structure Ancestry where
  /-- The ancestors, nearest first, each once. -/
  ancestors : List Component
  /-- The id to which the way comes back, if it does. -/
  loop : Option String
deriving Inhabited

namespace Source

/-- The components of the pool whose ids were not seen yet. -/
def unseen (s : Source) (seen : List String) : List Component :=
  s.pool.filter fun c => !seen.contains c.id

theorem length_unseen_lt (s : Source) {seen : List String} {c : Component} (hc : c ∈ s.pool)
    (h : c.id ∉ seen) : (s.unseen (c.id :: seen)).length < (s.unseen seen).length := by
  have hsub : s.unseen (c.id :: seen) = (s.unseen seen).filter fun d => d.id ≠ c.id := by
    simp only [unseen, List.filter_filter]
    refine List.filter_congr fun d _ => ?_
    simp
  rw [hsub]
  refine List.length_filter_lt_length_iff_exists.mpr ⟨c, List.mem_filter.mpr ⟨hc, ?_⟩, ?_⟩
  · simpa using h
  · simp

/-- The way up along a link, where the ids of `seen` were passed before. -/
def climb (s : Source) (seen : List String) (link : Option String) : Ancestry :=
  match h : link.bind s.get? with
  | none => ⟨[], none⟩
  | some c =>
    if hseen : c.id ∈ seen then ⟨[], some c.id⟩
    else
      have : (s.unseen (c.id :: seen)).length < (s.unseen seen).length :=
        s.length_unseen_lt (let ⟨_, _, hget⟩ := Option.bind_eq_some_iff.mp h; s.mem_pool hget) hseen
      let above := s.climb (c.id :: seen) c.parent
      ⟨c :: above.ancestors, above.loop⟩
termination_by (s.unseen seen).length

/-- The way up from a component. -/
def ancestry (s : Source) (start : Component) : Ancestry := s.climb [start.id] start.parent

end Source

/-- The ancestors that pass a test.  To have all of them the way must end; the first one is
found before the way comes back to an id, or not at all. -/
def Ancestry.select (a : Ancestry) (test : Component → Bool) :
    Mode → Except Failure (List Component)
  | .all =>
    match a.loop with
    | some id => .error (.loop id)
    | none => .ok (a.ancestors.filter test)
  | .first =>
    match a.ancestors.find? test, a.loop with
    | some c, _ => .ok [c]
    | none, some id => .error (.loop id)
    | none, none => .ok []

/-- The components that pass a test on the way up from a start, nearest first. -/
def Source.ascend (s : Source) (test : Component → Bool) (mode : Mode) (start : Component) :
    Except Failure (List Component) :=
  (s.ancestry start).select test mode

end ComponentTree
