/-
# Asking a tree

A tree is a source with a root and a limit on the depth of descents.  It answers queries for
the components that a selector picks: within a component and all below it, above a component,
or along a chain of steps that starts at the root.

A selector is normalised before anything is looked up.  A start that is not there gives an
empty answer, not a failure, and so does a root that is not there; only a root that is not
set is a failure.
-/
import ComponentTree.Distinct
import ComponentTree.Query.Ascent
import ComponentTree.Query.Descent
import ComponentTree.Selector.Acceptance

namespace ComponentTree

open Selector (Form Step)

/-- Components to ask for, and how to ask. -/
structure Tree where
  /-- Where the components are. -/
  source : Source
  /-- The id at which chains of steps start. -/
  root : Option String
  /-- How many links below its start a descent may go. -/
  maxDepth : Nat

namespace Tree

/-- How deep a descent may go unless something else is asked for. -/
def defaultMaxDepth : Nat := 512

/-- The component of an id. -/
def get? (t : Tree) (id : String) : Option Component := t.source.get? id

/-- Whether there is a component of an id. -/
def contains (t : Tree) (id : String) : Bool := t.source.contains id

/-- The root, if it is set and there. -/
def rootComponent? (t : Tree) : Option Component := t.root.bind t.source.get?

/-- The components that pass a test, by one search. -/
def find (t : Tree) (test : Component → Bool) : Query (List Component) :=
  Query.search (t.source.search test)

/-! ### Down -/

/-- Descend from a component to those that a step accepts. -/
def descend (t : Tree) (step : Step) (mode : Mode) (start : Component) : Query (List Component) :=
  t.source.descend step.accepts mode t.maxDepth start

/-- The components that a selector of one step picks among a start and all below it. -/
def within (t : Tree) (start : Component) (form : Form) (mode : Mode) : Query Answer := do
  let step ← Query.ofSelector form.single
  let hits ← t.descend step mode start
  return Answer.ofHits mode hits

/-- The same for the start of an id.  Only if it is there does the number of steps matter. -/
def withinId (t : Tree) (id : String) (form : Form) (mode : Mode) : Query Answer := do
  let selector ← Query.ofSelector form.normalise
  match t.get? id with
  | some start => t.within start (.steps selector.steps) mode
  | none => return Answer.empty mode

/-- All components below one. -/
def below (t : Tree) (start : Component) : Query (List Component) :=
  t.source.descendants t.maxDepth start

/-! ### Up -/

/-- The components that a selector of one step picks above the component of an id. -/
def aboveId (t : Tree) (id : String) (form : Form) (mode : Mode) : Query Answer := do
  let step ← Query.ofSelector form.single
  match t.get? id with
  | some start =>
    let hits ← Query.ofOutcome (t.source.ascend step.accepts mode start)
    return Answer.ofHits mode hits
  | none => return Answer.empty mode

/-- All components above one, nearest first. -/
def above (t : Tree) (start : Component) : Query (List Component) :=
  .ofOutcome (t.source.ascend Step.any.accepts .all start)

/-- The ids of all components above one, nearest first. -/
def aboveIds (t : Tree) (start : Component) : Query (List String) := do
  let ancestors ← t.above start
  return ancestors.map (·.id)

/-! ### Chains of steps -/

/-- Follow a chain of steps from the components of a scope: each step is searched for within
every component of the scope, and what it picks is the scope of the next step. -/
def follow (t : Tree) (mode : Mode) : List Step → List Component → Query Answer
  | [], scope => return Answer.ofHits mode scope
  | step :: rest, scope => do
    let hits ← mode.gather (t.descend step mode) scope
    if hits = [] then return Answer.empty mode
    else t.follow mode rest (distinctBy Component.id hits)

/-- The components that a selector picks from the root. -/
def resolve (t : Tree) (form : Form) (mode : Mode) : Query Answer := do
  let selector ← Query.ofSelector form.normalise
  match t.root with
  | none => .fail .noRoot
  | some id =>
    match t.get? id with
    | none => return Answer.empty mode
    | some root => t.follow mode selector.steps [root]

/-! ### Paths of ids

A path of ids that was kept for later may have ids in it that are no longer there. -/

/-- The first id of a path that is there; the empty id does not count. -/
def firstKnown (t : Tree) (path : List String) : Option String :=
  path.find? fun id => id ≠ "" ∧ t.contains id

/-- The ids of a path that are there. -/
def known (t : Tree) (path : List String) : List String := path.filter t.contains

end Tree

end ComponentTree
