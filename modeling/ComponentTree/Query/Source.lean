/-
# Sources of components

Queries ask a source: for the component of an id, for the components that pass a test, and
for the children of an id.  A forest is a source.  So is a plain list of components, which
promises less: two components may have the same id and parent links may form a loop.
-/
import ComponentTree.Forest.Basic

namespace ComponentTree

/-- What queries can ask. -/
structure Source where
  /-- The component of an id. -/
  get? : String → Option Component
  /-- Whether there is a component of an id. -/
  contains : String → Bool := fun id => (get? id).isSome
  /-- The components that pass a test. -/
  search : (Component → Bool) → List Component
  /-- The components whose parent has this id; found by one search. -/
  childrenOf : String → List Component := fun id => search fun c => c.parent == some id
  /-- All components that have an id to be found by. -/
  pool : List Component
  /-- Only components of the pool are found. -/
  mem_pool : ∀ {id c}, get? id = some c → c ∈ pool

namespace Source

/-- A plain list of components: the first of an id is found. -/
def ofList (cs : List Component) : Source where
  get? id := cs.find? (·.id == id)
  search test := cs.filter test
  pool := cs
  mem_pool := List.mem_of_find?_eq_some

end Source

/-- A forest as a source.  Its components are listed once for all searches. -/
def Forest.source (f : Forest) : Source where
  get? := f.get?
  contains := f.contains
  search := let cs := f.toList; cs.filter
  pool := f.table.values
  mem_pool h := List.mem_map.mpr ⟨(_, _), (Dict.mem_entries_iff _ _ _).mpr h, rfl⟩

end ComponentTree
