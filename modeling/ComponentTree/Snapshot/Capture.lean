/-
# Writing a forest down

A component is written with the name of its type, so its lineage has to be found again from
the type entries.  The types are taken from the lineages, component by component and most
derived first, and each name is written once, with the base it has where it occurs first.
-/
import ComponentTree.Distinct
import ComponentTree.Snapshot.Basic

namespace ComponentTree.Snapshot

/-- The entries of the types of a lineage: each extends the next. -/
def entriesOf : List ComponentType → List TypeEntry
  | [] => []
  | t :: rest => ⟨t.name, rest.head?.map (·.name), t.defaults⟩ :: entriesOf rest

/-- The entry of a component. -/
def entryOf (c : Component) : ComponentEntry := ⟨c.id, c.parent, c.typeName?, c.properties⟩

/-- The snapshot of a forest. -/
def capture (f : Forest) (root : Option String) : Snapshot where
  root := root
  types := distinctBy TypeEntry.name (f.toList.flatMap fun c => entriesOf c.lineage.types)
  components := f.toList.map entryOf

end ComponentTree.Snapshot
