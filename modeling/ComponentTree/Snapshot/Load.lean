/-
# Making a forest of a snapshot

The types are made into lineages first, then the components are registered in their order.
-/
import ComponentTree.Snapshot.Catalog

namespace ComponentTree.Snapshot

/-- The lineage of a component entry. -/
def ComponentEntry.lineage (lineages : Dict Lineage) (c : ComponentEntry) : Except Error Lineage :=
  match c.typeName with
  | none => .ok .untyped
  | some name =>
    match lineages.get? name with
    | some lineage => .ok lineage
    | none => .error (.unknownType c.id name)

/-- Register the component of an entry. -/
def register (lineages : Dict Lineage) (f : Forest) (c : ComponentEntry) : Except Error Forest := do
  let lineage ← c.lineage lineages
  (Outcome.state (f.register (c.component lineage))).mapError .refused

/-- The forest that a snapshot describes. -/
def load (s : Snapshot) : Except Error Forest := do
  let lineages ← Catalog.lineages s.types
  s.components.foldlM (register lineages) ∅

end ComponentTree.Snapshot
