/-
# Snapshots

A snapshot is a forest written down: the types that its components have, each with the name
of the type it extends, then the components, each with the name of its type.  It may also say
which component is the root.
-/
import ComponentTree.Forest.Basic

namespace ComponentTree

open Json (Value)

namespace Snapshot

/-- A type as it is written down. -/
structure TypeEntry where
  name : String
  /-- The name of the type that this one extends. -/
  base : Option String
  defaults : Dict Value
deriving BEq, Inhabited

/-- A component as it is written down. -/
structure ComponentEntry where
  id : String
  parent : Option String
  /-- The name of the component's type. -/
  typeName : Option String
  properties : Dict Value
deriving BEq, Inhabited

/-- Why no forest can be made of a snapshot. -/
inductive Error where
  /-- Two types have this name. -/
  | repeatedType (name : String)
  /-- The type `name` extends a type `base` that there is not. -/
  | unknownBase (name base : String)
  /-- The type `name` extends itself by way of others. -/
  | typeLoop (name : String)
  /-- The component `id` has a type `typeName` that there is not. -/
  | unknownType (id typeName : String)
  /-- A component cannot be registered. -/
  | refused (refusal : Forest.Refusal)
deriving DecidableEq, Inhabited

/-- The wording of an error. -/
def Error.message : Error → String
  | repeatedType name => "type declared twice: " ++ name
  | unknownBase name base => "type " ++ name ++ " extends unknown type " ++ base
  | typeLoop name => "type inheritance loops through " ++ name
  | unknownType id typeName => "component " ++ id ++ " has unknown type " ++ typeName
  | refused refusal => refusal.message

/-- The type that an entry gives. -/
def TypeEntry.type (t : TypeEntry) : ComponentType := ⟨t.name, t.defaults⟩

/-- The component that an entry gives, of a lineage. -/
def ComponentEntry.component (c : ComponentEntry) (lineage : Lineage) : Component :=
  ⟨c.id, c.parent, lineage, c.properties⟩

end Snapshot

/-- A forest written down. -/
structure Snapshot where
  /-- The id of the root. -/
  root : Option String
  types : List Snapshot.TypeEntry
  components : List Snapshot.ComponentEntry
deriving BEq, Inhabited

end ComponentTree
