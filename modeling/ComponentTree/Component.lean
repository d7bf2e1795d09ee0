/-
# Components

A component is known by its id, may name the id of a parent, has a lineage and has properties
of its own.  Three keys have a meaning beyond the component's own properties: `id` and
`parentId` always stand for the two ids, and `ntype`, where the component has no such property
itself, for the name of its type.  Every other key is looked up among the component's own
properties and then among the defaults of its lineage (`Component.property`).
-/
import ComponentTree.Lineage

namespace ComponentTree

open Json (Value)

/-- A component. -/
structure Component where
  /-- The id. -/
  id : String
  /-- The id of the parent, which need not be that of any component. -/
  parent : Option String
  /-- The types, most derived first. -/
  lineage : Lineage
  /-- The component's own properties. -/
  properties : Dict Value
deriving BEq, Inhabited

namespace Component

/-- The key that stands for the id. -/
def idKey : String := "id"

/-- The key that stands for the id of the parent. -/
def parentKey : String := "parentId"

/-- The key that stands for the type. -/
def typeKey : String := "ntype"

/-- The name of the component's type. -/
def typeName? (c : Component) : Option String := c.lineage.mostDerived?.map (·.name)

/-- The value a key has by the component's types: the name of the type for `ntype`, the
default of the lineage for every other key. -/
def inherited (c : Component) (key : String) : Option Value :=
  if key = typeKey then
    match c.typeName? with
    | some name => some (.string name)
    | none => c.lineage.default? key
  else c.lineage.default? key

/-- The value of a key. -/
def property (c : Component) (key : String) : Option Value :=
  if key = idKey then some (.string c.id)
  else if key = parentKey then c.parent.map .string
  else
    match c.properties.get? key with
    | some v => some v
    | none => c.inherited key

/-- The component with another parent. -/
def withParent (c : Component) (parent : Option String) : Component := { c with parent }

/-- The component with a property of its own. -/
def withProperty (c : Component) (key : String) (value : Value) : Component :=
  { c with properties := c.properties.insert key value }

@[simp] theorem property_id (c : Component) : c.property "id" = some (.string c.id) := rfl

@[simp] theorem property_parentId (c : Component) :
    c.property "parentId" = c.parent.map .string := rfl

end Component

end ComponentTree
