/-
# From type entries to lineages

The types of a snapshot may stand in any order.  They make a catalog if no name occurs twice,
every base is there, and no type extends itself by way of others; then the lineage of each
type is found by going from base to base (`Catalog.lineage`).
-/
import ComponentTree.Snapshot.Basic

namespace ComponentTree.Snapshot

/-- The types of a snapshot by their names. -/
abbrev Catalog := Dict TypeEntry

namespace Catalog

/-- The first name that a list has for the second time. -/
def repeated? (seen : List String) : List String → Option String
  | [] => none
  | name :: rest => if name ∈ seen then some name else repeated? (name :: seen) rest

/-- The catalog of types with different names. -/
def ofEntries (types : List TypeEntry) : Except Error Catalog :=
  match repeated? [] (types.map (·.name)) with
  | some name => .error (.repeatedType name)
  | none => .ok (Dict.ofList (types.map fun t => (t.name, t)))

/-- The lineage of the type `name` of a catalog, where the types that are not `left` were
passed on the way to it. -/
def climb (catalog left : Catalog) (name : String) : Except Error Lineage :=
  match h : left.get? name with
  | none => .error (.typeLoop name)
  | some t =>
    match t.base with
    | none => .ok (Lineage.untyped.extend t.type)
    | some base =>
      if catalog.contains base then
        have : (left.erase name).size < left.size := Dict.size_erase_lt left h
        (climb catalog (left.erase name) base).map (·.extend t.type)
      else .error (.unknownBase t.name base)
termination_by left.size

/-- The lineage of a type of the catalog. -/
def lineage (catalog : Catalog) (name : String) : Except Error Lineage :=
  climb catalog catalog name

/-- The lineages of all types, by their names.  The types are taken in the order of a list. -/
def lineages (types : List TypeEntry) : Except Error (Dict Lineage) := do
  let catalog ← ofEntries types
  types.foldlM (fun found t => (lineage catalog t.name).map (found.insert t.name ·)) ∅

end Catalog

end ComponentTree.Snapshot
