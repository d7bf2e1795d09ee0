/-
# Finding all lineages, each once

To climb from every type of a catalog to its last base anew would go the same ways again and
again.  A builder keeps the lineages that it has found, so a way that comes to one of them ends
there.  It also keeps a stack of the names it has come by on the way that it is on; a way that
comes to one of these would never end (`Builder.resolve`).

The names of a catalog are met in an order that a table of names happens to have, which says
nothing about the order in which the types stand (`Enumeration`).
-/
import ComponentTree.Snapshot.Catalog

namespace ComponentTree.Snapshot

namespace Catalog

/-- A name that the catalog has. -/
abbrev Name (catalog : Catalog) : Type := { name : String // catalog.contains name = true }

/-- The entry of a name. -/
def entry (catalog : Catalog) (name : catalog.Name) : TypeEntry :=
  (catalog.get? name.1).get name.2

theorem get?_entry (catalog : Catalog) (name : catalog.Name) :
    catalog.get? name.1 = some (catalog.entry name) := (Option.some_get name.2).symm

/-- The names of a catalog that are not on a way. -/
def off (catalog : Catalog) (way : List String) : List String :=
  catalog.keys.filter fun name => name ∉ way

theorem length_off_lt (catalog : Catalog) {name : String} {way : List String}
    (hname : catalog.contains name = true) (h : name ∉ way) :
    (catalog.off (name :: way)).length < (catalog.off way).length := by
  have hsub : catalog.off (name :: way) = (catalog.off way).filter fun n => n ≠ name := by
    rw [off, off, List.filter_filter]
    refine List.filter_congr fun n _ => ?_
    simp
  have hkey : name ∈ catalog.keys := (catalog.mem_keys_iff name).mpr hname
  rw [hsub]
  refine List.length_filter_lt_length_iff_exists.mpr ⟨name, List.mem_filter.mpr ⟨hkey, ?_⟩, ?_⟩
  · exact decide_eq_true h
  · simp

end Catalog

/-- An order in which the names of every catalog are met, each once. -/
structure Enumeration where
  /-- The names of a catalog, in the order in which they are met. -/
  names : (catalog : Catalog) → List catalog.Name
  /-- Every name is met, and none twice. -/
  perm : ∀ catalog, ((names catalog).map (·.1)).Perm catalog.keys

/-- The order of the table itself. -/
def Enumeration.ascending : Enumeration where
  names catalog := catalog.keys.attach.map fun name =>
    ⟨name.1, (catalog.mem_keys_iff name.1).mp name.2⟩
  perm catalog := by
    rw [List.map_map]
    exact .of_eq catalog.keys.attach_map_subtype_val

/-- What is known while lineages are found. -/
structure Builder where
  /-- The lineages found, each under its first name. -/
  built : Dict Lineage
  /-- The names that the present way has come by, the last one first. -/
  visiting : List String

namespace Builder

/-- The builder that knows nothing yet. -/
def start : Builder := ⟨∅, []⟩

/-- Begin to find the lineage of a name. -/
def push (b : Builder) (name : String) : Builder := { b with visiting := name :: b.visiting }

/-- Keep the lineage of the name on top of the stack, which is found now. -/
def pop (b : Builder) (name : String) (lineage : Lineage) : Lineage × Builder :=
  (lineage, ⟨b.built.insert name lineage, b.visiting.tail⟩)

/-- The lineage of a name of the catalog, and what is known when it is found. -/
def resolve (catalog : Catalog) (b : Builder) (name : catalog.Name) :
    Except Error (Lineage × Builder) :=
  match b.built.get? name.1 with
  | some lineage => .ok (lineage, b)
  | none =>
    if hvisiting : name.1 ∈ b.visiting then .error (.typeLoop name.1)
    else
      match (catalog.entry name).base with
      | none => .ok ((b.push name.1).pop name.1 (Lineage.untyped.extend (catalog.entry name).type))
      | some base =>
        if hbase : catalog.contains base = true then
          have : (catalog.off (name.1 :: b.visiting)).length < (catalog.off b.visiting).length :=
            catalog.length_off_lt name.2 hvisiting
          (resolve catalog (b.push name.1) ⟨base, hbase⟩).map fun (lineage, b') =>
            b'.pop name.1 (lineage.extend (catalog.entry name).type)
        else .error (.unknownBase (catalog.entry name).name base)
termination_by (catalog.off b.visiting).length

/-- Find the lineages of names, one after another. -/
def resolveAll (catalog : Catalog) (b : Builder) (names : List catalog.Name) :
    Except Error Builder :=
  names.foldlM (fun b name => (b.resolve catalog name).map (·.2)) b

/-- The lineages of all types, by their names, where names are met in an order. -/
def build (order : Enumeration) (types : List TypeEntry) : Except Error (Dict Lineage) := do
  let catalog ← Catalog.ofEntries types
  let b ← start.resolveAll catalog (order.names catalog)
  return b.built

end Builder

end ComponentTree.Snapshot
