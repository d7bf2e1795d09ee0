/-
# Snapshots as documents

A snapshot is kept as a record of its root, its types and its components.  What an entry does
not have is left out of its record; the two lists are always written.
-/
import ComponentTree.Json.Decoder
import ComponentTree.Snapshot.Basic

namespace ComponentTree.Snapshot

open Json (Value Decoder)

/-- A type as a document. -/
def TypeEntry.encode (t : TypeEntry) : Value :=
  .record [("name", some (.string t.name)), ("extends", t.base.map .string),
    ("defaults", Value.ofNonempty t.defaults)]

/-- The type of a document. -/
def TypeEntry.decode : Decoder TypeEntry :=
  Decoder.record ["name", "extends", "defaults"] fun fields => do
    let name ← fields.required "name" Decoder.string
    let base ← fields.optional "extends" none (Decoder.nullable Decoder.string)
    let defaults ← fields.optional "defaults" ∅ Decoder.dict
    return ⟨name, base, defaults⟩

/-- A component as a document. -/
def ComponentEntry.encode (c : ComponentEntry) : Value :=
  .record [("id", some (.string c.id)), ("parentId", c.parent.map .string),
    ("ntype", c.typeName.map .string), ("properties", Value.ofNonempty c.properties)]

/-- The component of a document. -/
def ComponentEntry.decode : Decoder ComponentEntry :=
  Decoder.record ["id", "parentId", "ntype", "properties"] fun fields => do
    let id ← fields.required "id" Decoder.string
    let parent ← fields.optional "parentId" none (Decoder.nullable Decoder.string)
    let typeName ← fields.optional "ntype" none (Decoder.nullable Decoder.string)
    let properties ← fields.optional "properties" ∅ Decoder.dict
    return ⟨id, parent, typeName, properties⟩

/-- A snapshot as a document. -/
def encode (s : Snapshot) : Value :=
  .record [("root", s.root.map .string), ("types", some (.array (s.types.map TypeEntry.encode))),
    ("components", some (.array (s.components.map ComponentEntry.encode)))]

/-- The snapshot of a document. -/
def decode : Decoder Snapshot :=
  Decoder.record ["root", "types", "components"] fun fields => do
    let root ← fields.optional "root" none (Decoder.nullable Decoder.string)
    let types ← fields.optional "types" [] (Decoder.list TypeEntry.decode)
    let components ← fields.optional "components" [] (Decoder.list ComponentEntry.decode)
    return ⟨root, types, components⟩

end ComponentTree.Snapshot
