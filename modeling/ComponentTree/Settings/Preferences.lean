/-
# Preferences

Preferences say how queries are made when nothing else is asked for: how deep a descent may
go, whether all components are collected or only the first, and which component is the root.
Each has a default that a document may rely on by leaving it out.
-/
import ComponentTree.Json.Decoder
import ComponentTree.Query.Tree

namespace ComponentTree.Settings

open Json (Value Decoder)

/-- How queries are made. -/
structure QueryPreferences where
  /-- How many links below its start a descent may go. -/
  maxDepth : UInt64
  /-- Whether all components are collected. -/
  collectAll : Bool
deriving DecidableEq, Inhabited

namespace QueryPreferences

/-- The preferences of who has none. -/
def default : QueryPreferences := ⟨UInt64.ofNat Tree.defaultMaxDepth, false⟩

/-- The mode of queries. -/
def mode (p : QueryPreferences) : Mode := if p.collectAll then .all else .first

/-- The limit on descents, which is never below one. -/
def depthLimit (p : QueryPreferences) : Nat := max p.maxDepth.toNat 1

/-- Preferences as a document. -/
def encode (p : QueryPreferences) : Value :=
  .record [("max_depth", some (.ofNat p.maxDepth.toNat)), ("collect_all", some (.bool p.collectAll))]

/-- The preferences of a document. -/
def decode : Decoder QueryPreferences :=
  Decoder.record ["max_depth", "collect_all"] fun fields => do
    let maxDepth ← fields.optional "max_depth" default.maxDepth Decoder.uint64
    let collectAll ← fields.optional "collect_all" default.collectAll Decoder.bool
    return ⟨maxDepth, collectAll⟩

end QueryPreferences

/-- How queries are made, and where chains of steps start. -/
structure Preferences where
  query : QueryPreferences
  /-- The id of the root, where the snapshot names none. -/
  root : Option String
deriving DecidableEq, Inhabited

namespace Preferences

/-- The preferences of who has none. -/
def default : Preferences := ⟨.default, none⟩

/-- The key under which preferences are stored. -/
def key : String := "registry"

/-- Preferences as a document. -/
def encode (p : Preferences) : Value :=
  .record [("query", some p.query.encode), ("root_id", p.root.map .string)]

/-- The preferences of a document. -/
def decode : Decoder Preferences :=
  Decoder.record ["query", "root_id"] fun fields => do
    let query ← fields.optional "query" .default QueryPreferences.decode
    let root ← fields.optional "root_id" none (Decoder.nullable Decoder.string)
    return ⟨query, root⟩

end Preferences

end ComponentTree.Settings
