/-
# Selectors as documents

A selector is kept as the list of its steps, a step as a record of its type name and its
constraints, each of which is left out when there is none.
-/
import ComponentTree.Json.Decoder
import ComponentTree.Selector.Basic

namespace ComponentTree.Selector

open Json (Value Decoder)

/-- A step as a document. -/
def Step.encode (s : Step) : Value :=
  .record [("type_name", s.typeName.map .string), ("constraints", Value.ofNonempty s.constraints)]

/-- The step of a document. -/
def Step.decode : Decoder Step :=
  Decoder.record ["type_name", "constraints"] fun fields => do
    let typeName ← fields.optional "type_name" none (Decoder.nullable Decoder.string)
    let constraints ← fields.optional "constraints" ∅ Decoder.dict
    return ⟨typeName, constraints⟩

/-- A selector as a document. -/
def encode (s : Selector) : Value := .array (s.steps.map Step.encode)

/-- The selector of a document. -/
def decode : Decoder Selector := fun node => (Decoder.list Step.decode node).map Selector.mk

end ComponentTree.Selector
