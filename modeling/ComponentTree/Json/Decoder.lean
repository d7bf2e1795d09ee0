/-
# Documents in JSON

A document is read from a JSON text by decoders, functions from a node to what it stands for.
A decoder finds one of two defects: the text is not JSON at all, or it is JSON but of the
wrong form.

A record is written as an object.  It is read from an object, where members nobody asks for
are passed over and a member asked for may stand only once, or from a list that gives the
fields in their order and may end early.  A field is required, or has a value it takes when
it is absent; fields that have their value of absence are left out in writing (`Value.record`).
-/
import ComponentTree.Json.Reader

namespace ComponentTree.Json

/-- Why a text is not the document it should be. -/
inductive Defect where
  /-- It is not JSON. -/
  | malformed
  /-- It is JSON of the wrong form. -/
  | mismatched
deriving DecidableEq, Inhabited

/-- A decoder reads a node as a value of `α`. -/
abbrev Decoder (α : Type) := Node → Except Defect α

namespace Decoder

/-- What is wrong with a node of the wrong form. -/
def refuse {α : Type} : Decoder α
  | .unreadable => .error .malformed
  | _ => .error .mismatched

/-- A text. -/
def string : Decoder String
  | .string s => .ok s
  | node => refuse node

/-- A truth value. -/
def bool : Decoder Bool
  | .bool b => .ok b
  | node => refuse node

/-- An integer from 0 to 2^64 - 1. -/
def uint64 : Decoder UInt64
  | .number (.integer n) =>
    if 0 ≤ n ∧ n.toNat < UInt64.size then .ok (UInt64.ofNat n.toNat) else .error .mismatched
  | node => refuse node

/-- Any value. -/
def value : Decoder Value := fun node =>
  match node.value? with
  | some v => .ok v
  | none => .error .malformed

/-- An object whose members may have any names and values. -/
def dict : Decoder (Dict Value)
  | .object members =>
    match Node.memberValues? members with
    | some members => .ok (Dict.ofList members)
    | none => .error .malformed
  | node => refuse node

/-- A list, each item read by the same decoder. -/
def list {α : Type} (item : Decoder α) : Decoder (List α)
  | .array items => items.mapM item
  | node => refuse node

/-- Null for nothing, or what another decoder reads. -/
def nullable {α : Type} (decoder : Decoder α) : Decoder (Option α)
  | .null => .ok none
  | node => (decoder node).map some

/-! ### Records -/

/-- The fields of a record that are present. -/
structure Fields where
  /-- Each field once, with its node. -/
  present : List (String × Node)
  /-- Whether a list had more items than the record has fields. -/
  surplus : Bool

namespace Fields

/-- The fields of these names. -/
def ofNode (names : List String) : Decoder Fields
  | .object members =>
    let known := members.filter fun m => names.contains m.1
    if (known.map (·.1)).Nodup then .ok ⟨known, false⟩ else .error .mismatched
  | .array items => .ok ⟨names.zip items, names.length < items.length⟩
  | node => refuse node

/-- A field that has to be there. -/
def required {α : Type} (fields : Fields) (name : String) (decoder : Decoder α) :
    Except Defect α :=
  match fields.present.lookup name with
  | some node => decoder node
  | none => .error .mismatched

/-- A field that may be absent. -/
def optional {α : Type} (fields : Fields) (name : String) (absent : α) (decoder : Decoder α) :
    Except Defect α :=
  match fields.present.lookup name with
  | some node => decoder node
  | none => .ok absent

end Fields

/-- A record with fields of these names. -/
def record {α : Type} (names : List String) (make : Fields → Except Defect α) : Decoder α :=
  fun node => do
    let fields ← Fields.ofNode names node
    let result ← make fields
    if fields.surplus then .error .malformed else return result

/-! ### Whole texts -/

/-- Read the bytes of a text. -/
def readBytes {α : Type} (decoder : Decoder α) (bytes : ByteArray) : Except Defect α :=
  match Json.readBytes bytes with
  | some node => decoder node
  | none => .error .malformed

/-- Read a text. -/
def read {α : Type} (decoder : Decoder α) (text : String) : Except Defect α :=
  decoder.readBytes text.toUTF8

end Decoder

namespace Value

/-- The object of a record, its fields in their order, without the fields that are none. -/
def record (fields : List (String × Option Value)) : Value :=
  .object (fields.filterMap fun f => f.2.map (f.1, ·))

/-- A map as a field, left out when it is empty. -/
def ofNonempty (d : Dict Value) : Option Value :=
  if d.isEmpty then none else some (ofDict d)

end Value

end ComponentTree.Json
