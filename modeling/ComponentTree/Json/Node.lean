/-
# JSON as it is written

The reader of a JSON text (`Json/Reader`) does not decide yet what the text is for.  It gives
a `Node`: members stand in the order of the text, a name may occur twice, and a part that is
well-formed but stands for no value is kept as `unreadable`, because a document may have
members nobody looks at.  Unreadable are a number too large for a double, a text with half
of a surrogate pair, and a list or object inside more than 126 others.

A node that is looked at as a value must not have anything unreadable in it, and of a name
that occurs twice the later member counts (`Node.value?`).
-/
import ComponentTree.Json.Value

namespace ComponentTree.Json

/-- A JSON text as it is written. -/
inductive Node where
  | null
  | bool (value : Bool)
  | number (value : Number)
  | string (text : String)
  | array (items : List Node)
  | object (members : List (String × Node))
  | unreadable
deriving Inhabited

namespace Node

mutual

/-- The value a node stands for, if all of it can be read. -/
def value? : Node → Option Value
  | null => some .null
  | bool b => some (.bool b)
  | number n => some (.number n)
  | string s => some (.string s)
  | array items => (itemValues? items).map .array
  | object members => (memberValues? members).map fun ms => .ofDict (Dict.ofList ms)
  | unreadable => none

/-- The values of the items of a list. -/
def itemValues? : List Node → Option (List Value)
  | [] => some []
  | n :: rest => do
    let v ← value? n
    let vs ← itemValues? rest
    return v :: vs

/-- The values of the members of an object. -/
def memberValues? : List (String × Node) → Option (List (String × Value))
  | [] => some []
  | (k, n) :: rest => do
    let v ← value? n
    let vs ← memberValues? rest
    return (k, v) :: vs

end

mutual

/-- A value as it is written. -/
def ofValue : Value → Node
  | .null => null
  | .bool b => bool b
  | .number n => number n
  | .string s => string s
  | .array items => array (ofItems items)
  | .object members => object (ofMembers members)

/-- The items of a list as they are written. -/
def ofItems : List Value → List Node
  | [] => []
  | v :: rest => ofValue v :: ofItems rest

/-- The members of an object as they are written. -/
def ofMembers : List (String × Value) → List (String × Node)
  | [] => []
  | (k, v) :: rest => (k, ofValue v) :: ofMembers rest

end

end Node

end ComponentTree.Json
