/-
# Selectors

A selector is a chain of steps, outermost first.  A step asks for a type name and for values
of properties; a step that asks for nothing accepts every component.  In the written forms a
type name may also stand under the key `ntype`, and the first text given under that key is the
type name unless the step has one already (`Step.require`).
-/
import ComponentTree.Component
import ComponentTree.Selector.Error

namespace ComponentTree

open Json (Value)

namespace Selector

/-- One step of a selector. -/
structure Step where
  /-- The name of a type that has to be in the lineage. -/
  typeName : Option String
  /-- The values that properties have to have. -/
  constraints : Dict Value
deriving BEq, Inhabited

namespace Step

/-- The step that asks for nothing. -/
def any : Step := ⟨none, ∅⟩

/-- A step that asks for a value of a property as well. -/
def require (s : Step) (key : String) (value : Value) : Step :=
  match value, s.typeName with
  | .string name, none =>
    if key = Component.typeKey then { s with typeName := some name }
    else { s with constraints := s.constraints.insert key value }
  | _, _ => { s with constraints := s.constraints.insert key value }

/-- The step that asks for the members of an object. -/
def ofMembers (members : List (String × Value)) : Step :=
  members.foldl (fun s m => s.require m.1 m.2) any

/-- Whether the step asks for nothing. -/
def isAny (s : Step) : Bool := s.typeName.isNone && s.constraints.isEmpty

end Step

end Selector

/-- A chain of steps, outermost first. -/
structure Selector where
  steps : List Selector.Step
deriving BEq, Inhabited

namespace Selector

/-- How many steps the selector has. -/
def size (s : Selector) : Nat := s.steps.length

/-- Whether the selector has no steps. -/
def isEmpty (s : Selector) : Bool := s.steps.isEmpty

/-- The selector as one step; without steps it asks for nothing. -/
def single (s : Selector) : Except Error Step :=
  match s.steps with
  | [] => .ok Step.any
  | [step] => .ok step
  | steps => .error (.severalSteps steps.length)

end Selector

end ComponentTree
