/-
# Writing selectors

A step is written as its type name followed by its constraints in a bracket, in ascending
order of their keys, and steps are parted by a space.  A text is put between double quotation
marks, or between single ones if it has a double one in it; any other value is written as
JSON.  A step that asks for nothing is written as an empty bracket.
-/
import ComponentTree.Json.Printer
import ComponentTree.Selector.Basic

namespace ComponentTree.Selector

open Json (Value)

/-- The value of a constraint as it is written. -/
def renderValue : Value → String
  | .string s => if s.contains '"' then "'" ++ s ++ "'" else "\"" ++ s ++ "\""
  | v => v.compact

/-- A constraint as it is written. -/
def renderConstraint (c : String × Value) : String := c.1 ++ "=" ++ renderValue c.2

/-- A step as it is written. -/
def Step.render (s : Step) : String :=
  s.typeName.getD "" ++
    if s.constraints.isEmpty then
      if s.typeName.isNone then "[]" else ""
    else "[" ++ ",".intercalate (s.constraints.entries.map renderConstraint) ++ "]"

/-- A selector as it is written. -/
def render (s : Selector) : String := " ".intercalate (s.steps.map Step.render)

end ComponentTree.Selector
