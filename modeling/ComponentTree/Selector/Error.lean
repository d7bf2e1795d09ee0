/-
# What can be wrong with a selector

Positions are counted in bytes of the selector text.
-/
import ComponentTree.Text.Quoted

namespace ComponentTree.Selector

/-- Why something is not a selector. -/
inductive Error where
  /-- The bracket that opens at `pos` is not closed. -/
  | unclosed (pos : Nat)
  /-- A closing bracket at `pos` closes nothing. -/
  | unopened (pos : Nat)
  /-- A bracket opens at `pos` inside a bracket. -/
  | nested (pos : Nat)
  /-- The constraint `pair` at `pos` has no `=`. -/
  | noEquals (pair : String) (pos : Nat)
  /-- The constraint at `pos` has nothing before its `=`. -/
  | noKey (pos : Nat)
  /-- The quotation mark at `pos` has no partner. -/
  | unquoted (pos : Nat)
  /-- The character at `pos` cannot stand there. -/
  | unexpected (char : Char) (pos : Nat)
  /-- There are `count` steps where one is asked for. -/
  | severalSteps (count : Nat)
  /-- The item at `index` of a list of steps is not an object. -/
  | notAnObject (index : Nat)
  /-- A truth value is no selector. -/
  | truthValue
  /-- A number is no selector. -/
  | number
deriving DecidableEq, Inhabited

/-- The wording of an error. -/
def Error.message : Error → String
  | unclosed pos => "unclosed '[' at byte " ++ toString pos
  | unopened pos => "unexpected ']' at byte " ++ toString pos
  | nested pos => "nested '[' at byte " ++ toString pos
  | noEquals pair pos =>
    "missing '=' in constraint " ++ Text.quote pair ++ " at byte " ++ toString pos
  | noKey pos => "empty property name at byte " ++ toString pos
  | unquoted pos => "unterminated quote at byte " ++ toString pos
  | unexpected char pos => "unexpected " ++ Text.quoteChar char ++ " at byte " ++ toString pos
  | severalSteps count => "expected a single selector step, found " ++ toString count
  | notAnObject index => "selector list element " ++ toString index ++ " is not an object"
  | truthValue => "unsupported selector form: bool"
  | number => "unsupported selector form: number"

end ComponentTree.Selector
