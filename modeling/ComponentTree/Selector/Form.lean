/-
# Forms of a selector

A query takes a selector as a list of steps, as a text, or as a JSON value: null for no steps,
a text, an object for one step, or a list of objects for several.  Normalising a form
(`Form.normalise`) gives the selector or says what is wrong; nothing else about a query can be
wrong before it starts.
-/
import ComponentTree.Selector.Parser

namespace ComponentTree.Selector

open Json (Value)

/-- The steps of the items of a list, the first of which stands at `index`. -/
def stepsOfItems (index : Nat) : List Value → Except Error (List Step)
  | [] => .ok []
  | .object members :: rest => (stepsOfItems (index + 1) rest).map (Step.ofMembers members :: ·)
  | _ :: _ => .error (.notAnObject index)

/-- The selector that a JSON value is. -/
def ofJson : Value → Except Error Selector
  | .null => .ok ⟨[]⟩
  | .string text => parse text
  | .object members => .ok ⟨[Step.ofMembers members]⟩
  | .array items => (stepsOfItems 0 items).map Selector.mk
  | .bool _ => .error .truthValue
  | .number _ => .error .number

/-- What a query takes as a selector. -/
inductive Form where
  | steps (steps : List Step)
  | text (text : String)
  | json (value : Value)
deriving Inhabited

/-- The selector of a form. -/
def Form.normalise : Form → Except Error Selector
  | .steps s => .ok ⟨s⟩
  | .text t => parse t
  | .json v => ofJson v

/-- The one step of a form. -/
def Form.single (form : Form) : Except Error Step := form.normalise >>= Selector.single

end ComponentTree.Selector
