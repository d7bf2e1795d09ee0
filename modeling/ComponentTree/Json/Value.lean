/-
# JSON values

A value is null, a truth value, a number, a text, a list of values or an object.  The members
of an object that stands for a map are in ascending order of their names, each name once
(`Value.ofDict`), so two such objects with the same members are the same value whatever order
they were written in.  The members of a record that is about to be written stand in the order
of its fields.

Values are compared strictly: the text `"1"`, the integer `1` and the double `1.0` are three
different values, and only the two zero doubles are equal without being the same.
-/
import ComponentTree.Dict
import ComponentTree.Json.Number

namespace ComponentTree.Json

/-- A JSON value. -/
inductive Value where
  | null
  | bool (value : Bool)
  | number (value : Number)
  | string (text : String)
  | array (items : List Value)
  | object (members : List (String × Value))
deriving Inhabited

namespace Value

mutual

/-- Strict equality of values. -/
def beq : Value → Value → Bool
  | null, null => true
  | bool a, bool b => a == b
  | number a, number b => a == b
  | string a, string b => a == b
  | array a, array b => beqItems a b
  | object a, object b => beqMembers a b
  | _, _ => false

/-- Lists are equal when their items are, one by one. -/
def beqItems : List Value → List Value → Bool
  | [], [] => true
  | a :: as, b :: bs => beq a b && beqItems as bs
  | _, _ => false

/-- Objects are equal when their members are, one by one. -/
def beqMembers : List (String × Value) → List (String × Value) → Bool
  | [], [] => true
  | (k, a) :: as, (l, b) :: bs => k == l && beq a b && beqMembers as bs
  | _, _ => false

end

instance : BEq Value := ⟨beq⟩

/-- The object whose members are the entries of a map. -/
def ofDict (d : Dict Value) : Value := .object d.entries

/-- A natural number as a value. -/
def ofNat (n : Nat) : Value := .number (.integer n)

/-- A list of texts as a value. -/
def ofStrings (texts : List String) : Value := .array (texts.map .string)

/-- A text, or null where there is none. -/
def ofOption : Option String → Value
  | none => .null
  | some s => .string s

@[simp] theorem beq_string (a b : String) : (string a == string b) = (a == b) := rfl

end Value

end ComponentTree.Json
