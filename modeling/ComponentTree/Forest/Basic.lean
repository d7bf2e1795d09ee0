/-
# Forests of components

A forest keeps components under their ids and remembers the order in which they were
registered.  The links between them are the parent ids, and a parent need not be there: it
may be registered later or have been taken out.  What a forest never has is a loop of parent
links, so registering or moving a component is refused when its new link would close one
(`Forest.trail`).  A change gives its reply and the forest as it is then, also when it is refused.
-/
import ComponentTree.Component
import ComponentTree.Outcome

namespace ComponentTree

open Json (Value)

/-- Components in the order of their registration. -/
structure Forest where
  /-- The ids, earliest first. -/
  order : List String
  /-- The component of each id. -/
  table : Dict Component
deriving BEq, Inhabited

namespace Forest

/-- Why a forest refuses a change. -/
inductive Refusal where
  /-- There is a component of this id already. -/
  | duplicate (id : String)
  /-- There is no component of this id. -/
  | unknown (id : String)
  /-- The link from `id` to `parent` would close a loop. -/
  | loop (id parent : String)
deriving DecidableEq, Inhabited

/-- The wording of a refusal. -/
def Refusal.message : Refusal → String
  | duplicate id => "component already registered: " ++ id
  | unknown id => "unknown component: " ++ id
  | loop id parent => "parent link " ++ id ++ " -> " ++ parent ++ " would create a cycle"

/-- The forest without components. -/
def empty : Forest := ⟨[], ∅⟩

instance : EmptyCollection Forest := ⟨empty⟩

/-! ### What a forest holds -/

/-- The components, in the order of their registration. -/
def toList (f : Forest) : List Component := f.order.filterMap f.table.get?

/-- The component of an id. -/
def get? (f : Forest) (id : String) : Option Component := f.table.get? id

/-- Whether there is a component of an id. -/
def contains (f : Forest) (id : String) : Bool := f.table.contains id

/-- How many components there are. -/
def size (f : Forest) : Nat := f.order.length

/-- Whether there are no components. -/
def isEmpty (f : Forest) : Bool := f.order.isEmpty

/-! ### Parent links -/

/-- The ids from a component upward by parent links, the component's own first.  A table entry
is used once, so also a loop is followed only until it closes. -/
def trail (table : Dict Component) (id : String) : List String :=
  match h : table.get? id with
  | none => [id]
  | some c =>
    match c.parent with
    | none => [id]
    | some parent =>
      have : (table.erase id).size < table.size := Dict.size_erase_lt table h
      id :: trail (table.erase id) parent
termination_by table.size

/-- Whether a link from `id` to `parent` would close a loop: `id` is on the way up from
`parent`. -/
def closesLoop (f : Forest) (id parent : String) : Bool := (trail f.table parent).contains id

/-- Check the link from `id` to a parent. -/
def checkLink (f : Forest) (id : String) : Option String → Except Refusal Unit
  | none => .ok ()
  | some parent => if f.closesLoop id parent then .error (.loop id parent) else .ok ()

/-! ### Changes -/

/-- Put a component behind all others. -/
def register (f : Forest) (c : Component) : Except Refusal Unit × Forest :=
  if f.contains c.id then (.error (.duplicate c.id), f)
  else
    match f.checkLink c.id c.parent with
    | .error r => (.error r, f)
    | .ok () => (.ok (), ⟨f.order ++ [c.id], f.table.insert c.id c⟩)

/-- Take a component out.  Links to it stay. -/
def unregister (f : Forest) (id : String) : Option Component × Forest :=
  match f.get? id with
  | none => (none, f)
  | some c => (some c, ⟨f.order.filter (· ≠ id), f.table.erase id⟩)

/-- Give a component another parent, or none. -/
def reparent (f : Forest) (id : String) (parent : Option String) : Except Refusal Unit × Forest :=
  match f.get? id with
  | none => (.error (.unknown id), f)
  | some c =>
    match f.checkLink id parent with
    | .error r => (.error r, f)
    | .ok () => (.ok (), { f with table := f.table.insert id (c.withParent parent) })

/-- Give a property of a component another value; the value it had comes back. -/
def setProperty (f : Forest) (id key : String) (value : Value) :
    Except Refusal (Option Value) × Forest :=
  match f.get? id with
  | none => (.error (.unknown id), f)
  | some c =>
    (.ok (c.properties.get? key), { f with table := f.table.insert id (c.withProperty key value) })

/-- Register components one after another, as long as none is refused. -/
def registerAll (f : Forest) (cs : List Component) : Except Refusal Forest :=
  cs.foldlM (fun f c => Outcome.state (f.register c)) f

end Forest

end ComponentTree
