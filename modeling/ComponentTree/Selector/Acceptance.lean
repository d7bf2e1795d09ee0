/-
# What a step accepts

A step accepts a component when all it asks for holds: its type name is in the lineage, and
every constraint is met (`Step.accepts`).  A constraint is met when the property has exactly
the value asked for.  The key `ntype` is different: where the component has no such property
of its own, a text under that key may name any type of the lineage.
-/
import ComponentTree.Selector.Basic

namespace ComponentTree.Selector

open Json (Value)

/-- Whether a component has what a constraint asks for. -/
def meets (c : Component) (key : String) (expected : Value) : Bool :=
  match expected with
  | .string name =>
    if key = Component.typeKey ∧ c.properties.contains Component.typeKey = false then
      c.lineage.contains name
    else c.property key == some expected
  | _ => c.property key == some expected

/-- Whether a step accepts a component. -/
def Step.accepts (s : Step) (c : Component) : Bool :=
  s.typeName.all c.lineage.contains && s.constraints.entries.all fun e => meets c e.1 e.2

@[simp] theorem accepts_any (c : Component) : Step.any.accepts c = true := rfl

/-- A step is the conjunction of its checks. -/
theorem accepts_iff {s : Step} {c : Component} :
    s.accepts c = true ↔ (∀ name, s.typeName = some name → name ∈ c.lineage.names) ∧
      ∀ key v, s.constraints.get? key = some v → meets c key v = true := by
  simp only [Step.accepts, Bool.and_eq_true, List.all_eq_true]
  refine and_congr ?_ ⟨fun h key v hv => h (key, v) ((Dict.mem_entries_iff _ _ _).mpr hv),
    fun h e he => h e.1 e.2 ((Dict.mem_entries_iff _ _ _).mp he)⟩
  cases s.typeName with
  | none => simp
  | some name => simp [Option.all]

end ComponentTree.Selector
