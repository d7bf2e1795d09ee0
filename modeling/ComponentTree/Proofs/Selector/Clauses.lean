/-
# Clauses

A step is written as a clause: a name in front, perhaps, and pairs of a key and a value.  What a
clause says can be told without knowing how components are searched (`Clause.Holds`): the name is
that of one of the component's types, and each pair holds of the component (`Component.Has`).  Under
`id` and `parentId` a pair names the component and its parent, whatever properties they have; under
`ntype` it names one of its types, unless the component has such a property itself; and else it gives
the value of a property, which is the component's own or, without one, that of the nearest of its
types that declares one.

A constraint of a step is met exactly if the pair holds of the component (`meets_iff_has`).  But a
clause does not become a step as it stands: a text under `ntype` may become the type name, the other
pairs become constraints, and the two are not tested alike (`Component.Fits`, `Clause.accepts_step`).
Where the component has no property `ntype` itself this makes no difference
(`Clause.meantBy_step`).
-/
import ComponentTree.Selector.Acceptance
import ComponentTree.Proofs.Selector.Grammar

namespace ComponentTree

open Json (Value)

/-! ### What a pair says of a component -/

namespace Component

/-- The types give the key this value: the nearest of them that declares a default for it does. -/
def Inherits (c : Component) (key : String) (v : Value) : Prop :=
  ∃ nearer type farther, c.lineage.types = nearer ++ type :: farther ∧
    (∀ t ∈ nearer, t.defaults.get? key = none) ∧ type.defaults.get? key = some v

/-- What a pair of a key and a value says holds of the component. -/
inductive Has (c : Component) : String → Value → Prop
  | id : Has c idKey (.string c.id)
  | parent {parent : String} (h : c.parent = some parent) : Has c parentKey (.string parent)
  | type {name : String} (hown : c.properties.get? typeKey = none) (h : name ∈ c.lineage.names) :
      Has c typeKey (.string name)
  | own {key : String} {v w : Value} (hid : key ≠ idKey) (hparent : key ≠ parentKey)
      (h : c.properties.get? key = some w) (hv : (w == v) = true) : Has c key v
  | default {key : String} {v w : Value} (hid : key ≠ idKey) (hparent : key ≠ parentKey)
      (htype : key ≠ typeKey) (hown : c.properties.get? key = none) (h : c.Inherits key w)
      (hv : (w == v) = true) : Has c key v

/-- What a pair says holds of the component as a step tests it that has this type name: without one,
a text under `ntype` is taken for the name of a type. -/
inductive Fits (c : Component) : Option String → String → Value → Prop
  | typeName {name : String} (h : name ∈ c.lineage.names) : Fits c none typeKey (.string name)
  | constraint {typeName : Option String} {key : String} {v : Value}
      (hnot : typeName = none → key = typeKey → ∀ name, v ≠ .string name) (h : c.Has key v) :
      Fits c typeName key v

end Component

namespace Selector

/-- A step as it is written: the name in front, if there is one, and the pairs. -/
structure Clause where
  typeName : Option String
  pairs : List (String × Value)

namespace Clause

/-- No key comes twice. -/
def Distinct (k : Clause) : Prop := (k.pairs.map (·.1)).Nodup

/-- All that the clause says holds of a component. -/
structure Holds (k : Clause) (c : Component) : Prop where
  typeName : ∀ name, k.typeName = some name → name ∈ c.lineage.names
  pairs : ∀ p ∈ k.pairs, c.Has p.1 p.2

/-- The step that a clause becomes. -/
def step (k : Clause) : Step := k.pairs.foldl (fun s p => s.require p.1 p.2) ⟨k.typeName, ∅⟩

/-- If no key of the clause comes twice, the step accepts what the clause says, among the components
that have no property `ntype` themselves. -/
def MeantBy (k : Clause) (s : Step) : Prop :=
  k.Distinct → ∀ c : Component, c.properties.get? Component.typeKey = none →
    (s.accepts c = true ↔ k.Holds c)

end Clause

variable {c : Component} {typeName : Option String} {key name text : String} {v w : Value}
  {s : Step} {k : Clause} {pairs : List (String × Value)}

/-! ### Strict equality with a text -/

lemma beq_string_iff : (v == Value.string text) = true ↔ v = .string text := by
  cases v with
  | string other => simp
  | _ => exact ⟨fun h => absurd h Bool.false_ne_true, nofun⟩

lemma string_beq_iff : (Value.string text == v) = true ↔ v = .string text := by
  cases v with
  | string other => rw [Value.beq_string, beq_iff_eq, Value.string.injEq, eq_comm]
  | _ => exact ⟨fun h => absurd h Bool.false_ne_true, nofun⟩

/-! ### Constraints, key by key -/

/-- Unless the key is `ntype` and the component leaves it to the types, a constraint asks for the
value of the property. -/
lemma meets_iff_property (h : key = Component.typeKey → c.properties.contains key = true) :
    meets c key v = true ↔ ∃ w, c.property key = some w ∧ (w == v) = true := by
  have hproperty : (c.property key == some v) = true ↔
      ∃ w, c.property key = some w ∧ (w == v) = true := by
    cases c.property key <;> simp
  rw [← hproperty]
  cases v with
  | string name =>
    have hnot : ¬ (key = Component.typeKey ∧ c.properties.contains Component.typeKey = false) := by
      rintro ⟨rfl, hfalse⟩
      exact Bool.false_ne_true (hfalse.symm.trans (h rfl))
    rw [meets, if_neg hnot]
  | _ => rfl

/-- A property that the component has itself is what the key stands for. -/
lemma property_of_own (hid : key ≠ Component.idKey) (hparent : key ≠ Component.parentKey)
    (h : c.properties.get? key = some w) : c.property key = some w := by
  rw [Component.property, if_neg hid, if_neg hparent, h]

lemma property_of_not_own (hid : key ≠ Component.idKey) (hparent : key ≠ Component.parentKey)
    (h : c.properties.get? key = none) : c.property key = c.inherited key := by
  rw [Component.property, if_neg hid, if_neg hparent, h]

lemma default?_eq_some_iff : c.lineage.default? key = some w ↔ c.Inherits key w := by
  rw [Lineage.default?, List.findSome?_eq_some_iff]
  constructor
  · rintro ⟨nearer, type, farther, htypes, htype, hnearer⟩
    exact ⟨nearer, type, farther, htypes, hnearer, htype⟩
  · rintro ⟨nearer, type, farther, htypes, hnearer, htype⟩
    exact ⟨nearer, type, farther, htypes, htype, hnearer⟩

/-- Where the component leaves `ntype` to its types, the key stands for a text or for nothing. -/
lemma inherited_typeKey : c.inherited Component.typeKey = c.typeName?.map Value.string := by
  rw [Component.inherited, if_pos rfl]
  cases hname : c.typeName? with
  | some name => rfl
  | none =>
    have htypes : c.lineage.types = [] := by
      simpa [Component.typeName?, Lineage.mostDerived?] using hname
    rw [Lineage.default?, htypes]
    rfl

lemma meets_typeKey (hown : c.properties.get? Component.typeKey = none) :
    meets c Component.typeKey v = true ↔ ∃ name ∈ c.lineage.names, v = .string name := by
  have hfalse : c.properties.contains Component.typeKey = false := by
    rw [Dict.contains, hown]
    rfl
  cases v with
  | string name =>
    rw [meets, if_pos ⟨rfl, hfalse⟩, Lineage.contains_iff]
    simp
  | _ =>
    rw [meets, property_of_not_own (by decide) (by decide) hown, inherited_typeKey]
    · cases c.typeName? with
      | none => simp
      | some name =>
        rw [Option.map_some, Option.some_beq_some, string_beq_iff]
        simp
    · rintro _ ⟨⟩

/-! ### What a pair says, key by key -/

lemma has_idKey : c.Has Component.idKey v ↔ v = .string c.id := by
  constructor
  · intro h
    generalize hkey : Component.idKey = key at h
    cases h with
    | id => rfl
    | parent => exact absurd hkey (by decide)
    | type => exact absurd hkey (by decide)
    | own hid => exact absurd hkey.symm hid
    | default hid => exact absurd hkey.symm hid
  · rintro rfl
    exact .id

lemma has_parentKey :
    c.Has Component.parentKey v ↔ ∃ parent, c.parent = some parent ∧ v = .string parent := by
  constructor
  · intro h
    generalize hkey : Component.parentKey = key at h
    cases h with
    | id => exact absurd hkey (by decide)
    | parent h => exact ⟨_, h, rfl⟩
    | type => exact absurd hkey (by decide)
    | own _ hparent => exact absurd hkey.symm hparent
    | default _ hparent => exact absurd hkey.symm hparent
  · rintro ⟨parent, h, rfl⟩
    exact .parent h

lemma has_typeKey (hown : c.properties.get? Component.typeKey = none) :
    c.Has Component.typeKey v ↔ ∃ name ∈ c.lineage.names, v = .string name := by
  constructor
  · intro h
    generalize hkey : Component.typeKey = key at h
    cases h with
    | id => exact absurd hkey (by decide)
    | parent => exact absurd hkey (by decide)
    | type _ h => exact ⟨_, h, rfl⟩
    | own _ _ h => simp [← hkey, hown] at h
    | default _ _ htype => exact absurd hkey.symm htype
  · rintro ⟨name, h, rfl⟩
    exact .type hown h

lemma has_of_own (hid : key ≠ Component.idKey) (hparent : key ≠ Component.parentKey)
    (hown : c.properties.get? key = some w) : c.Has key v ↔ (w == v) = true := by
  constructor
  · intro h
    cases h with
    | id => exact absurd rfl hid
    | parent => exact absurd rfl hparent
    | type hnone => simp [hnone] at hown
    | own _ _ h hv =>
      rw [hown] at h
      rwa [Option.some.inj h]
    | default _ _ _ hnone => simp [hnone] at hown
  · exact .own hid hparent hown

lemma has_of_not_own (hid : key ≠ Component.idKey) (hparent : key ≠ Component.parentKey)
    (htype : key ≠ Component.typeKey) (hown : c.properties.get? key = none) :
    c.Has key v ↔ ∃ w, c.Inherits key w ∧ (w == v) = true := by
  constructor
  · intro h
    cases h with
    | id => exact absurd rfl hid
    | parent => exact absurd rfl hparent
    | type => exact absurd rfl htype
    | own _ _ h => simp [hown] at h
    | default _ _ _ _ h hv => exact ⟨_, h, hv⟩
  · rintro ⟨w, h, hv⟩
    exact .default hid hparent htype hown h hv

/-- **A constraint is met exactly if what it says holds of the component.** -/
theorem meets_iff_has : meets c key v = true ↔ c.Has key v := by
  by_cases hid : key = Component.idKey
  · subst hid
    have hproperty : c.property Component.idKey = some (.string c.id) := rfl
    rw [meets_iff_property fun h => absurd h (by decide), has_idKey, hproperty]
    simp [string_beq_iff]
  by_cases hparent : key = Component.parentKey
  · subst hparent
    have hproperty : c.property Component.parentKey = c.parent.map .string := rfl
    rw [meets_iff_property fun h => absurd h (by decide), has_parentKey, hproperty]
    simp [string_beq_iff]
  cases hown : c.properties.get? key with
  | some w =>
    have hcontains : c.properties.contains key = true := (Dict.contains_iff _ _).mpr ⟨w, hown⟩
    rw [meets_iff_property fun _ => hcontains, has_of_own hid hparent hown,
      property_of_own hid hparent hown]
    simp
  | none =>
    by_cases htype : key = Component.typeKey
    · subst htype
      rw [meets_typeKey hown, has_typeKey hown]
    · rw [meets_iff_property fun h => absurd h htype, has_of_not_own hid hparent htype hown,
        property_of_not_own hid hparent hown, Component.inherited, if_neg htype]
      simp only [default?_eq_some_iff]

/-! ### Pairs that become part of a step -/

/-- A text under `ntype` becomes the type name of a step without one, every other pair becomes a
constraint. -/
lemma require_cases (s : Step) (key : String) (v : Value) :
    (∃ name, s.typeName = none ∧ key = Component.typeKey ∧ v = .string name ∧
      s.require key v = { s with typeName := some name }) ∨
    (s.typeName = none → key = Component.typeKey → ∀ name, v ≠ .string name) ∧
      s.require key v = { s with constraints := s.constraints.insert key v } := by
  by_cases hstring : ∃ name, v = .string name
  · obtain ⟨name, rfl⟩ := hstring
    by_cases htype : s.typeName = none ∧ key = Component.typeKey
    · exact .inl ⟨name, htype.1, htype.2, rfl, by rw [require_string, if_pos htype]⟩
    · exact .inr ⟨fun hnone hkey => absurd ⟨hnone, hkey⟩ htype, by
        rw [require_string, if_neg htype]⟩
  · rw [not_exists] at hstring
    refine .inr ⟨fun _ _ => hstring, ?_⟩
    obtain ⟨_ | name, constraints⟩ := s <;> cases v <;> first | rfl | exact absurd rfl (hstring _)

/-- What a step accepts with one more constraint, on a key that it had none on. -/
lemma accepts_insert (hfresh : s.constraints.get? key = none) :
    Step.accepts { s with constraints := s.constraints.insert key v } c = true ↔
      s.accepts c = true ∧ c.Has key v := by
  simp only [accepts_iff, Dict.get?_insert, ← meets_iff_has]
  constructor
  · rintro ⟨htype, hall⟩
    refine ⟨⟨htype, fun k w hw => hall k w ?_⟩, hall key v (if_pos rfl)⟩
    have hne : k ≠ key := by
      rintro rfl
      rw [hfresh] at hw
      exact absurd hw (by simp)
    rwa [if_neg hne]
  · rintro ⟨⟨htype, hall⟩, hmeets⟩
    refine ⟨htype, fun k w hw => ?_⟩
    split at hw
    · next hk =>
      obtain rfl := Option.some.inj hw
      rwa [hk]
    · exact hall k w hw

/-- A step with one constraint and no type name. -/
lemma accepts_singleton :
    Step.accepts ⟨none, (∅ : Dict Value).insert key v⟩ c = true ↔ c.Has key v := by
  have h : Step.accepts ⟨none, (∅ : Dict Value).insert key v⟩ c = true ↔
      Step.any.accepts c = true ∧ c.Has key v :=
    accepts_insert (s := Step.any) (Dict.get?_empty key)
  rwa [accepts_any, eq_self_iff_true, true_and] at h

/-- A pair that is not taken for a type name is a constraint. -/
lemma fits_iff_has (hnot : typeName = none → key = Component.typeKey → ∀ name, v ≠ .string name) :
    c.Fits typeName key v ↔ c.Has key v := by
  constructor
  · intro h
    cases h with
    | typeName => exact absurd rfl (hnot rfl rfl _)
    | constraint _ h => exact h
  · exact .constraint hnot

lemma fits_none_typeKey : c.Fits none Component.typeKey (.string name) ↔ name ∈ c.lineage.names := by
  constructor
  · intro h
    generalize hkey : Component.typeKey = key at h
    cases h with
    | typeName h => exact h
    | constraint hnot => exact absurd rfl (hnot rfl hkey.symm name)
  · exact .typeName

/-- **What a step accepts with one more pair**, under a key that it had no constraint on. -/
theorem accepts_require (hfresh : s.constraints.get? key = none) :
    (s.require key v).accepts c = true ↔ s.accepts c = true ∧ c.Fits s.typeName key v := by
  rcases require_cases s key v with ⟨name, hnone, rfl, rfl, hrequire⟩ | ⟨hnot, hrequire⟩
  · rw [hrequire, hnone, fits_none_typeKey, accepts_iff, accepts_iff, hnone]
    simp [and_comm]
  · rw [hrequire, accepts_insert hfresh, fits_iff_has hnot]

/-! ### Clauses that become steps -/

lemma get?_constraints_require {other : String} (hne : other ≠ key) :
    (s.require key v).constraints.get? other = s.constraints.get? other := by
  rcases require_cases s key v with ⟨name, -, -, -, hrequire⟩ | ⟨-, hrequire⟩
  · rw [hrequire]
  · rw [hrequire]
    exact Dict.get?_insert_of_ne _ hne v

/-- A pair has no part in how pairs under other keys are tested. -/
lemma fits_typeName_require {other : String} (hne : other ≠ key) :
    c.Fits (s.require key v).typeName other w ↔ c.Fits s.typeName other w := by
  rcases require_cases s key v with ⟨name, -, hkey, -, hrequire⟩ | ⟨-, hrequire⟩
  · have hother : ∀ s : Step, c.Fits s.typeName other w ↔ c.Has other w :=
      fun s => fits_iff_has fun _ htype => absurd htype (hkey ▸ hne)
    rw [hother, hother]
  · rw [hrequire]

lemma accepts_foldl_require (hdistinct : (pairs.map (·.1)).Nodup)
    (hfresh : ∀ p ∈ pairs, s.constraints.get? p.1 = none) :
    (pairs.foldl (fun s p => s.require p.1 p.2) s).accepts c = true ↔
      s.accepts c = true ∧ ∀ p ∈ pairs, c.Fits s.typeName p.1 p.2 := by
  induction pairs generalizing s with
  | nil => simp
  | cons p rest ih =>
    obtain ⟨hp, hrest⟩ := List.nodup_cons.mp hdistinct
    have hne : ∀ q ∈ rest, q.1 ≠ p.1 := by
      intro q hq heq
      exact hp (List.mem_map.mpr ⟨q, hq, heq⟩)
    have hfresh' : ∀ q ∈ rest, (s.require p.1 p.2).constraints.get? q.1 = none := by
      intro q hq
      rw [get?_constraints_require (hne q hq)]
      exact hfresh q (List.mem_cons_of_mem p hq)
    have hfits : (∀ q ∈ rest, c.Fits (s.require p.1 p.2).typeName q.1 q.2) ↔
        ∀ q ∈ rest, c.Fits s.typeName q.1 q.2 :=
      forall₂_congr fun q hq => fits_typeName_require (hne q hq)
    rw [List.foldl_cons, ih hrest hfresh', hfits, accepts_require (hfresh p List.mem_cons_self),
      List.forall_mem_cons, and_assoc]

/-- **What a clause accepts as a step.** -/
theorem Clause.accepts_step (hdistinct : k.Distinct) : k.step.accepts c = true ↔
    (∀ name, k.typeName = some name → name ∈ c.lineage.names) ∧
      ∀ p ∈ k.pairs, c.Fits k.typeName p.1 p.2 := by
  rw [step, accepts_foldl_require hdistinct fun _ _ => Dict.get?_empty _, accepts_iff]
  simp

/-- Where the component leaves `ntype` to its types, a text under it says the same either way. -/
lemma fits_iff_has_of_not_own (hown : c.properties.get? Component.typeKey = none) :
    c.Fits typeName key v ↔ c.Has key v := by
  constructor
  · intro h
    cases h with
    | typeName h => exact .type hown h
    | constraint _ h => exact h
  · intro h
    by_cases htext : typeName = none ∧ key = Component.typeKey
    · obtain ⟨rfl, rfl⟩ := htext
      obtain ⟨name, hname, rfl⟩ := (has_typeKey hown).mp h
      exact .typeName hname
    · exact .constraint (fun hnone hkey => absurd ⟨hnone, hkey⟩ htext) h

lemma Clause.holds_iff : k.Holds c ↔
    (∀ name, k.typeName = some name → name ∈ c.lineage.names) ∧ ∀ p ∈ k.pairs, c.Has p.1 p.2 :=
  ⟨fun h => ⟨h.typeName, h.pairs⟩, fun h => ⟨h.1, h.2⟩⟩

lemma Clause.meantBy_step (k : Clause) : k.MeantBy k.step := by
  intro hdistinct c hown
  rw [accepts_step hdistinct, holds_iff]
  simp only [fits_iff_has_of_not_own hown]

/-- A step that is given as it stands says what it asks for. -/
lemma Clause.meantBy_self (s : Step) : MeantBy ⟨s.typeName, s.constraints.entries⟩ s := by
  intro _ c _
  rw [accepts_iff, holds_iff]
  refine and_congr_right fun _ => ?_
  simp only [meets_iff_has, Prod.forall, Dict.mem_entries_iff]

end Selector

end ComponentTree
