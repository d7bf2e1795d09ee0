/-
# A forest as a list

A forest keeps what it holds in two places: its order lists ids, and its table has the component of
each.  From outside there is only one thing to be seen, the list of the components in the order of
their registration (`Forest.toList`), and this module says that nothing of the two places shows.

`Listing` has the operations on lists of components alone, where nothing can fall out of step: to
register is to append, to take out is to filter, and the other two change one component where it
stands.  Each operation of a forest does to its list what the operation of lists does, with the same
reply or the same refusal, and each question to a forest has the answer that its list has
(`Forest.Refines`).  A refusal leaves both of them as they are (`Forest.after_of_refuses`).  So a forest and a list that begin empty and are asked for the same changes stay
in step for ever (`Forest.run_refines_listing`).
-/
import ComponentTree.Proofs.Forest.Subtree

namespace ComponentTree

open Json (Value)

/-! ### Lists of components -/

namespace Listing

open Forest (Refusal Change)
open Relation (ReflTransGen)

/-- The component of an id. -/
def get? (l : List Component) (id : String) : Option Component := l.find? (·.id == id)

/-- The component `child` is in the list and names `parent` as its parent. -/
def Linked (l : List Component) (child parent : String) : Prop :=
  ∃ c ∈ l, c.id = child ∧ c.parent = some parent

/-- Change the component of an id where it stands. -/
def modify (l : List Component) (id : String) (change : Component → Component) : List Component :=
  l.map fun c => if c.id = id then change c else c

open Classical in
/-- A link is refused when its child is on the way up from the parent. -/
noncomputable def checkLink (l : List Component) (id : String) :
    Option String → Except Refusal Unit
  | none => .ok ()
  | some parent => if ReflTransGen (Linked l) parent id then .error (.loop id parent) else .ok ()

/-- Append a component. -/
noncomputable def register (l : List Component) (c : Component) :
    Except Refusal Unit × List Component :=
  match get? l c.id with
  | some _ => (.error (.duplicate c.id), l)
  | none =>
    match checkLink l c.id c.parent with
    | .error r => (.error r, l)
    | .ok () => (.ok (), l ++ [c])

/-- Take out the component of an id, and only that. -/
def unregister (l : List Component) (id : String) : Option Component × List Component :=
  match get? l id with
  | none => (none, l)
  | some c => (some c, l.filter (·.id ≠ id))

/-- Change the parent of a component and nothing else. -/
noncomputable def reparent (l : List Component) (id : String) (parent : Option String) :
    Except Refusal Unit × List Component :=
  match get? l id with
  | none => (.error (.unknown id), l)
  | some _ =>
    match checkLink l id parent with
    | .error r => (.error r, l)
    | .ok () => (.ok (), modify l id fun c => { c with parent })

/-- Change a property of a component and nothing else; the value it had comes back. -/
def setProperty (l : List Component) (id key : String) (value : Value) :
    Except Refusal (Option Value) × List Component :=
  match get? l id with
  | none => (.error (.unknown id), l)
  | some c => (.ok (c.properties.get? key), modify l id fun c => c.withProperty key value)

/-- The list after a change was asked of it. -/
noncomputable def after (l : List Component) : Change → List Component
  | .register c => (register l c).2
  | .unregister id => (unregister l id).2
  | .reparent id parent => (reparent l id parent).2
  | .setProperty id key value => (setProperty l id key value).2

/-- The list that changes, one after another, make of the empty one. -/
noncomputable def run (changes : List Change) : List Component := changes.foldl after []

variable {l : List Component} {c : Component} {id : String}

/-- Where no id comes twice, there is one component to be found under an id. -/
lemma get?_eq_some_iff (h : (l.map (·.id)).Nodup) : get? l id = some c ↔ c ∈ l ∧ c.id = id := by
  constructor
  · intro hc
    exact ⟨List.mem_of_find?_eq_some hc, by simpa using List.find?_some hc⟩
  · rintro ⟨hc, rfl⟩
    have hsome : (l.find? (·.id == c.id)).isSome := List.find?_isSome.mpr ⟨c, hc, by simp⟩
    obtain ⟨d, hd⟩ := Option.isSome_iff_exists.mp hsome
    have hid : d.id = c.id := by simpa using List.find?_some hd
    rw [get?, hd, List.inj_on_of_nodup_map h (List.mem_of_find?_eq_some hd) hc hid]

end Listing

namespace Forest

variable {f g : Forest} {id key : String} {c d : Component} {link : Option String} {value : Value}
  {change : Change} {changes : List Change}

/-- What is to be seen of a call from outside: its reply, and the list of the forest it leaves. -/
def seen {α : Type} (call : α × Forest) : α × List Component := (call.1, call.2.toList)

/-- From outside, the forest is the list: what can be asked of it and what its changes do and reply
is what they are for the list. -/
structure Refines (f : Forest) (l : List Component) : Prop where
  /-- The list has the components in their order. -/
  toList_eq : f.toList = l
  /-- No id comes twice. -/
  nodup : (l.map (·.id)).Nodup
  /-- The component of an id is the one in the list that has it. -/
  get?_eq : ∀ id, f.source.get? id = Listing.get? l id
  /-- An id is there if a component of the list has it. -/
  contains_iff : ∀ id, f.source.contains id = true ↔ ∃ c ∈ l, c.id = id
  /-- A search goes through the list. -/
  search_eq : ∀ test, f.source.search test = l.filter test
  /-- The components are counted in the list. -/
  size_eq : f.size = l.length
  /-- A component is registered behind all others. -/
  register : ∀ c, seen (f.register c) = Listing.register l c
  /-- A component is taken out and comes back. -/
  unregister : ∀ id, seen (f.unregister id) = Listing.unregister l id
  /-- A component gets another parent. -/
  reparent : ∀ id parent, seen (f.reparent id parent) = Listing.reparent l id parent
  /-- A property of a component gets another value, and the value it had comes back. -/
  setProperty : ∀ id key value,
    seen (f.setProperty id key value) = Listing.setProperty l id key value
  /-- A refused change leaves the list as it is. -/
  refused : ∀ change, f.Refuses change → (f.after change).toList = l

namespace WellFormed

/-! ### What the list shows -/

lemma get?_eq_get?_toList (hf : f.WellFormed) (id : String) :
    f.get? id = Listing.get? f.toList id := by
  have hnodup : (f.toList.map (·.id)).Nodup := by
    rw [hf.ids_toList]
    exact hf.nodup_order
  refine Option.ext fun c => ?_
  rw [Listing.get?_eq_some_iff hnodup, hf.mem_toList]
  constructor
  · exact fun hc => ⟨hf.get?_id hc, hf.id_eq id c hc⟩
  · rintro ⟨hc, rfl⟩
    exact hc

lemma linked_toList (hf : f.WellFormed) : Listing.Linked f.toList = Linked f.table := by
  funext child parent
  refine propext ⟨?_, ?_⟩
  · rintro ⟨c, hc, rfl, hparent⟩
    exact ⟨c, hf.mem_toList.mp hc, hparent⟩
  · rintro ⟨c, hc, hparent⟩
    exact ⟨c, hf.mem_toList.mpr (hf.get?_id hc), hf.id_eq child c hc, hparent⟩

lemma checkLink_toList (hf : f.WellFormed) (id : String) (link : Option String) :
    f.checkLink id link = Listing.checkLink f.toList id link := by
  cases link with
  | none => rfl
  | some parent =>
    rw [Listing.checkLink, hf.linked_toList, checkLink]
    by_cases h : f.closesLoop id parent = true
    · rw [if_pos h, if_pos (closesLoop_iff.mp h)]
    · rw [if_neg h, if_neg (mt closesLoop_iff.mpr h)]

/-! ### What changes do to the list -/

lemma toList_append (horder : c.id ∉ f.order) :
    toList ⟨f.order ++ [c.id], f.table.insert c.id c⟩ = f.toList ++ [c] := by
  have hself : [c.id].filterMap (f.table.insert c.id c).get? = [c] := by simp
  rw [toList, List.filterMap_append, hself, toList]
  refine congrArg (· ++ [c]) (List.filterMap_congr fun id hid => ?_)
  have hne : id ≠ c.id := fun he => horder (he ▸ hid)
  exact Dict.get?_insert_of_ne _ hne c

lemma toList_erase (hf : f.WellFormed) (id : String) :
    toList ⟨f.order.filter (· ≠ id), f.table.erase id⟩ = f.toList.filter (·.id ≠ id) := by
  rw [toList, toList, List.filterMap_filter, List.filter_filterMap]
  refine List.filterMap_congr fun a _ => ?_
  rw [Dict.get?_erase]
  cases hc : f.table.get? a with
  | none => simp
  | some c =>
    have hid : c.id = a := hf.id_eq a c hc
    by_cases ha : a = id <;> simp [Option.filter_some, hid, ha]

lemma toList_modify (hf : f.WellFormed) (hc : f.get? id = some c)
    (change : Component → Component) :
    toList { f with table := f.table.insert id (change c) } =
      Listing.modify f.toList id change := by
  rw [toList, toList, Listing.modify, List.map_filterMap]
  refine List.filterMap_congr fun a _ => ?_
  by_cases ha : a = id
  · subst ha
    rw [Dict.get?_insert_self, show f.table.get? a = some c from hc, Option.map_some,
      if_pos (hf.id_eq a c hc)]
  · rw [Dict.get?_insert_of_ne _ ha]
    cases hd : f.table.get? a with
    | none => rfl
    | some d => rw [Option.map_some, hf.id_eq a d hd, if_neg ha]

/-! ### Changes and replies -/

lemma seen_register (hf : f.WellFormed) (c : Component) :
    seen (f.register c) = Listing.register f.toList c := by
  rw [Forest.register, Listing.register, ← hf.get?_eq_get?_toList, ← hf.checkLink_toList]
  cases hc : f.get? c.id with
  | some d =>
    have hcontains : f.contains c.id = true := (Dict.contains_iff _ _).mpr ⟨d, hc⟩
    rw [if_pos hcontains]
    rfl
  | none =>
    rw [if_neg (by simp [contains_eq_false_iff.mpr hc]), ← toList_append (hf.not_mem_order hc)]
    cases f.checkLink c.id c.parent <;> rfl

lemma seen_unregister (hf : f.WellFormed) (id : String) :
    seen (f.unregister id) = Listing.unregister f.toList id := by
  rw [Forest.unregister, Listing.unregister, ← hf.get?_eq_get?_toList, ← hf.toList_erase]
  cases f.get? id <;> rfl

lemma seen_reparent (hf : f.WellFormed) (id : String) (parent : Option String) :
    seen (f.reparent id parent) = Listing.reparent f.toList id parent := by
  rw [Forest.reparent, Listing.reparent, ← hf.get?_eq_get?_toList, ← hf.checkLink_toList]
  cases hc : f.get? id with
  | none => rfl
  | some c =>
    have hlist := hf.toList_modify hc fun c => { c with parent }
    dsimp only
    rw [← hlist]
    cases f.checkLink id parent <;> rfl

lemma seen_setProperty (hf : f.WellFormed) (id key : String) (value : Value) :
    seen (f.setProperty id key value) = Listing.setProperty f.toList id key value := by
  rw [Forest.setProperty, Listing.setProperty, ← hf.get?_eq_get?_toList]
  cases hc : f.get? id with
  | none => rfl
  | some c =>
    have hlist := hf.toList_modify hc fun c => c.withProperty key value
    exact congrArg (fun l => (Except.ok (c.properties.get? key), l)) hlist

lemma refines_toList (hf : f.WellFormed) : f.Refines f.toList where
  toList_eq := rfl
  nodup := hf.ids_toList ▸ hf.nodup_order
  get?_eq := hf.get?_eq_get?_toList
  contains_iff id := by
    show f.contains id = true ↔ _
    rw [contains, Dict.contains_iff]
    constructor
    · rintro ⟨c, hc⟩
      exact ⟨c, hf.mem_toList.mpr (hf.get?_id hc), hf.id_eq id c hc⟩
    · rintro ⟨c, hc, rfl⟩
      exact ⟨c, hf.mem_toList.mp hc⟩
  search_eq _ := rfl
  size_eq := by rw [size, ← hf.ids_toList, List.length_map]
  register := hf.seen_register
  unregister := hf.seen_unregister
  reparent := hf.seen_reparent
  setProperty := hf.seen_setProperty
  refused change h := by rw [after_of_refuses h]

/-- One change keeps a forest and its list in step, whether it is made or refused. -/
lemma toList_after (hf : f.WellFormed) (change : Change) :
    (f.after change).toList = Listing.after f.toList change := by
  cases change with
  | register c => exact congrArg Prod.snd (hf.seen_register c)
  | unregister id => exact congrArg Prod.snd (hf.seen_unregister id)
  | reparent id parent => exact congrArg Prod.snd (hf.seen_reparent id parent)
  | setProperty id key value => exact congrArg Prod.snd (hf.seen_setProperty id key value)

lemma toList_foldl_after (hf : f.WellFormed) (changes : List Change) :
    (changes.foldl Forest.after f).toList = changes.foldl Listing.after f.toList := by
  induction changes generalizing f with
  | nil => rfl
  | cons change rest ih =>
    rw [List.foldl_cons, List.foldl_cons, ih (hf.after change), hf.toList_after]

end WellFormed

/-- **A forest is the list of its components.**  Whatever is asked of the empty forest and of the
empty list, the forest that comes of it refines the list that comes of it: they have the same
answers to every question, and do and reply the same at every further change.  To set a property of
a component changes its properties alone, and of these no other. -/
theorem run_refines_listing (changes : List Change) :
    (run changes).Refines (Listing.run changes) ∧
      ∀ (c : Component) (key : String) (value : Value),
        { c.withProperty key value with properties := c.properties } = c ∧
          ∀ k, (c.withProperty key value).properties.get? k =
            if k = key then some value else c.properties.get? k := by
  have hlist : (run changes).toList = Listing.run changes :=
    WellFormed.empty.toList_foldl_after changes
  refine ⟨hlist ▸ (wellFormed_run changes).refines_toList, fun c key value => ⟨rfl, fun k => ?_⟩⟩
  exact Dict.get?_insert c.properties key k value

end Forest

end ComponentTree
