/-
# The members of objects

A value that a text can stand for has the members of its objects in ascending order, each name once
(`Value.Ordered`).  A text may give them in any order, and a record is written in the order of its
fields; so a value is to be had from every node that is the value but for the order of the members
(`Value.WrittenAs`).  Nothing is lost by another order: what is looked up in the members is the same
(`Value.WrittenAs.lookup`), and a node that is looked at as a value has the members in ascending
order again (`Value.Ordered.value?_eq`).
-/
import ComponentTree.Json.Decoder
import Mathlib.Data.List.Induction
import Mathlib.Data.List.Nodup
import Mathlib.Data.List.Perm.Basic
import Mathlib.Tactic.Lemma

namespace ComponentTree

variable {α β : Type}

/-! ### Entries with different keys -/

lemma lookup_eq_some_iff_mem {l : List (String × α)} (h : (l.map (·.1)).Nodup) {key : String}
    {a : α} : l.lookup key = some a ↔ (key, a) ∈ l := by
  induction l with
  | nil => simp
  | cons e rest ih =>
    obtain ⟨k, b⟩ := e
    obtain ⟨hk, hrest⟩ := List.nodup_cons.mp h
    rw [Dict.lookup_cons_eq, List.mem_cons]
    by_cases heq : key = k
    · subst heq
      have hnot : (key, a) ∉ rest := fun hm => hk (List.mem_map.mpr ⟨_, hm, rfl⟩)
      simp [hnot, eq_comm]
    · simp [heq, ih hrest]

lemma lookup_eq_of_perm {l l' : List (String × α)} (hperm : l.Perm l')
    (h : (l'.map (·.1)).Nodup) (key : String) : l.lookup key = l'.lookup key := by
  have hl : (l.map (·.1)).Nodup := (hperm.map _).nodup_iff.mpr h
  refine Option.ext fun a => ?_
  rw [lookup_eq_some_iff_mem hl, lookup_eq_some_iff_mem h, hperm.mem_iff]

lemma Dict.ext_entries {d d' : Dict α} (h : d.entries = d'.entries) : d = d' := by
  cases d
  cases d'
  obtain rfl : _ = _ := h
  rfl

/-- What a map of a list has is in the list. -/
lemma Dict.mem_of_get?_ofList {l : List (String × α)} {key : String} {a : α}
    (h : (Dict.ofList l).get? key = some a) : (key, a) ∈ l := by
  induction l using List.reverseRecOn with
  | nil => exact absurd h (by simp [Dict.ofList, Dict.empty, Dict.get?])
  | append_singleton rest e ih =>
    rw [Dict.ofList_concat, Dict.get?_insert] at h
    split at h
    · next heq =>
      obtain rfl := Option.some.inj h
      simp [heq]
    · exact List.mem_append_left _ (ih h)

/-- A map can be made of its entries in any order. -/
lemma Dict.ofList_eq_of_perm {l : List (String × α)} {d : Dict α} (h : l.Perm d.entries) :
    Dict.ofList l = d := by
  refine Dict.ext_get? fun key => Option.ext fun a => ?_
  have hl : (l.map (·.1)).Nodup := (h.map _).nodup_iff.mpr d.nodup_keys
  rw [Dict.get?_ofList_iff hl, h.mem_iff, Dict.mem_entries_iff]

namespace Json

namespace Value

/-! ### Order -/

/-- The members of every object in the value are in ascending order, each name once. -/
inductive Ordered : Value → Prop
  | null : Ordered .null
  | bool (b : Bool) : Ordered (.bool b)
  | number (n : Number) : Ordered (.number n)
  | string (s : String) : Ordered (.string s)
  | array {items : List Value} (h : ∀ v ∈ items, Ordered v) : Ordered (.array items)
  | object {members : List (String × Value)} (hascending : members.Pairwise fun a b => a.1 < b.1)
      (h : ∀ m ∈ members, Ordered m.2) : Ordered (.object members)

/-- The node is the value, its objects with their members in some order. -/
inductive WrittenAs : Value → Node → Prop
  | null : WrittenAs .null .null
  | bool (b : Bool) : WrittenAs (.bool b) (.bool b)
  | number (n : Number) : WrittenAs (.number n) (.number n)
  | string (s : String) : WrittenAs (.string s) (.string s)
  | array {items : List Value} {nodes : List Node} (h : List.Forall₂ WrittenAs items nodes) :
      WrittenAs (.array items) (.array nodes)
  | object {members : List (String × Value)} {sorted written : List (String × Node)}
      (hperm : written.Perm sorted) (hnames : members.map (·.1) = sorted.map (·.1))
      (hvalues : List.Forall₂ WrittenAs (members.map (·.2)) (sorted.map (·.2))) :
      WrittenAs (.object members) (.object written)

mutual

/-- A value may be written in the order that it has. -/
theorem writtenAs_ofValue : ∀ v : Value, v.WrittenAs (Node.ofValue v)
  | .null => .null
  | .bool b => .bool b
  | .number n => .number n
  | .string s => .string s
  | .array items => .array (writtenAs_ofItems items)
  | .object members =>
    .object (.refl _) (writtenAs_ofMembers members).1 (writtenAs_ofMembers members).2

theorem writtenAs_ofItems : ∀ items : List Value,
    List.Forall₂ WrittenAs items (Node.ofItems items)
  | [] => .nil
  | v :: rest => .cons (writtenAs_ofValue v) (writtenAs_ofItems rest)

theorem writtenAs_ofMembers : ∀ members : List (String × Value),
    members.map (·.1) = (Node.ofMembers members).map (·.1) ∧
      List.Forall₂ WrittenAs (members.map (·.2)) ((Node.ofMembers members).map (·.2))
  | [] => ⟨rfl, .nil⟩
  | (k, v) :: rest =>
    ⟨congrArg (k :: ·) (writtenAs_ofMembers rest).1,
      .cons (writtenAs_ofValue v) (writtenAs_ofMembers rest).2⟩

end

/-- Members with the same names one by one. -/
lemma forall₂_members {r : Value → Node → Prop} {members : List (String × Value)}
    {sorted : List (String × Node)} (hnames : members.map (·.1) = sorted.map (·.1))
    (hvalues : List.Forall₂ r (members.map (·.2)) (sorted.map (·.2))) :
    List.Forall₂ (fun m n => m.1 = n.1 ∧ r m.2 n.2) members sorted := by
  rw [← List.forall₂_eq_eq_eq, List.forall₂_map_left_iff, List.forall₂_map_right_iff] at hnames
  rw [List.forall₂_map_left_iff, List.forall₂_map_right_iff] at hvalues
  exact List.Forall₂.mp (fun _ _ => And.intro) hnames hvalues

/-! ### Looking a member up -/

lemma lookup_of_forall₂ {members : List (String × Value)} {sorted : List (String × Node)}
    (h : List.Forall₂ (fun m n => m.1 = n.1 ∧ m.2.WrittenAs n.2) members sorted) (name : String) :
    Option.Rel WrittenAs (members.lookup name) (sorted.lookup name) := by
  induction h with
  | nil => exact .none
  | @cons m n _ _ hm _ ih =>
    obtain ⟨k, v⟩ := m
    obtain ⟨l, node⟩ := n
    obtain ⟨rfl, hv⟩ := hm
    rw [Dict.lookup_cons_eq, Dict.lookup_cons_eq]
    split
    · exact .some hv
    · exact ih

/-- **A member is found under its name in every order.** -/
theorem WrittenAs.lookup {members : List (String × Value)} {written : List (String × Node)}
    (h : (Value.object members).WrittenAs (.object written)) (hnodup : (members.map (·.1)).Nodup)
    (name : String) : Option.Rel WrittenAs (members.lookup name) (written.lookup name) := by
  cases h with
  | object hperm hnames hvalues =>
    rw [lookup_eq_of_perm hperm (hnames ▸ hnodup)]
    exact lookup_of_forall₂ (forall₂_members hnames hvalues) name

/-- The names are those of the members. -/
lemma WrittenAs.perm_names {members : List (String × Value)} {written : List (String × Node)}
    (h : (Value.object members).WrittenAs (.object written)) :
    (written.map (·.1)).Perm (members.map (·.1)) := by
  cases h with
  | object hperm hnames hvalues => exact hnames ▸ hperm.map _

/-! ### Looking at a node as a value -/

lemma itemValues?_eq {items : List Value} {nodes : List Node}
    (h : List.Forall₂ (fun v n => Node.value? n = some v) items nodes) :
    Node.itemValues? nodes = some items := by
  induction h with
  | nil => rfl
  | cons hv _ ih =>
    rw [Node.itemValues?, hv, ih]
    rfl

lemma memberValues?_eq {members : List (String × Value)} {written : List (String × Node)}
    (h : List.Forall₂ (fun n m => n.1 = m.1 ∧ Node.value? n.2 = some m.2) written members) :
    Node.memberValues? written = some members := by
  induction h with
  | nil => rfl
  | @cons n m _ _ hm _ ih =>
    obtain ⟨k, node⟩ := n
    obtain ⟨l, v⟩ := m
    obtain ⟨rfl, hv⟩ := hm
    rw [Node.memberValues?, hv, ih]
    rfl

/-- **An ordered value is what every node it may be written as stands for.** -/
theorem Ordered.value?_eq {v : Value} (hv : v.Ordered) {node : Node} (h : v.WrittenAs node) :
    node.value? = some v := by
  induction hv generalizing node with
  | null => cases h; rfl
  | bool b => cases h; rfl
  | number n => cases h; rfl
  | string s => cases h; rfl
  | array hitems ih =>
    cases h with
    | array hwritten =>
      have hvalues := ((List.forall₂_and_left _ _).mpr ⟨@ih, hwritten⟩).imp fun v n h => h.1 h.2
      rw [Node.value?, itemValues?_eq hvalues]
      rfl
  | @object members hascending _ ih =>
    cases h with
    | object hperm hnames hwritten =>
      have hpairs := (List.forall₂_and_left _ _).mpr ⟨@ih, forall₂_members hnames hwritten⟩
      have hsorted := (hpairs.imp fun m n h => And.intro h.2.1.symm (h.1 h.2.2)).flip
      obtain ⟨values, hvalues, hmembers⟩ := List.perm_comp_forall₂ hperm hsorted
      rw [Node.value?, memberValues?_eq hvalues]
      show some (ofDict (Dict.ofList values)) = some (.object members)
      rw [Dict.ofList_eq_of_perm (d := ⟨members, hascending⟩) hmembers]
      rfl

end Value

/-- The values of a map are ordered. -/
def OrderedValues (entries : Dict Value) : Prop := ∀ key v, entries.get? key = some v → v.Ordered

lemma OrderedValues.ordered {entries : Dict Value} (h : OrderedValues entries) :
    (Value.ofDict entries).Ordered :=
  .object entries.ascending fun m hm => h m.1 m.2 ((entries.mem_entries_iff m.1 m.2).mp hm)

lemma orderedValues_ofList {members : List (String × Value)} (h : ∀ m ∈ members, m.2.Ordered) :
    OrderedValues (.ofList members) := fun _ _ hget => h _ (Dict.mem_of_get?_ofList hget)

namespace Node

mutual

/-- **Whatever is read as a value is ordered.** -/
theorem ordered_of_value? : ∀ {n : Node} {v : Value}, n.value? = some v → v.Ordered
  | .null, _, h => by
    cases h
    exact .null
  | .bool b, _, h => by
    cases h
    exact .bool b
  | .number n, _, h => by
    cases h
    exact .number n
  | .string s, _, h => by
    cases h
    exact .string s
  | .array items, _, h => by
    rw [value?, Option.map_eq_some_iff] at h
    obtain ⟨values, hvalues, rfl⟩ := h
    exact .array (ordered_of_itemValues? hvalues)
  | .object members, _, h => by
    rw [value?, Option.map_eq_some_iff] at h
    obtain ⟨values, hvalues, rfl⟩ := h
    exact (orderedValues_ofList (ordered_of_memberValues? hvalues)).ordered
  | .unreadable, _, h => by cases h

theorem ordered_of_itemValues? : ∀ {items : List Node} {values : List Value},
    itemValues? items = some values → ∀ v ∈ values, v.Ordered
  | [], _, h => by
    cases h
    simp
  | n :: rest, _, h => by
    rw [itemValues?] at h
    simp only [Option.bind_eq_bind, Option.bind_eq_some_iff, Option.pure_def,
      Option.some.injEq] at h
    obtain ⟨v, hv, values, hvalues, rfl⟩ := h
    exact List.forall_mem_cons.mpr ⟨ordered_of_value? hv, ordered_of_itemValues? hvalues⟩

theorem ordered_of_memberValues? : ∀ {members : List (String × Node)}
    {values : List (String × Value)}, memberValues? members = some values →
      ∀ m ∈ values, m.2.Ordered
  | [], _, h => by
    cases h
    simp
  | (k, n) :: rest, _, h => by
    rw [memberValues?] at h
    simp only [Option.bind_eq_bind, Option.bind_eq_some_iff, Option.pure_def,
      Option.some.injEq] at h
    obtain ⟨v, hv, values, hvalues, rfl⟩ := h
    exact List.forall_mem_cons.mpr ⟨ordered_of_value? hv, ordered_of_memberValues? hvalues⟩

end

end Node

end Json

end ComponentTree
