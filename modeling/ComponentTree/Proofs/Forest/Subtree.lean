/-
# Subtrees of a forest

A component lies within the subtree of another if that one is on the way up from it; each lies
within its own.  In a well-formed forest the unfolding of a component ends, since no way up is
longer than the forest has components, and what it lists is the subtree: every component of it,
once (`mem_preorder`, `nodup_ids_preorder`), the component itself first, and every smaller
subtree in one piece (`preorder_isInfix`).
-/
import ComponentTree.Proofs.Forest.Changes
import ComponentTree.Proofs.Query.Unfolding

namespace ComponentTree

namespace Forest

open Relation (ReflTransGen)
open List (Sublist)

/-- The component lies within the subtree of `root`: it is `root`, or `root` is on the way up
from it. -/
def Within (f : Forest) (c root : Component) : Prop := ReflTransGen (Linked f.table) c.id root.id

/-- The subtree of a component, in pre-order. -/
def preorder (f : Forest) (c : Component) : List Component := f.source.occurrences f.size c

variable {f : Forest} {a b c d x : Component} {n levels : Nat}

/-! ### The components of a well-formed forest -/

namespace WellFormed

lemma size_table (hf : f.WellFormed) : f.table.size = f.size := by
  have hperm : f.table.keys.Perm f.order := by
    refine (List.perm_ext_iff_of_nodup f.table.nodup_keys hf.nodup_order).mpr fun id => ?_
    rw [hf.mem_order_iff, Dict.keys, List.mem_map]
    constructor
    · rintro ⟨⟨_, e⟩, he, rfl⟩
      exact ⟨e, (f.table.mem_entries_iff _ _).mp he⟩
    · rintro ⟨e, he⟩
      exact ⟨(id, e), (f.table.mem_entries_iff _ _).mpr he, rfl⟩
  rw [size, ← hperm.length_eq, Dict.keys, List.length_map, Dict.size]

lemma get?_id (hf : f.WellFormed) {id : String} (hc : f.get? id = some c) :
    f.get? c.id = some c := by rwa [hf.id_eq id c hc]

lemma mem_toList (hf : f.WellFormed) : c ∈ f.toList ↔ f.get? c.id = some c := by
  rw [toList, List.mem_filterMap]
  constructor
  · rintro ⟨id, -, hc⟩
    exact hf.get?_id hc
  · intro hc
    have hmem : c.id ∈ f.order := (hf.mem_order_iff c.id).mpr ⟨c, hc⟩
    exact ⟨c.id, hmem, hc⟩

lemma ids_toList (hf : f.WellFormed) : f.toList.map (·.id) = f.order := by
  have hall : ∀ id ∈ f.order, ∃ c, f.table.get? id = some c ∧ c.id = id := by
    intro id hid
    obtain ⟨c, hc⟩ := (hf.mem_order_iff id).mp hid
    exact ⟨c, hc, hf.id_eq id c hc⟩
  rw [toList]
  generalize f.order = ids at hall ⊢
  induction ids with
  | nil => rfl
  | cons id rest ih =>
    obtain ⟨c, hc, hid⟩ := hall id List.mem_cons_self
    rw [List.filterMap_cons_some hc, List.map_cons, hid,
      ih fun id' h' => hall id' (List.mem_cons_of_mem _ h')]

lemma nodup_toList (hf : f.WellFormed) : f.toList.Nodup :=
  .of_map (·.id) (hf.ids_toList ▸ hf.nodup_order)

end WellFormed

lemma eq_of_get? (ha : f.get? a.id = some a) (hb : f.get? b.id = some b) (h : a.id = b.id) :
    a = b := by
  rw [h, hb] at ha
  exact (Option.some.inj ha).symm

lemma linked_iff (hc : f.get? c.id = some c) {parent : String} :
    Linked f.table c.id parent ↔ c.parent = some parent := linked_of_get? hc

lemma childrenOf_source (f : Forest) (id : String) :
    f.source.childrenOf id = f.toList.filter fun c => c.parent == some id := rfl

lemma mem_childrenOf (hf : f.WellFormed) {id : String} :
    c ∈ f.source.childrenOf id ↔ f.get? c.id = some c ∧ Linked f.table c.id id := by
  rw [childrenOf_source, List.mem_filter, hf.mem_toList, beq_iff_eq]
  exact and_congr_right fun hc => (linked_iff hc).symm

/-- Where a link leads on from, there is a component. -/
lemma exists_get?_of_linked (hf : f.WellFormed) {id parent : String}
    (h : Linked f.table id parent) : ∃ c, f.get? c.id = some c ∧ c.id = id := by
  obtain ⟨c, hc, -⟩ := h
  exact ⟨c, hf.get?_id hc, hf.id_eq id c hc⟩

lemma exists_get?_of_reach (hf : f.WellFormed) (hc : f.get? c.id = some c) {id : String}
    (h : ReflTransGen (Linked f.table) id c.id) : ∃ x, f.get? x.id = some x ∧ x.id = id := by
  rcases ReflTransGen.cases_head h with rfl | ⟨_, hlink, _⟩
  · exact ⟨c, hc, rfl⟩
  · exact exists_get?_of_linked hf hlink

/-! ### Levels of a subtree -/

lemma mem_generation (hf : f.WellFormed) (hc : f.get? c.id = some c) :
    d ∈ f.source.generation n c ↔ f.get? d.id = some d ∧ Climb f.table n d.id c.id := by
  induction n generalizing c with
  | zero =>
    rw [Source.generation, List.mem_singleton]
    constructor
    · rintro rfl
      exact ⟨hc, .here _⟩
    · rintro ⟨hd, hclimb⟩
      generalize hid : d.id = id at hclimb
      obtain - | - := hclimb
      exact eq_of_get? hd hc hid
  | succ n ih =>
    rw [Source.generation, List.mem_flatMap, climb_succ_iff]
    constructor
    · rintro ⟨x, hx, hd⟩
      obtain ⟨hx, hlink⟩ := (mem_childrenOf hf).mp hx
      obtain ⟨hd, hclimb⟩ := (ih hx).mp hd
      exact ⟨hd, x.id, hclimb, hlink⟩
    · rintro ⟨hd, next, hclimb, hlink⟩
      obtain ⟨x, hx, rfl⟩ := exists_get?_of_linked hf hlink
      exact ⟨x, (mem_childrenOf hf).mpr ⟨hx, hlink⟩, (ih hx).mpr ⟨hd, hclimb⟩⟩

lemma generation_eq_nil_iff (hf : f.WellFormed) (hc : f.get? c.id = some c) :
    f.source.generation n c = [] ↔
      ∀ d, f.get? d.id = some d → ¬ Climb f.table n d.id c.id := by
  rw [List.eq_nil_iff_forall_not_mem]
  refine forall_congr' fun d => ?_
  rw [mem_generation hf hc, not_and]

/-- No way up is longer than the forest has components. -/
lemma generation_size (hf : f.WellFormed) (hc : f.get? c.id = some c) :
    f.source.generation f.size c = [] := by
  refine (generation_eq_nil_iff hf hc).mpr fun d _ hclimb => ?_
  exact Nat.lt_irrefl _ (hf.size_table ▸ hclimb.lt_size hf.acyclic hc)

/-- Above an empty level all of the subtree is unfolded. -/
lemma occurrences_eq_preorder (hf : f.WellFormed) (hc : f.get? c.id = some c)
    (h : f.source.generation levels c = []) : f.source.occurrences levels c = f.preorder c := by
  rw [preorder]
  rcases Nat.le_total levels f.size with hle | hle
  · exact (Source.occurrences_eq_of_le hle h).symm
  · exact Source.occurrences_eq_of_le hle (generation_size hf hc)

/-- What holds of a component if it holds of its children holds of all. -/
lemma subtree_induction (hf : f.WellFormed) {P : Component → Prop}
    (step : ∀ c, f.get? c.id = some c → (∀ d ∈ f.source.childrenOf c.id, P d) → P c)
    (hc : f.get? c.id = some c) : P c := by
  have key : ∀ n c, f.get? c.id = some c → f.source.generation n c = [] → P c := by
    intro n
    induction n with
    | zero => exact fun c _ h => absurd h (by simp [Source.generation])
    | succ n ih =>
      intro c hc h
      rw [Source.generation, List.flatMap_eq_nil_iff] at h
      exact step c hc fun d hd => ih d ((mem_childrenOf hf).mp hd).1 (h d hd)
  exact key f.size c hc (generation_size hf hc)

/-! ### The subtree in pre-order -/

/-- **The subtree of a component is the component and then the subtrees of its children.** -/
theorem preorder_eq (hf : f.WellFormed) (hc : f.get? c.id = some c) :
    f.preorder c = c :: (f.source.childrenOf c.id).flatMap f.preorder := by
  have hsize := generation_size hf hc
  rw [← occurrences_eq_preorder hf hc (Source.generation_eq_nil_of_le (Nat.le_succ _) hsize)]
  rfl

lemma mem_preorder (hf : f.WellFormed) (hc : f.get? c.id = some c) :
    d ∈ f.preorder c ↔ f.get? d.id = some d ∧ f.Within d c := by
  constructor
  · refine subtree_induction hf (P := fun c => d ∈ f.preorder c → _ ∧ f.Within d c) ?_ hc
    intro c hc ih hd
    rw [preorder_eq hf hc, List.mem_cons, List.mem_flatMap] at hd
    rcases hd with rfl | ⟨x, hx, hd⟩
    · exact ⟨hc, .refl⟩
    · obtain ⟨hd, hwithin⟩ := ih x hx hd
      exact ⟨hd, hwithin.tail ((mem_childrenOf hf).mp hx).2⟩
  · rintro ⟨hd, hwithin⟩
    generalize hid : c.id = id at hwithin
    rw [Within, hid] at hwithin
    induction hwithin generalizing c with
    | refl =>
      rw [preorder_eq hf hc, eq_of_get? hd hc hid.symm]
      exact List.mem_cons_self
    | @tail y z _ hlink ih =>
      subst hid
      obtain ⟨x, hx, rfl⟩ := exists_get?_of_linked hf hlink
      rw [preorder_eq hf hc]
      have hchild : x ∈ f.source.childrenOf c.id := (mem_childrenOf hf).mpr ⟨hx, hlink⟩
      exact List.mem_cons_of_mem _ (List.mem_flatMap.mpr ⟨x, hchild, ih hx rfl⟩)

/-- The subtrees of two siblings have nothing in common. -/
lemma not_within_siblings (hf : f.WellFormed) (ha : f.get? a.id = some a)
    (hb : f.get? b.id = some b) (hparent : a.parent = b.parent) (hne : a ≠ b)
    (hda : f.Within d a) : ¬ f.Within d b := by
  intro hdb
  -- one of the two would lie within the other, hence its parent, which is that of the other too
  have key : ∀ x y : Component, f.get? x.id = some x → f.get? y.id = some y →
      x.parent = y.parent → x ≠ y → ¬ f.Within x y := by
    intro x y hx hy hxy hne hwithin
    rcases ReflTransGen.cases_head hwithin with hid | ⟨parent, hlink, hrest⟩
    · exact hne (eq_of_get? hx hy hid)
    · have hlink' : Linked f.table y.id parent :=
        (linked_iff hy).mpr (hxy ▸ (linked_iff hx).mp hlink)
      exact hf.acyclic.not_reach_of_linked hlink' hrest
  rcases reach_total hda hdb with h | h
  · exact key a b ha hb hparent hne h
  · exact key b a hb ha hparent.symm hne.symm h

theorem nodup_ids_preorder (hf : f.WellFormed) (hc : f.get? c.id = some c) :
    ((f.preorder c).map (·.id)).Nodup := by
  refine subtree_induction hf (P := fun c => ((f.preorder c).map (·.id)).Nodup) ?_ hc
  intro c hc ih
  rw [preorder_eq hf hc, List.map_cons, List.nodup_cons, List.map_flatMap, List.nodup_flatMap]
  refine ⟨?_, ih, ?_⟩
  · rw [List.mem_flatMap]
    rintro ⟨x, hx, hmem⟩
    obtain ⟨d, hd, hid⟩ := List.mem_map.mp hmem
    obtain ⟨hx, hlink⟩ := (mem_childrenOf hf).mp hx
    have hwithin : f.Within d x := ((mem_preorder hf hx).mp hd).2
    rw [Within, hid] at hwithin
    exact hf.acyclic.not_reach_of_linked hlink hwithin
  · have hnodup : (f.source.childrenOf c.id).Nodup := hf.nodup_toList.filter _
    refine hnodup.pairwise_of_forall_ne fun x hx y hy hne id hidx hidy => ?_
    obtain ⟨hx, hlinkx⟩ := (mem_childrenOf hf).mp hx
    obtain ⟨hy, hlinky⟩ := (mem_childrenOf hf).mp hy
    obtain ⟨d, hd, rfl⟩ := List.mem_map.mp hidx
    obtain ⟨e, he, hid⟩ := List.mem_map.mp hidy
    obtain ⟨hd, hdx⟩ := (mem_preorder hf hx).mp hd
    obtain ⟨he, hey⟩ := (mem_preorder hf hy).mp he
    obtain rfl := eq_of_get? he hd hid
    have hparent : x.parent = y.parent :=
      ((linked_iff hx).mp hlinkx).trans ((linked_iff hy).mp hlinky).symm
    exact not_within_siblings hf hx hy hparent hne hdx hey

lemma nodup_preorder (hf : f.WellFormed) (hc : f.get? c.id = some c) : (f.preorder c).Nodup :=
  .of_map (·.id) (nodup_ids_preorder hf hc)

/-- **A subtree stands in one piece in every subtree it lies within.** -/
theorem preorder_isInfix (hf : f.WellFormed) (hd : f.get? d.id = some d)
    (hc : f.get? c.id = some c) (h : f.Within d c) : f.preorder d <:+: f.preorder c := by
  generalize hid : d.id = id at h
  rw [Within, hid] at h
  induction h using ReflTransGen.head_induction_on generalizing d with
  | refl =>
    rw [eq_of_get? hd hc hid]
  | head hlink hrest ih =>
    subst hid
    obtain ⟨x, hx, rfl⟩ := exists_get?_of_reach hf hc hrest
    refine List.IsInfix.trans ?_ (ih hx rfl)
    have hmem : d ∈ f.source.childrenOf x.id := (mem_childrenOf hf).mpr ⟨hd, hlink⟩
    rw [preorder_eq hf hx]
    exact (List.infix_flatMap_of_mem hmem _).trans (List.suffix_cons _ _).isInfix

end Forest

end ComponentTree
