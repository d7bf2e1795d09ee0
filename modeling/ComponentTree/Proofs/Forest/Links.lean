/-
# Parent links

The links of a forest lead from the id of a component to the id of its parent.  An id has at
most one link, and none if it is not in the table, so the ids on the way up from an id form a
row that ends, runs into an id without a component, or comes back to itself.  The last must
never happen: a table is *acyclic* when no way up returns to where it began.

The main results are

* `mem_trail_iff`: the trail of an id lists the ids on the way up from it, also in a table
  whose links form a loop;
* `acyclic_insert_iff`: giving an id a new link keeps a table acyclic exactly when the id is
  not on the way up from its new parent;
* `Climb.lt_size`: in an acyclic table a way up that ends at a component has fewer links than
  the table has components.
-/
import Mathlib.Logic.Relation
import ComponentTree.Forest.Basic

namespace ComponentTree

namespace Forest

open Relation (ReflTransGen TransGen)

/-- The component `child` is there and names `parent` as its parent. -/
def Linked (table : Dict Component) (child parent : String) : Prop :=
  ∃ c, table.get? child = some c ∧ c.parent = some parent

/-- No way along the links of a table comes back to where it began. -/
def Acyclic (table : Dict Component) : Prop := ∀ id, ¬ TransGen (Linked table) id id

/-- Following `n` links leads from `low` to `high`. -/
inductive Climb (table : Dict Component) : Nat → String → String → Prop
  | here (id : String) : Climb table 0 id id
  | up {n : Nat} {low next high : String} (link : Linked table low next)
      (rest : Climb table n next high) : Climb table (n + 1) low high

variable {table : Dict Component} {id a b low high : String} {c : Component} {n : Nat}

/-! ### Single links -/

lemma Linked.eq_of_linked (h : Linked table a b) {b' : String} (h' : Linked table a b') :
    b = b' := by
  obtain ⟨c, hc, hb⟩ := h
  obtain ⟨c', hc', hb'⟩ := h'
  rw [hc] at hc'
  obtain rfl := Option.some.inj hc'
  exact Option.some.inj (hb.symm.trans hb')

lemma linked_of_get? (hc : table.get? a = some c) : Linked table a b ↔ c.parent = some b := by
  constructor
  · rintro ⟨c', hc', hb⟩
    rw [hc] at hc'
    rwa [Option.some.inj hc']
  · exact fun hb => ⟨c, hc, hb⟩

lemma not_linked_of_get?_eq_none (h : table.get? a = none) : ¬ Linked table a b := by
  rintro ⟨c, hc, -⟩
  rw [h] at hc
  exact absurd hc (by simp)

lemma not_linked_empty : ¬ Linked ∅ a b := not_linked_of_get?_eq_none (Dict.get?_empty a)

lemma linked_insert_self : Linked (table.insert id c) id b ↔ c.parent = some b :=
  linked_of_get? (Dict.get?_insert_self table id c)

lemma linked_insert_of_ne (h : a ≠ id) : Linked (table.insert id c) a b ↔ Linked table a b := by
  rw [Linked, Linked, Dict.get?_insert_of_ne table h]

lemma linked_erase : Linked (table.erase id) a b ↔ a ≠ id ∧ Linked table a b := by
  rw [Linked, Linked]
  by_cases h : a = id
  · subst h
    simp
  · simp [Dict.get?_erase_of_ne table h, h]

lemma linked_erase_le (table : Dict Component) (id : String) :
    Linked (table.erase id) ≤ Linked table := fun _ _ link => (linked_erase.mp link).2

/-! ### Ways up and their lengths -/

lemma Climb.reach (h : Climb table n a b) : ReflTransGen (Linked table) a b := by
  induction h with
  | here => exact .refl
  | up link _ ih => exact .head link ih

lemma exists_climb_of_reach (h : ReflTransGen (Linked table) a b) : ∃ n, Climb table n a b := by
  induction h using ReflTransGen.head_induction_on with
  | refl => exact ⟨0, .here b⟩
  | head link _ ih =>
    obtain ⟨n, hn⟩ := ih
    exact ⟨n + 1, .up link hn⟩

/-- A way up may also be taken apart at its upper end. -/
lemma climb_succ_iff : Climb table (n + 1) low high ↔
    ∃ next, Climb table n low next ∧ Linked table next high := by
  constructor
  · intro h
    induction n generalizing low with
    | zero =>
      obtain - | ⟨link, ⟨⟩⟩ := h
      exact ⟨low, .here low, link⟩
    | succ n ih =>
      obtain - | ⟨link, rest⟩ := h
      obtain ⟨next, hnext, hlast⟩ := ih rest
      exact ⟨next, .up link hnext, hlast⟩
  · rintro ⟨next, h, hlast⟩
    induction h with
    | here => exact .up hlast (.here _)
    | up link _ ih => exact .up link (ih hlast)

lemma Climb.trans {m : Nat} (h : Climb table n a b) (h' : Climb table m b high) :
    Climb table (n + m) a high := by
  induction h with
  | here => rwa [Nat.zero_add]
  | up link _ ih =>
    rw [Nat.add_right_comm]
    exact .up link (ih h')

/-- From an id without a link the only way up is to stay. -/
lemma reach_iff_eq_of_not_linked (h : ∀ b, ¬ Linked table id b) :
    ReflTransGen (Linked table) id a ↔ a = id := by
  constructor
  · intro hreach
    rcases ReflTransGen.cases_head hreach with rfl | ⟨next, link, _⟩
    · rfl
    · exact absurd link (h next)
  · rintro rfl
    exact .refl

/-- Two ways up from one id run along each other. -/
lemma reach_total (ha : ReflTransGen (Linked table) id a) (hb : ReflTransGen (Linked table) id b) :
    ReflTransGen (Linked table) a b ∨ ReflTransGen (Linked table) b a := by
  induction ha using ReflTransGen.head_induction_on with
  | refl => exact .inl hb
  | head link rest ih =>
    rcases ReflTransGen.cases_head hb with rfl | ⟨next, link', rest'⟩
    · exact .inr (.head link rest)
    · rw [link'.eq_of_linked link] at rest'
      exact ih rest'

/-! ### Ways up in a changed table -/

/-- A way up that does not end at an id avoids its link unless it passes it. -/
lemma reach_of_reach_insert (h : ReflTransGen (Linked (table.insert id c)) a b) :
    ReflTransGen (Linked table) a b ∨ ReflTransGen (Linked table) a id := by
  induction h using ReflTransGen.head_induction_on with
  | refl => exact .inl .refl
  | @head x y link _ ih =>
    by_cases hx : x = id
    · subst hx
      exact .inr .refl
    · have link' := (linked_insert_of_ne hx).mp link
      exact ih.imp (.head link') (.head link')

/-- The way up to an id does not depend on the id's own link. -/
lemma reach_insert_self_iff :
    ReflTransGen (Linked (table.insert id c)) a id ↔ ReflTransGen (Linked table) a id := by
  constructor
  · exact fun h => (reach_of_reach_insert h).elim (fun h => h) fun h => h
  · intro h
    induction h using ReflTransGen.head_induction_on with
    | refl => exact .refl
    | @head x y link _ ih =>
      by_cases hx : x = id
      · subst hx
        exact .refl
      · exact .head ((linked_insert_of_ne hx).mpr link) ih

/-- Without the link of an id, a way up is the same unless it passes the id. -/
lemma Climb.erase (h : Climb table n a b) (hid : ¬ ReflTransGen (Linked table) a id) :
    Climb (table.erase id) n a b := by
  induction h with
  | here => exact .here _
  | @up n x y z link _ ih =>
    have hx : x ≠ id := by
      rintro rfl
      exact hid .refl
    exact .up (linked_erase.mpr ⟨hx, link⟩) (ih fun hy => hid (.head link hy))

/-- A way up from the parent of an id need not pass the id again, as it could begin there. -/
lemma reach_erase_of_reach {parent : String} (hid : Linked table id parent)
    (h : ReflTransGen (Linked table) a b) :
    b = id ∨ ReflTransGen (Linked (table.erase id)) a b ∨
      ReflTransGen (Linked (table.erase id)) parent b := by
  induction h using ReflTransGen.head_induction_on with
  | refl => exact .inr (.inl .refl)
  | @head x y link _ ih =>
    rcases ih with hb | hy | hp
    · exact .inl hb
    · by_cases hx : x = id
      · subst hx
        rw [link.eq_of_linked hid] at hy
        exact .inr (.inr hy)
      · exact .inr (.inl (.head (linked_erase.mpr ⟨hx, link⟩) hy))
    · exact .inr (.inr hp)

lemma reach_of_reach_erase (h : ReflTransGen (Linked (table.erase id)) a b) :
    ReflTransGen (Linked table) a b :=
  ReflTransGen.mono (linked_erase_le table id) _ _ h

/-! ### The trail of an id -/

/-- **The trail of an id lists what is on the way up from it.** -/
theorem mem_trail_iff (table : Dict Component) (id a : String) :
    a ∈ trail table id ↔ ReflTransGen (Linked table) id a := by
  fun_induction trail table id with
  | case1 table id hnone =>
    rw [List.mem_singleton, reach_iff_eq_of_not_linked]
    exact fun _ => not_linked_of_get?_eq_none hnone
  | case2 table id c hc hparent =>
    rw [List.mem_singleton, reach_iff_eq_of_not_linked]
    intro b link
    rw [linked_of_get? hc, hparent] at link
    exact absurd link (by simp)
  | case3 table id c hc parent hparent _ ih =>
    have hlink : Linked table id parent := ⟨c, hc, hparent⟩
    rw [List.mem_cons, ih]
    constructor
    · rintro (rfl | h)
      · exact .refl
      · exact .head hlink (reach_of_reach_erase h)
    · intro h
      rcases ReflTransGen.cases_head h with rfl | ⟨next, link, rest⟩
      · exact .inl rfl
      · rw [link.eq_of_linked hlink] at rest
        rcases reach_erase_of_reach hlink rest with ha | h | h
        · exact .inl ha
        · exact .inr h
        · exact .inr h

lemma closesLoop_iff {f : Forest} {parent : String} :
    f.closesLoop id parent = true ↔ ReflTransGen (Linked f.table) parent id := by
  rw [closesLoop, List.contains_iff_mem, mem_trail_iff]

/-! ### Acyclic tables -/

lemma acyclic_empty : Acyclic ∅ := by
  intro id h
  obtain ⟨_, link, _⟩ := TransGen.head'_iff.mp h
  exact not_linked_empty link

lemma Acyclic.erase (h : Acyclic table) (id : String) : Acyclic (table.erase id) := by
  intro a ha
  have hold : TransGen (Linked table) a a := TransGen.mono (linked_erase_le table id) _ _ ha
  exact h a hold

/-- From a parent no way up leads back to the child. -/
lemma Acyclic.not_reach_of_linked (h : Acyclic table) (link : Linked table a b) :
    ¬ ReflTransGen (Linked table) b a := fun hb => h a (.head' link hb)

/-- A way up in a changed table that is none in the old one leads by the changed id. -/
lemma transGen_of_transGen_insert (h : TransGen (Linked (table.insert id c)) a b) :
    TransGen (Linked table) a b ∨
      ReflTransGen (Linked (table.insert id c)) a id ∧
        TransGen (Linked (table.insert id c)) id b := by
  induction h using TransGen.head_induction_on with
  | @single x link =>
    by_cases hx : x = id
    · subst hx
      exact .inr ⟨.refl, .single link⟩
    · exact .inl (.single ((linked_insert_of_ne hx).mp link))
  | @head x y link rest ih =>
    by_cases hx : x = id
    · subst hx
      exact .inr ⟨.refl, .head link rest⟩
    · rcases ih with h | ⟨hid, hb⟩
      · exact .inl (.head ((linked_insert_of_ne hx).mp link) h)
      · exact .inr ⟨.head link hid, hb⟩

/-- **A new link keeps a table acyclic exactly when it does not point below its own id.** -/
theorem acyclic_insert_iff (h : Acyclic table) : Acyclic (table.insert id c) ↔
    ∀ parent, c.parent = some parent → ¬ ReflTransGen (Linked table) parent id := by
  constructor
  · intro hins parent hparent hreach
    exact hins.not_reach_of_linked (linked_insert_self.mpr hparent)
      (reach_insert_self_iff.mpr hreach)
  · intro hc a ha
    rcases transGen_of_transGen_insert ha with hold | ⟨hid, hback⟩
    · exact h a hold
    -- the loop passes `id`, so it can be entered there, by the new link
    · obtain ⟨parent, link, rest⟩ := TransGen.head'_iff.mp (hback.trans_left hid)
      exact hc parent (linked_insert_self.mp link) (reach_insert_self_iff.mp rest)

/-- A property of a component has nothing to do with its link. -/
lemma acyclic_insert_of_parent_eq {d : Component} (h : Acyclic table) (hd : table.get? id = some d)
    (hc : c.parent = d.parent) : Acyclic (table.insert id c) := by
  refine (acyclic_insert_iff h).mpr fun parent hparent => ?_
  exact h.not_reach_of_linked ⟨d, hd, hc ▸ hparent⟩

/-- **A way up that ends at a component has fewer links than there are components.** -/
theorem Climb.lt_size (h : Climb table n a b) (hacyclic : Acyclic table)
    (hb : table.get? b = some c) : n < table.size := by
  induction n generalizing table a with
  | zero => exact Nat.lt_of_le_of_lt (Nat.zero_le _) (table.size_erase_lt hb)
  | succ n ih =>
    obtain - | ⟨link, rest⟩ := h
    have hback := hacyclic.not_reach_of_linked link
    have hne : b ≠ a := by
      rintro rfl
      exact hback rest.reach
    obtain ⟨d, hd, -⟩ := link
    -- what is above `a` is found without `a` as well, in a table that is smaller by one
    have := ih (rest.erase hback) (hacyclic.erase a) (by rwa [Dict.get?_erase_of_ne table hne])
    have := table.size_erase_lt hd
    omega

/-- A way up that ends elsewhere has one link more at most. -/
lemma Climb.le_size (h : Climb table n a b) (hacyclic : Acyclic table) : n ≤ table.size := by
  cases n with
  | zero => exact Nat.zero_le _
  | succ n =>
    obtain ⟨next, hnext, c, hc, -⟩ := climb_succ_iff.mp h
    exact hnext.lt_size hacyclic hc

end Forest

end ComponentTree
