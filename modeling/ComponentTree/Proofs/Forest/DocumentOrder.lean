/-
# Document order

The components of a subtree have an order: a component comes before everything below it, and
of two siblings the one registered earlier comes first, with all that is below it.  A list
*lists* the components of a subtree that have a property when it has each of them once, in this
order, and nothing else (`Forest.Lists`).

The subtree in pre-order lists all of its components, and whatever part of it is singled out
lists the components of that part (`lists_of_sublist_preorder`).
-/
import ComponentTree.Proofs.Forest.Subtree

namespace ComponentTree

open List (Sublist)

/-! ### Which of two comes first -/

namespace Precedence

variable {α β : Type} {l l' s t : List α} {a b x : α}

lemma pair_of_mem_append (ha : a ∈ s) (hb : b ∈ t) : [a, b].Sublist (s ++ t) :=
  (List.singleton_sublist.mpr ha).append (List.singleton_sublist.mpr hb)

/-- Of two members of a list one comes before the other. -/
lemma pair_or_pair (ha : a ∈ l) (hb : b ∈ l) (hne : a ≠ b) :
    [a, b].Sublist l ∨ [b, a].Sublist l := by
  obtain ⟨s, t, rfl⟩ := List.append_of_mem ha
  rcases List.mem_append.mp hb with hs | ht
  · exact .inr (pair_of_mem_append hs List.mem_cons_self)
  · have ht : b ∈ t := (List.mem_cons.mp ht).resolve_left hne.symm
    exact .inl ((pair_of_mem_append (List.mem_singleton_self a) ht).trans
      (List.sublist_append_right s (a :: t)))

/-- In a list without repetition not both come before the other. -/
lemma not_pair_of_pair (hl : l.Nodup) (h : [a, b].Sublist l) : ¬ [b, a].Sublist l := by
  induction l with
  | nil => exact absurd h (by simp)
  | cons y rest ih =>
    obtain ⟨hy, hrest⟩ := List.nodup_cons.mp hl
    intro h'
    rcases List.cons_sublist_cons'.mp h with hab | ⟨rfl, hb⟩
    · rcases List.cons_sublist_cons'.mp h' with hba | ⟨rfl, -⟩
      · exact ih hrest hab hba
      · exact hy (hab.subset (by simp))
    · rcases List.cons_sublist_cons'.mp h' with hba | ⟨rfl, -⟩
      · exact hy (hba.subset (by simp))
      · exact hy (List.singleton_sublist.mp hb)

/-- A part of a list without repetition keeps its order. -/
lemma pair_of_sublist (hl : l.Nodup) (hsub : l'.Sublist l) (ha : a ∈ l') (hb : b ∈ l')
    (h : [a, b].Sublist l) : [a, b].Sublist l' := by
  have hne : a ≠ b := by simpa using hl.sublist h
  rcases pair_or_pair ha hb hne with hab | hba
  · exact hab
  · have hback : [b, a].Sublist l := hba.trans hsub
    exact absurd hback (not_pair_of_pair hl h)

/-- What stands between two members of a piece of a list stands in the piece. -/
lemma mem_of_between (hl : l.Nodup) (hpiece : t <:+: l) (ha : a ∈ t) (hb : b ∈ t)
    (h : [a, x, b].Sublist l) : x ∈ t := by
  have hax : [a, x].Sublist l := Sublist.trans (by simp) h
  have hxb : [x, b].Sublist l := Sublist.trans (by simp) h
  obtain ⟨s, u, rfl⟩ := hpiece
  have hx : x ∈ s ++ t ++ u := hxb.subset List.mem_cons_self
  rw [List.append_assoc] at hl hax hxb
  simp only [List.mem_append] at hx
  rcases hx with (hx | hx) | hx
  · exact absurd (pair_of_mem_append hx (List.mem_append_left u ha)) (not_pair_of_pair hl hax)
  · exact hx
  · refine absurd ((pair_of_mem_append hb hx).trans ?_) (not_pair_of_pair hl hxb)
    exact List.sublist_append_right s (t ++ u)

lemma sublist_of_not_mem_append (h : l.Sublist (s ++ t)) (hnot : ∀ a ∈ l, a ∉ s) :
    l.Sublist t := by
  obtain ⟨s', t', rfl, hs, ht⟩ := List.sublist_append_iff.mp h
  cases s' with
  | nil => exact ht
  | cons a _ => exact absurd (hs.subset List.mem_cons_self) (hnot a List.mem_cons_self)

lemma pair_flatMap {g : α → List β} {y z : β} (h : [a, b].Sublist l) (hy : y ∈ g a)
    (hz : z ∈ g b) : [y, z].Sublist (l.flatMap g) := by
  refine Sublist.trans ?_ (h.flatMap g)
  simpa using pair_of_mem_append hy hz

end Precedence

namespace Forest

open Relation (ReflTransGen)
open Precedence

/-- The list has the components of the subtree of `root` that have a property, and nothing
else, in document order. -/
structure Lists (f : Forest) (root : Component) (P : Component → Prop) (l : List Component) :
    Prop where
  /-- No id comes twice. -/
  nodup : (l.map (·.id)).Nodup
  /-- What is listed. -/
  mem_iff : ∀ c, c ∈ l ↔ f.get? c.id = some c ∧ f.Within c root ∧ P c
  /-- A component comes before all that is below it. -/
  before_below : ∀ a b, a ∈ l → b ∈ l → a ≠ b → f.Within b a → [a, b].Sublist l
  /-- A subtree stands in one piece. -/
  contiguous : ∀ d a x b, f.get? d.id = some d → f.Within a d → f.Within b d →
    [a, x, b].Sublist l → f.Within x d
  /-- The subtrees of siblings stand in the order in which the siblings were registered. -/
  siblings : ∀ d e a b, d.parent = e.parent → [d, e].Sublist f.toList → a ∈ l → b ∈ l →
    f.Within a d → f.Within b e → [a, b].Sublist l

variable {f : Forest} {a b c d e x root : Component} {l : List Component}

/-! ### The order of a subtree in pre-order -/

lemma pair_preorder_of_within (hf : f.WellFormed) (hroot : f.get? root.id = some root)
    (ha : a ∈ f.preorder root) (hb : b ∈ f.preorder root) (hne : a ≠ b) (h : f.Within b a) :
    [a, b].Sublist (f.preorder root) := by
  obtain ⟨ha, haroot⟩ := (mem_preorder hf hroot).mp ha
  obtain ⟨hb, -⟩ := (mem_preorder hf hroot).mp hb
  refine Sublist.trans ?_ (preorder_isInfix hf ha hroot haroot).sublist
  have hmem : b ∈ f.preorder a := (mem_preorder hf ha).mpr ⟨hb, h⟩
  rw [preorder_eq hf ha] at hmem ⊢
  have hbelow : b ∈ (f.source.childrenOf a.id).flatMap f.preorder :=
    (List.mem_cons.mp hmem).resolve_left hne.symm
  exact pair_of_mem_append (List.mem_singleton_self a) hbelow

lemma within_of_between_preorder (hf : f.WellFormed) (hroot : f.get? root.id = some root)
    (hd : f.get? d.id = some d) (had : f.Within a d) (hbd : f.Within b d)
    (h : [a, x, b].Sublist (f.preorder root)) : f.Within x d := by
  have hmem : ∀ y ∈ [a, x, b], f.get? y.id = some y ∧ f.Within y root :=
    fun y hy => (mem_preorder hf hroot).mp (h.subset hy)
  obtain ⟨ha, haroot⟩ := hmem a (by simp)
  obtain ⟨-, hxroot⟩ := hmem x (by simp)
  obtain ⟨hb, -⟩ := hmem b (by simp)
  rcases reach_total haroot had with hup | hdown
  · exact hxroot.trans hup
  · have hpiece := preorder_isInfix hf hd hroot hdown
    have ha : a ∈ f.preorder d := (mem_preorder hf hd).mpr ⟨ha, had⟩
    have hb : b ∈ f.preorder d := (mem_preorder hf hd).mpr ⟨hb, hbd⟩
    have hx : x ∈ f.preorder d := mem_of_between (nodup_preorder hf hroot) hpiece ha hb h
    exact ((mem_preorder hf hd).mp hx).2

lemma pair_preorder_of_siblings (hf : f.WellFormed) (hroot : f.get? root.id = some root)
    (hparent : d.parent = e.parent) (hde : [d, e].Sublist f.toList) (ha : a ∈ f.preorder root)
    (hb : b ∈ f.preorder root) (had : f.Within a d) (hbe : f.Within b e) :
    [a, b].Sublist (f.preorder root) := by
  obtain ⟨ha, haroot⟩ := (mem_preorder hf hroot).mp ha
  obtain ⟨hb, hbroot⟩ := (mem_preorder hf hroot).mp hb
  have hd : f.get? d.id = some d := hf.mem_toList.mp (hde.subset (by simp))
  have he : f.get? e.id = some e := hf.mem_toList.mp (hde.subset (by simp))
  have hne : d ≠ e := by simpa using hf.nodup_toList.sublist hde
  -- `root` does not lie below `d`, as `b` would lie below both siblings
  have hbd : ¬ f.Within root d := by
    intro h
    have hbelow : f.Within b d := hbroot.trans h
    exact not_within_siblings hf hd he hparent hne hbelow hbe
  have hdroot : f.Within d root := (reach_total haroot had).resolve_left hbd
  rcases ReflTransGen.cases_head hdroot with hid | ⟨p, hlink, hp⟩
  · rw [Within, hid] at hbd
    exact absurd .refl hbd
  · obtain ⟨parent, hparent', rfl⟩ := exists_get?_of_reach hf hroot hp
    refine Sublist.trans ?_ (preorder_isInfix hf hparent' hroot hp).sublist
    have hchildren : [d, e].Sublist (f.source.childrenOf parent.id) := by
      have hd' := (linked_iff hd).mp hlink
      have := hde.filter fun c => c.parent == some parent.id
      simpa [childrenOf_source, hd', ← hparent] using this
    rw [preorder_eq hf hparent']
    refine Sublist.cons _ (pair_flatMap hchildren ?_ ?_)
    · exact (mem_preorder hf hd).mpr ⟨ha, had⟩
    · exact (mem_preorder hf he).mpr ⟨hb, hbe⟩

/-- **Whatever is singled out of a subtree in pre-order is listed in document order.** -/
theorem lists_of_sublist_preorder (hf : f.WellFormed) (hroot : f.get? root.id = some root)
    {P : Component → Prop} (hsub : l.Sublist (f.preorder root))
    (hmem : ∀ c ∈ f.preorder root, c ∈ l ↔ P c) : f.Lists root P l where
  nodup := (nodup_ids_preorder hf hroot).sublist (hsub.map _)
  mem_iff c := by
    constructor
    · intro hc
      have hpre := hsub.subset hc
      obtain ⟨hget, hwithin⟩ := (mem_preorder hf hroot).mp hpre
      exact ⟨hget, hwithin, (hmem c hpre).mp hc⟩
    · rintro ⟨hget, hwithin, hP⟩
      exact (hmem c ((mem_preorder hf hroot).mpr ⟨hget, hwithin⟩)).mpr hP
  before_below a b ha hb hne h := by
    have hpair : [a, b].Sublist (f.preorder root) :=
      pair_preorder_of_within hf hroot (hsub.subset ha) (hsub.subset hb) hne h
    exact pair_of_sublist (nodup_preorder hf hroot) hsub ha hb hpair
  contiguous d a x b hd had hbd h :=
    within_of_between_preorder hf hroot hd had hbd (h.trans hsub)
  siblings d e a b hparent hde ha hb had hbe := by
    have hpair : [a, b].Sublist (f.preorder root) :=
      pair_preorder_of_siblings hf hroot hparent hde (hsub.subset ha) (hsub.subset hb) had hbe
    exact pair_of_sublist (nodup_preorder hf hroot) hsub ha hb hpair

/-- A subtree in pre-order lists all its components. -/
lemma lists_preorder (hf : f.WellFormed) (hroot : f.get? root.id = some root) :
    f.Lists root (fun _ => True) (f.preorder root) :=
  lists_of_sublist_preorder hf hroot (List.Sublist.refl _) fun _ hc => iff_true_intro hc

end Forest

end ComponentTree
