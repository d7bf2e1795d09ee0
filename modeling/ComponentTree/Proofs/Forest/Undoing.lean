/-
# Changes undone

Most changes of a forest can be taken back by another change: a component that was taken out is
registered again, one that was registered is taken out, and one that was moved is moved back.  The
change that goes back is checked like any other, but it is not refused.  What it links again is a
link of the forest as it was, and putting that in makes the table of that forest, which has no loop;
so no loop is closed, wherever the link leads and whatever children were left without a parent.

Moving and registering are taken back without a trace.  To take out forgets the place of the
component, which is last when it comes back; nothing else is changed (`changes_undone`).  And what
one change does for one, changes do for many, the last one first (`exists_changes_back`).
-/
import Mathlib
import ComponentTree.Proofs.Forest.Listing
import ComponentTree.Proofs.Forest.Registration

namespace ComponentTree

namespace Forest

variable {f g : Forest} {id : String} {c : Component} {link : Option String} {change : Change}
  {changes : List Change}

/-! ### One change -/

/-- A component is moved when it is there and its new link closes no loop. -/
lemma reparent_eq_ok_iff (hf : Acyclic f.table) : f.reparent id link = (.ok (), g) ↔
    ∃ c, f.get? id = some c ∧ Acyclic (f.table.insert id (c.withParent link)) ∧
      g = { f with table := f.table.insert id (c.withParent link) } := by
  constructor
  · intro h
    obtain ⟨c, hc, hlink, hg⟩ := reparent_eq_ok h
    exact ⟨c, hc, acyclic_of_checkLink_eq_ok hf rfl hlink, hg⟩
  · rintro ⟨c, hc, hacyclic, rfl⟩
    have hparent : (c.withParent link).parent = link := rfl
    rw [reparent, hc]
    cases hlink : f.checkLink id link with
    | ok => rfl
    | error r => exact absurd hacyclic ((checkLink_eq_error_iff hf hparent).mp hlink).2

namespace WellFormed

/-- What was taken out is registered again, behind all others. -/
theorem register_of_unregister (hf : f.WellFormed) (h : f.unregister id = (some c, g)) :
    g.register c = (.ok (), ⟨f.order.filter (· ≠ id) ++ [id], f.table⟩) := by
  have hg : g.WellFormed := by simpa only [h] using hf.unregister id
  obtain ⟨hc, rfl⟩ := unregister_eq_some h
  obtain rfl : c.id = id := hf.id_eq id c hc
  -- what the link is checked for is the table that it makes, and that is the table of `f`
  have hback : (f.table.erase c.id).insert c.id c = f.table := f.table.insert_erase hc
  have hgone : (f.table.erase c.id).get? c.id = none := Dict.get?_erase_self _ _
  refine (register_eq_ok_iff hg.acyclic).mpr ⟨contains_eq_false_iff.mpr hgone, ?_, ?_⟩
  · rw [hback]
    exact hf.acyclic
  · rw [hback]

/-- What was registered is taken out again. -/
theorem unregister_of_register (hf : f.WellFormed) (h : f.register c = (.ok (), g)) :
    g.unregister c.id = (some c, f) := by
  obtain ⟨hnone, -, rfl⟩ := register_eq_ok h
  have hnot := hf.not_mem_order hnone
  have hothers : ∀ id ∈ f.order, decide (id ≠ c.id) = true := fun id hid =>
    decide_eq_true fun he => hnot (he ▸ hid)
  have horder : (f.order ++ [c.id]).filter (· ≠ c.id) = f.order := by
    rw [List.filter_append, List.filter_eq_self.mpr hothers]
    simp
  have hget : get? ⟨f.order ++ [c.id], f.table.insert c.id c⟩ c.id = some c :=
    Dict.get?_insert_self _ _ _
  rw [Forest.unregister, hget]
  dsimp only
  rw [horder, f.table.erase_insert hnone]

/-- What was moved is moved back. -/
theorem reparent_of_reparent (hf : f.WellFormed) (hc : f.get? id = some c)
    (h : f.reparent id link = (.ok (), g)) : g.reparent id c.parent = (.ok (), f) := by
  have hg : g.WellFormed := by simpa only [h] using hf.reparent id link
  obtain ⟨d, hd, -, rfl⟩ := (reparent_eq_ok_iff hf.acyclic).mp h
  obtain rfl : c = d := Option.some.inj (hc.symm.trans hd)
  have hback : (f.table.insert id (c.withParent link)).insert id
      ((c.withParent link).withParent c.parent) = f.table := by
    rw [Dict.insert_insert]
    exact f.table.insert_eq_self hc
  refine (reparent_eq_ok_iff hg.acyclic).mpr
    ⟨c.withParent link, Dict.get?_insert_self _ _ _, ?_, ?_⟩
  · rw [hback]
    exact hf.acyclic
  · rw [hback]

end WellFormed

/-- **Changes can be undone.**  In a forest that is reached by changes, a component that was taken
out can be registered at once, and makes a forest with the same component under every id, in which
all others stand in their order and it is the last; and a component that was moved can be moved back
at once to the parent it had, or to none, which makes the forest as it was. -/
theorem changes_undone (hf : f.Reachable) :
    (∀ id c g, f.unregister id = (some c, g) →
      ∃ h, g.register c = (.ok (), h) ∧ (∀ a, h.get? a = f.get? a) ∧
        h.order = f.order.filter (· ≠ id) ++ [id] ∧
        h.toList = f.toList.filter (·.id ≠ id) ++ [c]) ∧
      ∀ id c link g, f.get? id = some c → f.reparent id link = (.ok (), g) →
        g.reparent id c.parent = (.ok (), f) := by
  have hwf := hf.wellFormed
  refine ⟨fun id c g h => ?_, fun id c link g hc h => hwf.reparent_of_reparent hc h⟩
  have hg : g.WellFormed := by simpa only [h] using hwf.unregister id
  have hback := hwf.register_of_unregister h
  refine ⟨_, hback, fun _ => rfl, rfl, ?_⟩
  obtain ⟨hgone, -, heq⟩ := register_eq_ok hback
  rw [heq, WellFormed.toList_append (hg.not_mem_order hgone), (unregister_eq_some h).2,
    hwf.toList_erase]

/-- In the sample the form is taken out while the mail still names it as its parent, and comes back
behind the note; and the mail is moved up to the page and back to the form. -/
theorem changes_undone_sample :
    (∃ g h, sample.unregister "form" = (some (plain "form" (some "page") "panel"), g) ∧
        g.register (plain "form" (some "page") "panel") = (.ok (), h) ∧
        (∀ a, h.get? a = sample.get? a) ∧ h.order = ["mail", "page", "note", "form"]) ∧
      ∃ g, sample.reparent "mail" (some "page") = (.ok (), g) ∧
        g.reparent "mail" (some "form") = (.ok (), sample) := by
  have hform : sample.get? "form" = some (plain "form" (some "page") "panel") := by cbv
  have hmail : sample.get? "mail" = some (plain "mail" (some "form") "field") := by cbv
  have horder : sample.order.filter (· ≠ "form") ++ ["form"] = ["mail", "page", "note", "form"] := by
    cbv
  have hfree : sample.closesLoop "mail" "page" = false := by cbv
  obtain ⟨g, hout⟩ : ∃ g, sample.unregister "form" =
      (some (plain "form" (some "page") "panel"), g) := by
    rw [unregister, hform]
    exact ⟨_, rfl⟩
  obtain ⟨g', hmoved⟩ : ∃ g', sample.reparent "mail" (some "page") = (.ok (), g') := by
    rw [reparent, hmail]
    simp only [checkLink, hfree]
    exact ⟨_, rfl⟩
  obtain ⟨hregister, hmove⟩ := changes_undone reachable_sample
  obtain ⟨h, hback, hget, hlast, -⟩ := hregister _ _ _ hout
  exact ⟨⟨g, h, hout, hback, hget, hlast.trans horder⟩, g', hmoved, hmove _ _ _ _ hmail hmoved⟩

/-! ### Many changes -/

/-- The change puts a component in or moves one. -/
def Change.Links : Change → Prop
  | register _ => True
  | unregister _ => False
  | reparent _ _ => True
  | setProperty _ _ _ => False

/-- A change that registers or moves is taken back without a trace, by one change or, if it was
refused, by none. -/
lemma exists_change_back (hf : f.WellFormed) (h : change.Links) :
    ∃ back : List Change, back.foldl after (f.after change) = f := by
  cases change with
  | register c =>
    obtain ⟨r, hr⟩ | ⟨-, -, hmade⟩ := register_cases f c
    · exact ⟨[], after_of_refuses ⟨r, by rw [hr]⟩⟩
    · refine ⟨[.unregister c.id], ?_⟩
      rw [after, hmade, List.foldl_cons, after, hf.unregister_of_register hmade]
      rfl
  | reparent id link =>
    obtain ⟨r, hr⟩ | ⟨c, hc, -, hmade⟩ := reparent_cases f id link
    · exact ⟨[], after_of_refuses ⟨r, by rw [hr]⟩⟩
    · refine ⟨[.reparent id c.parent], ?_⟩
      rw [after, hmade, List.foldl_cons, after, hf.reparent_of_reparent hc hmade]
      rfl
  | unregister id => exact h.elim
  | setProperty id key value => exact h.elim

/-- **Any number of registrations and moves can be taken back**, whether they were made or refused:
there are changes that lead from where they have led to the forest as it was. -/
theorem exists_changes_back (hf : f.WellFormed) (h : ∀ change ∈ changes, change.Links) :
    ∃ back : List Change, back.foldl after (changes.foldl after f) = f := by
  induction changes generalizing f with
  | nil => exact ⟨[], rfl⟩
  | cons change rest ih =>
    obtain ⟨hchange, hrest⟩ := List.forall_mem_cons.mp h
    obtain ⟨later, hlater⟩ := ih (hf.after change) hrest
    obtain ⟨last, hlast⟩ := exists_change_back hf hchange
    -- what was changed first goes back last
    exact ⟨later ++ last, by rw [List.foldl_cons, List.foldl_append, hlater, hlast]⟩

end Forest

end ComponentTree
