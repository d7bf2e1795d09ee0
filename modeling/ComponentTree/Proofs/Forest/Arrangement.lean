/-
# Components in any order

Components that are registered one after another may come in any order: children before their
parents, and the two ends of a chain of links before its middle.  Each time only the links of those
that are there are checked, so it depends on the order at which component a loop is noticed.  That
there is one does not: all components are taken exactly when their ids differ and the links of the
whole list form no loop, which says nothing about the order.  The forest that comes of it has the
same component under every id, and lists them as they came (`registerAll_arrangement`).
-/
import Mathlib
import ComponentTree.Proofs.Forest.Listing
import ComponentTree.Proofs.Forest.Registration

namespace ComponentTree

namespace Forest

open Relation (TransGen)

variable {f f' : Forest} {cs cs' : List Component} {id : String}

/-! ### The links of a list -/

/-- The links of the forest of a list are those of the list. -/
lemma linked_ofList (h : (cs.map (·.id)).Nodup) :
    Linked (ofList cs).table = Listing.Linked cs := by
  ext child parent
  constructor
  · rintro ⟨c, hc, hparent⟩
    obtain ⟨hmem, hid⟩ := (get?_ofList h).mp hc
    exact ⟨c, hmem, hid, hparent⟩
  · rintro ⟨c, hmem, hid, hparent⟩
    exact ⟨c, (get?_ofList h).mpr ⟨hmem, hid⟩, hparent⟩

lemma toList_ofList (h : (cs.map (·.id)).Nodup) : (ofList cs).toList = cs := by
  have hself : ∀ c ∈ cs, (ofList cs).table.get? c.id = some c := by
    intro c hc
    exact (get?_ofList h).mpr ⟨hc, rfl⟩
  calc (ofList cs).toList
      = cs.filterMap fun c => (ofList cs).table.get? c.id := List.filterMap_map
    _ = cs.filterMap some := List.filterMap_congr hself
    _ = cs := List.filterMap_some

/-- All components of a list are taken exactly when their ids differ and no component leads to
itself by the links of the list. -/
lemma exists_registerAll_iff : (∃ f, registerAll ∅ cs = .ok f) ↔
    (cs.map (·.id)).Nodup ∧ ∀ id, ¬ TransGen (Listing.Linked cs) id id := by
  constructor
  · rintro ⟨f, h⟩
    obtain ⟨hnodup, hacyclic, -⟩ := registerAll_eq_ok_iff.mp h
    rw [Acyclic, linked_ofList hnodup] at hacyclic
    exact ⟨hnodup, hacyclic⟩
  · rintro ⟨hnodup, hacyclic⟩
    rw [← linked_ofList hnodup] at hacyclic
    exact ⟨ofList cs, registerAll_eq_ok_iff.mpr ⟨hnodup, hacyclic, rfl⟩⟩

/-! ### The same components in another order -/

lemma linked_of_perm (hperm : cs'.Perm cs) : Listing.Linked cs' = Listing.Linked cs := by
  ext child parent
  exact exists_congr fun c => and_congr_left fun _ => hperm.mem_iff

lemma exists_registerAll_of_perm (hperm : cs'.Perm cs) :
    (∃ f, registerAll ∅ cs' = .ok f) ↔ ∃ f, registerAll ∅ cs = .ok f := by
  rw [exists_registerAll_iff, exists_registerAll_iff, linked_of_perm hperm,
    (hperm.map Component.id).nodup_iff]

/-- The forests of a list and of its components in another order differ in their orders alone. -/
lemma ofList_of_perm (hperm : cs'.Perm cs) (h : (cs.map (·.id)).Nodup) :
    ofList cs' = ⟨cs'.map (·.id), (ofList cs).table⟩ := by
  have h' : (cs'.map (·.id)).Nodup := (hperm.map _).nodup_iff.mpr h
  have htable : (ofList cs').table = (ofList cs).table := by
    refine Dict.ext_get? fun id => ?_
    ext c
    exact (get?_ofList h').trans ((and_congr_left fun _ => hperm.mem_iff).trans (get?_ofList h).symm)
  rw [← htable]
  rfl

/-- **Registration does not depend on the order.**  The components of a list are all registered,
one after another into the empty forest, exactly when their ids differ and no component leads to
itself by the links of the list.  So in every order they are, or in none; and two forests that come
of them have the same component under every id, and differ in nothing but that each lists the
components in its own order. -/
theorem registerAll_arrangement (cs : List Component) :
    ((∃ f, registerAll ∅ cs = .ok f) ↔
        (cs.map (·.id)).Nodup ∧ ∀ id, ¬ TransGen (Listing.Linked cs) id id) ∧
      ∀ cs', cs'.Perm cs →
        ((∃ f', registerAll ∅ cs' = .ok f') ↔ ∃ f, registerAll ∅ cs = .ok f) ∧
        ∀ f f', registerAll ∅ cs = .ok f → registerAll ∅ cs' = .ok f' →
          (∀ id, f'.get? id = f.get? id) ∧ f' = ⟨cs'.map (·.id), f.table⟩ ∧
            f.toList = cs ∧ f'.toList = cs' := by
  refine ⟨exists_registerAll_iff, fun cs' hperm => ⟨exists_registerAll_of_perm hperm, ?_⟩⟩
  intro f f' h h'
  obtain ⟨hnodup, -, rfl⟩ := registerAll_eq_ok_iff.mp h
  obtain ⟨hnodup', -, rfl⟩ := registerAll_eq_ok_iff.mp h'
  have horder := ofList_of_perm hperm hnodup
  refine ⟨fun id => ?_, horder, toList_ofList hnodup, toList_ofList hnodup'⟩
  rw [horder]
  rfl

/-- Three components, each below the next. -/
def sampleChain : List Component :=
  [plain "mail" (some "form") "field", plain "form" (some "page") "panel",
    plain "page" (some "window") "panel"]

/-- The chain registered from its middle: the forest is the same but for its order.  With a window
below the mail not all are registered, in whatever order they come. -/
theorem registerAll_arrangement_sample :
    (∃ f f', registerAll ∅ sampleChain = .ok f ∧ registerAll ∅ (sampleChain.rotate 1) = .ok f' ∧
        (∀ id, f'.get? id = f.get? id) ∧ f'.toList = sampleChain.rotate 1) ∧
      ∀ cs, cs.Perm (plain "window" (some "mail") "panel" :: sampleChain) →
        ¬ ∃ f, registerAll ∅ cs = .ok f := by
  have hperm : (sampleChain.rotate 1).Perm sampleChain := sampleChain.rotate_perm 1
  have hchain : registerAll ∅ sampleChain = .ok (ofList sampleChain) := by cbv
  have hrotated : registerAll ∅ (sampleChain.rotate 1) = .ok (ofList (sampleChain.rotate 1)) := by
    cbv
  have hloop : registerAll ∅ (plain "window" (some "mail") "panel" :: sampleChain) =
      .error (.loop "page" "window") := by cbv
  obtain ⟨-, hboth⟩ := (registerAll_arrangement sampleChain).2 _ hperm
  obtain ⟨hget, -, -, hlist⟩ := hboth _ _ hchain hrotated
  refine ⟨⟨_, _, hchain, hrotated, hget, hlist⟩, fun cs hcs => ?_⟩
  rw [((registerAll_arrangement _).2 cs hcs).1, hloop]
  simp

end Forest

end ComponentTree
