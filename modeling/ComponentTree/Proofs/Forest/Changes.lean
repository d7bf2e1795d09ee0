/-
# Forests under change

A forest changes in four ways: a component is registered, taken out, moved to another parent, or
given a property.  Any of these may be refused, and then the forest stays as it is
(`after_of_refuses`).  Every forest that is reached from the empty one by changes is *well-formed*:
its order lists the keys of its table, each once, every component stands under its own id, and no
way along parent links comes back to where it began.

What makes this an invariant is that the check of a new link is exact.  A forest refuses a link
when the child is on the way up from the new parent; in a forest without loops these are the
links that would close one, and no others (`checkLink_eq_error_iff`).
-/
import Mathlib
import ComponentTree.Proofs.Forest.Links

namespace ComponentTree

open Json (Value)

namespace Forest

open Relation (ReflTransGen)

/-- A change that is asked of a forest. -/
inductive Change where
  /-- Put a component behind all others. -/
  | register (c : Component)
  /-- Take the component of an id out. -/
  | unregister (id : String)
  /-- Give the component of an id another parent, or none. -/
  | reparent (id : String) (parent : Option String)
  /-- Give a property of the component of an id a value. -/
  | setProperty (id key : String) (value : Value)

/-- The forest after a change was asked of it. -/
def after (f : Forest) : Change → Forest
  | .register c => (f.register c).2
  | .unregister id => (f.unregister id).2
  | .reparent id parent => (f.reparent id parent).2
  | .setProperty id key value => (f.setProperty id key value).2

/-- The change is refused, or there is nothing to be taken out. -/
def Refuses (f : Forest) : Change → Prop
  | .register c => ∃ r, (f.register c).1 = .error r
  | .unregister id => (f.unregister id).1 = none
  | .reparent id parent => ∃ r, (f.reparent id parent).1 = .error r
  | .setProperty id key value => ∃ r, (f.setProperty id key value).1 = .error r

/-- The forest that changes, one after another, make of the empty one. -/
def run (changes : List Change) : Forest := changes.foldl after ∅

/-- The forest is reached from the empty one by changes. -/
def Reachable (f : Forest) : Prop := ∃ changes, run changes = f

/-- A component of a type without defaults and without properties of its own. -/
def plain (id : String) (parent : Option String) (type : String) : Component :=
  ⟨id, parent, ⟨[⟨type, ∅⟩]⟩, ∅⟩

/-- The component at the top of the sample; its parent is not there. -/
def samplePage : Component := plain "page" (some "window") "panel"

/-- A forest to look at: `mail` was registered before its parent `form`, and to move the page
below `mail` was refused. -/
def sample : Forest :=
  run [.register (plain "mail" (some "form") "field"),
    .register (plain "form" (some "page") "panel"), .register samplePage,
    .register (plain "note" (some "page") "field"), .reparent "page" (some "mail")]

/-- What holds of every forest that is reached by changes. -/
structure WellFormed (f : Forest) : Prop where
  /-- No id is listed twice. -/
  nodup_order : f.order.Nodup
  /-- The ids listed are those of the table. -/
  mem_order_iff : ∀ id, id ∈ f.order ↔ ∃ c, f.table.get? id = some c
  /-- A component stands under its own id. -/
  id_eq : ∀ id c, f.table.get? id = some c → c.id = id
  /-- The parent links form no loop. -/
  acyclic : Acyclic f.table

variable {f g : Forest} {id : String} {c d : Component} {link : Option String} {r : Refusal}
  {change : Change}

/-! ### The check of a link -/

lemma contains_eq_false_iff : f.contains id = false ↔ f.get? id = none := by
  rw [contains, Dict.contains, get?]
  cases f.table.get? id <;> simp

lemma checkLink_eq_error : f.checkLink id link = .error r ↔
    ∃ parent, link = some parent ∧ r = .loop id parent ∧
      ReflTransGen (Linked f.table) parent id := by
  cases link with
  | none => simp [checkLink]
  | some parent =>
    by_cases h : f.closesLoop id parent = true
    · simp [checkLink, h, closesLoop_iff.mp h, eq_comm]
    · simp [checkLink, h, mt closesLoop_iff.mpr h]

/-- **The check of a link is exact**: it fails when the table with the new link has a loop. -/
lemma checkLink_eq_error_iff (hf : Acyclic f.table) (hc : c.parent = link) :
    f.checkLink id link = .error r ↔ (∃ parent, link = some parent ∧ r = .loop id parent) ∧
      ¬ Acyclic (f.table.insert id c) := by
  rw [checkLink_eq_error, acyclic_insert_iff hf]
  constructor
  · rintro ⟨parent, hlink, hr, hreach⟩
    exact ⟨⟨parent, hlink, hr⟩, fun hno => hno parent (hc.trans hlink) hreach⟩
  · rintro ⟨⟨parent, hlink, hr⟩, hloop⟩
    refine ⟨parent, hlink, hr, ?_⟩
    by_contra hreach
    refine hloop fun parent' hparent' => ?_
    rw [hc, hlink, Option.some.injEq] at hparent'
    rwa [← hparent']

lemma acyclic_of_checkLink_eq_ok (hf : Acyclic f.table) (hc : c.parent = link) {u : Unit}
    (h : f.checkLink id link = .ok u) : Acyclic (f.table.insert id c) := by
  refine (acyclic_insert_iff hf).mpr fun parent hparent hreach => ?_
  rw [checkLink_eq_error.mpr ⟨parent, hc ▸ hparent, rfl, hreach⟩] at h
  exact absurd h (by simp)

/-! ### What each change does -/

/-- A component is put in at the end, or the forest stays as it is. -/
lemma register_cases (f : Forest) (c : Component) :
    (∃ r, f.register c = (.error r, f)) ∨
      f.get? c.id = none ∧ f.checkLink c.id c.parent = .ok () ∧
        f.register c = (.ok (), ⟨f.order ++ [c.id], f.table.insert c.id c⟩) := by
  rw [register]
  split
  · exact .inl ⟨_, rfl⟩
  · next hcontains =>
    have hnone : f.get? c.id = none := contains_eq_false_iff.mp (by simpa using hcontains)
    cases hlink : f.checkLink c.id c.parent with
    | error r => exact .inl ⟨r, rfl⟩
    | ok => exact .inr ⟨hnone, rfl, rfl⟩

/-- A component is taken out, or there is none and the forest stays as it is. -/
lemma unregister_cases (f : Forest) (id : String) :
    f.get? id = none ∧ f.unregister id = (none, f) ∨
      ∃ c, f.get? id = some c ∧
        f.unregister id = (some c, ⟨f.order.filter (· ≠ id), f.table.erase id⟩) := by
  rw [unregister]
  cases f.get? id with
  | none => exact .inl ⟨rfl, rfl⟩
  | some c => exact .inr ⟨c, rfl, rfl⟩

/-- A component gets its link, or the forest stays as it is. -/
lemma reparent_cases (f : Forest) (id : String) (link : Option String) :
    (∃ r, f.reparent id link = (.error r, f)) ∨
      ∃ c, f.get? id = some c ∧ f.checkLink id link = .ok () ∧
        f.reparent id link =
          (.ok (), { f with table := f.table.insert id (c.withParent link) }) := by
  rw [reparent]
  cases f.get? id with
  | none => exact .inl ⟨_, rfl⟩
  | some c =>
    cases hlink : f.checkLink id link with
    | error r => exact .inl ⟨r, rfl⟩
    | ok => exact .inr ⟨c, rfl, rfl, rfl⟩

/-- A property gets its value and the value it had comes back, or the forest stays as it is. -/
lemma setProperty_cases (f : Forest) (id key : String) (value : Value) :
    (∃ r, f.setProperty id key value = (.error r, f)) ∨
      ∃ c, f.get? id = some c ∧
        f.setProperty id key value = (.ok (c.properties.get? key),
          { f with table := f.table.insert id (c.withProperty key value) }) := by
  rw [setProperty]
  cases f.get? id with
  | none => exact .inl ⟨_, rfl⟩
  | some c => exact .inr ⟨c, rfl, rfl⟩

lemma register_eq_ok (h : f.register c = (.ok (), g)) : f.get? c.id = none ∧
    f.checkLink c.id c.parent = .ok () ∧ g = ⟨f.order ++ [c.id], f.table.insert c.id c⟩ := by
  obtain ⟨r, hr⟩ | ⟨hnone, hlink, hmade⟩ := register_cases f c
  · exact absurd (hr.symm.trans h) (by simp)
  · exact ⟨hnone, hlink, (Prod.mk.inj (h.symm.trans hmade)).2⟩

lemma unregister_eq_some (h : f.unregister id = (some c, g)) :
    f.get? id = some c ∧ g = ⟨f.order.filter (· ≠ id), f.table.erase id⟩ := by
  obtain ⟨-, hr⟩ | ⟨d, hd, hmade⟩ := unregister_cases f id
  · exact absurd (hr.symm.trans h) (by simp)
  · obtain ⟨he, rfl⟩ := Prod.mk.inj (hmade.symm.trans h)
    exact ⟨hd.trans he, rfl⟩

lemma reparent_eq_ok (h : f.reparent id link = (.ok (), g)) :
    ∃ c, f.get? id = some c ∧ f.checkLink id link = .ok () ∧
      g = { f with table := f.table.insert id (c.withParent link) } := by
  obtain ⟨r, hr⟩ | ⟨c, hc, hlink, hmade⟩ := reparent_cases f id link
  · exact absurd (hr.symm.trans h) (by simp)
  · exact ⟨c, hc, hlink, (Prod.mk.inj (h.symm.trans hmade)).2⟩

/-- **A refused change leaves the forest as it is.** -/
theorem after_of_refuses (h : f.Refuses change) : f.after change = f := by
  cases change with
  | register c =>
    obtain ⟨r, hr⟩ := h
    obtain ⟨r', hsame⟩ | ⟨-, -, hmade⟩ := register_cases f c
    · rw [after, hsame]
    · simp [hmade] at hr
  | unregister id =>
    have hnone : (f.unregister id).1 = none := h
    obtain ⟨-, hsame⟩ | ⟨c, -, hmade⟩ := unregister_cases f id
    · rw [after, hsame]
    · simp [hmade] at hnone
  | reparent id parent =>
    obtain ⟨r, hr⟩ := h
    obtain ⟨r', hsame⟩ | ⟨c, -, -, hmade⟩ := reparent_cases f id parent
    · rw [after, hsame]
    · simp [hmade] at hr
  | setProperty id key value =>
    obtain ⟨r, hr⟩ := h
    obtain ⟨r', hsame⟩ | ⟨c, -, hmade⟩ := setProperty_cases f id key value
    · rw [after, hsame]
    · simp [hmade] at hr

/-! ### The invariant -/

namespace WellFormed

theorem empty : WellFormed (∅ : Forest) where
  nodup_order := List.nodup_nil
  mem_order_iff id := by
    show id ∈ [] ↔ ∃ c, (∅ : Dict Component).get? id = some c
    simp
  id_eq id c h := by
    change (∅ : Dict Component).get? id = some c at h
    exact absurd h (by simp)
  acyclic := acyclic_empty

lemma not_mem_order (hf : f.WellFormed) (h : f.get? id = none) : id ∉ f.order := by
  rw [hf.mem_order_iff]
  rintro ⟨c, hc⟩
  exact absurd (h.symm.trans hc) (by simp)

/-- A component put in under its own id leaves every component under its own. -/
lemma id_eq_insert (hf : f.WellFormed) (hd : d.id = id) {a : String} {e : Component}
    (h : (f.table.insert id d).get? a = some e) : e.id = a := by
  by_cases ha : a = id
  · subst ha
    rw [Dict.get?_insert_self] at h
    rw [← Option.some.inj h, hd]
  · rw [Dict.get?_insert_of_ne _ ha] at h
    exact hf.id_eq a e h

/-- Another component may stand in the place of one that is there. -/
lemma replace (hf : f.WellFormed) (hc : f.get? id = some c) (hd : d.id = id)
    (hacyclic : Acyclic (f.table.insert id d)) :
    WellFormed { f with table := f.table.insert id d } where
  nodup_order := hf.nodup_order
  mem_order_iff a := by
    rw [hf.mem_order_iff]
    show _ ↔ ∃ e, (f.table.insert id d).get? a = some e
    by_cases ha : a = id
    · subst ha
      simp [show f.table.get? a = some c from hc]
    · rw [Dict.get?_insert_of_ne _ ha]
  id_eq _ _ h := hf.id_eq_insert hd h
  acyclic := hacyclic

theorem register (hf : f.WellFormed) (c : Component) : (f.register c).2.WellFormed := by
  obtain ⟨r, hr⟩ | ⟨hnone, hlink, hmade⟩ := register_cases f c
  · rwa [hr]
  rw [hmade]
  have hnot := hf.not_mem_order hnone
  have hids : ∀ a e, (f.table.insert c.id c).get? a = some e → e.id = a :=
    fun _ _ he => hf.id_eq_insert rfl he
  refine ⟨?_, fun a => ?_, hids, acyclic_of_checkLink_eq_ok hf.acyclic rfl hlink⟩
  · exact hf.nodup_order.append (List.nodup_singleton _) (by simpa using hnot)
  · show a ∈ f.order ++ [c.id] ↔ ∃ e, (f.table.insert c.id c).get? a = some e
    rw [List.mem_append, List.mem_singleton, hf.mem_order_iff]
    by_cases ha : a = c.id
    · subst ha
      simp
    · simp [ha, Dict.get?_insert_of_ne _ ha]

theorem unregister (hf : f.WellFormed) (id : String) : (f.unregister id).2.WellFormed := by
  obtain ⟨-, hr⟩ | ⟨c, -, hmade⟩ := unregister_cases f id
  · rwa [hr]
  rw [hmade]
  refine ⟨hf.nodup_order.filter _, fun a => ?_, fun a e he => ?_, hf.acyclic.erase id⟩
  · show a ∈ f.order.filter (· ≠ id) ↔ ∃ e, (f.table.erase id).get? a = some e
    rw [List.mem_filter, hf.mem_order_iff]
    by_cases ha : a = id
    · subst ha
      simp
    · simp [ha, Dict.get?_erase_of_ne _ ha]
  · change (f.table.erase id).get? a = some e at he
    have ha : a ≠ id := by
      rintro rfl
      rw [Dict.get?_erase_self] at he
      exact absurd he (by simp)
    rw [Dict.get?_erase_of_ne _ ha] at he
    exact hf.id_eq a e he

theorem reparent (hf : f.WellFormed) (id : String) (link : Option String) :
    (f.reparent id link).2.WellFormed := by
  obtain ⟨r, hr⟩ | ⟨c, hc, hlink, hmade⟩ := reparent_cases f id link
  · rwa [hr]
  · rw [hmade]
    exact hf.replace hc (hf.id_eq id c hc) (acyclic_of_checkLink_eq_ok hf.acyclic rfl hlink)

theorem setProperty (hf : f.WellFormed) (id key : String) (value : Value) :
    (f.setProperty id key value).2.WellFormed := by
  obtain ⟨r, hr⟩ | ⟨c, hc, hmade⟩ := setProperty_cases f id key value
  · rwa [hr]
  · rw [hmade]
    exact hf.replace hc (hf.id_eq id c hc) (acyclic_insert_of_parent_eq hf.acyclic hc rfl)

/-- One change keeps a forest well-formed, whether it is made or refused. -/
theorem after (hf : f.WellFormed) (change : Change) : (f.after change).WellFormed := by
  cases change with
  | register c => exact hf.register c
  | unregister id => exact hf.unregister id
  | reparent id parent => exact hf.reparent id parent
  | setProperty id key value => exact hf.setProperty id key value

lemma foldl_after (hf : f.WellFormed) (changes : List Change) :
    (changes.foldl Forest.after f).WellFormed := by
  induction changes generalizing f with
  | nil => exact hf
  | cons change rest ih => exact ih (hf.after change)

end WellFormed

lemma wellFormed_run (changes : List Change) : (run changes).WellFormed :=
  WellFormed.empty.foldl_after changes

lemma reachable_sample : sample.Reachable := ⟨_, rfl⟩

lemma Reachable.after (hf : f.Reachable) (change : Change) : (f.after change).Reachable := by
  obtain ⟨changes, rfl⟩ := hf
  exact ⟨changes ++ [change], List.foldl_append⟩

lemma get?_samplePage : sample.get? samplePage.id = some samplePage := by cbv

lemma size_sample : sample.size = 4 := by cbv

lemma Reachable.wellFormed (hf : f.Reachable) : f.WellFormed := by
  obtain ⟨changes, rfl⟩ := hf
  exact wellFormed_run changes

/-! ### When a change is refused -/

lemma register_eq_error : (f.register c).1 = .error r ↔
    r = .duplicate c.id ∧ f.contains c.id = true ∨
      f.checkLink c.id c.parent = .error r ∧ f.contains c.id = false := by
  rw [register]
  split
  · next h => simp [h, eq_comm]
  · next h => cases f.checkLink c.id c.parent <;> simp [h]

lemma reparent_eq_error : (f.reparent id link).1 = .error r ↔
    r = .unknown id ∧ f.contains id = false ∨
      f.checkLink id link = .error r ∧ ∃ c, f.get? id = some c := by
  rw [reparent, contains_eq_false_iff]
  cases f.get? id with
  | none => simp [eq_comm]
  | some c => cases f.checkLink id link <;> simp

lemma WellFormed.register_eq_error_iff (hf : f.WellFormed) : (f.register c).1 = .error r ↔
    r = .duplicate c.id ∧ f.contains c.id = true ∨
      (∃ parent, c.parent = some parent ∧ r = .loop c.id parent) ∧ f.contains c.id = false ∧
        ¬ Acyclic (f.table.insert c.id c) := by
  rw [register_eq_error, checkLink_eq_error_iff hf.acyclic rfl, and_assoc,
    and_comm (b := f.contains c.id = false)]

lemma WellFormed.reparent_eq_error_iff (hf : f.WellFormed) : (f.reparent id link).1 = .error r ↔
    r = .unknown id ∧ f.contains id = false ∨
      (∃ parent, link = some parent ∧ r = .loop id parent) ∧ ∃ c, f.get? id = some c ∧
        ¬ Acyclic (f.table.insert id (c.withParent link)) := by
  rw [reparent_eq_error, ← exists_and_left]
  refine or_congr_right ?_
  rw [← exists_and_left]
  refine exists_congr fun c => ?_
  have hlink : (c.withParent link).parent = link := rfl
  rw [checkLink_eq_error_iff hf.acyclic hlink, and_assoc, and_comm (b := f.get? id = some c)]

/-- **Changes keep a forest.**  Whatever is asked of the empty forest, and whatever of it is
refused, the forest that comes of it is well-formed.  In it a link is refused exactly when it
would close a loop: a component that is registered, unless its id is there already, and one that
is moved, unless its id is not there. -/
theorem run_wellFormed_and_refusal_iff (changes : List Change) :
    (run changes).WellFormed ∧
      (∀ c r, ((run changes).register c).1 = .error r ↔
        r = .duplicate c.id ∧ (run changes).contains c.id = true ∨
          (∃ parent, c.parent = some parent ∧ r = .loop c.id parent) ∧
            (run changes).contains c.id = false ∧
            ¬ Acyclic ((run changes).table.insert c.id c)) ∧
      ∀ id link r, ((run changes).reparent id link).1 = .error r ↔
        r = .unknown id ∧ (run changes).contains id = false ∨
          (∃ parent, link = some parent ∧ r = .loop id parent) ∧
            ∃ c, (run changes).get? id = some c ∧
              ¬ Acyclic ((run changes).table.insert id (c.withParent link)) := by
  have hf := wellFormed_run changes
  exact ⟨hf, fun _ _ => hf.register_eq_error_iff, fun _ _ _ => hf.reparent_eq_error_iff⟩

end Forest

end ComponentTree
