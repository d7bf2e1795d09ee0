/-
# Lineages that contradict each other

A component may be registered with any lineage, and two lineages may give types of one name different
bases or defaults.  When such a forest is written down each name is written once, as it is where it
comes first, so the types written are stitched together from different lineages, and a lineage loaded
again may be none that any component had.  But it is a lineage: the base of a type that is written is
a type of an earlier component, or else it stands next in the same lineage and is written next.  So,
following the components in their order and each lineage from its end, every type that is written has
a declared lineage (`grounded_append`); there is no loop, and no base is missing.

Hence whatever lineages its components have, if only none of them names a type twice, a forest that
was written down can be loaded, and but for the lineages it comes back as it was
(`load_capture_of_nodup`).
-/
import Mathlib
import ComponentTree.Proofs.Forest.Arrangement
import ComponentTree.Proofs.Snapshot.Building
import ComponentTree.Proofs.Snapshot.Reloading

namespace ComponentTree

namespace Forest

variable {f : Forest} {id : String} {change : Component → Component}

/-! ### Components replaced where they stand -/

section Replace

variable (hf : f.WellFormed) (hid : ∀ c, (change c).id = c.id)

include hf hid

lemma ids_map_toList : (f.toList.map change).map (·.id) = f.order := by
  rw [List.map_map, ← hf.ids_toList]
  exact List.map_congr_left fun c _ => hid c

/-- Components with the ids and the parents of those of a forest are all registered. -/
theorem registerAll_map_toList (hparent : ∀ c, (change c).parent = c.parent) :
    registerAll ∅ (f.toList.map change) = .ok (ofList (f.toList.map change)) := by
  have hnodup : ((f.toList.map change).map (·.id)).Nodup := by
    rw [ids_map_toList hf hid]
    exact hf.nodup_order
  have hlinked : Linked (ofList (f.toList.map change)).table = Linked f.table := by
    rw [linked_ofList hnodup, ← hf.linked_toList]
    ext child parent
    simp only [Listing.Linked, List.mem_map, exists_exists_and_eq_and, hid, hparent]
  refine registerAll_eq_ok_iff.mpr ⟨hnodup, ?_, rfl⟩
  rw [Acyclic, hlinked]
  exact hf.acyclic

end Replace

end Forest

namespace Snapshot

open Relation (TransGen)

variable {types types' : List TypeEntry} {found : Dict Lineage} {f : Forest} {c : Component}
  {cs : List Component} {chain : List ComponentType} {root : Option String}

/-! ### The types that are written -/

/-- Each of the types is the first of a lineage that they declare. -/
def Grounded (types : List TypeEntry) : Prop :=
  ∀ e ∈ types, ∃ l, Declares types l ∧ l.names.head? = some e.name

/-- The types of components, each name once, as it is where it comes first. -/
def typesOf (cs : List Component) : List TypeEntry :=
  distinctBy TypeEntry.name (cs.flatMap fun c => entriesOf c.lineage.types)

/-- Each entry of a lineage has a name that is grounded already, or it is declared over the next. -/
lemma exists_declares_of_mem_entriesOf
    (hold : ∀ e ∈ types, ∃ l, Declares types' l ∧ l.names.head? = some e.name)
    (hchain : ∀ e ∈ entriesOf chain, e.name ∈ types.map (·.name) ∨ e ∈ types') :
    ∀ e ∈ entriesOf chain, ∃ l, Declares types' l ∧ l.names.head? = some e.name := by
  induction chain with
  | nil => simp [entriesOf]
  | cons t rest ih =>
    obtain ⟨hfirst, hrest⟩ := List.forall_mem_cons.mp hchain
    refine List.forall_mem_cons.mpr ⟨?_, ih hrest⟩
    rcases hfirst with hname | hmem
    · obtain ⟨d, hd, hname⟩ := List.mem_map.mp hname
      rw [← hname]
      exact hold d hd
    · -- a new name stands over the next of the same lineage, whichever mention of that was kept
      obtain ⟨l, hl, hbase⟩ : ∃ l, Declares types' l ∧
          l.names.head? = rest.head?.map ComponentType.name := by
        cases rest with
        | nil => exact ⟨.untyped, declares_untyped types', rfl⟩
        | cons base rest => exact ih hrest _ List.mem_cons_self
      exact ⟨_, declares_extend_entry hmem hl hbase, rfl⟩

lemma Grounded.of_subset (h : Grounded types) (hsub : types ⊆ types') :
    ∀ e ∈ types, ∃ l, Declares types' l ∧ l.names.head? = some e.name := by
  intro e he
  obtain ⟨l, hl, hfirst⟩ := h e he
  exact ⟨l, List.Subset.trans hl hsub, hfirst⟩

/-- **The new types of one more lineage are grounded too.** -/
theorem grounded_append (h : Grounded types) (chain : List ComponentType) :
    Grounded (types ++ (entriesOf chain).filter fun e => e.name ∉ types.map (·.name)) := by
  have hold := h.of_subset (List.subset_append_left types
    ((entriesOf chain).filter fun e => e.name ∉ types.map (·.name)))
  intro e he
  rcases List.mem_append.mp he with he | he
  · exact hold e he
  · refine exists_declares_of_mem_entriesOf hold (fun d hd => ?_) e (List.mem_of_mem_filter he)
    by_cases hname : d.name ∈ types.map (·.name)
    · exact .inl hname
    · exact .inr (List.mem_append_right _ (List.mem_filter.mpr ⟨hd, decide_eq_true hname⟩))

/-- One more component adds the types of its lineage whose names were not there before. -/
lemma typesOf_concat (cs : List Component) (hnodup : c.lineage.names.Nodup) :
    typesOf (cs ++ [c]) = typesOf cs ++
      (entriesOf c.lineage.types).filter fun e => e.name ∉ (typesOf cs).map (·.name) := by
  have hself : distinctBy TypeEntry.name (entriesOf c.lineage.types) =
      entriesOf c.lineage.types := by
    refine distinctBy_eq_self ?_
    rw [map_name_entriesOf]
    exact hnodup
  rw [typesOf, List.flatMap_append, List.flatMap_singleton, distinctBy_append, hself]
  refine congrArg _ (List.filter_congr fun e _ => ?_)
  rw [typesOf, decide_eq_decide, mem_map_distinctBy]

theorem grounded_typesOf (h : ∀ c ∈ cs, c.lineage.names.Nodup) : Grounded (typesOf cs) := by
  -- from the back, as each component adds to what those before it have
  induction cs using List.reverseRecOn with
  | nil => exact fun e he => absurd he (by simp [typesOf, distinctBy])
  | append_singleton cs c ih =>
    obtain ⟨hcs, hc⟩ := List.forall_mem_append.mp h
    rw [typesOf_concat cs (hc c (List.mem_singleton_self c))]
    exact grounded_append (ih hcs) c.lineage.types

/-- The types that are written have lineages. -/
theorem exists_lineages_of_nodup (h : ∀ c ∈ f.toList, c.lineage.names.Nodup)
    (root : Option String) : ∃ found, Catalog.lineages (capture f root).types = .ok found :=
  Catalog.exists_lineages_iff.mpr ⟨nodup_map_distinctBy _ _, grounded_typesOf h⟩

/-! ### Components of lineages that were found -/

/-- The component with the lineage that was found for its type. -/
def recast (found : Dict Lineage) (c : Component) : Component :=
  { c with lineage := (c.typeName?.bind found.get?).getD .untyped }

/-- `d` is `c` but for its lineage, which begins with the same type. -/
structure Resembles (c d : Component) : Prop where
  id_eq : d.id = c.id
  parent_eq : d.parent = c.parent
  properties_eq : d.properties = c.properties
  typeName?_eq : d.typeName? = c.typeName?

lemma typeName?_eq_head? (c : Component) : c.typeName? = c.lineage.names.head? :=
  List.head?_map.symm

section Found

variable (hfound : Catalog.lineages (capture f root).types = .ok found) (hc : c ∈ f.toList)

include hfound hc

/-- The type of a component that was written is among those found. -/
lemma exists_get?_typeName {name : String} (hname : c.typeName? = some name) :
    ∃ l, found.get? name = some l ∧ l.names.head? = some name := by
  have hmem : name ∈ (capture f root).types.map (·.name) := by
    rw [typeName?_eq_head?] at hname
    refine (mem_map_distinctBy _ _ _).mpr ?_
    rw [List.map_flatMap, List.mem_flatMap]
    exact ⟨c, hc, map_name_entriesOf c.lineage.types ▸ List.mem_of_head? hname⟩
  obtain ⟨e, he, rfl⟩ := List.mem_map.mp hmem
  obtain ⟨-, hall⟩ := Catalog.exists_lineages_iff.mp ⟨found, hfound⟩
  obtain ⟨l, hl, hfirst⟩ := hall e he
  exact ⟨l, (Catalog.get?_lineages hfound).mpr ⟨hl, hfirst⟩, hfirst⟩

lemma describes_recast : Describes found (entryOf c) (recast found c) := by
  refine ⟨(recast found c).lineage, ?_, rfl⟩
  show ComponentEntry.lineage found (entryOf c) = .ok ((c.typeName?.bind found.get?).getD .untyped)
  rw [ComponentEntry.lineage, show (entryOf c).typeName = c.typeName? from rfl]
  cases hname : c.typeName? with
  | none => rfl
  | some name =>
    obtain ⟨l, hl, -⟩ := exists_get?_typeName hfound hc hname
    simp [hl]

lemma resembles_recast : Resembles c (recast found c) where
  id_eq := rfl
  parent_eq := rfl
  properties_eq := rfl
  typeName?_eq := by
    rw [typeName?_eq_head?]
    show ((c.typeName?.bind found.get?).getD .untyped).names.head? = c.typeName?
    cases hname : c.typeName? with
    | none => rfl
    | some name =>
      obtain ⟨l, hl, hfirst⟩ := exists_get?_typeName hfound hc hname
      simp [hl, hfirst]

end Found

/-- What was written is loaded with the lineages that are found for its types. -/
lemma load_capture_eq_recast (hf : f.WellFormed)
    (hfound : Catalog.lineages (capture f root).types = .ok found) :
    (capture f root).load = .ok (Forest.ofList (f.toList.map (recast found))) := by
  refine load_eq_ok_iff.mpr ⟨found, hfound, f.toList.map (recast found), ?_,
    Forest.registerAll_map_toList hf (fun _ => rfl) fun _ => rfl⟩
  refine List.forall₂_map_left_iff.mpr (List.forall₂_map_right_iff.mpr ?_)
  exact List.forall₂_same.mpr fun c hc => describes_recast hfound hc

/-- **Whatever was written down can be loaded.**  In a forest that is reached by changes let the
lineages of the components name no type twice, whatever they say of types of one name.  Then of the
types that are written down no two have one name, each base is there, and none extends itself by way
of others; and a forest is loaded again, with the same ids in the same order and with components
that have the same parents, properties and types.  That one comes back as it is when it is written
down in turn. -/
theorem load_capture_of_nodup (hf : f.Reachable)
    (h : ∀ id c, f.get? id = some c → c.lineage.names.Nodup) (root : Option String) :
    (((capture f root).types.map (·.name)).Nodup ∧
        (∀ e ∈ (capture f root).types, ∀ base, e.base = some base →
          base ∈ (capture f root).types.map (·.name)) ∧
        ∀ name, ¬ TransGen (Extends (capture f root).types) name name) ∧
      ∃ g, (capture f root).load = .ok g ∧ g.order = f.order ∧
        List.Forall₂ Resembles f.toList g.toList ∧ (capture g root).load = .ok g := by
  have hwf := hf.wellFormed
  have hnodup : ∀ c ∈ f.toList, c.lineage.names.Nodup := fun c hc =>
    h c.id c (hwf.mem_toList.mp hc)
  obtain ⟨found, hfound⟩ := exists_lineages_of_nodup hnodup root
  have hbuild : ∃ built, Builder.build .ascending (capture f root).types = .ok built :=
    ⟨found, Builder.build_eq_ok_iff.mpr hfound⟩
  have hvalid := Builder.exists_build_iff.mp hbuild
  have horder : (f.toList.map (recast found)).map (·.id) = f.order :=
    Forest.ids_map_toList hwf fun _ => rfl
  have hload := load_capture_eq_recast hwf hfound
  have hlist : (Forest.ofList (f.toList.map (recast found))).toList =
      f.toList.map (recast found) := Forest.toList_ofList (horder ▸ hwf.nodup_order)
  refine ⟨hvalid, _, hload, horder, ?_, ?_⟩
  · rw [hlist]
    refine List.forall₂_map_right_iff.mpr (List.forall₂_same.mpr fun c hc => ?_)
    exact resembles_recast hfound hc
  · -- the lineages it has now are all declared by the types that were written
    refine load_capture hvalid.1 (fun d hd => ?_) root (wellFormed_of_load hload)
    obtain ⟨c, hc, rfl⟩ := List.mem_map.mp (hlist ▸ hd)
    exact declares_of_describes hfound (describes_recast hfound hc)

/-- Two components of which each has the type of the other for its base. -/
def sampleClash : Forest :=
  Forest.run [.register ⟨"mail", none, ⟨[⟨"field", ∅⟩, ⟨"panel", ∅⟩]⟩, ∅⟩,
    .register ⟨"note", some "mail", ⟨[⟨"panel", ∅⟩, ⟨"field", ∅⟩]⟩, ∅⟩]

/-- Of the two types the field is written first, over the panel, and the panel is not written over
the field; so there is no loop, and the note is loaded as a panel without a base. -/
theorem load_capture_of_nodup_sample :
    (∀ id c, sampleClash.get? id = some c → c.lineage.names.Nodup) ∧
      (capture sampleClash none).types = [⟨"field", some "panel", ∅⟩, ⟨"panel", none, ∅⟩] ∧
      (∀ name, ¬ TransGen (Extends (capture sampleClash none).types) name name) ∧
      ∃ g, (capture sampleClash none).load = .ok g ∧ g.order = ["mail", "note"] ∧
        List.Forall₂ Resembles sampleClash.toList g.toList := by
  have hreachable : sampleClash.Reachable := ⟨_, rfl⟩
  have hlist : sampleClash.toList = [⟨"mail", none, ⟨[⟨"field", ∅⟩, ⟨"panel", ∅⟩]⟩, ∅⟩,
      ⟨"note", some "mail", ⟨[⟨"panel", ∅⟩, ⟨"field", ∅⟩]⟩, ∅⟩] := by cbv
  have horder : sampleClash.order = ["mail", "note"] := by cbv
  have htypes : (capture sampleClash none).types =
      [⟨"field", some "panel", ∅⟩, ⟨"panel", none, ∅⟩] := by cbv
  have hnodup : ∀ id c, sampleClash.get? id = some c → c.lineage.names.Nodup := by
    intro id c hc
    have hmem : c ∈ sampleClash.toList :=
      hreachable.wellFormed.mem_toList.mpr (hreachable.wellFormed.get?_id hc)
    rw [hlist] at hmem
    simp only [List.mem_cons, List.not_mem_nil, or_false] at hmem
    rcases hmem with rfl | rfl
    · decide
    · decide
  obtain ⟨⟨-, -, hloop⟩, g, hload, hg, hresembles, -⟩ :=
    load_capture_of_nodup hreachable hnodup none
  exact ⟨hnodup, htypes, hloop, g, hload, hg.trans horder, hresembles⟩

end Snapshot

end ComponentTree
