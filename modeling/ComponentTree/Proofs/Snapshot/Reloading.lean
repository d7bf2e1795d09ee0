/-
# Writing a forest down and loading it again

To load a snapshot is to find a component for each of its entries, of a lineage that its types
declare, and to register them in their order (`load_eq_ok_iff`).  A forest whose lineages are all
declared by types with different names is written down with just those of the types that it uses:
two lineages agree on the entries of the names they share, so nothing is lost where a name is
written once.  The types written declare its lineages again, and these are found for its
components; registered again, these make the same forest (`load_capture`).

Such a forest comes of every snapshot that can be loaded, and stays such a one under changes that
bring in no other lineages (`load_capture_after_changes`).
-/
import ComponentTree.Proofs.Forest.Registration
import ComponentTree.Proofs.Snapshot.Lineages
import ComponentTree.Snapshot.Load

namespace ComponentTree

namespace Snapshot

open Forest (Change)

variable {types : List TypeEntry} {found : Dict Lineage} {f g : Forest} {c : Component}
  {cs : List Component} {e : ComponentEntry} {entries : List ComponentEntry} {s : Snapshot}

/-! ### Loading -/

/-- The component is that of the entry. -/
def Describes (found : Dict Lineage) (e : ComponentEntry) (c : Component) : Prop :=
  ∃ lineage, e.lineage found = .ok lineage ∧ e.component lineage = c

lemma register_eq_ok_iff : register found f e = .ok g ↔
    ∃ c, Describes found e c ∧ f.register c = (.ok (), g) := by
  rw [register, Outcome.bind_eq_ok]
  simp only [Outcome.mapError_eq_ok, Outcome.state_eq_ok]
  constructor
  · rintro ⟨lineage, hlineage, h⟩
    exact ⟨_, ⟨lineage, hlineage, rfl⟩, h⟩
  · rintro ⟨_, ⟨lineage, hlineage, rfl⟩, h⟩
    exact ⟨lineage, hlineage, h⟩

lemma foldlM_register_eq_ok_iff : entries.foldlM (register found) f = .ok g ↔
    ∃ cs, List.Forall₂ (Describes found) entries cs ∧ f.registerAll cs = .ok g := by
  induction entries generalizing f with
  | nil =>
    constructor
    · rintro ⟨⟩
      exact ⟨[], .nil, rfl⟩
    · rintro ⟨_, ⟨⟩, ⟨⟩⟩
      rfl
  | cons e rest ih =>
    rw [List.foldlM_cons, Outcome.bind_eq_ok]
    constructor
    · rintro ⟨f', hregister, hrest⟩
      obtain ⟨c, hc, hregister⟩ := register_eq_ok_iff.mp hregister
      obtain ⟨cs, hcs, hall⟩ := ih.mp hrest
      exact ⟨c :: cs, .cons hc hcs, Forest.registerAll_cons_eq_ok.mpr ⟨f', hregister, hall⟩⟩
    · rintro ⟨_, hcs, hall⟩
      obtain - | ⟨hc, hcs⟩ := hcs
      obtain ⟨f', hregister, hall⟩ := Forest.registerAll_cons_eq_ok.mp hall
      exact ⟨f', register_eq_ok_iff.mpr ⟨_, hc, hregister⟩, ih.mpr ⟨_, hcs, hall⟩⟩

/-- **What loading a snapshot comes to.** -/
theorem load_eq_ok_iff : s.load = .ok f ↔ ∃ found, Catalog.lineages s.types = .ok found ∧
    ∃ cs, List.Forall₂ (Describes found) s.components cs ∧ Forest.registerAll ∅ cs = .ok f := by
  rw [load, Outcome.bind_eq_ok]
  exact exists_congr fun found => and_congr_right fun _ => foldlM_register_eq_ok_iff

lemma declares_of_describes (hfound : Catalog.lineages types = .ok found)
    (h : Describes found e c) : Declares types c.lineage := by
  obtain ⟨lineage, hlineage, rfl⟩ := h
  show Declares types lineage
  rw [ComponentEntry.lineage] at hlineage
  split at hlineage
  · obtain rfl := Except.ok.inj hlineage
    exact declares_untyped types
  · split at hlineage
    · next hget =>
      obtain rfl := Except.ok.inj hlineage
      exact ((Catalog.get?_lineages hfound).mp hget).1
    · exact absurd hlineage (by simp)

/-- The entry of a component describes it where its lineage is declared. -/
lemma describes_entryOf (hfound : Catalog.lineages types = .ok found)
    (h : Declares types c.lineage) : Describes found (entryOf c) c := by
  refine ⟨c.lineage, ?_, rfl⟩
  have hname : (entryOf c).typeName = c.lineage.names.head? := List.head?_map.symm
  rw [ComponentEntry.lineage, hname]
  cases hfirst : c.lineage.names.head? with
  | none => rw [Lineage.head?_names_eq_none.mp hfirst]
  | some name =>
    dsimp only
    rw [(Catalog.get?_lineages hfound).mpr ⟨h, hfirst⟩]

/-! ### The types of a forest -/

lemma map_name_entriesOf (chain : List ComponentType) :
    (entriesOf chain).map (·.name) = chain.map (·.name) := by
  induction chain with
  | nil => rfl
  | cons t rest ih => rw [entriesOf, List.map_cons, List.map_cons, ih]

section Capture

variable (hnodup : (types.map (·.name)).Nodup) (hf : ∀ c ∈ f.toList, Declares types c.lineage)
  (root : Option String)

include hnodup hf

/-- Types that declare all lineages of a forest agree on the entries, so none is lost. -/
lemma declares_capture (hc : c ∈ f.toList) : Declares (capture f root).types c.lineage := by
  intro e he
  have hone : ∀ a ∈ f.toList.flatMap fun c => entriesOf c.lineage.types,
      ∀ b ∈ f.toList.flatMap fun c => entriesOf c.lineage.types, a.name = b.name → a = b := by
    intro a ha b hb
    obtain ⟨c, hc, ha⟩ := List.mem_flatMap.mp ha
    obtain ⟨d, hd, hb⟩ := List.mem_flatMap.mp hb
    exact List.inj_on_of_nodup_map hnodup (hf c hc ha) (hf d hd hb)
  exact (mem_distinctBy_iff hone e).mpr (List.mem_flatMap.mpr ⟨c, hc, he⟩)

lemma exists_lineages_capture : ∃ found, Catalog.lineages (capture f root).types = .ok found := by
  refine Catalog.exists_lineages_iff.mpr ⟨nodup_map_distinctBy _ _, fun e he => ?_⟩
  obtain ⟨c, hc, he⟩ := List.mem_flatMap.mp ((distinctBy_sublist _ _).subset he)
  have hname : e.name ∈ c.lineage.names := by
    rw [Lineage.names, ← map_name_entriesOf]
    exact List.mem_map_of_mem he
  obtain ⟨l, hl, hfirst, -⟩ :=
    exists_declares_of_mem (declares_capture hnodup hf root hc) hname
  exact ⟨l, hl, hfirst⟩

/-- **A forest that is written down is loaded again**, if types with different names declare all
its lineages. -/
theorem load_capture (hwell : f.WellFormed) : (capture f root).load = .ok f := by
  obtain ⟨found, hfound⟩ := exists_lineages_capture hnodup hf root
  refine load_eq_ok_iff.mpr ⟨found, hfound, f.toList, ?_, hwell.registerAll_toList⟩
  refine List.forall₂_map_left_iff.mpr (List.forall₂_same.mpr fun c hc => ?_)
  exact describes_entryOf hfound (declares_capture hnodup hf root hc)

end Capture

/-! ### Changes after loading -/

/-- The lineages of a forest that was loaded are declared by the types of the snapshot. -/
lemma declares_of_load (hfound : Catalog.lineages s.types = .ok found) (hload : s.load = .ok f)
    (hc : f.get? c.id = some c) : Declares s.types c.lineage := by
  obtain ⟨found', hfound', cs, hcs, hall⟩ := load_eq_ok_iff.mp hload
  obtain rfl : found' = found := Except.ok.inj (hfound'.symm.trans hfound)
  obtain ⟨hnodup, -, rfl⟩ := Forest.registerAll_eq_ok_iff.mp hall
  have hboth := hcs.flip.imp fun d e (h : Describes found' e d) =>
    And.intro (declares_of_describes hfound h) h
  exact ((List.forall₂_and_left cs s.components).mp hboth).1 c ((Forest.get?_ofList hnodup).mp hc).1

lemma wellFormed_of_load (hload : s.load = .ok f) : f.WellFormed := by
  obtain ⟨-, -, cs, -, hall⟩ := load_eq_ok_iff.mp hload
  rw [← Forest.foldl_after_of_registerAll hall]
  exact Forest.WellFormed.empty.foldl_after _

/-- **Saving and loading loses nothing.**  A snapshot is loaded, and the forest is changed in any
way that brings in only lineages of types of the snapshot.  Then what is written down can be loaded
again, the forest loaded has the same components in the same order, and it is written down in the
same way. -/
theorem load_capture_after_changes {f₀ : Forest} {lineages : Dict Lineage} {changes : List Change}
    (hload : s.load = .ok f₀) (hlineages : Catalog.lineages s.types = .ok lineages)
    (hchanges : ∀ c, .register c ∈ changes →
      c.lineage = .untyped ∨ ∃ name, lineages.get? name = some c.lineage) (root : Option String) :
    ∃ g, (capture (changes.foldl Forest.after f₀) root).load = .ok g ∧
      g.order = (changes.foldl Forest.after f₀).order ∧
      (∀ id, g.get? id = (changes.foldl Forest.after f₀).get? id) ∧
      capture g root = capture (changes.foldl Forest.after f₀) root := by
  obtain ⟨hnodup, -⟩ := Catalog.exists_lineages_iff.mp ⟨lineages, hlineages⟩
  have hwell₀ := wellFormed_of_load hload
  have hwell := hwell₀.foldl_after changes
  have hdeclared : ∀ c ∈ (changes.foldl Forest.after f₀).toList, Declares s.types c.lineage := by
    intro c hc
    obtain ⟨b, hb, hget | hmem⟩ := Forest.lineage_foldl_after hwell₀ (hwell.mem_toList.mp hc)
    · exact hb ▸ declares_of_load hlineages hload hget
    · rcases hchanges b hmem with huntyped | ⟨name, hname⟩
      · rw [← hb, huntyped]
        exact declares_untyped s.types
      · exact hb ▸ ((Catalog.get?_lineages hlineages).mp hname).1
  exact ⟨_, load_capture hnodup hdeclared root hwell, rfl, fun _ => rfl, rfl⟩

/-- A page and a field on it. -/
def sample : Snapshot where
  root := some "page"
  types := [⟨"field", some "widget", ∅⟩, ⟨"widget", none, .ofList [("hidden", .bool false)]⟩]
  components := [⟨"page", none, some "widget", ∅⟩, ⟨"mail", some "page", some "field", ∅⟩]

/-- The lineage of the type `widget` of the sample. -/
def sampleWidget : Lineage := ⟨[⟨"widget", .ofList [("hidden", .bool false)]⟩]⟩

/-- The lineage of the type `field` of the sample. -/
def sampleField : Lineage := sampleWidget.extend ⟨"field", ∅⟩

/-- Another field is put in and moved, and the page is taken out. -/
def sampleChanges : List Change :=
  [.register ⟨"note", some "mail", sampleField, ∅⟩, .setProperty "mail" "text" (.string "to"),
    .reparent "note" (some "page"), .unregister "page"]

/-- What is written of the sample after the changes is loaded again. -/
theorem load_capture_after_changes_sample :
    ∃ f₀ lineages, sample.load = .ok f₀ ∧ Catalog.lineages sample.types = .ok lineages ∧
      (∀ c, .register c ∈ sampleChanges →
        c.lineage = .untyped ∨ ∃ name, lineages.get? name = some c.lineage) ∧
      ∃ g, (capture (sampleChanges.foldl Forest.after f₀) none).load = .ok g ∧
        g.order = (sampleChanges.foldl Forest.after f₀).order ∧
        (∀ id, g.get? id = (sampleChanges.foldl Forest.after f₀).get? id) ∧
        capture g none = capture (sampleChanges.foldl Forest.after f₀) none := by
  have hlineages : Catalog.lineages sample.types =
      .ok (.ofList [("widget", sampleWidget), ("field", sampleField)]) := by cbv
  have hload : sample.load = .ok (.ofList [⟨"page", none, sampleWidget, ∅⟩,
      ⟨"mail", some "page", sampleField, ∅⟩]) := by cbv
  have hchanges : ∀ c, .register c ∈ sampleChanges → c.lineage = .untyped ∨ ∃ name,
      (Dict.ofList [("widget", sampleWidget), ("field", sampleField)]).get? name =
        some c.lineage := by
    intro c hc
    obtain rfl : c = ⟨"note", some "mail", sampleField, ∅⟩ := by simpa [sampleChanges] using hc
    exact .inr ⟨"field", by cbv⟩
  exact ⟨_, _, hload, hlineages, hchanges,
    load_capture_after_changes hload hlineages hchanges none⟩

end Snapshot

end ComponentTree
