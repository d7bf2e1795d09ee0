/-
# Registering a whole list

A forest can be built by registering the components of a list one after another.  Whether all of
them are taken does not depend on the order in which they stand: what counts is that their ids
differ and that the links of all of them together form no loop, and then the forest holds just
these components (`registerAll_eq_ok_iff`).  So the components of a well-formed forest, registered
again in its order, make the same forest (`WellFormed.registerAll_toList`).

Of the changes only registering brings lineages into a forest.  Each component has the lineage
with which it was registered, whatever became of its link and of its properties since
(`lineage_foldl_after`).
-/
import ComponentTree.Proofs.Forest.Subtree

namespace ComponentTree

namespace Forest

/-- The forest of the components of a list, in which each stands under its id. -/
def ofList (cs : List Component) : Forest :=
  ⟨cs.map (·.id), .ofList (cs.map fun c => (c.id, c))⟩

variable {f g : Forest} {cs : List Component} {c d e : Component} {id : String}
  {table : Dict Component} {change : Change} {changes : List Change}

/-! ### The forest of a list -/

lemma ofList_concat (cs : List Component) (c : Component) :
    ofList (cs ++ [c]) = ⟨(ofList cs).order ++ [c.id], (ofList cs).table.insert c.id c⟩ := by
  rw [ofList, List.map_append, List.map_append, List.map_singleton, List.map_singleton,
    Dict.ofList_concat]
  rfl

lemma get?_ofList (h : (cs.map (·.id)).Nodup) :
    (ofList cs).get? id = some c ↔ c ∈ cs ∧ c.id = id := Dict.get?_ofList_map_iff h id c

lemma contains_ofList (h : (cs.map (·.id)).Nodup) :
    (ofList cs).contains id = true ↔ id ∈ cs.map (·.id) := by
  rw [contains, Dict.contains_iff, List.mem_map]
  exact exists_congr fun _ => get?_ofList h

/-- A well-formed forest is the forest of its components. -/
lemma WellFormed.ofList_toList (hf : f.WellFormed) : ofList f.toList = f := by
  have hnodup : (f.toList.map (·.id)).Nodup := by
    rw [hf.ids_toList]
    exact hf.nodup_order
  have htable : (ofList f.toList).table = f.table := by
    refine Dict.ext_get? fun id => Option.ext fun c => ?_
    refine (get?_ofList hnodup).trans ?_
    rw [hf.mem_toList]
    constructor
    · rintro ⟨hc, rfl⟩
      exact hc
    · exact fun hc => ⟨hf.get?_id hc, hf.id_eq id c hc⟩
  have horder : (ofList f.toList).order = f.order := hf.ids_toList
  show (⟨(ofList f.toList).order, (ofList f.toList).table⟩ : Forest) = f
  rw [horder, htable]

/-! ### When all are registered -/

/-- Putting a component in its place cannot open a loop. -/
lemma acyclic_of_acyclic_insert (h : Acyclic (table.insert id c)) (hnone : table.get? id = none) :
    Acyclic table := by
  have herase := h.erase id
  rwa [table.erase_insert hnone c] at herase

/-- A component is taken when its id is new and its link closes no loop. -/
lemma register_eq_ok_iff (hf : Acyclic f.table) : f.register c = (.ok (), g) ↔
    f.contains c.id = false ∧ Acyclic (f.table.insert c.id c) ∧
      g = ⟨f.order ++ [c.id], f.table.insert c.id c⟩ := by
  constructor
  · intro h
    obtain ⟨hnone, hlink, hg⟩ := register_eq_ok h
    exact ⟨contains_eq_false_iff.mpr hnone, acyclic_of_checkLink_eq_ok hf rfl hlink, hg⟩
  · rintro ⟨hcontains, hacyclic, rfl⟩
    rw [register, if_neg (by simp [hcontains])]
    cases hlink : f.checkLink c.id c.parent with
    | ok => rfl
    | error r => exact absurd hacyclic ((checkLink_eq_error_iff hf rfl).mp hlink).2

lemma registerAll_cons_eq_ok : f.registerAll (c :: cs) = .ok g ↔
    ∃ f', f.register c = (.ok (), f') ∧ f'.registerAll cs = .ok g := by
  rw [registerAll, List.foldlM_cons, Outcome.bind_eq_ok]
  exact exists_congr fun _ => and_congr_left fun _ => Outcome.state_eq_ok

lemma registerAll_concat_eq_ok : f.registerAll (cs ++ [c]) = .ok g ↔
    ∃ f', f.registerAll cs = .ok f' ∧ f'.register c = (.ok (), g) := by
  rw [registerAll, List.foldlM_append, Outcome.bind_eq_ok]
  refine exists_congr fun f' => and_congr_right fun _ => ?_
  simp only [List.foldlM_cons, List.foldlM_nil, bind_pure, Outcome.state_eq_ok]

/-- **All components of a list are registered exactly when their ids differ and their links form
no loop.** -/
theorem registerAll_eq_ok_iff : registerAll ∅ cs = .ok g ↔
    (cs.map (·.id)).Nodup ∧ Acyclic (ofList cs).table ∧ g = ofList cs := by
  induction cs using List.reverseRecOn generalizing g with
  | nil =>
    constructor
    · rintro ⟨⟩
      exact ⟨List.nodup_nil, acyclic_empty, rfl⟩
    · rintro ⟨-, -, rfl⟩
      rfl
  | append_singleton cs c ih =>
    rw [registerAll_concat_eq_ok, ofList_concat, List.map_append, List.map_singleton,
      ← List.concat_eq_append, List.nodup_concat]
    constructor
    · rintro ⟨f, hf, hregister⟩
      obtain ⟨hnodup, hacyclic, rfl⟩ := ih.mp hf
      obtain ⟨hnew, hinsert, rfl⟩ := (register_eq_ok_iff hacyclic).mp hregister
      rw [← Bool.not_eq_true, contains_ofList hnodup] at hnew
      exact ⟨⟨hnew, hnodup⟩, hinsert, rfl⟩
    · rintro ⟨⟨hnew, hnodup⟩, hinsert, rfl⟩
      rw [← contains_ofList hnodup, Bool.not_eq_true] at hnew
      have hacyclic := acyclic_of_acyclic_insert hinsert (contains_eq_false_iff.mp hnew)
      have hregister := (register_eq_ok_iff hacyclic).mpr ⟨hnew, hinsert, rfl⟩
      exact ⟨ofList cs, ih.mpr ⟨hnodup, hacyclic, rfl⟩, hregister⟩

/-- **The components of a forest, registered in their order, make the forest again.** -/
theorem WellFormed.registerAll_toList (hf : f.WellFormed) : registerAll ∅ f.toList = .ok f := by
  rw [registerAll_eq_ok_iff, hf.ofList_toList, hf.ids_toList]
  exact ⟨hf.nodup_order, hf.acyclic, rfl⟩

/-- To register a list is to ask for one change after another, of which none is refused. -/
lemma foldl_after_of_registerAll (h : f.registerAll cs = .ok g) :
    (cs.map Change.register).foldl after f = g := by
  induction cs generalizing f with
  | nil => exact Except.ok.inj h
  | cons c rest ih =>
    obtain ⟨f', hregister, hrest⟩ := registerAll_cons_eq_ok.mp h
    have hafter : f.after (.register c) = f' := by rw [after, hregister]
    rw [List.map_cons, List.foldl_cons, hafter]
    exact ih hrest

/-! ### Where lineages come from -/

/-- A component that takes the place of one with its lineage brings in no other. -/
lemma lineage_insert (hd : f.get? id = some d) (hlineage : e.lineage = d.lineage)
    (h : (f.table.insert id e).get? c.id = some c) :
    ∃ b, f.get? c.id = some b ∧ b.lineage = c.lineage := by
  by_cases hid : c.id = id
  · subst hid
    rw [Dict.get?_insert_self] at h
    exact ⟨d, hd, by rw [← Option.some.inj h, hlineage]⟩
  · rw [Dict.get?_insert_of_ne _ hid] at h
    exact ⟨c, h, rfl⟩

/-- A change brings in no lineage but that of the component it registers. -/
lemma lineage_after (h : (f.after change).get? c.id = some c) :
    (∃ b, f.get? c.id = some b ∧ b.lineage = c.lineage) ∨ change = .register c := by
  cases change with
  | register d =>
    obtain ⟨r, hr⟩ | ⟨-, -, hmade⟩ := register_cases f d
    · rw [after, hr] at h
      exact .inl ⟨c, h, rfl⟩
    · rw [after, hmade] at h
      change (f.table.insert d.id d).get? c.id = some c at h
      by_cases hid : c.id = d.id
      · rw [hid, Dict.get?_insert_self] at h
        exact .inr (congrArg _ (Option.some.inj h))
      · rw [Dict.get?_insert_of_ne _ hid] at h
        exact .inl ⟨c, h, rfl⟩
  | unregister id =>
    obtain ⟨-, hr⟩ | ⟨d, -, hmade⟩ := unregister_cases f id
    · rw [after, hr] at h
      exact .inl ⟨c, h, rfl⟩
    · rw [after, hmade] at h
      change (f.table.erase id).get? c.id = some c at h
      rw [Dict.get?_erase] at h
      split at h
      · exact absurd h (by simp)
      · exact .inl ⟨c, h, rfl⟩
  | reparent id parent =>
    obtain ⟨r, hr⟩ | ⟨d, hd, -, hmade⟩ := reparent_cases f id parent
    · rw [after, hr] at h
      exact .inl ⟨c, h, rfl⟩
    · rw [after, hmade] at h
      have hlineage : (d.withParent parent).lineage = d.lineage := rfl
      exact .inl (lineage_insert hd hlineage h)
  | setProperty id key value =>
    obtain ⟨r, hr⟩ | ⟨d, hd, hmade⟩ := setProperty_cases f id key value
    · rw [after, hr] at h
      exact .inl ⟨c, h, rfl⟩
    · rw [after, hmade] at h
      have hlineage : (d.withProperty key value).lineage = d.lineage := rfl
      exact .inl (lineage_insert hd hlineage h)

/-- **The lineages of a changed forest** are those it had and those of components that were
registered. -/
theorem lineage_foldl_after (hf : f.WellFormed) (h : (changes.foldl after f).get? c.id = some c) :
    ∃ b, b.lineage = c.lineage ∧ (f.get? b.id = some b ∨ .register b ∈ changes) := by
  induction changes generalizing f with
  | nil => exact ⟨c, rfl, .inl h⟩
  | cons change rest ih =>
    obtain ⟨b, hb, hget | hmem⟩ := ih (hf.after change) h
    · rcases lineage_after hget with ⟨a, ha, hlineage⟩ | rfl
      · exact ⟨a, hlineage.trans hb, .inl (hf.get?_id ha)⟩
      · exact ⟨b, hb, .inr List.mem_cons_self⟩
    · exact ⟨b, hb, .inr (List.mem_cons_of_mem _ hmem)⟩

end Forest

end ComponentTree
