/-
# Lineages in any order

A builder that meets the names of a catalog in some order keeps what it has found, and a way that
comes to a lineage found before ends there.  This changes nothing: a lineage that was found is
declared, a declared lineage has no way back to a name on the stack, and so the climb that would
have gone on from there finds the same (`resolve_eq_climb`).  Nor does the stack: the names on it
are those that a climb has taken out (`Leaves`).

With that, what a list of types comes to depends neither on the order of the types nor on that in
which their names are met: either some error is genuine, and then one such is reported, or none is,
and then each type gets the chain of definitions over it (`build_eq_ok_iff`,
`build_resolves_catalog`).
-/
import Mathlib
import ComponentTree.Proofs.Snapshot.Chains
import ComponentTree.Snapshot.Builder

namespace ComponentTree

namespace Snapshot

open Relation (TransGen)

variable {types types' : List TypeEntry} {l : Lineage} {name n : String} {error : Error}

/-! ### What a builder knows -/

namespace Builder

open Catalog (Passed climb lineage lineages ofEntries)

/-- The builder keeps lineages only under their first names, and only those that are declared. -/
def Sound (types : List TypeEntry) (b : Builder) : Prop :=
  ∀ name l, b.built.get? name = some l → Declares types l ∧ l.names.head? = some name

/-- What is left of the catalog are the types that are not on the stack. -/
def Leaves (b : Builder) (catalog left : Catalog) : Prop :=
  ∀ n, left.get? n = if n ∈ b.visiting then none else catalog.get? n

/-- Of a builder that has found the lineage of a name: it is sound, its stack is as before, and it
knows this lineage and all that it knew. -/
structure Finds (types : List TypeEntry) (b : Builder) (name : String) (l : Lineage)
    (b' : Builder) : Prop where
  sound : b'.Sound types
  visiting_eq : b'.visiting = b.visiting
  keeps : ∀ n l, b.built.get? n = some l → b'.built.get? n = some l
  found : b'.built.get? name = some l

variable {b b' : Builder} {catalog left : Catalog} {found : Dict Lineage} {order : Enumeration}
  {names : List catalog.Name}

lemma sound_start : start.Sound types := by
  intro name l h
  change (∅ : Dict Lineage).get? name = some l at h
  exact absurd h (by simp)

lemma leaves_of_visiting_eq_nil (h : b.visiting = []) : b.Leaves catalog catalog := by
  intro n
  rw [h, if_neg (by simp)]

lemma Leaves.get?_eq (h : b.Leaves catalog left) (hn : n ∉ b.visiting) :
    left.get? n = catalog.get? n := by
  rw [h n, if_neg hn]

lemma Leaves.push (h : b.Leaves catalog left) (name : String) :
    (b.push name).Leaves catalog (left.erase name) := by
  intro n
  rw [Dict.get?_erase, h n]
  by_cases hn : n = name
  · simp [Builder.push, hn]
  · simp [Builder.push, hn]

/-- A lineage that was found for the name on top of the stack is kept. -/
lemma Finds.pop (hsound : b'.Sound types) (hvisiting : b'.visiting = (b.push name).visiting)
    (hkeeps : ∀ n l, b.built.get? n = some l → b'.built.get? n = some l)
    (hnew : b.built.get? name = none) (hl : Declares types l)
    (hfirst : l.names.head? = some name) : Finds types b name l (b'.pop name l).2 where
  sound n l' h := by
    change (b'.built.insert name l).get? n = some l' at h
    rw [Dict.get?_insert] at h
    split at h
    · next hn =>
      obtain rfl := Option.some.inj h
      exact ⟨hl, hn ▸ hfirst⟩
    · exact hsound n l' h
  visiting_eq := by
    show b'.visiting.tail = b.visiting
    rw [hvisiting]
    rfl
  keeps n l' h := by
    have hn : n ≠ name := by
      rintro rfl
      rw [hnew] at h
      exact absurd h (by simp)
    show (b'.built.insert name l).get? n = some l'
    rw [Dict.get?_insert_of_ne _ hn]
    exact hkeeps n l' h
  found := Dict.get?_insert_self b'.built name l

section Resolve

variable (hnodup : (types.map (·.name)).Nodup) (hcatalog : catalog.Holds types)

include hnodup hcatalog

/-- **A builder finds what a climb finds**, and fails as it does. -/
theorem resolve_eq_climb {name : catalog.Name} (hsound : b.Sound types)
    (hleaves : b.Leaves catalog left) (hpassed : Passed types catalog left name.1) :
    (b.resolve catalog name).map (·.1) = climb catalog left name.1 ∧
      ∀ l b', b.resolve catalog name = .ok (l, b') → Finds types b name.1 l b' := by
  fun_induction resolve catalog b name generalizing left with
  | case1 b name l hbuilt =>
    -- found before, where the climb goes on over what is left
    obtain ⟨hl, hfirst⟩ := hsound name.1 l hbuilt
    refine ⟨(Catalog.climb_of_passed hnodup hcatalog hpassed hl hfirst).symm, ?_⟩
    rintro _ _ ⟨⟩
    exact ⟨hsound, rfl, fun _ _ h => h, hbuilt⟩
  | case2 b name hbuilt hvisiting =>
    -- on the stack, hence taken out
    have hnone : left.get? name.1 = none := by rw [hleaves, if_pos hvisiting]
    exact ⟨(Catalog.climb_of_get?_eq_none hnone).symm, fun _ _ h => absurd h (by simp)⟩
  | case3 b name hbuilt hvisiting hbase =>
    have he := (hleaves.get?_eq hvisiting).trans (catalog.get?_entry name)
    refine ⟨(Catalog.climb_of_base_eq_none he hbase).symm, ?_⟩
    rintro _ _ ⟨⟩
    obtain ⟨hmem, hname⟩ := (hcatalog _ _).mp (catalog.get?_entry name)
    have hl := declares_extend_entry hmem (declares_untyped types) hbase.symm
    have hpushed : (b.push name.1).Sound types := hsound
    exact .pop hpushed rfl (fun _ _ h => h) hbuilt hl (congrArg some hname)
  | case4 b name hbuilt hvisiting base hbase hknown _ ih =>
    have he := (hleaves.get?_eq hvisiting).trans (catalog.get?_entry name)
    obtain ⟨hclimb, hfinds⟩ :=
      ih hsound (hleaves.push name.1) (hpassed.next hcatalog he hbase)
    constructor
    · rw [Catalog.climb_of_base_eq_some he hbase hknown, ← hclimb]
      cases resolve catalog (b.push name.1) ⟨base, hknown⟩ <;> rfl
    · intro _ _ h
      obtain ⟨⟨l, b'⟩, hresolve, ⟨⟩⟩ := Outcome.map_eq_ok.mp h
      have hfound := hfinds l b' hresolve
      obtain ⟨hmem, hname⟩ := (hcatalog _ _).mp (catalog.get?_entry name)
      obtain ⟨hrest, hfirst⟩ := hfound.sound base l hfound.found
      have hl := declares_extend_entry hmem hrest (hfirst.trans hbase.symm)
      exact .pop hfound.sound hfound.visiting_eq hfound.keeps hbuilt hl (congrArg some hname)
  | case5 b name hbuilt hvisiting base hbase hunknown =>
    have he := (hleaves.get?_eq hvisiting).trans (catalog.get?_entry name)
    exact ⟨(Catalog.climb_of_unknown he hbase hunknown).symm, fun _ _ h => absurd h (by simp)⟩

/-- The first name after which nothing is on the stack. -/
lemma resolve_eq_lineage (name : catalog.Name) (hsound : b.Sound types)
    (hvisiting : b.visiting = []) :
    (b.resolve catalog name).map (·.1) = lineage catalog name.1 ∧
      ∀ l b', b.resolve catalog name = .ok (l, b') → Finds types b name.1 l b' :=
  resolve_eq_climb hnodup hcatalog hsound (leaves_of_visiting_eq_nil hvisiting) Catalog.passed_self

/-! ### One name after another -/

omit hnodup hcatalog in
lemma resolveAll_cons (b : Builder) (name : catalog.Name) (names : List catalog.Name) :
    b.resolveAll catalog (name :: names) =
      b.resolve catalog name >>= fun result => result.2.resolveAll catalog names := by
  rw [resolveAll, List.foldlM_cons]
  cases b.resolve catalog name <;> rfl

/-- A builder that has come through all names knows a lineage for each. -/
lemma resolveAll_eq_ok (hsound : b.Sound types) (hvisiting : b.visiting = [])
    (h : b.resolveAll catalog names = .ok b') : b'.Sound types ∧
      (∀ n l, b.built.get? n = some l → b'.built.get? n = some l) ∧
      ∀ name ∈ names, ∃ l, b'.built.get? name.1 = some l := by
  induction names generalizing b with
  | nil =>
    obtain rfl := Except.ok.inj h
    exact ⟨hsound, fun _ _ h => h, by simp⟩
  | cons name rest ih =>
    rw [resolveAll_cons] at h
    obtain ⟨⟨l, b₁⟩, hresolve, hrest⟩ := Outcome.bind_eq_ok.mp h
    have hfound := (resolve_eq_lineage hnodup hcatalog name hsound hvisiting).2 l b₁ hresolve
    obtain ⟨hsound', hkeeps, hall⟩ :=
      ih hfound.sound (hfound.visiting_eq.trans hvisiting) hrest
    refine ⟨hsound', fun n l' hn => hkeeps n l' (hfound.keeps n l' hn), ?_⟩
    exact List.forall_mem_cons.mpr ⟨⟨l, hkeeps _ l hfound.found⟩, hall⟩

/-- A builder fails at a name for which a climb fails. -/
lemma exists_of_resolveAll_eq_error (hsound : b.Sound types) (hvisiting : b.visiting = [])
    (h : b.resolveAll catalog names = .error error) :
    ∃ name ∈ names, lineage catalog name.1 = .error error := by
  induction names generalizing b with
  | nil => exact absurd h (by simp [resolveAll, pure, Except.pure])
  | cons name rest ih =>
    obtain ⟨hlineage, hfinds⟩ := resolve_eq_lineage hnodup hcatalog name hsound hvisiting
    rw [resolveAll_cons] at h
    rcases Outcome.bind_eq_error.mp h with hresolve | ⟨⟨l, b₁⟩, hresolve, hrest⟩
    · refine ⟨name, List.mem_cons_self, ?_⟩
      rw [← hlineage, hresolve]
      rfl
    · have hfound := hfinds l b₁ hresolve
      obtain ⟨n, hn, herror⟩ := ih hfound.sound (hfound.visiting_eq.trans hvisiting) hrest
      exact ⟨n, List.mem_cons_of_mem _ hn, herror⟩

/-- Where names are met in the order of the entries, the builder fails as climbs for the entries
do, one after another. -/
lemma resolveAll_eq_error_iff {entries : List TypeEntry}
    (hnames : names.map (·.1) = entries.map (·.name)) (hsound : b.Sound types)
    (hvisiting : b.visiting = []) (found : Dict Lineage) :
    b.resolveAll catalog names = .error error ↔
      entries.foldlM (fun found e => (lineage catalog e.name).map (found.insert e.name ·)) found =
        .error error := by
  induction names generalizing b entries found with
  | nil =>
    obtain rfl := List.map_eq_nil_iff.mp hnames.symm
    simp [resolveAll, pure, Except.pure]
  | cons name rest ih =>
    obtain ⟨e, entries, rfl, hname, hrest⟩ := List.map_eq_cons_iff.mp hnames.symm
    obtain ⟨hlineage, hfinds⟩ := resolve_eq_lineage hnodup hcatalog name hsound hvisiting
    rw [resolveAll_cons, List.foldlM_cons, hname, ← hlineage]
    cases hresolve : b.resolve catalog name with
    | error _ => constructor <;> rintro ⟨⟩ <;> rfl
    | ok result =>
      have hfound := hfinds result.1 result.2 hresolve
      exact ih hrest.symm hfound.sound (hfound.visiting_eq.trans hvisiting) _

end Resolve

/-! ### All types -/

/-- A lineage is found for every type, and none that is not declared. -/
lemma build_eq_ok (h : build order types = .ok found) : (types.map (·.name)).Nodup ∧
    (∀ name l, found.get? name = some l → Declares types l ∧ l.names.head? = some name) ∧
      ∀ e ∈ types, ∃ l, found.get? e.name = some l := by
  obtain ⟨catalog, hcatalog, h⟩ := Outcome.bind_eq_ok.mp h
  obtain ⟨b, hb, ⟨⟩⟩ := Outcome.bind_eq_ok.mp h
  obtain ⟨hnodup, rfl⟩ := Catalog.ofEntries_eq_ok.mp hcatalog
  have hholds := Catalog.holds_ofList hnodup
  obtain ⟨hsound, -, hall⟩ := resolveAll_eq_ok hnodup hholds sound_start rfl hb
  refine ⟨hnodup, hsound, fun e he => ?_⟩
  -- the order meets the name of every entry
  have hkey := (Dict.mem_keys_iff _ _).mpr (hholds.contains_iff.mpr (List.mem_map_of_mem he))
  obtain ⟨name, hname, hval⟩ := List.mem_map.mp ((order.perm _).mem_iff.mpr hkey)
  exact hval ▸ hall name hname

/-- The lineages found are those declared, each under its first name. -/
lemma get?_build (h : build order types = .ok found) : found.get? name = some l ↔
    Declares types l ∧ l.names.head? = some name := by
  obtain ⟨hnodup, hsound, hall⟩ := build_eq_ok h
  constructor
  · exact hsound name l
  · rintro ⟨hl, hfirst⟩
    obtain ⟨e, he, rfl⟩ := exists_entry_of_declares hl (List.mem_of_head? hfirst)
    obtain ⟨l', hl'⟩ := hall e he
    obtain ⟨hdeclared, hfirst'⟩ := hsound _ _ hl'
    rwa [eq_of_declares hnodup hl hdeclared (hfirst.trans hfirst'.symm)]

lemma genuine_of_build_eq_error (h : build order types = .error error) : error.Genuine types := by
  rcases Outcome.bind_eq_error.mp h with h | ⟨catalog, hcatalog, h⟩
  · exact Catalog.genuine_of_ofEntries_eq_error h
  · obtain ⟨hnodup, rfl⟩ := Catalog.ofEntries_eq_ok.mp hcatalog
    have hholds := Catalog.holds_ofList hnodup
    rcases Outcome.bind_eq_error.mp h with h | ⟨_, -, h⟩
    · obtain ⟨name, -, herror⟩ :=
        exists_of_resolveAll_eq_error hnodup hholds sound_start rfl h
      exact Catalog.genuine_of_climb_eq_error hholds Catalog.passed_self name.2 herror
    · exact absurd h (by simp [pure, Except.pure])

/-- Types with lineages give no error a reason. -/
lemma not_genuine_of_lineages (h : lineages types = .ok found) : ¬ error.Genuine types := by
  obtain ⟨hnodup, hall⟩ := Catalog.exists_lineages_iff.mp ⟨found, h⟩
  intro hgenuine
  cases error with
  | repeatedType name => exact List.nodup_iff_forall_not_duplicate.mp hnodup name hgenuine
  | unknownBase name base =>
    obtain ⟨⟨e, he, rfl, hbase⟩, habsent⟩ := hgenuine
    obtain ⟨l, hl, hfirst⟩ := hall e he
    have hlink : Extends types e.name base := ⟨e, he, rfl, hbase⟩
    cases l using Lineage.extend_induction with
    | untyped => exact absurd hfirst (by simp)
    | extend t l =>
      rw [← Option.some.inj hfirst] at hlink
      have hmem := mem_names_of_transGen hnodup hl (.single hlink)
      obtain ⟨d, hd, rfl⟩ := exists_entry_of_declares (declares_extend.mp hl).2 hmem
      exact habsent (List.mem_map_of_mem hd)
  | typeLoop name =>
    obtain ⟨_, ⟨e, he, rfl, -⟩, -⟩ := TransGen.head'_iff.mp hgenuine
    obtain ⟨l, hl, hfirst⟩ := hall e he
    exact not_transGen_of_declares hnodup hl hfirst hgenuine
  | unknownType _ _ => exact hgenuine
  | refused _ => exact hgenuine

/-- **Neither the memory nor the order changes what is found.** -/
theorem build_eq_ok_iff : build order types = .ok found ↔ lineages types = .ok found := by
  have heq : ∀ {found₁ found₂}, build order types = .ok found₁ → lineages types = .ok found₂ →
      found₁ = found₂ := by
    intro found₁ found₂ h₁ h₂
    refine Dict.ext_get? fun name => ?_
    ext l
    rw [get?_build h₁, Catalog.get?_lineages h₂]
  constructor
  · intro h
    obtain ⟨hnodup, hsound, hall⟩ := build_eq_ok h
    have hdeclared : ∀ e ∈ types, ∃ l, Declares types l ∧ l.names.head? = some e.name := by
      intro e he
      obtain ⟨l, hl⟩ := hall e he
      exact ⟨l, hsound _ l hl⟩
    obtain ⟨found', hfound'⟩ := Catalog.exists_lineages_iff.mpr ⟨hnodup, hdeclared⟩
    rw [hfound', heq h hfound']
  · intro h
    cases hbuild : build order types with
    | ok found' => rw [heq hbuild h]
    | error e => exact absurd (genuine_of_build_eq_error hbuild) (not_genuine_of_lineages h)

/-- Where names are met in the order of the types, errors are the same too. -/
lemma build_eq_lineages (horder : ∀ catalog, ofEntries types = .ok catalog →
      (order.names catalog).map (·.1) = types.map (·.name)) :
    build order types = lineages types := by
  cases hlineages : lineages types with
  | ok found => exact build_eq_ok_iff.mpr hlineages
  | error error =>
    rcases Outcome.bind_eq_error.mp hlineages with hcatalog | ⟨catalog, hcatalog, hfold⟩
    · exact Outcome.bind_eq_error.mpr (.inl hcatalog)
    · obtain ⟨hnodup, rfl⟩ := Catalog.ofEntries_eq_ok.mp hcatalog
      have hbuild := (resolveAll_eq_error_iff hnodup (Catalog.holds_ofList hnodup)
        (horder _ hcatalog) sound_start rfl ∅).mpr hfold
      refine Outcome.bind_eq_error.mpr (.inr ⟨_, hcatalog, ?_⟩)
      exact Outcome.bind_eq_error.mpr (.inl hbuild)

/-- Types that are listed in another order have the same lineages. -/
lemma lineages_eq_ok_of_perm (hperm : types'.Perm types) (h : lineages types = .ok found) :
    lineages types' = .ok found := by
  have hdeclares : ∀ l, Declares types' l ↔ Declares types l := by
    intro l
    constructor
    · intro hl e he
      exact hperm.subset (hl he)
    · intro hl e he
      exact hperm.symm.subset (hl he)
  obtain ⟨hnodup, hall⟩ := Catalog.exists_lineages_iff.mp ⟨found, h⟩
  have hall' : ∀ e ∈ types', ∃ l, Declares types' l ∧ l.names.head? = some e.name := by
    intro e he
    obtain ⟨l, hl, hfirst⟩ := hall e (hperm.subset he)
    exact ⟨l, (hdeclares l).mpr hl, hfirst⟩
  have hnodup' : (types'.map (·.name)).Nodup := (hperm.map _).nodup_iff.mpr hnodup
  obtain ⟨found', h'⟩ := Catalog.exists_lineages_iff.mpr ⟨hnodup', hall'⟩
  rw [h']
  refine congrArg Except.ok (Dict.ext_get? fun name => ?_)
  ext l
  rw [Catalog.get?_lineages h', Catalog.get?_lineages h, hdeclares]

/-- There are lineages exactly where no error has a reason. -/
lemma exists_build_iff : (∃ found, build order types = .ok found) ↔
    (types.map (·.name)).Nodup ∧
      (∀ e ∈ types, ∀ base, e.base = some base → base ∈ types.map (·.name)) ∧
      ∀ name, ¬ TransGen (Extends types) name name := by
  constructor
  · rintro ⟨found, h⟩
    have hno : ∀ error : Error, ¬ error.Genuine types := fun _ =>
      not_genuine_of_lineages (build_eq_ok_iff.mp h)
    refine ⟨(build_eq_ok h).1, fun e he base hbase => ?_, fun name => hno (.typeLoop name)⟩
    by_contra habsent
    exact hno (.unknownBase e.name base) ⟨⟨e, he, rfl, hbase⟩, habsent⟩
  · rintro ⟨hnodup, hknown, hloop⟩
    cases hbuild : build order types with
    | ok found => exact ⟨found, rfl⟩
    | error error =>
      exfalso
      have hgenuine := genuine_of_build_eq_error hbuild
      cases error with
      | repeatedType name => exact List.nodup_iff_forall_not_duplicate.mp hnodup name hgenuine
      | unknownBase name base =>
        obtain ⟨⟨e, he, -, hbase⟩, habsent⟩ := hgenuine
        exact habsent (hknown e he base hbase)
      | typeLoop name => exact hloop name hgenuine
      | unknownType _ _ => exact hgenuine
      | refused _ => exact hgenuine

/-- **Types are resolved in any order.**  Whatever the order in which a builder meets the names of a
catalog, it finds lineages for types exactly when their names differ, each base is there and no
type extends itself by way of others.  Then each type has one, the chain of definitions met by
following bases from it, and nothing else has; and the types in any other order, met in any other
order, have the same.  Where the builder fails, its error is genuine.  It finds what
`Catalog.lineages` finds, and where it meets the names as the types are listed, it fails as that
does. -/
theorem build_resolves_catalog (order : Enumeration) (types : List TypeEntry) :
    ((∃ found, build order types = .ok found) ↔
        (types.map (·.name)).Nodup ∧
          (∀ e ∈ types, ∀ base, e.base = some base → base ∈ types.map (·.name)) ∧
          ∀ name, ¬ TransGen (Extends types) name name) ∧
      (∀ found, build order types = .ok found →
        (∀ e ∈ types, ∃ l, found.get? e.name = some l) ∧
          (∀ name l, found.get? name = some l ↔ ∃ e chain, e ∈ types ∧ e.name = name ∧
            Chain types e chain ∧ l = ⟨chain.map TypeEntry.type⟩) ∧
          ∀ order' types', types'.Perm types → build order' types' = .ok found) ∧
      (∀ error, build order types = .error error → error.Genuine types) ∧
      (∀ found, build order types = .ok found ↔ lineages types = .ok found) ∧
      ((∀ catalog, ofEntries types = .ok catalog →
          (order.names catalog).map (·.1) = types.map (·.name)) →
        build order types = lineages types) := by
  refine ⟨exists_build_iff, fun found h => ⟨(build_eq_ok h).2.2, fun name l => ?_, ?_⟩,
    fun _ => genuine_of_build_eq_error, fun _ => build_eq_ok_iff, build_eq_lineages⟩
  · rw [get?_build h, declares_iff_chain]
  · intro order' types' hperm
    exact build_eq_ok_iff.mpr (lineages_eq_ok_of_perm hperm (build_eq_ok_iff.mp h))

/-- Two types over a third. -/
def sampleTypes : List TypeEntry :=
  [⟨"box", some "panel", ∅⟩, ⟨"field", some "panel", ∅⟩,
    ⟨"panel", none, .ofList [("hidden", .bool false)]⟩]

/-- The lineage of the third. -/
def samplePanel : Lineage := ⟨[⟨"panel", .ofList [("hidden", .bool false)]⟩]⟩

/-- Two types that extend each other, and a third over them. -/
def sampleLoop : List TypeEntry :=
  [⟨"box", some "panel", ∅⟩, ⟨"field", some "panel", ∅⟩, ⟨"panel", some "field", ∅⟩]

/-- When the lineage of the field is looked for, that of the panel is remembered; in any order the
same lineages are found.  Where the panel extends the field, the box leads to a loop that it does
not lie on, and a type on the loop is reported. -/
theorem build_resolves_catalog_sample :
    (∀ order types, types.Perm sampleTypes → build order types =
        .ok (.ofList [("box", samplePanel.extend ⟨"box", ∅⟩),
          ("field", samplePanel.extend ⟨"field", ∅⟩), ("panel", samplePanel)])) ∧
      build .ascending sampleLoop = .error (.typeLoop "panel") ∧
      TransGen (Extends sampleLoop) "panel" "panel" := by
  have hbuild : build .ascending sampleTypes =
      .ok (.ofList [("box", samplePanel.extend ⟨"box", ∅⟩),
        ("field", samplePanel.extend ⟨"field", ∅⟩), ("panel", samplePanel)]) := by cbv
  have hloop : build .ascending sampleLoop = .error (.typeLoop "panel") := by cbv
  obtain ⟨-, hfound, -⟩ := build_resolves_catalog .ascending sampleTypes
  obtain ⟨-, -, hgenuine, -⟩ := build_resolves_catalog .ascending sampleLoop
  exact ⟨(hfound _ hbuild).2.2, hloop, hgenuine _ hloop⟩

end Builder

end Snapshot

end ComponentTree
