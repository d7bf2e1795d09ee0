/-
# The lineages that types declare

The entries of a lineage say of each of its types which one it extends.  A list of types
*declares* a lineage when the entries of the lineage are among them.  Where the names of the types
differ, the first name of a declared lineage says which one it is (`eq_of_declares`), and no name
occurs in it twice, since otherwise it would be a part of itself (`not_mem_names_of_declares`).

Going from base to base through a catalog, and taking out what was passed, finds exactly the
declared lineages (`lineage_eq_ok_iff`): a declared lineage never comes back to a name, so the
types that were taken out are not missed.  Hence a list of types makes a catalog exactly when
their names differ and each is the first of a declared lineage (`exists_lineages_iff`), and then
the lineages found are those declared, each under its first name (`get?_lineages`).
-/
import Mathlib.Data.List.Basic
import Mathlib.Data.List.Nodup
import Mathlib.Tactic.Lemma
import ComponentTree.Outcome
import ComponentTree.Snapshot.Capture
import ComponentTree.Snapshot.Catalog

namespace ComponentTree

namespace Lineage

@[simp] lemma names_untyped : untyped.names = [] := rfl

@[simp] lemma names_extend (l : Lineage) (t : ComponentType) :
    (l.extend t).names = t.name :: l.names := rfl

/-- A lineage has no types, or it is that of a type over another lineage. -/
lemma extend_induction {motive : Lineage → Prop} (untyped : motive .untyped)
    (extend : ∀ t l, motive l → motive (l.extend t)) (l : Lineage) : motive l := by
  obtain ⟨chain⟩ := l
  induction chain with
  | nil => exact untyped
  | cons t rest ih => exact extend t ⟨rest⟩ ih

/-- Only the lineage without types has no first name. -/
lemma head?_names_eq_none {l : Lineage} : l.names.head? = none ↔ l = .untyped := by
  obtain ⟨_ | ⟨t, rest⟩⟩ := l <;> simp [names, untyped]

end Lineage

namespace Snapshot

/-- The types declare the lineage: all its entries are among them. -/
def Declares (types : List TypeEntry) (lineage : Lineage) : Prop :=
  entriesOf lineage.types ⊆ types

variable {types : List TypeEntry} {l l' : Lineage} {t : ComponentType} {e : TypeEntry}
  {name : String}

/-! ### Declared lineages -/

lemma declares_untyped (types : List TypeEntry) : Declares types .untyped := List.nil_subset types

lemma declares_extend : Declares types (l.extend t) ↔
    ⟨t.name, l.names.head?, t.defaults⟩ ∈ types ∧ Declares types l := by
  rw [Lineage.names, List.head?_map]
  exact List.cons_subset

/-- A type is declared as the first of a lineage by itself or over the lineage it extends. -/
lemma declares_extend_entry (he : e ∈ types) (hl : Declares types l)
    (hbase : l.names.head? = e.base) : Declares types (l.extend e.type) := by
  rw [declares_extend, hbase]
  exact ⟨he, hl⟩

/-- With every type of a declared lineage the rest of the lineage is declared too. -/
lemma exists_declares_of_mem (hl : Declares types l) (hname : name ∈ l.names) :
    ∃ l', Declares types l' ∧ l'.names.head? = some name ∧ l'.size ≤ l.size := by
  induction l using Lineage.extend_induction with
  | untyped => exact absurd hname (by simp)
  | extend t l ih =>
    rcases List.mem_cons.mp hname with rfl | hname
    · exact ⟨l.extend t, hl, rfl, Nat.le_refl _⟩
    · obtain ⟨l', hl', hfirst, hsize⟩ := ih (declares_extend.mp hl).2 hname
      exact ⟨l', hl', hfirst, Nat.le_succ_of_le hsize⟩

/-- Every type of a declared lineage has an entry. -/
lemma exists_entry_of_declares (hl : Declares types l) (hname : name ∈ l.names) :
    ∃ e ∈ types, e.name = name := by
  obtain ⟨l', hl', hfirst, -⟩ := exists_declares_of_mem hl hname
  cases l' using Lineage.extend_induction with
  | untyped => exact absurd hfirst (by simp)
  | extend t l' => exact ⟨_, (declares_extend.mp hl').1, Option.some.inj hfirst⟩

section Distinct

variable (hnodup : (types.map (·.name)).Nodup)

include hnodup

/-- **A declared lineage is known by its first name.** -/
theorem eq_of_declares (hl : Declares types l) (hl' : Declares types l')
    (h : l.names.head? = l'.names.head?) : l = l' := by
  induction l using Lineage.extend_induction generalizing l' with
  | untyped => exact (Lineage.head?_names_eq_none.mp h.symm).symm
  | extend t l ih =>
    cases l' using Lineage.extend_induction with
    | untyped => exact absurd (Lineage.head?_names_eq_none.mp h) (by simp [Lineage.extend, Lineage.untyped])
    | extend t' l' =>
      obtain ⟨ht, hl⟩ := declares_extend.mp hl
      obtain ⟨ht', hl'⟩ := declares_extend.mp hl'
      have hname : t.name = t'.name := Option.some.inj h
      -- the two types have one name, so they have one entry
      have hentry := List.inj_on_of_nodup_map hnodup ht ht' hname
      obtain ⟨-, hbase, hdefaults⟩ := TypeEntry.mk.inj hentry
      obtain rfl := ih hl hl' hbase
      cases t
      cases t'
      exact congrArg l.extend (congr (congrArg _ hname) hdefaults)

/-- A declared lineage does not come back to its first name. -/
lemma not_mem_names_of_declares (hl : Declares types (l.extend t)) : t.name ∉ l.names := by
  intro hmem
  obtain ⟨l', hl', hfirst, hsize⟩ := exists_declares_of_mem (declares_extend.mp hl).2 hmem
  obtain rfl := eq_of_declares hnodup hl' hl hfirst
  exact absurd hsize (Nat.not_succ_le_self l.size)

end Distinct

namespace Catalog

variable {catalog left : Catalog} {found found₀ : Dict Lineage}

/-! ### The catalog of a list -/

lemma repeated?_eq_none {seen names : List String} :
    repeated? seen names = none ↔ names.Nodup ∧ ∀ n ∈ names, n ∉ seen := by
  induction names generalizing seen with
  | nil => simp [repeated?]
  | cons name rest ih =>
    rw [repeated?]
    split
    · next h => simp [h]
    · next h =>
      rw [ih, List.nodup_cons, List.forall_mem_cons]
      simp only [List.mem_cons, not_or]
      constructor
      · rintro ⟨hnodup, hrest⟩
        exact ⟨⟨fun hmem => (hrest name hmem).1 rfl, hnodup⟩, h, fun n hn => (hrest n hn).2⟩
      · rintro ⟨⟨hname, hnodup⟩, -, hrest⟩
        exact ⟨hnodup, fun n hn => ⟨fun he => hname (he ▸ hn), hrest n hn⟩⟩

lemma ofEntries_eq_ok : ofEntries types = .ok catalog ↔
    (types.map (·.name)).Nodup ∧ catalog = Dict.ofList (types.map fun e => (e.name, e)) := by
  rw [ofEntries]
  cases h : repeated? [] (types.map (·.name)) with
  | some name =>
    have hrepeated : ¬ (types.map (·.name)).Nodup := by
      intro hnodup
      rw [repeated?_eq_none.mpr ⟨hnodup, by simp⟩] at h
      exact absurd h (by simp)
    simp [hrepeated]
  | none => simp [(repeated?_eq_none.mp h).1, eq_comm]

/-- The catalog holds the types, each under its name. -/
def Holds (catalog : Catalog) (types : List TypeEntry) : Prop :=
  ∀ name e, catalog.get? name = some e ↔ e ∈ types ∧ e.name = name

lemma holds_ofList (hnodup : (types.map (·.name)).Nodup) :
    Holds (Dict.ofList (types.map fun e => (e.name, e))) types :=
  Dict.get?_ofList_map_iff hnodup

/-! ### Climbing from base to base -/

/-- What is found by climbing is declared, whatever was taken out before. -/
lemma declares_of_climb (hleft : ∀ n e, left.get? n = some e → e ∈ types ∧ e.name = n)
    (h : climb catalog left name = .ok l) : Declares types l ∧ l.names.head? = some name := by
  fun_induction climb catalog left name generalizing l with
  | case1 => exact absurd h (by simp)
  | case2 left name e he hbase =>
    obtain rfl := Except.ok.inj h
    obtain ⟨hmem, rfl⟩ := hleft name e he
    exact ⟨declares_extend_entry hmem (declares_untyped types) hbase.symm, rfl⟩
  | case3 left name e he base hbase _ _ ih =>
    obtain ⟨l', hl', rfl⟩ := Outcome.map_eq_ok.mp h
    obtain ⟨hmem, rfl⟩ := hleft name e he
    have herase : ∀ n d, (left.erase e.name).get? n = some d → d ∈ types ∧ d.name = n := by
      intro n d hd
      rw [Dict.get?_erase] at hd
      split at hd
      · exact absurd hd (by simp)
      · exact hleft n d hd
    obtain ⟨hdeclared, hfirst⟩ := ih herase hl'
    exact ⟨declares_extend_entry hmem hdeclared (hfirst.trans hbase.symm), rfl⟩
  | case4 => exact absurd h (by simp)

lemma climb_of_base_eq_none (he : left.get? name = some e) (hbase : e.base = none) :
    climb catalog left name = .ok (Lineage.untyped.extend e.type) := by
  rw [climb]
  split
  · next h => rw [h] at he; exact absurd he (by simp)
  · next d h =>
    obtain rfl : d = e := Option.some.inj (h.symm.trans he)
    rw [hbase]

lemma climb_of_base_eq_some {base : String} (he : left.get? name = some e)
    (hbase : e.base = some base) (hknown : catalog.contains base = true) :
    climb catalog left name =
      (climb catalog (left.erase name) base).map (·.extend e.type) := by
  rw [climb]
  split
  · next h => rw [h] at he; exact absurd he (by simp)
  · next d h =>
    obtain rfl : d = e := Option.some.inj (h.symm.trans he)
    simp [hbase, hknown]

/-- A declared lineage is found if none of its types was taken out. -/
lemma climb_of_declares (hnodup : (types.map (·.name)).Nodup) (hcatalog : catalog.Holds types)
    (hl : Declares types l) (hname : l.names.head? = some name)
    (hleft : ∀ n ∈ l.names, left.get? n = catalog.get? n) : climb catalog left name = .ok l := by
  induction l using Lineage.extend_induction generalizing left name with
  | untyped => exact absurd hname (by simp)
  | extend t l ih =>
    obtain rfl : t.name = name := Option.some.inj hname
    obtain ⟨ht, hrest⟩ := declares_extend.mp hl
    have hentry : left.get? t.name = some ⟨t.name, l.names.head?, t.defaults⟩ := by
      rw [hleft t.name List.mem_cons_self]
      exact (hcatalog _ _).mpr ⟨ht, rfl⟩
    cases hbase : l.names.head? with
    | none =>
      obtain rfl := Lineage.head?_names_eq_none.mp hbase
      exact climb_of_base_eq_none hentry hbase
    | some base =>
      have hbasemem : base ∈ l.names := List.mem_of_head? hbase
      have hne : ∀ n ∈ l.names, n ≠ t.name := by
        rintro n hn rfl
        exact not_mem_names_of_declares hnodup hl hn
      have herase : ∀ n ∈ l.names, (left.erase t.name).get? n = catalog.get? n := by
        intro n hn
        rw [Dict.get?_erase_of_ne _ (hne n hn), hleft n (List.mem_cons_of_mem _ hn)]
      have hrec := ih hrest hbase herase
      have hknown : catalog.contains base = true := by
        obtain ⟨d, hd, hdname⟩ := exists_entry_of_declares hrest hbasemem
        exact (catalog.contains_iff base).mpr ⟨d, (hcatalog base d).mpr ⟨hd, hdname⟩⟩
      rw [climb_of_base_eq_some hentry hbase hknown, hrec]
      rfl

/-- **The lineage of a type is the declared one with its name.** -/
theorem lineage_eq_ok_iff (hnodup : (types.map (·.name)).Nodup) (hcatalog : catalog.Holds types) :
    lineage catalog name = .ok l ↔ Declares types l ∧ l.names.head? = some name := by
  constructor
  · exact declares_of_climb fun n e he => (hcatalog n e).mp he
  · rintro ⟨hl, hname⟩
    exact climb_of_declares hnodup hcatalog hl hname fun _ _ => rfl

/-! ### The lineages of all types -/

section Fold

variable {lineageOf : String → Except Error Lineage} {entries : List TypeEntry}

lemma exists_foldlM_insert (hall : ∀ e ∈ entries, ∃ l, lineageOf e.name = .ok l)
    (found₀ : Dict Lineage) : ∃ found,
      entries.foldlM (fun found e => (lineageOf e.name).map (found.insert e.name ·)) found₀ =
        .ok found := by
  induction entries generalizing found₀ with
  | nil => exact ⟨found₀, rfl⟩
  | cons e rest ih =>
    obtain ⟨⟨l, hl⟩, hrest⟩ := List.forall_mem_cons.mp hall
    obtain ⟨found, hfound⟩ := ih hrest (found₀.insert e.name l)
    refine ⟨found, ?_⟩
    rw [List.foldlM_cons, hl]
    exact hfound

lemma foldlM_insert_eq_ok (h : entries.foldlM
      (fun found e => (lineageOf e.name).map (found.insert e.name ·)) found₀ = .ok found) :
    (∀ e ∈ entries, ∃ l, lineageOf e.name = .ok l) ∧ ∀ name l, found.get? name = some l ↔
      if name ∈ entries.map (·.name) then lineageOf name = .ok l
        else found₀.get? name = some l := by
  induction entries generalizing found₀ with
  | nil =>
    obtain rfl := Except.ok.inj h
    simp
  | cons e rest ih =>
    obtain ⟨_, hstep, hfold⟩ := Outcome.bind_eq_ok.mp h
    obtain ⟨l₁, hl₁, rfl⟩ := Outcome.map_eq_ok.mp hstep
    obtain ⟨hall, hfound⟩ := ih hfold
    refine ⟨List.forall_mem_cons.mpr ⟨⟨l₁, hl₁⟩, hall⟩, fun n l => ?_⟩
    rw [hfound]
    by_cases hrest : n ∈ rest.map (·.name)
    · simp only [List.map_cons, List.mem_cons, hrest, or_true, if_true]
    · by_cases hn : n = e.name
      · subst hn
        simp [hrest, hl₁]
      · simp [hrest, hn, Dict.get?_insert_of_ne]

end Fold

/-- **The lineages found are those declared, each under its first name.** -/
theorem get?_lineages (h : lineages types = .ok found) : found.get? name = some l ↔
    Declares types l ∧ l.names.head? = some name := by
  obtain ⟨catalog, hcatalog, hfold⟩ := Outcome.bind_eq_ok.mp h
  obtain ⟨hnodup, rfl⟩ := ofEntries_eq_ok.mp hcatalog
  rw [(foldlM_insert_eq_ok hfold).2]
  split
  · exact lineage_eq_ok_iff hnodup (holds_ofList hnodup)
  · next hn =>
    simp only [Dict.get?_empty, reduceCtorEq, false_iff, not_and]
    intro hl hfirst
    obtain ⟨e, he, rfl⟩ := exists_entry_of_declares hl (List.mem_of_head? hfirst)
    exact hn (List.mem_map_of_mem he)

/-- **Types make a catalog exactly when their names differ and each is the first of a declared
lineage.** -/
theorem exists_lineages_iff : (∃ found, lineages types = .ok found) ↔
    (types.map (·.name)).Nodup ∧
      ∀ e ∈ types, ∃ l, Declares types l ∧ l.names.head? = some e.name := by
  constructor
  · rintro ⟨found, h⟩
    obtain ⟨catalog, hcatalog, hfold⟩ := Outcome.bind_eq_ok.mp h
    obtain ⟨hnodup, rfl⟩ := ofEntries_eq_ok.mp hcatalog
    refine ⟨hnodup, fun e he => ?_⟩
    obtain ⟨l, hl⟩ := (foldlM_insert_eq_ok hfold).1 e he
    exact ⟨l, (lineage_eq_ok_iff hnodup (holds_ofList hnodup)).mp hl⟩
  · rintro ⟨hnodup, hall⟩
    have hfound : ∀ e ∈ types, ∃ l,
        lineage (Dict.ofList (types.map fun e => (e.name, e))) e.name = .ok l := by
      intro e he
      obtain ⟨l, hl⟩ := hall e he
      exact ⟨l, (lineage_eq_ok_iff hnodup (holds_ofList hnodup)).mpr hl⟩
    obtain ⟨found, hfold⟩ := exists_foldlM_insert hfound ∅
    exact ⟨found, Outcome.bind_eq_ok.mpr ⟨_, ofEntries_eq_ok.mpr ⟨hnodup, rfl⟩, hfold⟩⟩

end Catalog

end Snapshot

end ComponentTree
