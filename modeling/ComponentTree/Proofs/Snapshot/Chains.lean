/-
# Chains of definitions

What a list of types gives each of them can be said without any table: the chain of the entries met
by following bases from it on.  A declared lineage is such a chain (`declares_iff_chain`).

What an error says of the types can be said without a table too (`Error.Genuine`).  A climb takes
out the types that it leaves behind, each of which leads to the one that it is at (`Passed`); so
where it finds nothing, the name that it is at leads to itself, and its error is genuine
(`genuine_of_climb_eq_error`).
-/
import Mathlib
import ComponentTree.Proofs.Snapshot.Lineages

namespace ComponentTree

namespace Snapshot

open Relation (ReflTransGen TransGen)

/-- The type `name` extends the type `base`, which need not be there. -/
def Extends (types : List TypeEntry) (name base : String) : Prop :=
  ∃ e ∈ types, e.name = name ∧ e.base = some base

/-- The entries met by following bases from an entry on, to one without a base. -/
inductive Chain (types : List TypeEntry) : TypeEntry → List TypeEntry → Prop
  | last {e : TypeEntry} (hbase : e.base = none) : Chain types e [e]
  | next {e d : TypeEntry} {rest : List TypeEntry} (hd : d ∈ types) (hbase : e.base = some d.name)
      (hrest : Chain types d rest) : Chain types e (e :: rest)

/-- What an error says of the types is so. -/
def Error.Genuine (types : List TypeEntry) : Error → Prop
  | repeatedType name => List.Duplicate name (types.map (·.name))
  | unknownBase name base => Extends types name base ∧ base ∉ types.map (·.name)
  | typeLoop name => TransGen (Extends types) name name
  | unknownType _ _ => False
  | refused _ => False

variable {types : List TypeEntry} {l : Lineage} {t : ComponentType} {e d : TypeEntry}
  {chain : List TypeEntry} {name base n : String} {error : Error}

/-! ### Ways along bases -/

lemma extends_iff (hnodup : (types.map (·.name)).Nodup) (he : e ∈ types) :
    Extends types e.name base ↔ e.base = some base := by
  constructor
  · rintro ⟨d, hd, hname, hbase⟩
    rwa [← List.inj_on_of_nodup_map hnodup hd he hname]
  · intro hbase
    exact ⟨e, he, rfl, hbase⟩

/-- The names of a declared lineage are met by following bases. -/
lemma reach_of_mem_names (hl : Declares types l) (hfirst : l.names.head? = some name)
    (hn : n ∈ l.names) : ReflTransGen (Extends types) name n := by
  induction l using Lineage.extend_induction generalizing name with
  | untyped => exact absurd hn (by simp)
  | extend t l ih =>
    obtain rfl : t.name = name := Option.some.inj hfirst
    rcases List.mem_cons.mp hn with rfl | (hn : n ∈ l.names)
    · exact .refl
    · obtain ⟨ht, hrest⟩ := declares_extend.mp hl
      cases hnext : l.names.head? with
      | none =>
        obtain rfl := Lineage.head?_names_eq_none.mp hnext
        exact absurd hn (by simp)
      | some next =>
        have hlink : Extends types t.name next := ⟨_, ht, rfl, hnext⟩
        exact .head hlink (ih hrest hnext hn)

/-- What is met by following bases from the first name of a declared lineage is in the lineage. -/
lemma mem_names_of_transGen (hnodup : (types.map (·.name)).Nodup)
    (hl : Declares types (l.extend t)) (h : TransGen (Extends types) t.name n) : n ∈ l.names := by
  induction l using Lineage.extend_induction generalizing t with
  | untyped =>
    obtain ⟨next, hlink, -⟩ := TransGen.head'_iff.mp h
    have hnone := (extends_iff hnodup (declares_extend.mp hl).1).mp hlink
    exact absurd hnone (by simp)
  | extend t' l ih =>
    obtain ⟨ht, hrest⟩ := declares_extend.mp hl
    obtain ⟨next, hlink, hreach⟩ := TransGen.head'_iff.mp h
    obtain rfl : t'.name = next := Option.some.inj ((extends_iff hnodup ht).mp hlink)
    rcases Relation.reflTransGen_iff_eq_or_transGen.mp hreach with rfl | htrans
    · exact List.mem_cons_self
    · exact List.mem_cons_of_mem _ (ih hrest htrans)

/-- **A type with a declared lineage does not extend itself by way of others.** -/
theorem not_transGen_of_declares (hnodup : (types.map (·.name)).Nodup) (hl : Declares types l)
    (hfirst : l.names.head? = some name) : ¬ TransGen (Extends types) name name := by
  intro hloop
  cases l using Lineage.extend_induction with
  | untyped => exact absurd hfirst (by simp)
  | extend t l =>
    obtain rfl : t.name = name := Option.some.inj hfirst
    exact not_mem_names_of_declares hnodup hl (mem_names_of_transGen hnodup hl hloop)

/-! ### Chains of definitions -/

lemma declares_of_chain (he : e ∈ types) (h : Chain types e chain) :
    Declares types ⟨chain.map TypeEntry.type⟩ ∧
      (⟨chain.map TypeEntry.type⟩ : Lineage).names.head? = some e.name := by
  induction h with
  | last hbase => exact ⟨declares_extend_entry he (declares_untyped types) hbase.symm, rfl⟩
  | next hd hbase _ ih =>
    obtain ⟨hrest, hfirst⟩ := ih hd
    exact ⟨declares_extend_entry he hrest (hfirst.trans hbase.symm), rfl⟩

lemma exists_chain_of_declares (hl : Declares types l) (hfirst : l.names.head? = some name) :
    ∃ e chain, e ∈ types ∧ e.name = name ∧ Chain types e chain ∧
      l = ⟨chain.map TypeEntry.type⟩ := by
  induction l using Lineage.extend_induction generalizing name with
  | untyped => exact absurd hfirst (by simp)
  | extend t l ih =>
    obtain ⟨ht, hrest⟩ := declares_extend.mp hl
    have hname : t.name = name := Option.some.inj hfirst
    cases hbase : l.names.head? with
    | none =>
      rw [hbase] at ht
      rw [Lineage.head?_names_eq_none.mp hbase]
      exact ⟨_, _, ht, hname, .last rfl, rfl⟩
    | some base =>
      rw [hbase] at ht
      obtain ⟨d, chain, hd, rfl, hchain, rfl⟩ := ih hrest hbase
      exact ⟨_, _, ht, hname, .next hd rfl hchain, rfl⟩

/-- **The declared lineage of a name is its chain of definitions.** -/
theorem declares_iff_chain : Declares types l ∧ l.names.head? = some name ↔
    ∃ e chain, e ∈ types ∧ e.name = name ∧ Chain types e chain ∧
      l = ⟨chain.map TypeEntry.type⟩ := by
  constructor
  · rintro ⟨hl, hfirst⟩
    exact exists_chain_of_declares hl hfirst
  · rintro ⟨e, chain, he, rfl, hchain, rfl⟩
    exact declares_of_chain he hchain

namespace Catalog

variable {catalog left : Catalog} {found : Dict Lineage}

/-! ### Errors of a climb -/

/-- Every type that was taken out leads to `name`. -/
def Passed (types : List TypeEntry) (catalog left : Catalog) (name : String) : Prop :=
  ∀ n, left.get? n = catalog.get? n ∨ left.get? n = none ∧ TransGen (Extends types) n name

lemma Holds.contains_iff (hcatalog : catalog.Holds types) :
    catalog.contains name = true ↔ name ∈ types.map (·.name) := by
  rw [Dict.contains_iff, List.mem_map]
  exact exists_congr fun e => hcatalog name e

lemma passed_self : Passed types catalog catalog name := fun _ => .inl rfl

lemma Passed.get?_eq (h : Passed types catalog left name) (he : left.get? name = some e) :
    catalog.get? name = some e := by
  rcases h name with heq | ⟨hnone, -⟩
  · rw [← heq, he]
  · rw [hnone] at he
    exact absurd he (by simp)

/-- One step up, the type that is left behind is taken out. -/
lemma Passed.next (hcatalog : catalog.Holds types) (h : Passed types catalog left name)
    (he : left.get? name = some e) (hbase : e.base = some base) :
    Passed types catalog (left.erase name) base := by
  intro n
  obtain ⟨hmem, hname⟩ := (hcatalog name e).mp (h.get?_eq he)
  have hlink : Extends types name base := ⟨e, hmem, hname, hbase⟩
  by_cases hn : n = name
  · subst hn
    exact .inr ⟨Dict.get?_erase_self left n, .single hlink⟩
  · rw [Dict.get?_erase_of_ne left hn]
    exact (h n).imp_right fun ⟨hnone, hpath⟩ => ⟨hnone, hpath.tail hlink⟩

/-- **An error of a climb is genuine.** -/
theorem genuine_of_climb_eq_error (hcatalog : catalog.Holds types)
    (hpassed : Passed types catalog left name) (hknown : catalog.contains name = true)
    (h : climb catalog left name = .error error) : error.Genuine types := by
  fun_induction climb catalog left name with
  | case1 left name hnone =>
    obtain rfl := Except.error.inj h
    rcases hpassed name with heq | ⟨-, hloop⟩
    · obtain ⟨e, he⟩ := (catalog.contains_iff name).mp hknown
      rw [← heq, hnone] at he
      exact absurd he (by simp)
    · exact hloop
  | case2 => exact absurd h (by simp)
  | case3 left name e he base hbase hbaseknown _ ih =>
    exact ih (hpassed.next hcatalog he hbase) hbaseknown (Outcome.map_eq_error.mp h)
  | case4 left name e he base hbase hunknown =>
    obtain rfl := Except.error.inj h
    obtain ⟨hmem, -⟩ := (hcatalog name e).mp (hpassed.get?_eq he)
    exact ⟨⟨e, hmem, rfl, hbase⟩, fun hbasemem => hunknown (hcatalog.contains_iff.mpr hbasemem)⟩

/-- What was taken out on the way is not missed, as it is not on the way that is left. -/
lemma climb_of_passed (hnodup : (types.map (·.name)).Nodup) (hcatalog : catalog.Holds types)
    (hpassed : Passed types catalog left name) (hl : Declares types l)
    (hfirst : l.names.head? = some name) : climb catalog left name = .ok l := by
  refine climb_of_declares hnodup hcatalog hl hfirst fun n hn => ?_
  rcases hpassed n with heq | ⟨-, hpath⟩
  · exact heq
  · have hloop := hpath.trans_right (reach_of_mem_names hl hfirst hn)
    exact absurd hloop (not_transGen_of_declares hnodup hl hfirst)

lemma climb_of_get?_eq_none (hnone : left.get? name = none) :
    climb catalog left name = .error (.typeLoop name) := by
  rw [climb]
  split
  · rfl
  · next h => rw [hnone] at h; exact absurd h (by simp)

lemma climb_of_unknown (he : left.get? name = some e) (hbase : e.base = some base)
    (hunknown : ¬ catalog.contains base = true) :
    climb catalog left name = .error (.unknownBase e.name base) := by
  rw [climb]
  split
  · next h => rw [h] at he; exact absurd he (by simp)
  · next d h =>
    obtain rfl : d = e := Option.some.inj (h.symm.trans he)
    simp [hbase, hunknown]

/-- The name reported as repeated is one that was seen before or comes twice. -/
lemma of_repeated?_eq_some {seen names : List String} (h : repeated? seen names = some n) :
    n ∈ seen ∧ n ∈ names ∨ List.Duplicate n names := by
  induction names generalizing seen with
  | nil => exact absurd h (by simp [repeated?])
  | cons name rest ih =>
    rw [repeated?] at h
    split at h
    · next hseen =>
      obtain rfl := Option.some.inj h
      exact .inl ⟨hseen, List.mem_cons_self⟩
    · rcases ih h with ⟨hseen, hrest⟩ | hrest
      · rcases List.mem_cons.mp hseen with rfl | hseen
        · exact .inr (.cons_mem hrest)
        · exact .inl ⟨hseen, List.mem_cons_of_mem _ hrest⟩
      · exact .inr (.cons_duplicate hrest)

lemma genuine_of_ofEntries_eq_error (h : ofEntries types = .error error) :
    error.Genuine types := by
  rw [ofEntries] at h
  split at h
  · next name hname =>
    obtain rfl := Except.error.inj h
    rcases of_repeated?_eq_some hname with ⟨hseen, -⟩ | hduplicate
    · exact absurd hseen (by simp)
    · exact hduplicate
  · exact absurd h (by simp)

end Catalog

end Snapshot

end ComponentTree
