/-
# What is read can be written

The keys and values of a step that was read are among those that can be written: a key was trimmed
and has only characters of a key, a value is a text, and a step without a type name has nothing
under `ntype`, which would have become the name.  So the selector of a text is read back from what
is written of it, if each of its values lacks one of the quotation marks and if its type names are
names (`parse_render_of_parse`).

A name in front of a bracket is one.  A type name that was given under `ntype` can be any text, and
is nevertheless written in front of the bracket: what is written of `[ntype='a b']` are two steps
(`not_parse_render_of_typeName`).
-/
import ComponentTree.Proofs.Selector.Rendering

namespace ComponentTree.Selector

open Json (Value)
open Text

variable {s : Step} {name t : List Char} {pairs : List (String × String)}

/-! ### Keys -/

lemma head?_trim {x : Char} (h : x ∈ (trim t).head?) : isBlank x = false := by
  obtain ⟨rest, hrest⟩ := List.head?_eq_some_iff.mp h
  obtain ⟨behind, hwhole⟩ := List.rdropWhile_prefix isBlank (t.dropWhile isBlank)
  have hhead := List.head?_dropWhile_not isBlank t
  rw [trim] at hrest
  rwa [← hwhole, hrest] at hhead

lemma getLast?_trim {x : Char} (h : x ∈ (trim t).getLast?) : isBlank x = false := by
  have hne : trim t ≠ [] := by
    rintro hnil
    simp [hnil] at h
  have hlast := List.rdropWhile_last_not isBlank (t.dropWhile isBlank) hne
  rw [List.getLast?_eq_some_getLast hne] at h
  rw [← Option.some.inj h]
  exact Bool.eq_false_iff.mpr hlast

/-- The key of a pair that was read can be written. -/
lemma PairText.writableKey {p : String × String} (h : PairText t p) : WritableKey p.1 := by
  cases h with
  | @pair key t value hkey hsome hvalue =>
    refine ⟨fun hnil => hsome (String.ofList_eq_empty_iff.mp hnil), fun c hc => hkey c ?_,
      fun c hc => ?_, fun c hc => ?_⟩
    all_goals rw [String.toList_ofList] at hc
    · exact (List.dropWhile_sublist isBlank).subset
        ((List.rdropWhile_prefix isBlank _).subset hc)
    · exact head?_trim hc
    · exact getLast?_trim hc

lemma PairsText.writableKey (h : PairsText t pairs) : ∀ p ∈ pairs, WritableKey p.1 := by
  induction h with
  | last h => simpa using h.writableKey
  | more h hrest ih => simpa using ⟨h.writableKey, fun k v hkv => ih (k, v) hkv⟩

lemma BracketText.writableKey (h : BracketText t pairs) : ∀ p ∈ pairs, WritableKey p.1 := by
  cases h with
  | empty => simp
  | pairs h => exact h.writableKey

/-! ### Steps -/

/-- What a step asks for stands in a pair. -/
lemma AsksFor.exists_pair (h : AsksFor name pairs s) {key : String} {v : Value}
    (hv : s.constraints.get? key = some v) : ∃ text, v = .string text ∧ (key, text) ∈ pairs := by
  rw [h.constraints, Option.map_eq_some_iff] at hv
  obtain ⟨text, hlookup, rfl⟩ := hv
  have hmem : (key, text) ∈ remaining name pairs := by
    obtain ⟨l₁, l₂, heq, -⟩ := List.lookup_eq_some_iff.mp hlookup
    exact List.mem_reverse.mp (heq ▸ by simp)
  refine ⟨text, rfl, ?_⟩
  rw [remaining] at hmem
  split at hmem
  · exact List.mem_of_mem_eraseP hmem
  · exact hmem

/-- Where nothing is the type name, nothing stands under `ntype`. -/
lemma AsksFor.ne_typeKey (h : AsksFor name pairs s) (hnone : s.typeName = none) :
    ∀ p ∈ pairs, p.1 ≠ Component.typeKey := by
  have hlookup : pairs.lookup Component.typeKey = none := by
    rw [h.typeName] at hnone
    split at hnone
    · exact hnone
    · simp at hnone
  intro p hp heq
  have := List.lookup_eq_none_iff.mp hlookup p hp
  simp [heq] at this

/-- A step that was read can be written, if its type name is a name and no value has both marks. -/
lemma StepText.writable (h : StepText t s)
    (hname : ∀ name, s.typeName = some name → name ≠ "" ∧ ∀ c ∈ name.toList, NameChar c)
    (hvalue : ∀ key text, s.constraints.get? key = some (.string text) →
      '"' ∉ text.toList ∨ '\'' ∉ text.toList) : s.Writable := by
  obtain ⟨name, pairs, hkeys, hasks⟩ : ∃ name pairs, (∀ p ∈ pairs, WritableKey p.1) ∧
      AsksFor name pairs s := by
    cases h with
    | name _ _ hasks => exact ⟨_, [], by simp, hasks⟩
    | bracket _ hbracket hasks => exact ⟨_, _, hbracket.writableKey, hasks⟩
  have hget : ∀ e ∈ s.constraints.entries, s.constraints.get? e.1 = some e.2 := by
    intro e he
    exact (Dict.mem_entries_iff _ _ _).mp he
  refine ⟨hname, fun e he => ?_, fun e he => ?_, fun hnone e he => ?_⟩
  · obtain ⟨text, -, hmem⟩ := hasks.exists_pair (hget e he)
    exact hkeys _ hmem
  · obtain ⟨text, heq, -⟩ := hasks.exists_pair (hget e he)
    exact ⟨text, heq, hvalue e.1 text (heq ▸ hget e he)⟩
  · obtain ⟨text, -, hmem⟩ := hasks.exists_pair (hget e he)
    exact hasks.ne_typeKey hnone _ hmem

/-! ### Selectors -/

lemma StepsText.exists_stepText {steps : List Step} (h : StepsText t steps) :
    ∀ s ∈ steps, ∃ u, StepText u s ∧ u <:+: t := by
  induction h with
  | @last t s h => simpa using ⟨t, h, List.infix_rfl⟩
  | @more t w rest s steps h hw hne hrest ih =>
    intro r hr
    rcases List.mem_cons.mp hr with rfl | hr
    · exact ⟨t, h, [], w ++ rest, by simp⟩
    · obtain ⟨u, hu, hin⟩ := ih r hr
      exact ⟨u, hu, hin.trans (List.suffix_append _ _).isInfix⟩

/-- Each step of a selector has its text in the whole. -/
lemma SelectorText.exists_stepText {steps : List Step} (h : SelectorText t steps) :
    ∀ s ∈ steps, ∃ u, StepText u s ∧ u <:+: t := by
  cases h with
  | blank => simp
  | @steps before t behind _ hbefore h hbehind =>
    intro s hs
    obtain ⟨u, hu, hin⟩ := h.exists_stepText s hs
    exact ⟨u, hu, hin.trans ⟨before, behind, rfl⟩⟩

/-- **The selector of a text is read back from what is written of it**, if none of its values has
both quotation marks and its type names are names. -/
theorem parse_render_of_parse {text : String} {selector : Selector}
    (h : parse text = .ok selector)
    (hvalue : ∀ s ∈ selector.steps, ∀ key text, s.constraints.get? key = some (.string text) →
      '"' ∉ text.toList ∨ '\'' ∉ text.toList)
    (hname : ∀ s ∈ selector.steps, ∀ name, s.typeName = some name →
      name ≠ "" ∧ ∀ c ∈ name.toList, NameChar c) :
    parse selector.render = .ok selector := by
  have hsteps := (stepsFrom_eq_ok.mp (parse_eq_ok.mp h)).exists_stepText
  have hwritable : ∀ s ∈ selector.steps, s.Writable := by
    intro s hs
    obtain ⟨u, hu, -⟩ := hsteps s hs
    exact hu.writable (hname s hs) (hvalue s hs)
  exact parse_eq_ok.mpr (stepsFrom_eq_ok.mpr (selectorText_render hwritable))

/-- A selector with two texts under `ntype`, the first of which is its type name, and a mark in a
value is read back. -/
theorem parse_render_of_parse_sample :
    parse " [ x = it's, ntype = \"c\" , ntype=d e]" =
        .ok ⟨[⟨some "c", .ofList [("ntype", .string "d e"), ("x", .string "it's")]⟩]⟩ ∧
      parse (render ⟨[⟨some "c", .ofList [("ntype", .string "d e"), ("x", .string "it's")]⟩]⟩) =
        .ok ⟨[⟨some "c", .ofList [("ntype", .string "d e"), ("x", .string "it's")]⟩]⟩ := by
  have hparse : parse " [ x = it's, ntype = \"c\" , ntype=d e]" =
      .ok ⟨[⟨some "c", .ofList [("ntype", .string "d e"), ("x", .string "it's")]⟩]⟩ := by
    rw [parse_eq_ok, stepsFrom_eq_bind (by decide)]
    cbv
  have hentries : ∀ key text, (Dict.ofList [("ntype", Value.string "d e"),
      ("x", .string "it's")]).get? key = some (.string text) → text = "d e" ∨ text = "it's" := by
    intro key text h
    have hmem := (Dict.mem_entries_iff _ _ _).mpr h
    rw [show (Dict.ofList [("ntype", Value.string "d e"), ("x", .string "it's")]).entries =
      [("ntype", .string "d e"), ("x", .string "it's")] from rfl] at hmem
    simp only [List.mem_cons, List.not_mem_nil, or_false, Prod.mk.injEq, Value.string.injEq] at hmem
    exact hmem.imp And.right And.right
  refine ⟨hparse, parse_render_of_parse hparse ?_ ?_⟩
  · simp only [List.mem_singleton, forall_eq]
    intro key text h
    rcases hentries key text h with rfl | rfl <;> exact .inl (by decide)
  · simp [NameChar]

/-! ### Type names that are no names -/

lemma ValueText.length_le {value : String} (h : ValueText t value) :
    value.toList.length ≤ t.length := by
  cases h with
  | quoted =>
    simp only [String.toList_ofList, List.length_append]
    omega
  | plain =>
    rw [String.toList_ofList, trim]
    exact ((List.rdropWhile_prefix isBlank _).length_le).trans
      (List.dropWhile_sublist isBlank).length_le

lemma PairText.length_lt {p : String × String} (h : PairText t p) :
    p.2.toList.length < t.length := by
  cases h with
  | pair hkey hsome hvalue =>
    have := hvalue.length_le
    simp only [List.length_append, List.length_singleton]
    omega

lemma PairsText.length_lt (h : PairsText t pairs) : ∀ p ∈ pairs, p.2.toList.length < t.length := by
  induction h with
  | last h => simpa using h.length_lt
  | @more t rest p pairs h hrest ih =>
    intro q hq
    simp only [List.length_append]
    rcases List.mem_cons.mp hq with rfl | hq
    · have := h.length_lt
      omega
    · have := ih q hq
      omega

lemma BracketText.length_lt (h : BracketText t pairs) :
    ∀ p ∈ pairs, p.2.toList.length < t.length := by
  cases h with
  | empty => simp
  | pairs h =>
    intro p hp
    have := h.length_lt p hp
    simp only [List.length_append]
    omega

/-- The type name of a step is the name in front of its bracket, or it is shorter than its text. -/
lemma StepText.typeName_cases (h : StepText t s) {typeName : String}
    (hs : s.typeName = some typeName) :
    (typeName ≠ "" ∧ ∀ c ∈ typeName.toList, NameChar c) ∨ typeName.toList.length < t.length := by
  have hname : ∀ {name : List Char} {pairs : List (String × String)}, AsksFor name pairs s →
      name ≠ [] → typeName = String.ofList name := by
    intro name pairs hasks hne
    have := hasks.typeName
    rw [if_neg hne, hs] at this
    exact Option.some.inj this
  cases h with
  | name hchars hne hasks =>
    rw [hname hasks hne]
    exact .inl ⟨mt String.ofList_eq_empty_iff.mp hne, by simpa using hchars⟩
  | @bracket name t pairs _ hchars hbracket hasks =>
    by_cases hne : name = []
    · have hlookup := hasks.typeName
      rw [if_pos hne, hs] at hlookup
      obtain ⟨l₁, l₂, heq, -⟩ := List.lookup_eq_some_iff.mp hlookup.symm
      have : typeName.toList.length < t.length :=
        hbracket.length_lt (Component.typeKey, typeName) (by simp [heq])
      rw [List.length_append]
      exact .inr (by omega)
    · rw [hname hasks hne]
      exact .inl ⟨mt String.ofList_eq_empty_iff.mp hne, by simpa using hchars⟩

/-- **A type name that stands alone is read back exactly if it is a name.**  Otherwise it is taken
for something else: a text under `ntype` is never as long as the text that it is read from. -/
theorem parse_render_typeName_iff {name : String} :
    parse (render ⟨[⟨some name, ∅⟩]⟩) = .ok ⟨[⟨some name, ∅⟩]⟩ ↔
      name ≠ "" ∧ ∀ c ∈ name.toList, NameChar c := by
  have hentries : (∅ : Dict Value).entries = [] := rfl
  have hrender : (render ⟨[⟨some name, ∅⟩]⟩).toList = name.toList := by
    simp [render, Step.render, Dict.isEmpty, hentries]
  rw [parse_eq_ok, stepsFrom_eq_ok]
  constructor
  · intro h
    rw [hrender] at h
    obtain ⟨u, hu, hin⟩ := h.exists_stepText _ List.mem_cons_self
    refine (hu.typeName_cases rfl).resolve_right fun hlength => ?_
    have : u.length ≤ name.toList.length := hin.length_le
    omega
  · rintro hname
    refine selectorText_render fun s hs => ?_
    obtain rfl := List.mem_singleton.mp hs
    exact ⟨by simpa using hname, by simp [hentries], by simp [hentries], by simp [hentries]⟩

/-- A type name with a blank, given under `ntype`, is not read back. -/
theorem not_parse_render_of_typeName :
    ¬ ∀ (text : String) (selector : Selector), parse text = .ok selector →
      (∀ s ∈ selector.steps, ∀ key text, s.constraints.get? key = some (.string text) →
        '"' ∉ text.toList ∨ '\'' ∉ text.toList) →
      (∀ s ∈ selector.steps, ∀ name, s.typeName = some name →
        '"' ∉ name.toList ∨ '\'' ∉ name.toList) →
      parse selector.render = .ok selector := by
  intro h
  have hparse : parse "[ntype='a b']" = .ok ⟨[⟨some "a b", ∅⟩]⟩ := by
    rw [parse_eq_ok, stepsFrom_eq_bind (by decide)]
    cbv
  have hback := h _ _ hparse (by simp) (by simp)
  have hblank : NameChar ' ' := (parse_render_typeName_iff.mp hback).2 ' ' (by decide)
  exact not_nameChar_of_isBlank (by decide) hblank

end ComponentTree.Selector
