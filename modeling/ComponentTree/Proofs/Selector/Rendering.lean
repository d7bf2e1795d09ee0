/-
# Written selectors are read back

A selector is written without regard to how texts are read, and not everything can be written: a
text with both quotation marks has no mark left to stand between, a key with a comma would end
before it, a value that is no text is written as if it were one.  A step without such parts is
*writable* (`Step.Writable`).

What is written of a writable step is a text of the grammar, part by part: a value between marks
that it does not have, a pair, the pairs of a step with commas between them, the step itself, and
the steps with a space between them.  As a text of the grammar is read as what it stands for, a
writable selector is read back from its text (`parse_render`).
-/
import ComponentTree.Selector.Printer
import ComponentTree.Proofs.Json.Members
import ComponentTree.Proofs.Selector.Parsing

namespace ComponentTree.Selector

open Json (Value)
open Text

/-! ### What can be written -/

/-- A key that is read as it is written: it has no character that a key cannot have, and no blank
at an end, where it would be trimmed. -/
structure WritableKey (key : String) : Prop where
  ne_empty : key ≠ ""
  keyChar : ∀ c ∈ key.toList, KeyChar c
  head : ∀ c ∈ key.toList.head?, isBlank c = false
  last : ∀ c ∈ key.toList.getLast?, isBlank c = false

/-- A value that is read as it is written: a text without one of the quotation marks. -/
def WritableValue (v : Value) : Prop :=
  ∃ text, v = .string text ∧ ('"' ∉ text.toList ∨ '\'' ∉ text.toList)

/-- A step that is read as it is written. -/
structure Step.Writable (s : Step) : Prop where
  /-- The type name has only characters of a name. -/
  name : ∀ name, s.typeName = some name → name ≠ "" ∧ ∀ c ∈ name.toList, NameChar c
  key : ∀ e ∈ s.constraints.entries, WritableKey e.1
  value : ∀ e ∈ s.constraints.entries, WritableValue e.2
  /-- Without a type name, a text under `ntype` would be read as one. -/
  untyped : s.typeName = none → ∀ e ∈ s.constraints.entries, e.1 ≠ Component.typeKey

/-- The constraint that a pair of texts stands for. -/
def constraintOf (p : String × String) : String × Value := (p.1, .string p.2)

variable {key text : String} {pairs : List (String × String)} {s : Step}

lemma blanks_nil : Blanks [] := by simp [Blanks]

/-! ### Pairs -/

lemma WritableKey.trim_eq (h : WritableKey key) : trim key.toList = key.toList := by
  have hhead : key.toList.dropWhile isBlank = key.toList := by
    refine List.dropWhile_eq_self_iff.mpr fun hlength => ?_
    rw [h.head _ (List.head?_eq_getElem? ▸ List.getElem?_eq_getElem hlength)]
    exact Bool.false_ne_true
  have hlast : key.toList.rdropWhile isBlank = key.toList := by
    refine List.rdropWhile_eq_self_iff.mpr fun hne => ?_
    rw [h.last _ (List.getLast?_eq_some_getLast hne)]
    exact Bool.false_ne_true
  rw [trim, hhead, hlast]

/-- A text of a pair: its key, an equals sign, and its value between marks of one kind. -/
inductive QuotedText : List Char → String × String → Prop
  | quoted {mark : Char} {key text : String} (hmark : Mark mark) (htext : mark ∉ text.toList) :
      QuotedText (key.toList ++ ['='] ++ ([mark] ++ text.toList ++ [mark])) (key, text)

/-- With a key that can be written, it is a text of the grammar. -/
lemma QuotedText.pairText {t : List Char} {p : String × String} (h : QuotedText t p)
    (hkey : WritableKey p.1) : PairText t p := by
  cases h with
  | @quoted mark key text hmark htext =>
    have hvalue := ValueText.quoted blanks_nil hmark htext blanks_nil
    rw [List.nil_append, List.append_nil, String.ofList_toList] at hvalue
    have hne : trim key.toList ≠ [] := by
      rw [hkey.trim_eq]
      exact fun hnil => hkey.ne_empty (String.toList_eq_nil_iff.mp hnil)
    have := PairText.pair hkey.keyChar hne hvalue
    rwa [hkey.trim_eq, String.ofList_toList] at this

/-- A text is written between marks that it does not have. -/
lemma quotedText_renderConstraint (h : '"' ∉ text.toList ∨ '\'' ∉ text.toList) :
    QuotedText (renderConstraint (key, .string text)).toList (key, text) := by
  rw [renderConstraint, renderValue, String.contains_char_eq]
  split
  · next hdouble =>
    have hsingle := h.resolve_left fun hnot => hnot (of_decide_eq_true hdouble)
    simp only [String.toList_append]
    exact .quoted (.inr rfl) hsingle
  · next hdouble =>
    simp only [String.toList_append]
    exact .quoted (.inl rfl) fun hmem => hdouble (decide_eq_true hmem)

/-- Pairs are written with commas between them. -/
lemma pairsText_intercalate {ts : List (List Char)} (h : ts.Forall₂ PairText pairs)
    (hne : pairs ≠ []) : PairsText ([','].intercalate ts) pairs := by
  induction h with
  | nil => exact absurd rfl hne
  | @cons t p ts pairs hp hrest ih =>
    cases hrest with
    | nil =>
      rw [List.intercalate_singleton]
      exact .last hp
    | cons hq hrest =>
      rw [List.intercalate_cons_cons]
      exact .more hp (ih (by simp))

/-! ### Steps -/

/-- Entries with texts for values are pairs of texts. -/
lemma exists_map_constraintOf {entries : List (String × Value)}
    (h : ∀ e ∈ entries, ∃ text, e.2 = .string text) :
    ∃ pairs : List (String × String), entries = pairs.map constraintOf := by
  have hrange : entries ∈ Set.range (List.map constraintOf) := by
    rw [Set.range_list_map]
    intro e he
    obtain ⟨text, hv⟩ := h e he
    exact ⟨(e.1, text), by rw [constraintOf, ← hv]⟩
  obtain ⟨pairs, hpairs⟩ := hrange
  exact ⟨pairs, hpairs.symm⟩

/-- The constraints of a writable step are pairs of texts. -/
lemma Step.Writable.exists_pairs (hs : s.Writable) :
    ∃ pairs : List (String × String), s.constraints.entries = pairs.map constraintOf ∧
      (∀ p ∈ pairs, WritableKey p.1) ∧
      ∀ p ∈ pairs, '"' ∉ p.2.toList ∨ '\'' ∉ p.2.toList := by
  obtain ⟨pairs, hpairs⟩ :=
    exists_map_constraintOf fun e he => (hs.value e he).imp fun _ => And.left
  have hmem : ∀ p ∈ pairs, constraintOf p ∈ s.constraints.entries := by
    intro p hp
    rw [hpairs]
    exact List.mem_map_of_mem hp
  refine ⟨pairs, hpairs, fun p hp => hs.key _ (hmem p hp), fun p hp => ?_⟩
  obtain ⟨text, hv, htext⟩ := hs.value _ (hmem p hp)
  rwa [Value.string.inj hv]

lemma Step.Writable.name_ne_nil (hs : s.Writable) {name : String} (h : s.typeName = some name) :
    name.toList ≠ [] := fun hnil => (hs.name name h).1 (String.toList_eq_nil_iff.mp hnil)

lemma lookup_constraintOf (pairs : List (String × String)) (key : String) :
    (pairs.map constraintOf).lookup key = (pairs.lookup key).map Value.string := by
  induction pairs with
  | nil => rfl
  | cons p rest ih =>
    obtain ⟨k, text⟩ := p
    rw [List.map_cons, constraintOf, Dict.lookup_cons_eq, Dict.lookup_cons_eq, ih]
    split <;> rfl

lemma lookup_eq_none {key : String} (h : ∀ p ∈ pairs, p.1 ≠ key) : pairs.lookup key = none := by
  refine List.lookup_eq_none_iff.mpr fun p hp => ?_
  rw [bne_iff_ne]
  exact (h p hp).symm

/-- What is written of a writable step asks for what the step does. -/
lemma Step.Writable.asksFor (hs : s.Writable)
    (hpairs : s.constraints.entries = pairs.map constraintOf) :
    AsksFor (s.typeName.getD "").toList pairs s := by
  have hget : ∀ key, s.constraints.get? key = (pairs.lookup key).map Value.string := by
    intro key
    rw [Dict.get?, hpairs, lookup_constraintOf]
  have hnodup : (pairs.map (·.1)).Nodup := by
    have hkeys := s.constraints.nodup_keys
    rwa [Dict.keys, hpairs, List.map_map] at hkeys
  have hreverse : ∀ key, pairs.reverse.lookup key = pairs.lookup key :=
    fun key => lookup_eq_of_perm (List.reverse_perm _) hnodup key
  cases htype : s.typeName with
  | none =>
    have huntyped : ∀ p ∈ pairs, p.1 ≠ Component.typeKey := by
      intro p hp
      refine hs.untyped htype (constraintOf p) ?_
      rw [hpairs]
      exact List.mem_map_of_mem hp
    have hremaining : remaining [] pairs = pairs := by
      rw [remaining, if_pos rfl]
      exact List.eraseP_of_forall_not fun p hp h => huntyped p hp (of_decide_eq_true h)
    refine ⟨?_, fun key => ?_⟩
    · rw [htype]
      simp [lookup_eq_none huntyped]
    · show _ = ((remaining [] pairs).reverse.lookup key).map Value.string
      rw [hremaining, hreverse, hget]
  | some name =>
    have hne := hs.name_ne_nil htype
    refine ⟨?_, fun key => ?_⟩
    · rw [htype]
      simp [hne]
    · show _ = ((remaining name.toList pairs).reverse.lookup key).map Value.string
      rw [remaining, if_neg hne, hreverse, hget]

/-- **What is written of a writable step is a text of it.** -/
theorem stepText_render (hs : s.Writable) : StepText s.render.toList s := by
  obtain ⟨pairs, hpairs, hkey, htext⟩ := hs.exists_pairs
  have hasks := hs.asksFor hpairs
  have hname : ∀ c ∈ (s.typeName.getD "").toList, NameChar c := by
    cases htype : s.typeName with
    | none => simp
    | some name => exact (hs.name name htype).2
  rw [Step.render, String.toList_append, Dict.isEmpty, hpairs]
  cases pairs with
  | nil =>
    cases htype : s.typeName with
    | none =>
      rw [htype] at hname hasks
      exact .bracket hname (.empty blanks_nil) hasks
    | some name =>
      rw [htype] at hname hasks
      have htext : StepText name.toList s := .name hname (hs.name_ne_nil htype) hasks
      simpa using htext
  | cons p rest =>
    have htexts : ((p :: rest).map fun p => (renderConstraint (constraintOf p)).toList).Forall₂
        PairText (p :: rest) := by
      rw [List.forall₂_map_left_iff, List.forall₂_same]
      exact fun q hq => (quotedText_renderConstraint (htext q hq)).pairText (hkey q hq)
    have hbracket : BracketText
        ("[" ++ ",".intercalate (((p :: rest).map constraintOf).map renderConstraint) ++
          "]").toList (p :: rest) := by
      rw [String.toList_append, String.toList_append, String.toList_intercalate, List.map_map,
        List.map_map]
      exact .pairs (pairsText_intercalate htexts (by simp))
    exact .bracket hname hbracket hasks

/-! ### Selectors -/

lemma stepsText_intercalate {steps : List Step} (hne : steps ≠ []) (h : ∀ s ∈ steps, s.Writable) :
    StepsText (" ".intercalate (steps.map Step.render)).toList steps := by
  induction steps with
  | nil => exact absurd rfl hne
  | cons s rest ih =>
    have hs : StepText s.render.toList s := stepText_render (h s List.mem_cons_self)
    cases rest with
    | nil =>
      rw [List.map_singleton, String.intercalate_singleton]
      exact .last hs
    | cons t rest =>
      rw [List.map_cons, List.map_cons, String.intercalate_cons_cons, String.toList_append,
        String.toList_append]
      refine .more hs ?_ (by simp) (ih (by simp) fun r hr => h r (List.mem_cons_of_mem s hr))
      intro c hc
      rw [List.mem_singleton.mp hc]
      decide

lemma selectorText_render {selector : Selector} (h : ∀ s ∈ selector.steps, s.Writable) :
    SelectorText selector.render.toList selector.steps := by
  rw [render]
  cases hsteps : selector.steps with
  | nil => exact .blank blanks_nil
  | cons s rest =>
    rw [hsteps] at h
    have := SelectorText.steps blanks_nil (stepsText_intercalate (by simp) h) blanks_nil
    rwa [List.nil_append, List.append_nil] at this

/-- **A writable selector is read back from its text**, whatever stands in its values and however
many steps it has. -/
theorem parse_render {selector : Selector} (h : ∀ s ∈ selector.steps, s.Writable) :
    parse selector.render = .ok selector := by
  rw [parse, stepsFrom_eq_ok.mpr (selectorText_render h)]
  rfl

/-- A selector whose values have what is special to texts: a mark of each kind, brackets, a comma,
an equals sign, a line break and a blank in front. -/
def sample : Selector :=
  ⟨[⟨some "tool-bar.2", .ofList [("text", .string " \"ok\", [x=1]\n"), ("ntype", .string "it's")]⟩,
    Step.any, ⟨none, .ofList [("a b", .string "")]⟩]⟩

/-- The sample is writable, and it is read back. -/
theorem parse_render_sample :
    (∀ s ∈ sample.steps, s.Writable) ∧ parse sample.render = .ok sample := by
  have hkey : WritableKey "ntype" ∧ WritableKey "text" ∧ WritableKey "a b" := by
    refine ⟨⟨by simp, ?_, ?_, ?_⟩, ⟨by simp, ?_, ?_, ?_⟩, ⟨by simp, ?_, ?_, ?_⟩⟩ <;>
      simp [KeyChar, ValueChar, Mark, isBlank]
  have h : ∀ s ∈ sample.steps, s.Writable := by
    intro s hs
    simp only [sample, List.mem_cons, List.not_mem_nil, or_false] at hs
    rcases hs with rfl | rfl | rfl
    · have he : (Dict.ofList [("text", Value.string " \"ok\", [x=1]\n"),
          ("ntype", .string "it's")]).entries =
          [("ntype", .string "it's"), ("text", .string " \"ok\", [x=1]\n")] := rfl
      exact ⟨by simp [NameChar], by simp [he, hkey], by simp [he, WritableValue], by simp⟩
    · have he : Step.any.constraints.entries = [] := rfl
      exact ⟨by simp [Step.any], by simp [he], by simp [he], by simp [he]⟩
    · have he : (Dict.ofList [("a b", Value.string "")]).entries = [("a b", .string "")] := rfl
      exact ⟨by simp, by simp [he, hkey], by simp [he, WritableValue],
        by simp [he, Component.typeKey]⟩
  exact ⟨h, parse_render h⟩

end ComponentTree.Selector
