/-
# What a selector means

A form of a selector says clauses (`Form.Says`), and it is accepted as a selector exactly if it does:
a text has a clause in the text of each of its steps (`ClauseText`), a JSON object is one clause, and
a list of them is one after another.  Each clause becomes a step, and among the components that have
no property `ntype` themselves this step accepts those of which the clause holds, in whichever form
it was written (`accepts_iff_holds`).
-/
import ComponentTree.Proofs.Selector.Clauses
import ComponentTree.Proofs.Selector.Objects

namespace ComponentTree

open Json (Value)

namespace Selector

/-- A text of a step and the clause that stands in it. -/
inductive ClauseText : List Char → Clause → Prop
  | name {name : List Char} (hname : ∀ c ∈ name, NameChar c) (hne : name ≠ []) :
      ClauseText name ⟨some (String.ofList name), []⟩
  | bracket {t : List Char} {pairs : List (String × String)} (h : BracketText t pairs) :
      ClauseText t ⟨none, pairs.map constraintOf⟩
  | both {name t : List Char} {pairs : List (String × String)} (hname : ∀ c ∈ name, NameChar c)
      (hne : name ≠ []) (h : BracketText t pairs) :
      ClauseText (name ++ t) ⟨some (String.ofList name), pairs.map constraintOf⟩

/-- The clauses of a form, outermost first. -/
inductive Form.Says : Form → List Clause → Prop
  | steps (steps : List Step) :
      Says (.steps steps) (steps.map fun s => ⟨s.typeName, s.constraints.entries⟩)
  | text {text : String} {ts : List (List Char)} {clauses : List Clause}
      (hts : ts.Forall₂ ClauseText clauses) (hspaced : Spaced ts text.toList) :
      Says (.text text) clauses
  | quoted {text : String} {clauses : List Clause} (h : Says (.text text) clauses) :
      Says (.json (.string text)) clauses
  | nothing : Says (.json .null) []
  | object (members : List (String × Value)) : Says (.json (.object members)) [⟨none, members⟩]
  | objects (rows : List (List (String × Value))) :
      Says (.json (.array (rows.map .object))) (rows.map fun members => ⟨none, members⟩)

variable {text : String} {s : Step} {k : Clause} {form : Form} {clauses : List Clause}
  {t : List Char}

/-! ### Texts and objects -/

lemma Clause.step_map_constraintOf (name : List Char) (pairs : List (String × String)) :
    Clause.step ⟨if name = [] then none else some (String.ofList name), pairs.map constraintOf⟩ =
      Step.ofTexts name pairs := by
  rw [step, List.foldl_map]
  rfl

/-- A text of a step is one of a clause that becomes the step. -/
lemma stepText_iff : StepText t s ↔ ∃ k, ClauseText t k ∧ k.step = s := by
  constructor
  · intro h
    cases h with
    | name hname hne hasks =>
      have hstep := Clause.step_map_constraintOf t []
      rw [if_neg hne] at hstep
      exact ⟨_, .name hname hne, hstep.trans (asksFor_iff.mp hasks).symm⟩
    | @bracket name u pairs _ hname hbracket hasks =>
      have hstep := Clause.step_map_constraintOf name pairs
      by_cases hne : name = []
      · subst hne
        exact ⟨_, .bracket hbracket, hstep.trans (asksFor_iff.mp hasks).symm⟩
      · rw [if_neg hne] at hstep
        exact ⟨_, .both hname hne hbracket, hstep.trans (asksFor_iff.mp hasks).symm⟩
  · rintro ⟨k, h, rfl⟩
    cases h with
    | name hname hne =>
      have hstep := Clause.step_map_constraintOf t []
      rw [if_neg hne] at hstep
      exact .name hname hne (asksFor_iff.mpr hstep)
    | @bracket _ pairs hbracket =>
      have hstep := Clause.step_map_constraintOf [] pairs
      rw [if_pos rfl] at hstep
      have := StepText.bracket (by simp) hbracket (asksFor_iff.mpr hstep)
      rwa [List.nil_append] at this
    | @both name u pairs hname hne hbracket =>
      have hstep := Clause.step_map_constraintOf name pairs
      rw [if_neg hne] at hstep
      exact .bracket hname hbracket (asksFor_iff.mpr hstep)

/-- A text of one step. -/
lemma parse_eq_ok_of_clauseText (h : ClauseText text.toList k) : parse text = .ok ⟨[k.step]⟩ := by
  have hstep : StepText text.toList k.step := stepText_iff.mpr ⟨k, h, rfl⟩
  have hspaced := Spaced.cons (t := text.toList) blanks_nil (parted_of_blanks blanks_nil)
    (.blank blanks_nil)
  rw [List.nil_append, List.append_nil] at hspaced
  exact parse_eq_ok_iff.mpr ⟨_, .cons hstep .nil, hspaced⟩

/-- A bracket with one pair, its value between marks. -/
lemma bracketText_of_quotedText {p : String × String} (h : QuotedText t p) (hkey : WritableKey p.1) :
    BracketText (['['] ++ t ++ [']']) [p] := .pairs (.last (h.pairText hkey))

lemma writableKey_typeKey : WritableKey Component.typeKey := by
  refine ⟨by decide, ?_, ?_, ?_⟩ <;> simp [Component.typeKey, KeyChar, ValueChar, Mark, Text.isBlank]

/-- Only a list of objects is read as steps. -/
lemma exists_rows_of_stepsOfItems {index : Nat} {items : List Value} {steps : List Step}
    (h : stepsOfItems index items = .ok steps) :
    ∃ rows : List (List (String × Value)), items = rows.map .object := by
  induction items generalizing index steps with
  | nil => exact ⟨[], rfl⟩
  | cons item rest ih =>
    cases item with
    | object members =>
      obtain ⟨steps, hrest, -⟩ := Outcome.map_eq_ok.mp h
      obtain ⟨rows, rfl⟩ := ih hrest
      exact ⟨members :: rows, rfl⟩
    | _ => exact absurd h (by simp [stepsOfItems])

/-! ### Selectors -/

/-- The clauses of a form become its steps. -/
lemma Form.Says.exists_normalise (h : form.Says clauses) :
    ∃ selector, form.normalise = .ok selector ∧
      clauses.Forall₂ Clause.MeantBy selector.steps := by
  have hobjects : ∀ rows : List (List (String × Value)),
      (rows.map fun members => (⟨none, members⟩ : Clause)).Forall₂ Clause.MeantBy
        (rows.map Step.ofMembers) := by
    intro rows
    rw [List.forall₂_map_left_iff, List.forall₂_map_right_iff, List.forall₂_same]
    exact fun members _ => Clause.meantBy_step ⟨none, members⟩
  induction h with
  | steps steps =>
    refine ⟨⟨steps⟩, rfl, ?_⟩
    rw [List.forall₂_map_left_iff, List.forall₂_same]
    exact fun s _ => Clause.meantBy_self s
  | @text text ts clauses hts hspaced =>
    have hsteps : ts.Forall₂ StepText (clauses.map Clause.step) := by
      rw [List.forall₂_map_right_iff]
      exact hts.imp fun t k h => stepText_iff.mpr ⟨k, h, rfl⟩
    refine ⟨⟨clauses.map Clause.step⟩, parse_eq_ok_iff.mpr ⟨ts, hsteps, hspaced⟩, ?_⟩
    rw [List.forall₂_map_right_iff, List.forall₂_same]
    exact fun k _ => k.meantBy_step
  | quoted _ ih => exact ih
  | nothing => exact ⟨⟨[]⟩, rfl, .nil⟩
  | object members => exact ⟨_, rfl, hobjects [members]⟩
  | objects rows => exact ⟨⟨rows.map Step.ofMembers⟩, ofJson_rows rows, hobjects rows⟩

lemma exists_says_text {selector : Selector} (h : parse text = .ok selector) :
    ∃ clauses, (Form.text text).Says clauses := by
  obtain ⟨ts, hts, hspaced⟩ := parse_eq_ok_iff.mp h
  obtain ⟨clauses, hclauses⟩ : ∃ clauses, ts.Forall₂ ClauseText clauses := by
    clear h hspaced
    generalize selector.steps = steps at hts
    induction hts with
    | nil => exact ⟨[], .nil⟩
    | cons ht _ ih =>
      obtain ⟨k, hk, -⟩ := stepText_iff.mp ht
      obtain ⟨clauses, hclauses⟩ := ih
      exact ⟨k :: clauses, .cons hk hclauses⟩
  exact ⟨clauses, .text hclauses hspaced⟩

/-- What is accepted as a selector says clauses. -/
lemma Form.exists_says {selector : Selector} (h : form.normalise = .ok selector) :
    ∃ clauses, form.Says clauses := by
  cases form with
  | steps steps => exact ⟨_, .steps steps⟩
  | text text => exact exists_says_text h
  | json v =>
    cases v with
    | null => exact ⟨[], .nothing⟩
    | bool => exact absurd h (by simp [normalise, ofJson])
    | number => exact absurd h (by simp [normalise, ofJson])
    | string text =>
      obtain ⟨clauses, hclauses⟩ := exists_says_text h
      exact ⟨clauses, .quoted hclauses⟩
    | array items =>
      obtain ⟨steps, hsteps, -⟩ := Outcome.map_eq_ok.mp h
      obtain ⟨rows, rfl⟩ := exists_rows_of_stepsOfItems hsteps
      exact ⟨_, .objects rows⟩
    | object members => exact ⟨_, .object members⟩

/-- **A step accepts the components of which its clause holds.**  A form is accepted as a selector
exactly if it says clauses.  Each of them becomes a step, and if no key of the clause comes twice,
this step accepts a component that has no property `ntype` itself exactly if the name of the clause
is that of one of the component's types and all its pairs hold of the component. -/
theorem accepts_iff_holds (form : Form) :
    ((∃ selector, form.normalise = .ok selector) ↔ ∃ clauses, form.Says clauses) ∧
      ∀ selector clauses, form.normalise = .ok selector → form.Says clauses →
        clauses.Forall₂ (fun k step => k.Distinct →
          ∀ c : Component, c.properties.get? Component.typeKey = none →
            (step.accepts c = true ↔ k.Holds c)) selector.steps := by
  refine ⟨⟨fun ⟨_, h⟩ => Form.exists_says h, fun ⟨_, h⟩ => ?_⟩, fun selector clauses hform h => ?_⟩
  · obtain ⟨selector, hselector, -⟩ := h.exists_normalise
    exact ⟨selector, hselector⟩
  · obtain ⟨other, hother, hmeant⟩ := h.exists_normalise
    rw [hform] at hother
    rwa [Except.ok.inj hother]

/-- A component with properties of its own in front of a default and of its id. -/
def sampleField : Component where
  id := "mail"
  parent := some "form"
  lineage := ⟨[⟨"textfield", .ofList [("inputType", .string "text")]⟩,
    ⟨"field", .ofList [("inputType", .string "none"), ("required", .bool false)]⟩]⟩
  properties := .ofList [("id", .string "form"), ("required", .bool true)]

/-- The clause of an object that holds of the sample. -/
def sampleClause : Clause :=
  ⟨none, [("id", .string "mail"), ("inputType", .string "text"), ("ntype", .string "field"),
    ("parentId", .string "form"), ("required", .bool true)]⟩

/-- The sample is accepted, as all that the clause says holds of it. -/
theorem accepts_iff_holds_sample :
    sampleClause.Distinct ∧ sampleField.properties.get? Component.typeKey = none ∧
      sampleClause.Holds sampleField ∧
      ∃ step, (Form.json (.object sampleClause.pairs)).normalise = .ok ⟨[step]⟩ ∧
        step.accepts sampleField = true := by
  have hdistinct : sampleClause.Distinct := by simp [Clause.Distinct, sampleClause]
  have hown : sampleField.properties.get? Component.typeKey = none := by decide
  have hinput : sampleField.Inherits "inputType" (.string "text") :=
    ⟨[], _, _, rfl, by simp, rfl⟩
  have hholds : sampleClause.Holds sampleField := by
    refine ⟨nofun, ?_⟩
    simp only [sampleClause, List.forall_mem_cons, List.not_mem_nil, false_implies, implies_true,
      and_true]
    exact ⟨.id, .default (by decide) (by decide) (by decide) rfl hinput rfl,
      .type hown (by decide), .parent rfl, .own (by decide) (by decide) rfl rfl⟩
  obtain ⟨-, hall⟩ := accepts_iff_holds (.json (.object sampleClause.pairs))
  have h := hall _ _ rfl (.object sampleClause.pairs)
  refine ⟨hdistinct, hown, hholds, _, rfl, ?_⟩
  cases h with
  | cons h _ => exact (h hdistinct _ hown).mpr hholds

end Selector

end ComponentTree
