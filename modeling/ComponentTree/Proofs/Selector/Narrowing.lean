/-
# A name in front of a bracket

A step with a name and a bracket asks for more than the name alone, so what it accepts the name
accepts too.  Of the bracket alone this holds with one exception.  A text under `ntype` is taken for
the type name where no name stands in front, and is a constraint where one does; and a component with
a property `ntype` of its own can meet the constraint by that property, without having a type of this
name (`accepts_parts_of_accepts`, `not_accepts_bracket_of_accepts`).
-/
import ComponentTree.Proofs.Selector.Meaning

namespace ComponentTree.Selector

open Json (Value)

variable {c : Component} {name text : String} {k : Clause} {pairs : List (String × String)}

lemma distinct_map_constraintOf (h : (pairs.map (·.1)).Nodup) (typeName : Option String) :
    Clause.Distinct ⟨typeName, pairs.map constraintOf⟩ := by
  rwa [Clause.Distinct, List.map_map]

/-- In a step with a type name every pair is a constraint. -/
lemma accepts_step_of_name (h : (pairs.map (·.1)).Nodup) :
    (Clause.step ⟨some name, pairs.map constraintOf⟩).accepts c = true ↔
      name ∈ c.lineage.names ∧ ∀ p ∈ pairs, c.Has p.1 (.string p.2) := by
  rw [Clause.accepts_step (distinct_map_constraintOf h _)]
  have hfits : ∀ p : String × String,
      c.Fits (some name) p.1 (.string p.2) ↔ c.Has p.1 (.string p.2) := fun _ => fits_iff_has nofun
  simp only [Option.some.injEq, forall_eq', List.forall_mem_map, constraintOf, hfits]

/-- In a step without a name in front the text under `ntype` names a type. -/
lemma accepts_step_of_no_name (h : (pairs.map (·.1)).Nodup) :
    (Clause.step ⟨none, pairs.map constraintOf⟩).accepts c = true ↔
      (∀ value, (Component.typeKey, value) ∈ pairs → value ∈ c.lineage.names) ∧
        ∀ p ∈ pairs, p.1 ≠ Component.typeKey → c.Has p.1 (.string p.2) := by
  rw [Clause.accepts_step (distinct_map_constraintOf h _)]
  simp only [reduceCtorEq, false_implies, implies_true, true_and, List.forall_mem_map, constraintOf]
  constructor
  · intro hall
    refine ⟨fun value hvalue => fits_none_typeKey.mp (hall _ hvalue), fun p hp hne => ?_⟩
    exact (fits_iff_has fun _ hkey => absurd hkey hne).mp (hall p hp)
  · rintro ⟨hnames, hothers⟩ ⟨key, value⟩ hp
    by_cases hkey : key = Component.typeKey
    · subst hkey
      exact .typeName (hnames value hp)
    · exact .constraint (fun _ htype => absurd htype hkey) (hothers _ hp hkey)

/-- A component names one of its types by `ntype`, or it has such a property itself. -/
lemma mem_names_or_own_of_has (h : c.Has Component.typeKey (.string text)) :
    text ∈ c.lineage.names ∨ c.properties.get? Component.typeKey = some (.string text) := by
  cases hown : c.properties.get? Component.typeKey with
  | none =>
    obtain ⟨name, hname, heq⟩ := (has_typeKey hown).mp h
    rw [Value.string.inj heq]
    exact .inl hname
  | some w =>
    have hw := (has_of_own (by decide) (by decide) hown).mp h
    rw [beq_string_iff.mp hw]
    exact .inr rfl

/-- **What a name with a bracket accepts, the name accepts, and the bracket in general.**  The texts
of the three are steps, and a component that the whole step accepts is accepted by the name alone;
and it is accepted by the bracket alone unless the bracket has a text under `ntype` that the component
has there as a property of its own and that is the name of none of its types. -/
theorem accepts_parts_of_accepts (hne : name ≠ "") (hname : ∀ x ∈ name.toList, NameChar x)
    (hbracket : BracketText text.toList pairs) (hdistinct : (pairs.map (·.1)).Nodup) :
    ∃ whole front bracket : Step, parse (name ++ text) = .ok ⟨[whole]⟩ ∧
      parse name = .ok ⟨[front]⟩ ∧ parse text = .ok ⟨[bracket]⟩ ∧
      ∀ c : Component, whole.accepts c = true → front.accepts c = true ∧
        (bracket.accepts c = true ↔ ∀ value, (Component.typeKey, value) ∈ pairs →
          c.properties.get? Component.typeKey = some (.string value) →
            value ∈ c.lineage.names) := by
  have hnil : name.toList ≠ [] := mt String.toList_eq_nil_iff.mp hne
  have hwhole : ClauseText (name ++ text).toList ⟨some name, pairs.map constraintOf⟩ := by
    have := ClauseText.both hname hnil hbracket
    rwa [String.ofList_toList, ← String.toList_append] at this
  have hfront : ClauseText name.toList ⟨some name, [].map constraintOf⟩ := by
    have := ClauseText.name hname hnil
    rwa [String.ofList_toList] at this
  have hnone : (([] : List (String × String)).map (·.1)).Nodup := List.nodup_nil
  refine ⟨_, _, _, parse_eq_ok_of_clauseText hwhole, parse_eq_ok_of_clauseText hfront,
    parse_eq_ok_of_clauseText (.bracket hbracket), fun c haccepts => ?_⟩
  obtain ⟨htype, hall⟩ := (accepts_step_of_name hdistinct).mp haccepts
  refine ⟨(accepts_step_of_name hnone).mpr ⟨htype, by simp⟩, ?_⟩
  rw [accepts_step_of_no_name hdistinct]
  constructor
  · rintro ⟨hnames, -⟩ value hvalue _
    exact hnames value hvalue
  · intro hown
    refine ⟨fun value hvalue => ?_, fun p hp _ => hall p hp⟩
    exact (mem_names_or_own_of_has (hall _ hvalue)).elim id (hown value hvalue)

/-- A component that says itself of what type it is, and says so otherwise than its types. -/
def sampleCustom : Component :=
  ⟨"a", none, ⟨[⟨"panel", ∅⟩]⟩, .ofList [("ntype", .string "custom")]⟩

lemma bracketText_custom : BracketText "[ntype='custom']".toList [("ntype", "custom")] :=
  bracketText_of_quotedText (@QuotedText.quoted '\'' "ntype" "custom" (.inr rfl) (by decide))
    writableKey_typeKey

lemma parse_custom :
    parse "panel[ntype='custom']" =
        .ok ⟨[⟨some "panel", .ofList [("ntype", .string "custom")]⟩]⟩ ∧
      parse "[ntype='custom']" = .ok ⟨[⟨some "custom", ∅⟩]⟩ := by
  constructor
  · rw [parse_eq_ok, stepsFrom_eq_bind (by decide)]
    cbv
  · rw [parse_eq_ok, stepsFrom_eq_bind (by decide)]
    cbv

lemma accepts_sampleCustom :
    Step.accepts ⟨some "panel", .ofList [("ntype", .string "custom")]⟩ sampleCustom = true ∧
      Step.accepts ⟨some "custom", ∅⟩ sampleCustom = false := by
  constructor <;> decide

/-- The sample is accepted by the whole step, and so by the name; the bracket alone does not accept
it. -/
theorem accepts_parts_of_accepts_sample :
    ∃ whole front bracket : Step, parse ("panel" ++ "[ntype='custom']") = .ok ⟨[whole]⟩ ∧
      parse "panel" = .ok ⟨[front]⟩ ∧ parse "[ntype='custom']" = .ok ⟨[bracket]⟩ ∧
      whole.accepts sampleCustom = true ∧ front.accepts sampleCustom = true ∧
      bracket.accepts sampleCustom = false := by
  obtain ⟨whole, front, bracket, hwhole, hfront, hbracket, hall⟩ :=
    @accepts_parts_of_accepts "panel" "[ntype='custom']" [("ntype", "custom")] (by decide)
      (by simp [NameChar]) bracketText_custom (by simp)
  obtain rfl : _ = whole :=
    List.head_eq_of_cons_eq (congrArg steps (Except.ok.inj (parse_custom.1.symm.trans hwhole)))
  obtain ⟨hparts, hiff⟩ := hall sampleCustom accepts_sampleCustom.1
  refine ⟨_, front, bracket, hwhole, hfront, hbracket, accepts_sampleCustom.1, hparts, ?_⟩
  -- the property of the sample is the text in the bracket, and none of its types has this name
  refine Bool.eq_false_iff.mpr fun haccepts => ?_
  have hmem := hiff.mp haccepts "custom" List.mem_cons_self rfl
  exact absurd hmem (by decide)

/-- A bracket alone need not accept what a name with it accepts. -/
theorem not_accepts_bracket_of_accepts :
    ¬ ∀ (name text : String) (pairs : List (String × String)) (whole bracket : Step)
      (c : Component), name ≠ "" → (∀ x ∈ name.toList, NameChar x) →
      BracketText text.toList pairs → (pairs.map (·.1)).Nodup →
      parse (name ++ text) = .ok ⟨[whole]⟩ → parse text = .ok ⟨[bracket]⟩ →
      whole.accepts c = true → bracket.accepts c = true := by
  intro h
  have haccepts := h "panel" "[ntype='custom']" [("ntype", "custom")] _ _ sampleCustom (by decide)
    (by simp [NameChar]) bracketText_custom (by simp) parse_custom.1 parse_custom.2
    accepts_sampleCustom.1
  exact absurd (haccepts.symm.trans accepts_sampleCustom.2) (by decide)

end ComponentTree.Selector
