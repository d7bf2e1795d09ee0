/-
# The reader accepts the grammar

A step is a name and a bracket, each of which may be missing, and it ends before a blank or at the
end of the text.  Blanks cannot stand in a name, and a bracket is read to its own closing bracket,
so the blanks between steps are found whatever stands in brackets and behind marks
(`step_eq_ok`).  With that, a text is accepted exactly if it is a selector of the grammar, and as
the steps that the grammar gives it (`parse_eq_ok_iff_selectorText`).
-/
import ComponentTree.Proofs.Selector.Brackets

namespace ComponentTree.Selector

open Text Cursor

variable {c : Cursor}

/-! ### Steps -/

/-- **The name and the pairs of a step determine it.** -/
theorem asksFor_iff {name : List Char} {pairs : List (String × String)} {s : Step} :
    AsksFor name pairs s ↔ s = Step.ofTexts name pairs := by
  have htypeName : (Step.ofTexts name pairs).typeName =
      if name = [] then pairs.lookup Component.typeKey else some (String.ofList name) := by
    rw [Step.ofTexts, typeName_foldl_require]
    by_cases h : name = [] <;> simp [h]
  have hconstraints : ∀ key, (Step.ofTexts name pairs).constraints.get? key =
      ((remaining name pairs).reverse.lookup key).map Json.Value.string := by
    intro key
    rw [Step.ofTexts, get?_foldl_require, remaining]
    by_cases h : name = [] <;> simp [h]
  constructor
  · rintro ⟨h₁, h₂⟩
    obtain ⟨typeName, constraints⟩ := s
    have hc : constraints = (Step.ofTexts name pairs).constraints :=
      Dict.ext_get? fun key => (h₂ key).trans (hconstraints key).symm
    rw [hc, show typeName = _ from h₁.trans htypeName.symm]
  · rintro rfl
    exact ⟨htypeName, hconstraints⟩

/-- What follows is parted from a step in front of it: it is nothing or begins with a blank. -/
def Parted (rest : List Char) : Prop := ∀ x ∈ rest.head?, isBlank x = true

lemma stepEnd_eq_ok {u : Unit} : stepEnd c = .ok u ↔ Parted c.rest := by
  rw [stepEnd, Parted]
  split
  · next h => simp [h]
  · next x rest h =>
    rw [h]
    split
    · next hx => simp [hx]
    · next hx =>
      split <;> simp [hx]

lemma step_eq_ok_iff_parts {s : Step} {after : Cursor} :
    step c = .ok (s, after) ↔ ∃ pairs, bracket (c.afterRun isNameChar) = .ok (pairs, after) ∧
      Parted after.rest ∧ s = Step.ofTexts (c.run isNameChar) pairs := by
  rw [step, Outcome.bind_eq_ok]
  constructor
  · rintro ⟨⟨pairs, d⟩, hbracket, h⟩
    obtain ⟨u, hend, h⟩ := Outcome.bind_eq_ok.mp h
    obtain ⟨rfl, rfl⟩ := Prod.mk.inj (Except.ok.inj h)
    exact ⟨pairs, hbracket, stepEnd_eq_ok.mp hend, rfl⟩
  · rintro ⟨pairs, hbracket, hend, rfl⟩
    refine ⟨(pairs, after), hbracket, ?_⟩
    exact Outcome.bind_eq_ok.mpr ⟨(), stepEnd_eq_ok.mpr hend, rfl⟩

/-- **A step is accepted up to a blank or the end of the text, and no other text is.** -/
theorem step_eq_ok {s : Step} {after : Cursor} {x : Char} {rest : List Char}
    (hc : c.rest = x :: rest) (hx : isBlank x = false) :
    step c = .ok (s, after) ↔ ∃ t, StepText t s ∧ c.Reads t after ∧ Parted after.rest := by
  have hname : ∀ x ∈ c.run isNameChar, NameChar x := fun x hx => isNameChar_iff.mp (mem_run hx)
  have hreads := reads_run isNameChar c
  rw [step_eq_ok_iff_parts]
  constructor
  · rintro ⟨pairs, hbracket, hend, hs⟩
    by_cases hopen : ∃ rest, (c.afterRun isNameChar).rest = '[' :: rest
    · obtain ⟨rest, hrest⟩ := hopen
      obtain ⟨t, ht, hreads'⟩ := (bracket_eq_ok hrest).mp hbracket
      exact ⟨_, .bracket hname ht (asksFor_iff.mpr hs), hreads.trans hreads', hend⟩
    · have hnot : ∀ x ∈ (c.afterRun isNameChar).rest.head?, x ≠ '[' := by
        rintro x hx rfl
        exact hopen (List.head?_eq_some_iff.mp hx)
      rw [bracket_eq_nil hnot] at hbracket
      obtain ⟨rfl, rfl⟩ := Prod.mk.inj (Except.ok.inj hbracket)
      refine ⟨_, .name hname (fun hnil => ?_) (asksFor_iff.mpr hs), hreads, hend⟩
      -- without a name the step would end where it begins, before `x`
      rw [hnil] at hreads
      rw [reads_nil_iff.mp hreads, hc] at hend
      rw [hend x rfl] at hx
      exact absurd hx (by simp)
  · rintro ⟨t, ht, htext, hend⟩
    cases ht with
    | name hname' hne hs =>
      have hchars : ∀ y ∈ t, isNameChar y = true := by
        intro y hy
        exact isNameChar_iff.mpr (hname' y hy)
      -- a blank ends the name
      have hstops : after.Stops isNameChar := by
        intro y hy
        have hy : ¬ NameChar y := not_nameChar_of_isBlank (hend y hy)
        exact Bool.eq_false_iff.mpr (mt isNameChar_iff.mp hy)
      obtain ⟨hrun, hafter⟩ := htext.run_eq hchars hstops
      have hnot : ∀ y ∈ after.rest.head?, y ≠ '[' := by
        rintro y hy rfl
        exact absurd (hend '[' hy) (by decide)
      refine ⟨[], ?_, hend, hrun ▸ asksFor_iff.mp hs⟩
      rw [hafter]
      exact bracket_eq_nil hnot
    | @bracket name u pairs _ hname' hu hs =>
      obtain ⟨d, hn, hreads'⟩ := htext.exists_of_append
      obtain ⟨v, rfl⟩ := hu.exists_cons
      have hchars : ∀ y ∈ name, isNameChar y = true := by
        intro y hy
        exact isNameChar_iff.mpr (hname' y hy)
      obtain ⟨hrun, rfl⟩ := hn.run_eq hchars (hreads'.stops (by decide))
      refine ⟨pairs, (bracket_eq_ok hreads'.1).mpr ⟨_, hu, hreads'⟩, hend, ?_⟩
      exact hrun ▸ asksFor_iff.mp hs

/-! ### Selectors -/

/-- A step begins with a letter, a digit, a sign of a name or an opening bracket. -/
lemma StepText.exists_cons {t : List Char} {s : Step} (h : StepText t s) :
    ∃ x u, t = x :: u ∧ isBlank x = false ∧ x ≠ ']' := by
  have hchar : ∀ x, NameChar x → isBlank x = false ∧ x ≠ ']' := by
    intro x hx
    refine ⟨not_blank_of_nameChar hx, ?_⟩
    rintro rfl
    revert hx
    simp [NameChar]
  cases h with
  | name hname hne hs =>
    obtain ⟨x, u, rfl⟩ := List.exists_cons_of_ne_nil hne
    exact ⟨x, u, rfl, hchar x (hname x List.mem_cons_self)⟩
  | @bracket name t pairs _ hname ht hs =>
    cases name with
    | nil =>
      obtain ⟨u, rfl⟩ := ht.exists_cons
      exact ⟨'[', u, rfl, by decide, by decide⟩
    | cons x u => exact ⟨x, u ++ t, rfl, hchar x (hname x List.mem_cons_self)⟩

lemma StepsText.exists_cons {t : List Char} {steps : List Step} (h : StepsText t steps) :
    ∃ x u, t = x :: u ∧ isBlank x = false := by
  cases h with
  | last h =>
    obtain ⟨x, u, ht, hx, -⟩ := h.exists_cons
    exact ⟨x, u, ht, hx⟩
  | more h hw hne hrest =>
    obtain ⟨x, u, rfl, hx, -⟩ := h.exists_cons
    exact ⟨x, _, rfl, hx⟩

/-- A step may be put in front of a selector that begins with a blank. -/
lemma SelectorText.cons {w t rest : List Char} {s : Step} {steps : List Step} (hw : Blanks w)
    (h : StepText t s) (hrest : SelectorText rest steps) (hparted : Parted rest) :
    SelectorText (w ++ t ++ rest) (s :: steps) := by
  cases hrest with
  | blank hbehind => exact .steps hw (.last h) hbehind
  | @steps before u behind _ hbefore hu hbehind =>
    have hne : before ≠ [] := by
      rintro rfl
      obtain ⟨x, v, rfl, hx⟩ := hu.exists_cons
      rw [hparted x rfl] at hx
      exact absurd hx (by simp)
    have h := SelectorText.steps hw (.more h hbefore hne hu) hbehind
    simpa only [List.append_assoc] using h

lemma skipBlanks_rest_of_blanks (h : Blanks c.rest) : c.skipBlanks.rest = [] := by
  rw [skipBlanks, afterRun]
  exact List.dropWhile_eq_nil_iff.mpr h

lemma stepsFrom_of_blanks (h : Blanks c.rest) : stepsFrom c = .ok [] := by
  rw [stepsFrom]
  split
  · rfl
  · next hrest => exact absurd (hrest.symm.trans (skipBlanks_rest_of_blanks h)) (by simp)

/-- A closing bracket where a step should begin is refused as it is behind a step. -/
lemma step_of_close {rest : List Char} (hc : c.rest = ']' :: rest) :
    step c = .error (.unopened c.pos) := by
  have hstop : c.Stops isNameChar := by
    intro x hx
    rw [hc] at hx
    rw [← Option.some.inj hx]
    decide
  obtain ⟨-, hafter⟩ := (Reads.nil c).run_eq (by simp) hstop
  have hbracket : bracket c = .ok ([], c) := by
    rw [bracket, hc]
    rfl
  have hend : stepEnd c = .error (.unopened c.pos) := by
    rw [stepEnd, hc]
    rfl
  rw [step, hafter, hbracket]
  show (stepEnd c >>= _) = _
  rw [hend]
  rfl

/-- What stands behind the blanks is read as a step and what follows it. -/
lemma stepsFrom_eq_bind (h : c.skipBlanks.rest ≠ []) :
    stepsFrom c = step c.skipBlanks >>= fun r => (stepsFrom r.2).map (r.1 :: ·) := by
  rw [stepsFrom]
  split
  · next hnil => exact absurd hnil h
  · next x rest hrest =>
    split
    · next hclose =>
      rw [step_of_close (hclose ▸ hrest)]
      rfl
    · split
      · next e he =>
        rw [he]
        rfl
      · next s after hs =>
        dsimp only
        rw [hs]
        rfl

lemma stepsFrom_of_step {w t : List Char} {s : Step} {d after : Cursor} (hw : Blanks w)
    (hblanks : c.Reads w d) (ht : StepText t s) (hreads : d.Reads t after)
    (hend : Parted after.rest) :
    stepsFrom c = (stepsFrom after).map (s :: ·) := by
  obtain ⟨x, u, rfl, hx, -⟩ := ht.exists_cons
  obtain ⟨-, hskip⟩ := hblanks.run_eq (p := isBlank) hw (hreads.stops hx)
  have hne : c.skipBlanks.rest ≠ [] := by
    rw [skipBlanks, hskip, hreads.1]
    simp
  rw [stepsFrom_eq_bind hne, skipBlanks, hskip,
    (step_eq_ok hreads.1 hx).mpr ⟨_, ht, hreads, hend⟩]
  rfl

lemma stepsFrom_of_stepsText {before t behind : List Char} {steps : List Step}
    (hbefore : Blanks before) (h : StepsText t steps) (hbehind : Blanks behind)
    (hc : c.rest = before ++ t ++ behind) : stepsFrom c = .ok steps := by
  induction h generalizing c before with
  | last h =>
    rw [List.append_assoc] at hc
    obtain ⟨d, hblanks, hd⟩ := exists_reads hc
    obtain ⟨after, hreads, hrest⟩ := exists_reads hd
    subst hrest
    have hend : Parted after.rest := fun x hx => hbehind x (List.mem_of_mem_head? hx)
    rw [stepsFrom_of_step hbefore hblanks h hreads hend, stepsFrom_of_blanks hbehind]
    rfl
  | @more t w rest s steps h hw hne _ ih =>
    rw [show before ++ (t ++ w ++ rest) ++ behind = before ++ (t ++ (w ++ rest ++ behind)) by
      simp only [List.append_assoc]] at hc
    obtain ⟨d, hblanks, hd⟩ := exists_reads hc
    obtain ⟨after, hreads, hrest⟩ := exists_reads hd
    -- the step ends at the first of the blanks behind it
    have hend : Parted after.rest := by
      obtain ⟨y, v, rfl⟩ := List.exists_cons_of_ne_nil hne
      intro x hx
      rw [hrest] at hx
      rw [← Option.some.inj hx]
      exact hw y List.mem_cons_self
    rw [stepsFrom_of_step hbefore hblanks h hreads hend, ih hw hrest]
    rfl

/-- **A text is read as the steps that it is a selector of.** -/
theorem stepsFrom_eq_ok {steps : List Step} :
    stepsFrom c = .ok steps ↔ SelectorText c.rest steps := by
  constructor
  · intro h
    fun_induction stepsFrom c generalizing steps with
    | case1 c hrest =>
      rw [← Except.ok.inj h]
      exact .blank (List.dropWhile_eq_nil_iff.mp hrest)
    | case2 => simp at h
    | case3 => simp at h
    | case4 c char rest hrest hclose s after hs _ ih =>
      obtain ⟨steps, hsteps, rfl⟩ := Outcome.map_eq_ok.mp h
      obtain ⟨t, ht, hreads, hend⟩ :=
        (step_eq_ok hrest (isBlank_head_skipBlanks hrest)).mp hs
      have hw : Blanks (c.run isBlank) := fun x hx => mem_run hx
      rw [((reads_run isBlank c).trans hreads).1]
      exact (ih hsteps).cons hw ht hend
  · intro h
    generalize hc : c.rest = t at h
    cases h with
    | blank hw => exact stepsFrom_of_blanks (hc ▸ hw)
    | steps hbefore h hbehind => exact stepsFrom_of_stepsText hbefore h hbehind hc

/-- **A text is a selector in one way only.** -/
theorem SelectorText.unique {t : List Char} {steps others : List Step} (h : SelectorText t steps)
    (h' : SelectorText t others) : steps = others := by
  have hsteps : stepsFrom ⟨0, t⟩ = .ok steps := stepsFrom_eq_ok.mpr h
  have hothers : stepsFrom ⟨0, t⟩ = .ok others := stepsFrom_eq_ok.mpr h'
  exact Except.ok.inj (hsteps.symm.trans hothers)

lemma parse_eq_ok {text : String} {selector : Selector} :
    parse text = .ok selector ↔ stepsFrom ⟨0, text.toList⟩ = .ok selector.steps := by
  rw [parse, Outcome.map_eq_ok]
  constructor
  · rintro ⟨steps, hsteps, rfl⟩
    exact hsteps
  · exact fun h => ⟨selector.steps, h, rfl⟩

/-- **The reader accepts the texts of the grammar and no others, with the steps that the grammar
gives them.** -/
theorem parse_eq_ok_iff_selectorText (text : String) (selector : Selector) :
    parse text = .ok selector ↔ SelectorText text.toList selector.steps := by
  rw [parse, Outcome.map_eq_ok]
  constructor
  · rintro ⟨steps, hsteps, rfl⟩
    exact stepsFrom_eq_ok.mp hsteps
  · exact fun h => ⟨selector.steps, stepsFrom_eq_ok.mpr h, rfl⟩

end ComponentTree.Selector
