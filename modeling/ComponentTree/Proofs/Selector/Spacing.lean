/-
# Blanks between steps

A text of a selector has texts of its steps with blanks between them (`Spaced`), and which blanks
these are does not matter: the same texts with other blanks are the same selector.  So two texts of
selectors with blanks between them are a text of both chains, one behind the other.

An error tells its position from the beginning of the text.  What stands in front of a defect, a
selector and blanks, only moves that position, by the bytes it takes (`Error.moved`); and as a
selector ends outside of brackets and marks, what follows it is read as if nothing were in front
(`parse_append_blanks`).
-/
import ComponentTree.Proofs.Selector.Refusal

namespace ComponentTree.Selector

open Text Cursor

variable {opening pos n : Nat} {e : Error} {t u w : List Char} {ts us : List (List Char)}
  {steps : List Step}

/-! ### Texts of steps with blanks between them -/

/-- A text that has the texts `ts` one after the other, blanks between them, and perhaps blanks
before and behind. -/
inductive Spaced : List (List Char) → List Char → Prop
  | blank {w : List Char} (hw : Blanks w) : Spaced [] w
  | cons {w t rest : List Char} {ts : List (List Char)} (hw : Blanks w) (hparted : Parted rest)
      (hrest : Spaced ts rest) : Spaced (t :: ts) (w ++ t ++ rest)

lemma Blanks.append (h : Blanks t) (h' : Blanks u) : Blanks (t ++ u) := by
  intro x hx
  exact (List.mem_append.mp hx).elim (h x) (h' x)

lemma parted_of_blanks (h : Blanks w) : Parted w := fun x hx => h x (List.mem_of_mem_head? hx)

/-- Blanks part what is behind them from what is before. -/
lemma Parted.append (h : Parted t) (hw : Blanks w) (hne : w ≠ []) : Parted (t ++ w ++ u) := by
  cases t with
  | nil =>
    obtain ⟨x, v, rfl⟩ := List.exists_cons_of_ne_nil hne
    intro y hy
    rw [← Option.some.inj hy]
    exact hw x List.mem_cons_self
  | cons x t => exact h

lemma Spaced.blanks_append (hw : Blanks w) (h : Spaced ts t) : Spaced ts (w ++ t) := by
  cases h with
  | blank hw' => exact .blank (hw.append hw')
  | @cons w' t rest ts hw' hparted hrest =>
    have := Spaced.cons (t := t) (hw.append hw') hparted hrest
    simpa only [List.append_assoc] using this

/-- With blanks between them, two spaced texts are one. -/
lemma Spaced.append (h : Spaced ts t) (hw : Blanks w) (hne : w ≠ []) (h' : Spaced us u) :
    Spaced (ts ++ us) (t ++ w ++ u) := by
  induction h with
  | blank hbefore => exact h'.blanks_append (hbefore.append hw)
  | @cons before t rest ts hbefore hparted hrest ih =>
    have := Spaced.cons (t := t) hbefore (hparted.append hw hne) ih
    simpa only [List.append_assoc, List.cons_append] using this

/-- **A text of a selector is texts of its steps, spaced.** -/
theorem selectorText_iff_spaced :
    SelectorText t steps ↔ ∃ ts, ts.Forall₂ StepText steps ∧ Spaced ts t := by
  constructor
  · intro h
    cases h with
    | blank hw => exact ⟨[], .nil, .blank hw⟩
    | @steps before t behind steps hbefore h hbehind =>
      induction h generalizing before with
      | @last t s h =>
        exact ⟨[t], .cons h .nil, .cons hbefore (parted_of_blanks hbehind) (.blank hbehind)⟩
      | @more t w rest s steps h hw hne hrest ih =>
        obtain ⟨ts, hts, hspaced⟩ := ih hw
        have hparted : Parted (w ++ rest ++ behind) := by
          rw [List.append_assoc]
          exact Parted.append (t := []) (by simp [Parted]) hw hne
        refine ⟨t :: ts, .cons h hts, ?_⟩
        have := Spaced.cons (t := t) hbefore hparted hspaced
        simpa only [List.append_assoc] using this
  · rintro ⟨ts, hts, hspaced⟩
    induction hspaced generalizing steps with
    | blank hw =>
      cases hts
      exact .blank hw
    | cons hw hparted hrest ih =>
      cases hts with
      | cons h hts => exact (ih hts).cons hw h hparted

/-! ### Positions behind other text -/

/-- The same error in a text with `n` bytes more in front. -/
def Error.moved (n : Nat) : Error → Error
  | unclosed pos => unclosed (n + pos)
  | unopened pos => unopened (n + pos)
  | nested pos => nested (n + pos)
  | noEquals pair pos => noEquals pair (n + pos)
  | noKey pos => noKey (n + pos)
  | unquoted pos => unquoted (n + pos)
  | unexpected char pos => unexpected char (n + pos)
  | e => e

@[simp] lemma Error.atEnd_moved : (e.moved n).atEnd = e.atEnd := by
  cases e <;> rfl

lemma Error.moved_stray {x : Char} : (stray x pos).moved n = stray x (n + pos) := by
  rw [stray, stray, apply_ite (Error.moved n)]
  rfl

lemma EndDefect.moved (h : EndDefect opening pos t e) :
    EndDefect (n + opening) (n + pos) t (e.moved n) := by
  cases h with
  | unclosed => exact .unclosed
  | nested => exact .nested
  | unexpected hx => exact .unexpected hx

lemma ValueDefect.moved (h : ValueDefect opening pos t e) :
    ValueDefect (n + opening) (n + pos) t (e.moved n) := by
  cases h with
  | unquoted hbefore hmark hcontent =>
    rw [Error.moved, ← Nat.add_assoc]
    exact .unquoted hbefore hmark hcontent
  | quoted hbefore hmark hcontent hbehind hstop h =>
    refine .quoted hbefore hmark hcontent hbehind hstop ?_
    rw [Nat.add_assoc]
    exact h.moved
  | plain hchars hfirst hstop h =>
    refine .plain hchars hfirst hstop ?_
    rw [Nat.add_assoc]
    exact h.moved

lemma EntryDefect.moved (h : EntryDefect opening pos t e) :
    EntryDefect (n + opening) (n + pos) t (e.moved n) := by
  cases h with
  | key hkey hstop h =>
    refine .key hkey hstop ?_
    rw [Nat.add_assoc]
    exact h.moved
  | noKey hw =>
    rw [Error.moved, ← Nat.add_assoc]
    exact .noKey hw
  | noEquals hkey hsome =>
    rw [Error.moved, ← Nat.add_assoc]
    exact .noEquals hkey hsome
  | value hkey hsome h =>
    refine .value hkey hsome ?_
    rw [Nat.add_assoc]
    exact h.moved

lemma PairsDefect.moved {first : Bool} (h : PairsDefect opening first pos t e) :
    PairsDefect (n + opening) first (n + pos) t (e.moved n) := by
  induction h with
  | entry h => exact .entry h.moved
  | blank hw hnot =>
    rw [Error.moved, ← Nat.add_assoc]
    exact .blank hw hnot
  | more ht h ih =>
    rw [← Nat.add_assoc] at ih
    exact .more ht ih

lemma StepDefect.moved (h : StepDefect pos t e) : StepDefect (n + pos) t (e.moved n) := by
  cases h with
  | bracket hname h =>
    refine .bracket hname ?_
    rw [Nat.add_assoc, Nat.add_assoc]
    exact h.moved
  | name hname hx hopen hblank =>
    rw [Error.moved_stray, ← Nat.add_assoc]
    exact .name hname hx hopen hblank
  | behind hname ht hblank =>
    rw [Error.moved_stray, ← Nat.add_assoc]
    exact .behind hname ht hblank

/-- A defect is as well one in a text that is farther behind. -/
lemma SelectorDefect.moved (h : SelectorDefect pos t e) :
    SelectorDefect (n + pos) t (e.moved n) := by
  induction h with
  | step hw h =>
    refine .step hw ?_
    rw [Nat.add_assoc]
    exact h.moved
  | more hw ht hparted h ih =>
    rw [← Nat.add_assoc] at ih
    exact .more hw ht hparted ih

/-! ### Defects behind a selector -/

lemma SelectorDefect.blanks_append (hw : Blanks w) (h : SelectorDefect (pos + utf8Length w) t e) :
    SelectorDefect pos (w ++ t) e := by
  cases h with
  | step hw' h =>
    rw [← List.append_assoc]
    refine .step (hw.append hw') ?_
    rwa [utf8Length_append, ← Nat.add_assoc]
  | @more _ w' t u s _ hw' ht hparted h =>
    rw [← List.append_assoc, ← List.append_assoc]
    refine .more (hw.append hw') ht hparted ?_
    rwa [List.append_assoc, utf8Length_append, ← Nat.add_assoc]

/-- **Behind a selector and blanks a defect is one of the whole text.** -/
lemma SelectorDefect.append (hts : ts.Forall₂ StepText steps) (hspaced : Spaced ts t)
    (hw : Blanks w) (hne : w ≠ []) (h : SelectorDefect (pos + utf8Length (t ++ w)) u e) :
    SelectorDefect pos (t ++ w ++ u) e := by
  induction hspaced generalizing pos steps with
  | blank hbefore => exact h.blanks_append (hbefore.append hw)
  | @cons before t rest ts hbefore hparted hrest ih =>
    cases hts with
    | cons ht hts =>
      rw [List.append_assoc _ rest, utf8Length_append, ← Nat.add_assoc] at h
      have := SelectorDefect.more hbefore ht (hparted.append hw hne) (ih hts h)
      simpa only [List.append_assoc] using this

/-! ### Selectors -/

lemma parse_eq_ok_iff {text : String} {selector : Selector} :
    parse text = .ok selector ↔
      ∃ ts, ts.Forall₂ StepText selector.steps ∧ Spaced ts text.toList := by
  rw [parse_eq_ok, stepsFrom_eq_ok, selectorText_iff_spaced]

/-- **Behind a selector and blanks a text is read as if nothing were in front of it.**  If it is a
selector, its steps follow; if it is refused, its error has the position behind what is in front.
And an accepted selector has texts of its steps that are spaced in the text, and that may be spaced
in any other way. -/
theorem parse_append_blanks {a b w : String} {x : Selector} (ha : parse a = .ok x)
    (hw : Blanks w.toList) (hne : w ≠ "") :
    (∀ y, parse b = .ok y → parse (a ++ w ++ b) = .ok ⟨x.steps ++ y.steps⟩) ∧
      (∀ e, parse b = .error e →
        parse (a ++ w ++ b) = .error (e.moved (a ++ w).utf8ByteSize)) ∧
      ∃ ts, ts.Forall₂ StepText x.steps ∧ Spaced ts a.toList ∧
        ∀ other : String, Spaced ts other.toList → parse other = .ok x := by
  obtain ⟨ts, hts, hspaced⟩ := parse_eq_ok_iff.mp ha
  have hne : w.toList ≠ [] := mt String.toList_eq_nil_iff.mp hne
  refine ⟨fun y hb => ?_, fun e hb => ?_, ts, hts, hspaced, fun other h => ?_⟩
  · obtain ⟨us, hus, hspaced'⟩ := parse_eq_ok_iff.mp hb
    rw [parse_eq_ok_iff, String.toList_append, String.toList_append]
    exact ⟨ts ++ us, List.rel_append hts hus, hspaced.append hw hne hspaced'⟩
  · obtain ⟨u, d, ⟨hrest, -⟩, hdefect, hend⟩ := parse_eq_error.mp hb
    have hdefect : SelectorDefect (0 + utf8Length (a.toList ++ w.toList)) u
        (e.moved (a ++ w).utf8ByteSize) := by
      rw [← utf8Length_toList, String.toList_append, Nat.add_comm]
      exact hdefect.moved
    have htext : (a ++ w ++ b).toList = a.toList ++ w.toList ++ u ++ d.rest := by
      rw [String.toList_append, String.toList_append, List.append_assoc _ u]
      exact congrArg _ hrest
    obtain ⟨d', hreads, hd⟩ := exists_reads (c := ⟨0, (a ++ w ++ b).toList⟩) htext
    refine parse_eq_error.mpr ⟨_, d', hreads, hdefect.append hts hspaced hw hne, fun h => ?_⟩
    rw [hd]
    exact hend (by simpa using h)
  · exact parse_eq_ok_iff.mpr ⟨ts, hts, h⟩

/-- Behind two steps and blanks, one of which has three bytes, a bracket that is left open is found
at its place, and two more steps continue the chain. -/
theorem parse_append_blanks_sample :
    Blanks "\t\u3000".toList ∧ "\t\u3000" ≠ "" ∧
      parse ("form tab.2" ++ "\t\u3000" ++ "[é=1") = .error (.unclosed 14) ∧
      (parse ("form tab.2" ++ "\t\u3000" ++ "a b")).map size = .ok 4 := by
  have hblanks : Blanks "\t\u3000".toList := by simp [Blanks, isBlank]
  have hne : "\t\u3000" ≠ "" := by decide
  obtain ⟨x, hx, hsize⟩ : ∃ x, parse "form tab.2" = .ok x ∧ x.size = 2 := ⟨_, by cbv, rfl⟩
  obtain ⟨y, hy, hsize'⟩ : ∃ y, parse "a b" = .ok y ∧ y.size = 2 := ⟨_, by cbv, rfl⟩
  have he : parse "[é=1" = .error (.unclosed 0) := parse_eq_error_of_step (by cbv)
  obtain ⟨-, herror, -⟩ := parse_append_blanks (b := "[é=1") hx hblanks hne
  obtain ⟨hok, -, -⟩ := parse_append_blanks (b := "a b") hx hblanks hne
  refine ⟨hblanks, hne, herror _ he, ?_⟩
  rw [hok y hy]
  exact congrArg Except.ok (List.length_append.trans (congrArg₂ _ hsize hsize'))

end ComponentTree.Selector
