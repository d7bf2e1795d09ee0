/-
# The grammar of selectors

What a selector looks like, said apart from how one is read.  Each kind of part has a relation
between its texts and what they stand for.

* A value is quoted, and then all between the marks counts, or it is a run of characters without
  brackets and commas, and then the blanks at its two ends do not count.
* A pair is a key, an equals sign and a value; the blanks around the key do not count.
* A bracket holds blanks only, or pairs with commas between them.
* A step is a name, a bracket, or a name with a bracket behind it.
* A selector is steps with blanks between them, and blanks may stand before and behind.

What a step stands for is said by look-ups (`AsksFor`): its type name is the name in front of the
bracket, and without one the first text given under `ntype`; of what else the pairs say, the last
value of a key counts.
-/
import Mathlib
import ComponentTree.Selector.Basic
import ComponentTree.Text.Blank

namespace ComponentTree.Selector

open Text

/-! ### Characters -/

/-- The letters, digits and signs of a name. -/
def NameChar (c : Char) : Prop :=
  ('A' ≤ c ∧ c ≤ 'Z') ∨ ('a' ≤ c ∧ c ≤ 'z') ∨ ('0' ≤ c ∧ c ≤ '9') ∨ c = '_' ∨ c = '.' ∨ c = '-'

/-- The two quotation marks. -/
def Mark (c : Char) : Prop := c = '"' ∨ c = '\''

/-- What may stand in a value without marks: all but brackets and the comma. -/
def ValueChar (c : Char) : Prop := c ≠ '[' ∧ c ≠ ']' ∧ c ≠ ','

/-- What may stand in a key: what may stand in a value, without the equals sign and marks. -/
def KeyChar (c : Char) : Prop := ValueChar c ∧ c ≠ '=' ∧ ¬ Mark c

/-- A run of blanks, which may be empty. -/
def Blanks (w : List Char) : Prop := ∀ c ∈ w, isBlank c = true

/-- A text without the blanks at its two ends. -/
def trim (t : List Char) : List Char := (t.dropWhile isBlank).rdropWhile isBlank

/-! ### The parts of a bracket -/

/-- A text of a value and the value. -/
inductive ValueText : List Char → String → Prop
  | quoted {mark : Char} {before content behind : List Char} (hbefore : Blanks before)
      (hmark : Mark mark) (hcontent : mark ∉ content) (hbehind : Blanks behind) :
      ValueText (before ++ [mark] ++ content ++ [mark] ++ behind) (String.ofList content)
  | plain {t : List Char} (hchars : ∀ c ∈ t, ValueChar c)
      (hfirst : ∀ c ∈ (t.dropWhile isBlank).head?, ¬ Mark c) :
      ValueText t (String.ofList (trim t))

/-- A text of a pair and its key and value. -/
inductive PairText : List Char → String × String → Prop
  | pair {key t : List Char} {value : String} (hkey : ∀ c ∈ key, KeyChar c)
      (hsome : trim key ≠ []) (hvalue : ValueText t value) :
      PairText (key ++ ['='] ++ t) (String.ofList (trim key), value)

/-- A text of one or more pairs with commas between them. -/
inductive PairsText : List Char → List (String × String) → Prop
  | last {t : List Char} {p : String × String} (h : PairText t p) : PairsText t [p]
  | more {t rest : List Char} {p : String × String} {pairs : List (String × String)}
      (h : PairText t p) (hrest : PairsText rest pairs) :
      PairsText (t ++ [','] ++ rest) (p :: pairs)

/-- A text of a bracket and the pairs in it. -/
inductive BracketText : List Char → List (String × String) → Prop
  | empty {w : List Char} (h : Blanks w) : BracketText (['['] ++ w ++ [']']) []
  | pairs {t : List Char} {pairs : List (String × String)} (h : PairsText t pairs) :
      BracketText (['['] ++ t ++ [']']) pairs

/-! ### Steps -/

/-- The pairs of a step that are not its type name: without a name in front of the bracket, the
first pair under `ntype` is. -/
def remaining (name : List Char) (pairs : List (String × String)) : List (String × String) :=
  if name = [] then pairs.eraseP (fun p => p.1 = Component.typeKey) else pairs

/-- What a step with a name, which may be empty, and pairs asks for. -/
structure AsksFor (name : List Char) (pairs : List (String × String)) (s : Step) : Prop where
  typeName : s.typeName =
    if name = [] then pairs.lookup Component.typeKey else some (String.ofList name)
  constraints : ∀ key, s.constraints.get? key =
    ((remaining name pairs).reverse.lookup key).map Json.Value.string

/-- A text of a step and the step. -/
inductive StepText : List Char → Step → Prop
  | name {name : List Char} {s : Step} (hname : ∀ c ∈ name, NameChar c) (hne : name ≠ [])
      (hs : AsksFor name [] s) : StepText name s
  | bracket {name t : List Char} {pairs : List (String × String)} {s : Step}
      (hname : ∀ c ∈ name, NameChar c) (h : BracketText t pairs) (hs : AsksFor name pairs s) :
      StepText (name ++ t) s

/-- A text of one or more steps with blanks between them. -/
inductive StepsText : List Char → List Step → Prop
  | last {t : List Char} {s : Step} (h : StepText t s) : StepsText t [s]
  | more {t w rest : List Char} {s : Step} {steps : List Step} (h : StepText t s)
      (hblanks : Blanks w) (hne : w ≠ []) (hrest : StepsText rest steps) :
      StepsText (t ++ w ++ rest) (s :: steps)

/-- A text of a selector and its steps. -/
inductive SelectorText : List Char → List Step → Prop
  | blank {w : List Char} (h : Blanks w) : SelectorText w []
  | steps {before t behind : List Char} {steps : List Step} (hbefore : Blanks before)
      (h : StepsText t steps) (hbehind : Blanks behind) :
      SelectorText (before ++ t ++ behind) steps

/-! ### Steps that texts are added to -/

lemma require_string (s : Step) (key text : String) :
    s.require key (.string text) =
      if s.typeName = none ∧ key = Component.typeKey then { s with typeName := some text }
      else { s with constraints := s.constraints.insert key (.string text) } := by
  obtain ⟨_ | name, constraints⟩ := s
  · simp only [Step.require, true_and]
  · simp only [Step.require, reduceCtorEq, false_and, if_false]

lemma typeName_foldl_require (pairs : List (String × String)) (s : Step) :
    (pairs.foldl (fun s p => s.require p.1 (.string p.2)) s).typeName =
      s.typeName.or (pairs.lookup Component.typeKey) := by
  induction pairs generalizing s with
  | nil => simp
  | cons p rest ih =>
    obtain ⟨key, text⟩ := p
    rw [List.foldl_cons, ih, require_string, Dict.lookup_cons_eq]
    cases hs : s.typeName with
    | some name => simp
    | none =>
      by_cases hkey : key = Component.typeKey
      · simp [hkey]
      · simp [hkey, Ne.symm hkey]

lemma get?_foldl_require (pairs : List (String × String)) (s : Step) (k : String) :
    (pairs.foldl (fun s p => s.require p.1 (.string p.2)) s).constraints.get? k =
      (((if s.typeName = none then pairs.eraseP (fun p => p.1 = Component.typeKey)
        else pairs).reverse.lookup k).map Json.Value.string).or (s.constraints.get? k) := by
  induction pairs generalizing s with
  | nil => simp
  | cons p rest ih =>
    obtain ⟨key, text⟩ := p
    rw [List.foldl_cons, ih, require_string]
    by_cases htype : s.typeName = none ∧ key = Component.typeKey
    · -- the pair is the type name, and what follows keeps its constraints
      simp [htype.1, htype.2]
    · -- the pair is a constraint, which a later one under its key takes the place of
      have hremaining : (if s.typeName = none then
          ((key, text) :: rest).eraseP (fun p => p.1 = Component.typeKey)
            else (key, text) :: rest) =
          (key, text) :: (if s.typeName = none then
            rest.eraseP (fun p => p.1 = Component.typeKey) else rest) := by
        by_cases hs : s.typeName = none
        · have hkey : key ≠ Component.typeKey := fun h => htype ⟨hs, h⟩
          simp [hs, hkey]
        · simp [hs]
      rw [if_neg htype, hremaining, List.reverse_cons, List.lookup_append, Option.map_or,
        Option.or_assoc, Dict.get?_insert, Dict.lookup_cons_eq]
      by_cases hk : k = key
      · simp [hk]
      · simp [hk]

end ComponentTree.Selector
