/-
# Defects of selectors

What is wrong with a text that is no selector, said apart from how one is read, like the grammar.
Each kind of part has a relation between the texts with a defect in such a part, cut behind the
character that shows it, and the error that tells of it; `pos` is the position of the part, and
`opening` that of the bracket it is in.

A defect shows at a character, or only where the text ends when something is left open
(`Error.atEnd`); behind the character that shows it the text may go on in any way.  Like what the
reader accepts, what it refuses is told by one lemma for each of its functions: it fails exactly if
the text begins with a defect of the part that it reads (`Cursor.Shows`), and with its error.  In
this module are those for what stands in a bracket, up to `constraints_eq_error`.
-/
import ComponentTree.Proofs.Selector.Parsing

namespace ComponentTree.Selector

open Text Cursor

/-! ### Errors -/

namespace Error

/-- Whether an error is about something left open, which only the end of the text shows. -/
def atEnd : Error → Bool
  | unclosed _ => true
  | unquoted _ => true
  | _ => false

/-- The error for a character behind a step that is not parted from it. -/
def stray (char : Char) (pos : Nat) : Error :=
  if char = ']' then .unopened pos else .unexpected char pos

@[simp] lemma atEnd_stray (char : Char) (pos : Nat) : (stray char pos).atEnd = false := by
  rw [stray]
  split <;> rfl

end Error

/-! ### The parts of a bracket -/

/-- What stands where a key or a value stops and is not what ends it. -/
inductive EndDefect (opening pos : Nat) : List Char → Error → Prop
  | unclosed : EndDefect opening pos [] (.unclosed opening)
  | nested : EndDefect opening pos ['['] (.nested pos)
  | unexpected {x : Char} (hx : ValueChar x) : EndDefect opening pos [x] (.unexpected x pos)

/-- A text behind an equals sign with a defect in the value or behind it. -/
inductive ValueDefect (opening pos : Nat) : List Char → Error → Prop
  | unquoted {mark : Char} {before content : List Char} (hbefore : Blanks before)
      (hmark : Mark mark) (hcontent : mark ∉ content) :
      ValueDefect opening pos (before ++ [mark] ++ content) (.unquoted (pos + utf8Length before))
  | quoted {mark : Char} {before content behind t : List Char} {e : Error}
      (hbefore : Blanks before) (hmark : Mark mark) (hcontent : mark ∉ content)
      (hbehind : Blanks behind) (hstop : ∀ x ∈ t.head?, isBlank x = false)
      (h : EndDefect opening
        (pos + utf8Length (before ++ [mark] ++ content ++ [mark] ++ behind)) t e) :
      ValueDefect opening pos (before ++ [mark] ++ content ++ [mark] ++ behind ++ t) e
  | plain {value t : List Char} {e : Error} (hchars : ∀ c ∈ value, ValueChar c)
      (hfirst : ∀ c ∈ (value.dropWhile isBlank).head?, ¬ Mark c)
      (hstop : ∀ x ∈ t.head?, isValueChar x = false)
      (h : EndDefect opening (pos + utf8Length value) t e) :
      ValueDefect opening pos (value ++ t) e

/-- A text behind an opening bracket or a comma with a defect in the pair there. -/
inductive EntryDefect (opening pos : Nat) : List Char → Error → Prop
  | key {key t : List Char} {e : Error} (hkey : ∀ c ∈ key, KeyChar c)
      (hstop : ∀ x ∈ t.head?, isKeyChar x = false ∧ x ≠ '=')
      (h : EndDefect opening (pos + utf8Length key) t e) : EntryDefect opening pos (key ++ t) e
  | noKey {w : List Char} (hw : Blanks w) :
      EntryDefect opening pos (w ++ ['=']) (.noKey (pos + utf8Length w))
  | noEquals {key : List Char} {ended : Terminator} (hkey : ∀ c ∈ key, KeyChar c)
      (hsome : trim key ≠ []) :
      EntryDefect opening pos (key ++ [ended.char])
        (.noEquals (String.ofList (trim key)) (pos + utf8Length (key.takeWhile isBlank)))
  | value {key t : List Char} {e : Error} (hkey : ∀ c ∈ key, KeyChar c) (hsome : trim key ≠ [])
      (h : ValueDefect opening (pos + utf8Length (key ++ ['='])) t e) :
      EntryDefect opening pos (key ++ ['='] ++ t) e

/-- A text behind an opening bracket (`first`) or a comma with a defect before the bracket is
closed. -/
inductive PairsDefect (opening : Nat) : Bool → Nat → List Char → Error → Prop
  | entry {first : Bool} {pos : Nat} {t : List Char} {e : Error}
      (h : EntryDefect opening pos t e) : PairsDefect opening first pos t e
  | blank {first : Bool} {pos : Nat} {w : List Char} {ended : Terminator} (hw : Blanks w)
      (hnot : ¬ (first = true ∧ ended = .close)) :
      PairsDefect opening first pos (w ++ [ended.char]) (.noEquals "" (pos + utf8Length w))
  | more {first : Bool} {pos : Nat} {t u : List Char} {p : String × String} {e : Error}
      (ht : PairText t p)
      (h : PairsDefect opening false (pos + utf8Length (t ++ [Terminator.comma.char])) u e) :
      PairsDefect opening first pos (t ++ [Terminator.comma.char] ++ u) e

/-! ### Steps -/

/-- A text with a defect in the step at its beginning, or behind that step. -/
inductive StepDefect (pos : Nat) : List Char → Error → Prop
  | bracket {name t : List Char} {e : Error} (hname : ∀ c ∈ name, NameChar c)
      (h : PairsDefect (pos + utf8Length name) true (pos + utf8Length (name ++ ['['])) t e) :
      StepDefect pos (name ++ ['['] ++ t) e
  | name {name : List Char} {x : Char} (hname : ∀ c ∈ name, NameChar c) (hx : ¬ NameChar x)
      (hopen : x ≠ '[') (hblank : isBlank x = false) :
      StepDefect pos (name ++ [x]) (.stray x (pos + utf8Length name))
  | behind {name t : List Char} {pairs : List (String × String)} {x : Char}
      (hname : ∀ c ∈ name, NameChar c) (ht : BracketText t pairs) (hblank : isBlank x = false) :
      StepDefect pos (name ++ t ++ [x]) (.stray x (pos + utf8Length (name ++ t)))

/-- A text with a defect in one of its steps, where the steps before it have none. -/
inductive SelectorDefect : Nat → List Char → Error → Prop
  | step {pos : Nat} {w t : List Char} {e : Error} (hw : Blanks w)
      (h : StepDefect (pos + utf8Length w) t e) : SelectorDefect pos (w ++ t) e
  | more {pos : Nat} {w t u : List Char} {s : Step} {e : Error} (hw : Blanks w)
      (ht : StepText t s) (hparted : Parted u)
      (h : SelectorDefect (pos + utf8Length (w ++ t)) u e) : SelectorDefect pos (w ++ t ++ u) e

/-! ### Defects at a place -/

/-- The text at a place begins with a defect of a kind; one about something left open takes the
text to its end. -/
def Cursor.Shows (c : Cursor) (defect : List Char → Error → Prop) (e : Error) : Prop :=
  ∃ t d, c.Reads t d ∧ defect t e ∧ (e.atEnd = true → d.rest = [])

variable {opening : Nat} {c d : Cursor} {e : Error} {t : List Char}

lemma Cursor.Reads.shows {defect whole : List Char → Error → Prop} (hreads : c.Reads t d)
    (h : d.Shows defect e) (hwhole : ∀ u, defect u e → whole (t ++ u) e) : c.Shows whole e := by
  obtain ⟨u, d', hreads', hdefect, hend⟩ := h
  exact ⟨t ++ u, d', hreads.trans hreads', hwhole u hdefect, hend⟩

lemma terminator_eq_error {α : Type} {found : α} :
    terminator opening found c = .error e ↔ c.Shows (EndDefect opening c.pos) e := by
  constructor
  · intro h
    unfold terminator at h
    split at h
    case h_1 hrest =>
      obtain rfl := Except.error.inj h
      exact ⟨[], c, .nil c, .unclosed, fun _ => hrest⟩
    case h_2 => simp at h
    case h_3 => simp at h
    case h_4 hrest =>
      obtain rfl := Except.error.inj h
      exact ⟨_, _, reads_drop hrest, .nested, by simp [Error.atEnd]⟩
    case h_5 x rest hcomma hclose hopen hrest =>
      obtain rfl := Except.error.inj h
      exact ⟨_, _, reads_drop hrest, .unexpected ⟨hopen, hclose, hcomma⟩, by simp [Error.atEnd]⟩
  · rintro ⟨t, d, ⟨hrest, -⟩, h, hend⟩
    rw [terminator]
    cases h with
    | unclosed => rw [hrest, hend rfl]; rfl
    | nested => rw [hrest]; rfl
    | @unexpected x hx =>
      rw [hrest]
      split
      · next hnil => simp at hnil
      · next hcomma => exact absurd (List.cons.inj hcomma).1 hx.2.2
      · next hclose => exact absurd (List.cons.inj hclose).1 hx.2.1
      · next hopen => exact absurd (List.cons.inj hopen).1 hx.1
      · next hother => rw [(List.cons.inj hother).1]

/-- What shows at a place begins with the character there. -/
lemma EndDefect.head?_eq {pos : Nat} (h : EndDefect opening pos t e) (hreads : c.Reads t d)
    (hend : e.atEnd = true → d.rest = []) : c.rest.head? = t.head? := by
  rw [hreads.1]
  cases h with
  | unclosed => rw [hend rfl]; rfl
  | nested => rfl
  | unexpected => rfl

lemma EndDefect.ne_char {pos : Nat} (h : EndDefect opening pos t e) :
    ∀ x ∈ t.head?, ∀ ended, x ≠ Terminator.char ended := by
  cases h with
  | unclosed => simp
  | nested =>
    rintro x hx (_ | _) <;> rw [← Option.some.inj hx] <;> decide
  | unexpected hvalue =>
    rintro x hx (_ | _) <;> rw [← Option.some.inj hx]
    · exact hvalue.2.2
    · exact hvalue.2.1

/-- **A value is refused for the defect in it, or behind it.** -/
theorem value_eq_error :
    value opening c = .error e ↔ c.Shows (ValueDefect opening c.pos) e := by
  constructor
  · intro h
    rcases value_cases c with ⟨before, mark, content, behind, d, hbefore, hmark, hcontent, hbehind,
      hreads, hstop⟩ | ⟨before, mark, content, d, hbefore, hmark, hcontent, hreads, hd⟩ |
      ⟨value, d, hchars, hfirst, hreads, hstop⟩
    · rw [value_of_quoted hbefore hmark hcontent hbehind hreads hstop, terminator_eq_error] at h
      obtain ⟨t, d', ht, hdefect, hend⟩ := h
      rw [Stops, hdefect.head?_eq ht hend] at hstop
      rw [hreads.2] at hdefect
      exact ⟨_, d', hreads.trans ht, .quoted hbefore hmark hcontent hbehind hstop hdefect, hend⟩
    · rw [value_of_unquoted hbefore hmark hcontent hreads hd] at h
      obtain rfl := Except.error.inj h
      exact ⟨_, d, hreads, .unquoted hbefore hmark hcontent, fun _ => hd⟩
    · rw [value_of_plain hchars hfirst hreads hstop, terminator_eq_error] at h
      obtain ⟨t, d', ht, hdefect, hend⟩ := h
      rw [Stops, hdefect.head?_eq ht hend] at hstop
      rw [hreads.2] at hdefect
      exact ⟨_, d', hreads.trans ht, .plain hchars hfirst hstop hdefect, hend⟩
  · rintro ⟨t, d, hreads, h, hend⟩
    cases h with
    | unquoted hbefore hmark hcontent =>
      exact value_of_unquoted hbefore hmark hcontent hreads (hend rfl)
    | quoted hbefore hmark hcontent hbehind hstop h =>
      obtain ⟨d', hreads, ht⟩ := hreads.exists_of_append
      rw [← hreads.2] at h
      rw [← h.head?_eq ht hend] at hstop
      rw [value_of_quoted hbefore hmark hcontent hbehind hreads hstop, terminator_eq_error]
      exact ⟨_, d, ht, h, hend⟩
    | plain hchars hfirst hstop h =>
      obtain ⟨d', hreads, ht⟩ := hreads.exists_of_append
      rw [← hreads.2] at h
      rw [← h.head?_eq ht hend] at hstop
      rw [value_of_plain hchars hfirst hreads hstop, terminator_eq_error]
      exact ⟨_, d, ht, h, hend⟩

/-- **A pair is refused for the defect in it, or behind it.**  Blanks alone are refused by the
bracket and not here. -/
theorem entry_eq_error :
    entry opening c = .error e ↔ c.Shows (EntryDefect opening c.pos) e := by
  have hreads : c.Reads (c.run isKeyChar) (c.afterRun isKeyChar) := reads_run isKeyChar c
  constructor
  · intro h
    have hkey : ∀ x ∈ c.run isKeyChar, KeyChar x := by
      intro x hx
      exact isKeyChar_iff.mp (mem_run hx)
    by_cases hequals : ∃ rest, (c.afterRun isKeyChar).rest = '=' :: rest
    · obtain ⟨rest, hrest⟩ := hequals
      have hwhole := hreads.trans (reads_drop hrest)
      rw [entry_of_equals hrest] at h
      split at h
      · next hnone =>
        obtain rfl := Except.error.inj h
        have hblanks : Blanks (c.run isKeyChar) := trim_eq_nil_iff.mp hnone
        rw [pos_skipBlanks_of_key, List.takeWhile_eq_self_iff.mpr hblanks]
        exact ⟨_, _, hwhole, .noKey hblanks, by simp [Error.atEnd]⟩
      · next hsome =>
        refine hwhole.shows (value_eq_error.mp (Outcome.map_eq_error.mp h)) fun u hu => ?_
        rw [hwhole.2] at hu
        exact .value hkey hsome hu
    by_cases hended : ∃ ended rest, (c.afterRun isKeyChar).rest = Terminator.char ended :: rest
    · obtain ⟨ended, rest, hrest⟩ := hended
      rw [entry_of_char hrest, bareEntry] at h
      split at h
      · simp at h
      · next hsome =>
        obtain rfl := Except.error.inj h
        rw [pos_skipBlanks_of_key]
        exact ⟨_, _, hreads.trans (reads_drop hrest), .noEquals hkey hsome, by simp [Error.atEnd]⟩
    · have hother : ∀ x ∈ (c.afterRun isKeyChar).rest.head?,
          x ≠ '=' ∧ ∀ ended, x ≠ Terminator.char ended := by
        intro x hx
        obtain ⟨rest, hrest⟩ := List.head?_eq_some_iff.mp hx
        exact ⟨fun h => hequals ⟨rest, h ▸ hrest⟩, fun ended h => hended ⟨ended, rest, h ▸ hrest⟩⟩
      rw [entry_of_other (.blank 0) hother, terminator_eq_error] at h
      obtain ⟨t, d, ht, hdefect, hend⟩ := h
      have hstop := stops_afterRun isKeyChar c
      rw [Stops, hdefect.head?_eq ht hend] at hstop
      rw [hdefect.head?_eq ht hend] at hother
      rw [hreads.2] at hdefect
      exact ⟨_, d, hreads.trans ht,
        .key hkey (fun x hx => ⟨hstop x hx, (hother x hx).1⟩) hdefect, hend⟩
  · rintro ⟨t, d, hreads, h, hend⟩
    have hrunOf : ∀ {key : List Char} {d}, c.Reads key d → (∀ x ∈ key, KeyChar x) →
        d.Stops isKeyChar → c.run isKeyChar = key ∧ c.afterRun isKeyChar = d := by
      intro key d hreads hkey hstop
      exact hreads.run_eq (fun x hx => isKeyChar_iff.mpr (hkey x hx)) hstop
    cases h with
    | key hkey hstop h =>
      obtain ⟨d', hreads, ht⟩ := hreads.exists_of_append
      rw [← hreads.2] at h
      rw [← h.head?_eq ht hend] at hstop
      obtain ⟨-, hafter⟩ := hrunOf hreads hkey fun x hx => (hstop x hx).1
      rw [entry_of_other (.blank 0), hafter, terminator_eq_error]
      · exact ⟨_, d, ht, h, hend⟩
      · intro x hx
        rw [hafter] at hx
        exact ⟨(hstop x hx).2, h.ne_char x (h.head?_eq ht hend ▸ hx)⟩
    | noKey hw =>
      obtain ⟨d', hreads, hequals⟩ := hreads.exists_of_append
      have hkey : ∀ x ∈ _, KeyChar x :=
        fun x hx => isKeyChar_iff.mp (isKeyChar_of_isBlank (hw x hx))
      obtain ⟨hrun, rfl⟩ := hrunOf hreads hkey (hequals.stops (by decide))
      rw [entry_of_equals hequals.1, pos_skipBlanks_of_key, hrun, if_pos (trim_eq_nil_iff.mpr hw),
        List.takeWhile_eq_self_iff.mpr hw]
    | @noEquals key ended hkey hsome =>
      obtain ⟨d', hreads, hended⟩ := hreads.exists_of_append
      obtain ⟨hrun, rfl⟩ := hrunOf hreads hkey (hended.stops ended.isKeyChar_char)
      rw [entry_of_char hended.1, pos_skipBlanks_of_key, hrun, bareEntry, if_neg hsome]
    | value hkey hsome h =>
      obtain ⟨d₂, hreads, hvalue⟩ := hreads.exists_of_append
      obtain ⟨d₁, hname, hequals⟩ := hreads.exists_of_append
      obtain ⟨hrun, rfl⟩ := hrunOf hname hkey (hequals.stops (by decide))
      obtain rfl := hequals.eq (reads_drop hequals.1)
      rw [← hreads.2] at h
      rw [entry_of_equals hequals.1, hrun, if_neg hsome, Outcome.map_eq_error, value_eq_error]
      exact ⟨_, d, hvalue, h, hend⟩

/-! ### Brackets -/

lemma constraints_of_error {first : Bool} (h : entry opening c = .error e) :
    constraints opening first c = .error e := by
  rw [constraints]
  split <;> simp_all

/-- **The pairs are refused for the first defect among them.** -/
theorem constraints_eq_error {first : Bool} :
    constraints opening first c = .error e ↔ c.Shows (PairsDefect opening first c.pos) e := by
  constructor
  · intro h
    fun_induction constraints opening first c with
    | case1 first c e' he =>
      obtain rfl := Except.error.inj h
      obtain ⟨t, d, hreads, hdefect, hend⟩ := entry_eq_error.mp he
      exact ⟨t, d, hreads, .entry hdefect, hend⟩
    | case2 => simp at h
    | case3 first c pos ended after he hnot =>
      obtain rfl := Except.error.inj h
      obtain ⟨w, hw, rfl, hreads⟩ := entry_eq_blank.mp he
      exact ⟨_, after, hreads, .blank hw hnot, by simp [Error.atEnd]⟩
    | case4 => simp at h
    | case5 first c key text after he ih =>
      obtain ⟨t, ht, hreads⟩ := entry_eq_constraint.mp he
      refine hreads.shows (ih (Outcome.map_eq_error.mp h)) fun u hu => ?_
      rw [hreads.2] at hu
      exact .more ht hu
  · rintro ⟨t, d, hreads, h, hend⟩
    generalize hpos : c.pos = pos at h
    induction h generalizing c with
    | entry h =>
      subst hpos
      exact constraints_of_error (entry_eq_error.mpr ⟨_, d, hreads, h, hend⟩)
    | blank hw hnot =>
      subst hpos
      rw [constraints_of_blank (entry_eq_blank.mpr ⟨_, hw, rfl, hreads⟩), if_neg hnot]
    | more ht h ih =>
      subst hpos
      obtain ⟨d', hpair, hrest⟩ := hreads.exists_of_append
      rw [constraints_of_comma (entry_eq_constraint.mpr ⟨_, ht, hpair⟩), Outcome.map_eq_error]
      exact ih hrest hend hpair.2

end ComponentTree.Selector
