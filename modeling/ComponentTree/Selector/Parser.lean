/-
# Reading selectors

A selector text is a row of steps parted by blanks.  A step is a name, a bracket, or a name
followed at once by a bracket; a name is a run of ASCII letters, ASCII digits and `_ - .`.
Between its brackets a step has nothing, or constraints parted by commas.  A constraint is a
key, an equals sign and a value; the blanks around key and value do not belong to them.  A
value that begins with a quotation mark ends at the next mark of the same kind and has
everything in between; any other value ends before a comma or the closing bracket.  A key
has no quotation marks, a key and an unquoted value have no opening bracket.

The text is read once from left to right and the first defect that shows is reported with
its position (`Selector.parse`).
-/
import ComponentTree.Outcome
import ComponentTree.Selector.Basic
import ComponentTree.Text.Blank
import ComponentTree.Text.Utf8

namespace ComponentTree.Selector

open Text

/-! ### Places in a text -/

/-- A place in a text: the part that is still to be read, and the bytes before it. -/
structure Cursor where
  pos : Nat
  rest : List Char
deriving DecidableEq, Inhabited

namespace Cursor

/-- The place behind a number of characters. -/
def drop (c : Cursor) (n : Nat) : Cursor :=
  ⟨c.pos + utf8Length (c.rest.take n), c.rest.drop n⟩

/-- The run of characters of a kind that begins here. -/
def run (p : Char → Bool) (c : Cursor) : List Char := c.rest.takeWhile p

/-- The place behind the run of characters of a kind. -/
def afterRun (p : Char → Bool) (c : Cursor) : Cursor :=
  ⟨c.pos + utf8Length (c.run p), c.rest.dropWhile p⟩

/-- The place behind the blanks. -/
def skipBlanks (c : Cursor) : Cursor := c.afterRun isBlank

theorem length_drop (c : Cursor) (n : Nat) : (c.drop n).rest.length = c.rest.length - n :=
  List.length_drop

theorem length_afterRun (p : Char → Bool) (c : Cursor) :
    (c.afterRun p).rest.length ≤ c.rest.length :=
  (List.dropWhile_sublist p).length_le

/-- Behind the blanks there is no blank. -/
theorem isBlank_head_skipBlanks {c : Cursor} {char : Char} {rest : List Char}
    (h : c.skipBlanks.rest = char :: rest) : isBlank char = false := by
  have := List.head?_dropWhile_not isBlank c.rest
  rw [show c.rest.dropWhile isBlank = char :: rest from h] at this
  exact this

theorem length_skipBlanks (c : Cursor) : c.skipBlanks.rest.length ≤ c.rest.length :=
  c.length_afterRun isBlank

end Cursor

/-! ### The characters of each part -/

/-- Whether a character can stand in the name of a step. -/
def isNameChar (c : Char) : Bool := c.isAlphanum || c = '_' || c = '-' || c = '.'

/-- Whether a character is a quotation mark. -/
def isMark (c : Char) : Bool := c = '"' || c = '\''

/-- Whether a character can stand in a value that is not quoted. -/
def isValueChar (c : Char) : Bool := c ≠ '[' && c ≠ ']' && c ≠ ','

/-- Whether a character can stand in a key. -/
def isKeyChar (c : Char) : Bool := isValueChar c && c ≠ '=' && !isMark c

/-! ### Constraints -/

/-- What ends a constraint. -/
inductive Terminator where
  | comma
  | close
deriving DecidableEq, Inhabited

/-- Something read, what ends it, and the place behind. -/
structure Ended (α : Type) where
  found : α
  ended : Terminator
  after : Cursor

namespace Ended

variable {α β : Type}

/-- The same end of something else. -/
def map (f : α → β) (e : Ended α) : Ended β := ⟨f e.found, e.ended, e.after⟩

@[simp] theorem after_map (f : α → β) (e : Ended α) : (e.map f).after = e.after := rfl

end Ended

/-- The end of a constraint behind its value, where `opening` is the place of the bracket. -/
def terminator (opening : Nat) {α : Type} (found : α) (c : Cursor) : Except Error (Ended α) :=
  match c.rest with
  | [] => .error (.unclosed opening)
  | ',' :: rest => .ok ⟨found, .comma, ⟨c.pos + 1, rest⟩⟩
  | ']' :: rest => .ok ⟨found, .close, ⟨c.pos + 1, rest⟩⟩
  | '[' :: _ => .error (.nested c.pos)
  | char :: _ => .error (.unexpected char c.pos)

/-- A value behind the quotation mark at `c`. -/
def quotedValue (opening : Nat) (mark : Char) (c : Cursor) : Except Error (Ended String) :=
  let inside := c.drop 1
  let stop := inside.afterRun (· ≠ mark)
  if stop.rest = [] then .error (.unquoted c.pos)
  else terminator opening (String.ofList (inside.run (· ≠ mark))) (stop.drop 1).skipBlanks

/-- A value that is not quoted. -/
def plainValue (opening : Nat) (c : Cursor) : Except Error (Ended String) :=
  terminator opening (String.ofList (trimEnd (c.run isValueChar))) (c.afterRun isValueChar)

/-- The value of a constraint. -/
def value (opening : Nat) (c : Cursor) : Except Error (Ended String) :=
  match c.skipBlanks.rest with
  | [] => plainValue opening c.skipBlanks
  | mark :: _ =>
    if isMark mark then quotedValue opening mark c.skipBlanks
    else plainValue opening c.skipBlanks

/-- What stands between two commas or brackets. -/
inductive Entry where
  /-- Nothing, at `pos`. -/
  | blank (pos : Nat)
  | constraint (key value : String)
deriving DecidableEq, Inhabited

/-- The entry that begins at `pos` and is only a key, without an equals sign. -/
def bareEntry (key : List Char) (pos : Nat) (ended : Terminator) (after : Cursor) :
    Except Error (Ended Entry) :=
  if key = [] then .ok ⟨.blank pos, ended, after⟩
  else .error (.noEquals (String.ofList key) pos)

/-- The entry that begins at `c`. -/
def entry (opening : Nat) (c : Cursor) : Except Error (Ended Entry) :=
  let start := c.skipBlanks
  let key := trimEnd (start.run isKeyChar)
  let stop := start.afterRun isKeyChar
  match stop.rest with
  | [] => .error (.unclosed opening)
  | '=' :: _ =>
    if key = [] then .error (.noKey start.pos)
    else (value opening (stop.drop 1)).map (Ended.map (.constraint (String.ofList key)))
  | ',' :: _ => bareEntry key start.pos .comma (stop.drop 1)
  | ']' :: _ => bareEntry key start.pos .close (stop.drop 1)
  | '[' :: _ => .error (.nested stop.pos)
  | char :: _ => .error (.unexpected char stop.pos)

/-! ### An entry takes at least one character -/

theorem length_terminator {opening : Nat} {α : Type} {found : α} {c : Cursor} {e : Ended α}
    (h : terminator opening found c = .ok e) : e.after.rest.length < c.rest.length := by
  unfold terminator at h
  split at h
  all_goals simp only [Except.ok.injEq, reduceCtorEq] at h
  all_goals
    next hr =>
      rw [hr, ← h]
      simp

theorem length_plainValue {opening : Nat} {c : Cursor} {e : Ended String}
    (h : plainValue opening c = .ok e) : e.after.rest.length < c.rest.length :=
  Nat.lt_of_lt_of_le (length_terminator h) (c.length_afterRun isValueChar)

theorem length_quotedValue {opening : Nat} {mark : Char} {c : Cursor} {e : Ended String}
    (h : quotedValue opening mark c = .ok e) : e.after.rest.length < c.rest.length := by
  unfold quotedValue at h
  dsimp only at h
  split at h
  · simp at h
  · have h₁ := length_terminator h
    have h₂ := (((c.drop 1).afterRun (· ≠ mark)).drop 1).length_skipBlanks
    have h₃ := ((c.drop 1).afterRun (· ≠ mark)).length_drop 1
    have h₄ := (c.drop 1).length_afterRun (· ≠ mark)
    have h₅ := c.length_drop 1
    omega

theorem length_value {opening : Nat} {c : Cursor} {e : Ended String}
    (h : value opening c = .ok e) : e.after.rest.length < c.rest.length := by
  refine Nat.lt_of_lt_of_le ?_ c.length_skipBlanks
  unfold value at h
  split at h
  · exact length_plainValue h
  · split at h
    · exact length_quotedValue h
    · exact length_plainValue h

theorem length_bareEntry {key : List Char} {pos : Nat} {ended : Terminator} {after : Cursor}
    {e : Ended Entry} (h : bareEntry key pos ended after = .ok e) : e.after = after := by
  unfold bareEntry at h
  split at h
  · rw [← Except.ok.inj h]
  · simp at h

theorem length_entry {opening : Nat} {c : Cursor} {e : Ended Entry}
    (h : entry opening c = .ok e) : e.after.rest.length < c.rest.length := by
  have h₁ := c.length_skipBlanks
  have h₂ := c.skipBlanks.length_afterRun isKeyChar
  have h₃ := (c.skipBlanks.afterRun isKeyChar).length_drop 1
  unfold entry at h
  dsimp only at h
  split at h
  case h_1 => simp at h
  case h_5 => simp at h
  case h_6 => simp at h
  case h_2 hr =>
    rw [hr, List.length_cons] at h₂ h₃
    split at h
    · simp at h
    · obtain ⟨v, hv, rfl⟩ := Outcome.map_eq_ok.mp h
      have := length_value hv
      simp only [Ended.after_map]
      omega
  all_goals
    next hr =>
      rw [hr, List.length_cons] at h₂ h₃
      rw [length_bareEntry h]
      omega

/-! ### Steps -/

/-- The constraints up to the closing bracket and the place behind it.  Nothing may stand
between the brackets, but only alone (`first`). -/
def constraints (opening : Nat) (first : Bool) (c : Cursor) :
    Except Error (List (String × String) × Cursor) :=
  match _h : entry opening c with
  | .error e => .error e
  | .ok ⟨.blank pos, ended, after⟩ =>
    if first ∧ ended = .close then .ok ([], after) else .error (.noEquals "" pos)
  | .ok ⟨.constraint key text, .close, after⟩ => .ok ([(key, text)], after)
  | .ok ⟨.constraint key text, .comma, after⟩ =>
    (constraints opening false after).map fun r => ((key, text) :: r.1, r.2)
termination_by c.rest.length
decreasing_by exact length_entry ‹_›

/-- The step of a name, which may be missing, and constraints. -/
def Step.ofTexts (name : List Char) (constraints : List (String × String)) : Step :=
  constraints.foldl (fun s c => s.require c.1 (.string c.2))
    ⟨if name = [] then none else some (String.ofList name), ∅⟩

/-- The bracket at `c`, if there is one. -/
def bracket (c : Cursor) : Except Error (List (String × String) × Cursor) :=
  match c.rest with
  | '[' :: _ => constraints c.pos true (c.drop 1)
  | _ => .ok ([], c)

/-- A blank or the end of the text has to follow a step. -/
def stepEnd (c : Cursor) : Except Error Unit :=
  match c.rest with
  | [] => .ok ()
  | char :: _ =>
    if isBlank char then .ok ()
    else if char = ']' then .error (.unopened c.pos)
    else .error (.unexpected char c.pos)

/-- The step that begins at `c`. -/
def step (c : Cursor) : Except Error (Step × Cursor) := do
  let (constraints, after) ← bracket (c.afterRun isNameChar)
  stepEnd after
  return (Step.ofTexts (c.run isNameChar) constraints, after)

/-! ### A step takes at least one character -/

theorem length_constraints {opening : Nat} {first : Bool} {c : Cursor}
    {r : List (String × String) × Cursor} (h : constraints opening first c = .ok r) :
    r.2.rest.length < c.rest.length := by
  fun_induction constraints opening first c generalizing r with
  | case1 => simp at h
  | case2 first c pos ended after he hf =>
    rw [← Except.ok.inj h]
    exact length_entry he
  | case3 => simp at h
  | case4 first c key text after he =>
    rw [← Except.ok.inj h]
    exact length_entry he
  | case5 first c key text after he ih =>
    obtain ⟨r', hr', hr⟩ := Outcome.map_eq_ok.mp h
    have := ih hr'
    rw [← hr]
    exact Nat.lt_trans this (length_entry he)

theorem length_bracket {c : Cursor} {r : List (String × String) × Cursor}
    (h : bracket c = .ok r) : r.2 = c ∨ r.2.rest.length < c.rest.length := by
  unfold bracket at h
  split at h
  · next hr =>
    have := length_constraints h
    have := c.length_drop 1
    exact .inr (by omega)
  · exact .inl (by rw [← Except.ok.inj h])

theorem length_step {c : Cursor} {r : Step × Cursor} {char : Char} {rest : List Char}
    (hc : c.rest = char :: rest) (hblank : isBlank char = false) (h : step c = .ok r) :
    r.2.rest.length < c.rest.length := by
  obtain ⟨b, hb, h⟩ := Outcome.bind_eq_ok.mp h
  obtain ⟨u, he, h⟩ := Outcome.bind_eq_ok.mp h
  rw [← Except.ok.inj h]
  have hrun := c.length_afterRun isNameChar
  rcases length_bracket hb with heq | hlt
  · by_cases hn : isNameChar char = true
    · rw [heq]
      show (c.rest.dropWhile isNameChar).length < c.rest.length
      have := (List.dropWhile_sublist isNameChar (l := rest)).length_le
      rw [hc, List.dropWhile_cons_of_pos hn, List.length_cons]
      omega
    · have hrest : b.2.rest = char :: rest := by
        rw [heq]
        show c.rest.dropWhile isNameChar = char :: rest
        rw [hc, List.dropWhile_cons_of_neg hn]
      unfold stepEnd at he
      rw [hrest] at he
      simp only [hblank, Bool.false_eq_true, if_false] at he
      split at he <;> simp at he
  · show b.2.rest.length < c.rest.length
    omega

/-! ### Selectors -/

/-- The steps from a place to the end of the text. -/
def stepsFrom (c : Cursor) : Except Error (List Step) :=
  match hc : c.skipBlanks.rest with
  | [] => .ok []
  | char :: _ =>
    if char = ']' then .error (.unopened c.skipBlanks.pos)
    else
      match hs : step c.skipBlanks with
      | .error e => .error e
      | .ok (s, after) =>
        have : after.rest.length < c.rest.length :=
          Nat.lt_of_lt_of_le (length_step hc (Cursor.isBlank_head_skipBlanks hc) hs)
            c.length_skipBlanks
        (stepsFrom after).map (s :: ·)
termination_by c.rest.length

/-- **The selector that a text is.** -/
def parse (text : String) : Except Error Selector :=
  (stepsFrom ⟨0, text.toList⟩).map Selector.mk

end ComponentTree.Selector
