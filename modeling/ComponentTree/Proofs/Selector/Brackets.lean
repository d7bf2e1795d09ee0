/-
# The bracket of a step

What the reader accepts between brackets, part by part.  Every function has one lemma that says
exactly when it succeeds and with what: the text between the two places is a text of the grammar.
Read from left to right such a lemma says that nothing else is accepted, and from right to left
that nothing is refused.

A value ends before a comma or the closing bracket, and neither can be part of it without marks; a
key ends before an equals sign.  This is what stops the runs, so a text of the grammar followed by
its end is read in one way only.
-/
import ComponentTree.Proofs.Selector.Places

namespace ComponentTree.Selector

open Text Cursor

/-! ### The end of a constraint -/

/-- The character that ends a constraint. -/
def Terminator.char : Terminator → Char
  | .comma => ','
  | .close => ']'

namespace Terminator

variable (ended : Terminator)

lemma isBlank_char : isBlank ended.char = false := by
  cases ended <;> decide

lemma isValueChar_char : isValueChar ended.char = false := by
  cases ended <;> decide

lemma isKeyChar_char : isKeyChar ended.char = false := by
  cases ended <;> decide

end Terminator

variable {opening : Nat} {c d : Cursor}

lemma terminator_eq_ok {α : Type} {found : α} {e : Ended α} :
    terminator opening found c = .ok e ↔ e.found = found ∧ c.Reads [e.ended.char] e.after := by
  obtain ⟨found', ended, pos, rest⟩ := e
  rw [reads_singleton_iff]
  unfold terminator
  constructor
  · intro h
    split at h <;> simp only [Except.ok.injEq, Ended.mk.injEq, Cursor.mk.injEq, reduceCtorEq] at h
    all_goals
      next hrest =>
        obtain ⟨rfl, rfl, rfl, rfl⟩ := h
        exact ⟨rfl, hrest, rfl⟩
  · rintro ⟨rfl, hrest, hpos⟩
    cases ended
    · rw [show c.rest = ',' :: rest from hrest, show pos = c.pos + 1 from hpos]
      rfl
    · rw [show c.rest = ']' :: rest from hrest, show pos = c.pos + 1 from hpos]
      rfl

/-! ### Values -/

lemma value_of_mark {mark : Char} {rest : List Char} (h : c.skipBlanks.rest = mark :: rest)
    (hmark : Mark mark) : value opening c = quotedValue opening mark c.skipBlanks := by
  rw [value, h]
  exact if_pos (isMark_iff.mpr hmark)

/-- A value that does not begin with a mark is a run of characters, trimmed. -/
lemma value_of_not_mark (h : ∀ x ∈ c.skipBlanks.rest.head?, ¬ Mark x) :
    value opening c =
      terminator opening (String.ofList (trim (c.run isValueChar))) (c.afterRun isValueChar) := by
  obtain ⟨hrun, hafter⟩ := c.run_skipBlanks_of_value
  rw [trim, ← trimEnd_eq, ← hrun, ← hafter]
  cases hrest : c.skipBlanks.rest with
  | nil =>
    rw [value, hrest]
    rfl
  | cons x rest =>
    have hx : ¬ isMark x = true := fun hm => h x (by rw [hrest]; rfl) (isMark_iff.mp hm)
    rw [value, hrest]
    exact if_neg hx

/-- A quoted value is what stands between the marks, and its end is behind the blanks. -/
lemma quotedValue_of_reads {mark : Char} {content behind : List Char} (hcontent : mark ∉ content)
    (hbehind : Blanks behind) (hreads : c.Reads ([mark] ++ content ++ [mark] ++ behind) d)
    (hstop : d.Stops isBlank) :
    quotedValue opening mark c = terminator opening (String.ofList content) d := by
  -- cut the text at the two marks and behind the blanks
  obtain ⟨c₃, hreads, hblanks⟩ := hreads.exists_of_append
  obtain ⟨c₂, hreads, hclose⟩ := hreads.exists_of_append
  obtain ⟨c₁, hopen, hinside⟩ := hreads.exists_of_append
  obtain rfl : c₁ = c.drop 1 := hopen.eq (reads_drop hopen.1)
  obtain rfl : c₃ = c₂.drop 1 := hclose.eq (reads_drop hclose.1)
  have hother : ∀ x ∈ content, decide (x ≠ mark) = true := by
    intro x hx
    refine decide_eq_true ?_
    rintro rfl
    exact hcontent hx
  obtain ⟨hrun, hafter⟩ := hinside.run_eq hother (hclose.stops (by simp))
  obtain ⟨-, hskip⟩ := hblanks.run_eq (p := isBlank) hbehind hstop
  unfold quotedValue
  dsimp only
  rw [hrun, hafter, if_neg (by rw [hclose.1]; simp), skipBlanks, hskip]

/-- A mark that comes once opens a value that does not end. -/
lemma quotedValue_of_not_mem {mark : Char} {rest : List Char} (hc : c.rest = mark :: rest)
    (hmark : mark ∉ rest) : quotedValue opening mark c = .error (.unquoted c.pos) := by
  have hstop : ((c.drop 1).afterRun (· ≠ mark)).rest = [] := by
    rw [afterRun, drop, hc]
    refine List.dropWhile_eq_nil_iff.mpr fun x hx => decide_eq_true ?_
    rintro rfl
    exact hmark hx
  unfold quotedValue
  dsimp only
  rw [if_pos hstop]

/-- A mark that comes again closes the value at its second place. -/
lemma exists_reads_of_mem {mark : Char} {rest : List Char} (hc : c.rest = mark :: rest)
    (hmark : mark ∈ rest) : ∃ content behind d, mark ∉ content ∧ Blanks behind ∧
      c.Reads ([mark] ++ content ++ [mark] ++ behind) d ∧ d.Stops isBlank := by
  have hopen : c.Reads [mark] (c.drop 1) := reads_drop hc
  have hrest : (c.drop 1).rest = rest := by rw [drop, hc]; rfl
  have hcontent := reads_run (· ≠ mark) (c.drop 1)
  have hout : mark ∉ (c.drop 1).run (· ≠ mark) := fun hmem => by simpa using mem_run hmem
  have hne : ((c.drop 1).afterRun (· ≠ mark)).rest ≠ [] := by
    intro hnil
    have hwhole := hcontent.1
    rw [hnil, List.append_nil, hrest] at hwhole
    exact hout (hwhole ▸ hmark)
  obtain ⟨x, behind, hclose⟩ := List.exists_cons_of_ne_nil hne
  obtain rfl : x = mark := by
    have := stops_afterRun (· ≠ mark) (c.drop 1) x (by rw [hclose]; rfl)
    simpa using this
  have hblanks := reads_run isBlank (((c.drop 1).afterRun (· ≠ x)).drop 1)
  exact ⟨_, _, _, hout, fun y hy => mem_run hy,
    ((hopen.trans hcontent).trans (reads_drop hclose)).trans hblanks, stops_afterRun _ _⟩

/-! The texts behind an equals sign are of three kinds: a quoted value, a mark without a partner,
and a run of characters that does not begin with a mark. -/

section Kinds

variable {mark : Char} {before content behind t : List Char}

lemma value_of_quoted (hbefore : Blanks before) (hmark : Mark mark) (hcontent : mark ∉ content)
    (hbehind : Blanks behind)
    (hreads : c.Reads (before ++ [mark] ++ content ++ [mark] ++ behind) d)
    (hstop : d.Stops isBlank) :
    value opening c = terminator opening (String.ofList content) d := by
  simp only [List.append_assoc] at hreads
  obtain ⟨-, hquoted⟩ := hreads.skipBlanks hbefore (not_blank_of_mark hmark)
  rw [value_of_mark hquoted.1 hmark]
  simp only [← List.append_assoc] at hquoted
  exact quotedValue_of_reads hcontent hbehind hquoted hstop

lemma value_of_unquoted (hbefore : Blanks before) (hmark : Mark mark) (hcontent : mark ∉ content)
    (hreads : c.Reads (before ++ [mark] ++ content) d) (hd : d.rest = []) :
    value opening c = .error (.unquoted (c.pos + utf8Length before)) := by
  simp only [List.append_assoc] at hreads
  obtain ⟨hblanks, hquoted⟩ := hreads.skipBlanks hbefore (not_blank_of_mark hmark)
  have hrest : c.skipBlanks.rest = mark :: content := by
    rw [hquoted.1, hd, List.append_nil]
    rfl
  rw [value_of_mark hrest hmark, quotedValue_of_not_mem hrest hcontent, hblanks.2]

lemma value_of_plain (hchars : ∀ x ∈ t, ValueChar x)
    (hfirst : ∀ x ∈ (t.dropWhile isBlank).head?, ¬ Mark x) (hreads : c.Reads t d)
    (hstop : d.Stops isValueChar) :
    value opening c = terminator opening (String.ofList (trim t)) d := by
  have hvalue : ∀ x ∈ t, isValueChar x = true := by
    intro x hx
    exact isValueChar_iff.mpr (hchars x hx)
  obtain ⟨hrun, rfl⟩ := hreads.run_eq hvalue hstop
  obtain ⟨hrun', hafter⟩ := c.run_skipBlanks_of_value
  have hmark : ∀ x ∈ c.skipBlanks.rest.head?, ¬ Mark x := by
    intro x hx
    rw [(reads_run isValueChar c.skipBlanks).1, hrun', hafter, hrun, List.head?_append] at hx
    cases hhead : (t.dropWhile isBlank).head? with
    | none =>
      -- what stops a run of the value is no mark
      rw [hhead] at hx
      intro hmark
      have := hstop x hx
      rw [isValueChar_of_mark hmark] at this
      simp at this
    | some y =>
      rw [hhead] at hx
      exact hfirst x (hhead ▸ hx)
  rw [value_of_not_mark hmark, hrun]

variable (c) in
/-- Behind an equals sign stands a text between marks, a mark without its partner, or a text without
marks. -/
lemma value_cases :
    (∃ before mark content behind d, Blanks before ∧ Mark mark ∧ mark ∉ content ∧ Blanks behind ∧
      c.Reads (before ++ [mark] ++ content ++ [mark] ++ behind) d ∧ d.Stops isBlank) ∨
    (∃ before mark content d, Blanks before ∧ Mark mark ∧ mark ∉ content ∧
      c.Reads (before ++ [mark] ++ content) d ∧ d.rest = []) ∨
    ∃ t d, (∀ x ∈ t, ValueChar x) ∧ (∀ x ∈ (t.dropWhile isBlank).head?, ¬ Mark x) ∧
      c.Reads t d ∧ d.Stops isValueChar := by
  have hskip : c.Reads (c.run isBlank) c.skipBlanks := reads_run isBlank c
  have hbefore : Blanks (c.run isBlank) := fun x hx => mem_run hx
  by_cases hmark : ∃ x ∈ c.skipBlanks.rest.head?, Mark x
  · obtain ⟨mark, hx, hmark⟩ := hmark
    obtain ⟨rest, hrest⟩ := List.head?_eq_some_iff.mp hx
    by_cases hmem : mark ∈ rest
    · obtain ⟨content, behind, d, hcontent, hbehind, hreads, hstop⟩ :=
        exists_reads_of_mem hrest hmem
      refine .inl ⟨_, mark, content, behind, d, hbefore, hmark, hcontent, hbehind, ?_, hstop⟩
      simpa only [List.append_assoc] using hskip.trans hreads
    · obtain ⟨d, hreads, hd⟩ := exists_reads (t := [mark] ++ rest) (u := [])
        (hrest.trans (List.append_nil _).symm)
      refine .inr (.inl ⟨_, mark, rest, d, hbefore, hmark, hmem, ?_, hd⟩)
      simpa only [List.append_assoc] using hskip.trans hreads
  · refine .inr (.inr ⟨_, _, fun x hx => isValueChar_iff.mp (mem_run hx), ?_,
      reads_run isValueChar c, stops_afterRun isValueChar c⟩)
    -- the run behind the blanks begins where the text behind them does
    intro x hx hm
    rw [← c.run_skipBlanks_of_value.1, run, List.head?_takeWhile] at hx
    exact hmark ⟨x, (Option.mem_filter_iff.mp hx).1, hm⟩

end Kinds

/-- **A value is accepted up to the character that ends it, and no other text is.** -/
theorem value_eq_ok {e : Ended String} :
    value opening c = .ok e ↔
      ∃ t, ValueText t e.found ∧ c.Reads (t ++ [e.ended.char]) e.after := by
  constructor
  · intro h
    rcases value_cases c with ⟨before, mark, content, behind, d, hbefore, hmark, hcontent, hbehind,
      hreads, hstop⟩ | ⟨before, mark, content, d, hbefore, hmark, hcontent, hreads, hd⟩ |
      ⟨t, d, hchars, hfirst, hreads, hstop⟩
    · rw [value_of_quoted hbefore hmark hcontent hbehind hreads hstop] at h
      obtain ⟨hfound, hend⟩ := terminator_eq_ok.mp h
      exact ⟨_, hfound ▸ .quoted hbefore hmark hcontent hbehind, hreads.trans hend⟩
    · rw [value_of_unquoted hbefore hmark hcontent hreads hd] at h
      simp at h
    · rw [value_of_plain hchars hfirst hreads hstop] at h
      obtain ⟨hfound, hend⟩ := terminator_eq_ok.mp h
      exact ⟨_, hfound ▸ .plain hchars hfirst, hreads.trans hend⟩
  · obtain ⟨found, ended, after⟩ := e
    rintro ⟨t, ht, hwhole⟩
    obtain ⟨d, hreads, hend⟩ := hwhole.exists_of_append
    dsimp only at ht hend
    cases ht with
    | quoted hbefore hmark hcontent hbehind =>
      rw [value_of_quoted hbefore hmark hcontent hbehind hreads (hend.stops ended.isBlank_char)]
      exact terminator_eq_ok.mpr ⟨rfl, hend⟩
    | plain hchars hfirst =>
      rw [value_of_plain hchars hfirst hreads (hend.stops ended.isValueChar_char)]
      exact terminator_eq_ok.mpr ⟨rfl, hend⟩

/-! ### Entries -/

/-- An entry with an equals sign is a key, which must not be empty, and a value. -/
lemma entry_of_equals {rest : List Char} (h : (c.afterRun isKeyChar).rest = '=' :: rest) :
    entry opening c =
      if trim (c.run isKeyChar) = [] then .error (.noKey c.skipBlanks.pos)
      else (value opening ((c.afterRun isKeyChar).drop 1)).map
        (Ended.map (.constraint (String.ofList (trim (c.run isKeyChar))))) := by
  obtain ⟨hrun, hafter⟩ := c.run_skipBlanks_of_key
  rw [entry]
  rw [hafter, hrun, trimEnd_eq, ← trim, h]
  rfl

/-- An entry without an equals sign is only a key. -/
lemma entry_of_char {ended : Terminator} {rest : List Char}
    (h : (c.afterRun isKeyChar).rest = ended.char :: rest) :
    entry opening c = bareEntry (trim (c.run isKeyChar)) c.skipBlanks.pos ended
      ((c.afterRun isKeyChar).drop 1) := by
  obtain ⟨hrun, hafter⟩ := c.run_skipBlanks_of_key
  rw [entry]
  rw [hafter, hrun, trimEnd_eq, ← trim, h]
  cases ended <;> rfl

/-- A key that stops at something else is refused as if its end were looked for there. -/
lemma entry_of_other (found : Entry)
    (h : ∀ x ∈ (c.afterRun isKeyChar).rest.head?, x ≠ '=' ∧ ∀ ended, x ≠ Terminator.char ended) :
    entry opening c = terminator opening found (c.afterRun isKeyChar) := by
  have hequals : ∀ rest, (c.afterRun isKeyChar).rest ≠ '=' :: rest := by
    intro rest hrest
    exact (h '=' (by rw [hrest]; rfl)).1 rfl
  have hended : ∀ ended rest, (c.afterRun isKeyChar).rest ≠ Terminator.char ended :: rest := by
    intro ended rest hrest
    exact (h ended.char (by rw [hrest]; rfl)).2 ended rfl
  obtain ⟨-, hafter⟩ := c.run_skipBlanks_of_key
  rw [entry]
  rw [hafter]
  split
  · next hrest =>
    rw [terminator, hrest]
  · next rest hrest => exact absurd hrest (hequals rest)
  · next rest hrest => exact absurd hrest (hended .comma rest)
  · next rest hrest => exact absurd hrest (hended .close rest)
  · next rest hrest =>
    rw [terminator, hrest]
    rfl
  · next x rest _ hcomma hclose hopen hrest =>
    rw [terminator, hrest]
    split <;> simp_all

lemma char_of_entry_eq_ok {e : Ended Entry} (h : entry opening c = .ok e) :
    ∃ x rest, (c.afterRun isKeyChar).rest = x :: rest ∧
      (x = '=' ∨ ∃ ended, x = Terminator.char ended) := by
  obtain ⟨-, hafter⟩ := c.run_skipBlanks_of_key
  rw [entry] at h
  rw [hafter] at h
  split at h
  case h_1 => simp at h
  case h_5 => simp at h
  case h_6 => simp at h
  case h_2 hrest => exact ⟨_, _, hrest, .inl rfl⟩
  case h_3 hrest => exact ⟨_, _, hrest, .inr ⟨.comma, rfl⟩⟩
  case h_4 hrest => exact ⟨_, _, hrest, .inr ⟨.close, rfl⟩⟩

lemma bareEntry_eq_ok {key : List Char} {pos : Nat} {ended : Terminator} {after : Cursor}
    {e : Ended Entry} :
    bareEntry key pos ended after = .ok e ↔ key = [] ∧ e = ⟨.blank pos, ended, after⟩ := by
  rw [bareEntry]
  split
  · next h => simp [h, eq_comm]
  · next h => simp [h]

/-- **Nothing but blanks is an entry without a constraint.** -/
theorem entry_eq_blank {pos : Nat} {ended : Terminator} {after : Cursor} :
    entry opening c = .ok ⟨.blank pos, ended, after⟩ ↔
      ∃ w, Blanks w ∧ pos = c.pos + utf8Length w ∧ c.Reads (w ++ [ended.char]) after := by
  constructor
  · intro h
    obtain ⟨x, rest, hrest, rfl | ⟨ended', rfl⟩⟩ := char_of_entry_eq_ok h
    · rw [entry_of_equals hrest] at h
      split at h
      · simp at h
      · obtain ⟨v, -, hv⟩ := Outcome.map_eq_ok.mp h
        simp [Ended.map] at hv
    · rw [entry_of_char hrest, bareEntry_eq_ok] at h
      obtain ⟨hkey, h⟩ := h
      simp only [Ended.mk.injEq, Entry.blank.injEq] at h
      obtain ⟨rfl, rfl, rfl⟩ := h
      have hw : Blanks (c.run isKeyChar) := trim_eq_nil_iff.mp hkey
      have hreads := reads_run isKeyChar c
      have hend := reads_drop hrest
      obtain ⟨hblank, -⟩ := hreads.run_eq hw (hend.stops ended.isBlank_char)
      refine ⟨c.run isKeyChar, hw, ?_, hreads.trans hend⟩
      rw [← hblank]
      rfl
  · rintro ⟨w, hw, rfl, hreads⟩
    obtain ⟨d, hreads, hend⟩ := hreads.exists_of_append
    have hchars : ∀ x ∈ w, isKeyChar x = true := by
      intro x hx
      exact isKeyChar_of_isBlank (hw x hx)
    -- the blanks are both the run that is skipped and the run of the key
    obtain ⟨hblank, -⟩ := hreads.run_eq hw (hend.stops ended.isBlank_char)
    obtain ⟨hrun, rfl⟩ := hreads.run_eq hchars (hend.stops ended.isKeyChar_char)
    obtain rfl := hend.eq (reads_drop hend.1)
    rw [entry_of_char hend.1, bareEntry_eq_ok, hrun, trim_eq_nil_iff]
    refine ⟨hw, ?_⟩
    rw [← hblank]
    rfl

/-- **A pair is accepted up to the character that ends it, and no other text is.** -/
theorem entry_eq_constraint {key text : String} {ended : Terminator} {after : Cursor} :
    entry opening c = .ok ⟨.constraint key text, ended, after⟩ ↔
      ∃ t, PairText t (key, text) ∧ c.Reads (t ++ [ended.char]) after := by
  constructor
  · intro h
    obtain ⟨x, rest, hrest, rfl | ⟨ended', rfl⟩⟩ := char_of_entry_eq_ok h
    · rw [entry_of_equals hrest] at h
      split at h
      · simp at h
      · next hsome =>
        obtain ⟨v, hv, heq⟩ := Outcome.map_eq_ok.mp h
        simp only [Ended.map, Ended.mk.injEq, Entry.constraint.injEq] at heq
        obtain ⟨⟨rfl, rfl⟩, rfl, rfl⟩ := heq
        obtain ⟨t, ht, hreads⟩ := value_eq_ok.mp hv
        have hkey : ∀ x ∈ c.run isKeyChar, KeyChar x := by
          intro x hx
          exact isKeyChar_iff.mp (mem_run hx)
        refine ⟨_, PairText.pair hkey hsome ht, ?_⟩
        have hwhole := ((reads_run isKeyChar c).trans (reads_drop hrest)).trans hreads
        simpa only [List.append_assoc] using hwhole
    · rw [entry_of_char hrest, bareEntry_eq_ok] at h
      simp at h
  · rintro ⟨t, ht, hreads⟩
    cases ht with
    | @pair k v _ hkey hsome hvalue =>
      simp only [List.append_assoc] at hreads
      obtain ⟨d, hk, hreads⟩ := hreads.exists_of_append
      have hchars : ∀ x ∈ k, isKeyChar x = true := by
        intro x hx
        exact isKeyChar_iff.mpr (hkey x hx)
      -- the equals sign ends the key
      obtain ⟨hrun, rfl⟩ := hk.run_eq hchars (hreads.stops (by decide))
      obtain ⟨d, hequals, hreads⟩ := hreads.exists_of_append
      obtain rfl := hequals.eq (reads_drop hequals.1)
      rw [entry_of_equals hequals.1, hrun, if_neg hsome,
        (value_eq_ok (e := ⟨text, ended, after⟩)).mpr ⟨v, hvalue, hreads⟩]
      rfl

/-! ### Brackets -/

lemma constraints_of_blank {first : Bool} {pos : Nat} {ended : Terminator} {after : Cursor}
    (h : entry opening c = .ok ⟨.blank pos, ended, after⟩) :
    constraints opening first c =
      if first ∧ ended = .close then .ok ([], after) else .error (.noEquals "" pos) := by
  rw [constraints]
  split <;> simp_all

lemma constraints_of_close {first : Bool} {key text : String} {after : Cursor}
    (h : entry opening c = .ok ⟨.constraint key text, .close, after⟩) :
    constraints opening first c = .ok ([(key, text)], after) := by
  rw [constraints]
  split <;> simp_all

lemma constraints_of_comma {first : Bool} {key text : String} {after : Cursor}
    (h : entry opening c = .ok ⟨.constraint key text, .comma, after⟩) :
    constraints opening first c =
      (constraints opening false after).map fun r => ((key, text) :: r.1, r.2) := by
  rw [constraints]
  split <;> simp_all

lemma constraints_of_pairsText {t : List Char} {pairs : List (String × String)} {after : Cursor}
    {first : Bool} (h : PairsText t pairs) (hreads : c.Reads (t ++ [']']) after) :
    constraints opening first c = .ok (pairs, after) := by
  induction h generalizing c first with
  | last h =>
    exact constraints_of_close (entry_eq_constraint.mpr ⟨_, h, hreads⟩)
  | more h hrest ih =>
    simp only [List.append_assoc] at hreads
    rw [← List.append_assoc] at hreads
    obtain ⟨d, hreads, hbehind⟩ := hreads.exists_of_append
    rw [constraints_of_comma (entry_eq_constraint.mpr ⟨_, h, hreads⟩), ih hbehind]
    rfl

/-- **What is accepted up to the closing bracket is pairs, or blanks if nothing was before.** -/
theorem constraints_eq_ok {first : Bool} {pairs : List (String × String)} {after : Cursor} :
    constraints opening first c = .ok (pairs, after) ↔
      ∃ t, (PairsText t pairs ∨ (first = true ∧ pairs = [] ∧ Blanks t)) ∧
        c.Reads (t ++ [']']) after := by
  constructor
  · intro h
    fun_induction constraints opening first c generalizing pairs with
    | case1 => simp at h
    | case2 first c pos ended behind he hif =>
      obtain ⟨rfl, rfl⟩ := Prod.mk.inj (Except.ok.inj h)
      obtain ⟨w, hw, -, hreads⟩ := entry_eq_blank.mp he
      rw [hif.2] at hreads
      exact ⟨w, .inr ⟨hif.1, rfl, hw⟩, hreads⟩
    | case3 => simp at h
    | case4 first c key text behind he =>
      obtain ⟨rfl, rfl⟩ := Prod.mk.inj (Except.ok.inj h)
      obtain ⟨t, ht, hreads⟩ := entry_eq_constraint.mp he
      exact ⟨t, .inl (.last ht), hreads⟩
    | case5 first c key text behind he ih =>
      obtain ⟨r, hr, hpairs⟩ := Outcome.map_eq_ok.mp h
      obtain ⟨rfl, rfl⟩ := Prod.mk.inj hpairs
      obtain ⟨t, ht, hreads⟩ := entry_eq_constraint.mp he
      obtain ⟨u, hu | ⟨hfalse, -⟩, hreads'⟩ := ih hr
      · refine ⟨_, .inl (.more ht hu), ?_⟩
        simpa only [List.append_assoc, Terminator.char] using hreads.trans hreads'
      · exact absurd hfalse (by simp)
  · rintro ⟨t, ht | ⟨rfl, rfl, hw⟩, hreads⟩
    · exact constraints_of_pairsText ht hreads
    · have hblank : entry opening c = .ok ⟨.blank (c.pos + utf8Length t), .close, after⟩ :=
        entry_eq_blank.mpr ⟨t, hw, rfl, hreads⟩
      rw [constraints_of_blank hblank]
      rfl

lemma BracketText.exists_cons {t : List Char} {pairs : List (String × String)}
    (h : BracketText t pairs) : ∃ u, t = '[' :: u := by
  cases h with
  | @empty w => exact ⟨w ++ [']'], rfl⟩
  | @pairs u => exact ⟨u ++ [']'], rfl⟩

lemma bracket_of_open {rest : List Char} (hc : c.rest = '[' :: rest) :
    bracket c = constraints c.pos true (c.drop 1) := by
  rw [bracket, hc]
  rfl

lemma bracket_eq_ok {rest : List Char} {pairs : List (String × String)} {after : Cursor}
    (hc : c.rest = '[' :: rest) :
    bracket c = .ok (pairs, after) ↔ ∃ t, BracketText t pairs ∧ c.Reads t after := by
  have hopen := reads_drop hc
  rw [bracket_of_open hc, constraints_eq_ok]
  constructor
  · rintro ⟨t, ht | ⟨-, rfl, hw⟩, hreads⟩
    · refine ⟨_, .pairs ht, ?_⟩
      simpa only [List.append_assoc] using hopen.trans hreads
    · refine ⟨_, .empty hw, ?_⟩
      simpa only [List.append_assoc] using hopen.trans hreads
  · rintro ⟨t, ht, hreads⟩
    cases ht with
    | empty hw =>
      obtain ⟨d, hfirst, hreads⟩ := (List.append_assoc .. ▸ hreads).exists_of_append
      obtain rfl := hopen.eq hfirst
      exact ⟨_, .inr ⟨rfl, rfl, hw⟩, hreads⟩
    | pairs ht =>
      obtain ⟨d, hfirst, hreads⟩ := (List.append_assoc .. ▸ hreads).exists_of_append
      obtain rfl := hopen.eq hfirst
      exact ⟨_, .inl ht, hreads⟩

lemma bracket_eq_nil (h : ∀ x ∈ c.rest.head?, x ≠ '[') : bracket c = .ok ([], c) := by
  rw [bracket]
  split
  · next rest hrest => exact absurd rfl (h '[' (by rw [hrest]; rfl))
  · rfl

end ComponentTree.Selector
