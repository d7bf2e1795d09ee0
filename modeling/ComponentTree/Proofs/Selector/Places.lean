/-
# Runs of characters in a text

A selector text is read run by run, and a run is taken as far as it goes.  What is proved of a
reader is therefore of two kinds.  Going by the reader, a run and what follows it make up the text
(`Cursor.reads_run`).  Going by the text, a part of it is the run when something stops the run
behind it (`Cursor.Reads.run_eq`).

Blanks may stand in a key and in a value without marks, so skipping them first takes them off the
run and does not move its end (`Cursor.run_skipBlanks`); with the blanks at the other end cut off,
the run is trimmed.
-/
import ComponentTree.Selector.Parser
import ComponentTree.Proofs.Selector.Grammar

namespace ComponentTree.Selector

open Text

/-! ### The characters of the reader and of the grammar -/

lemma isNameChar_iff {c : Char} : isNameChar c = true ↔ NameChar c := by
  simp only [isNameChar, NameChar, Char.isAlphanum, Char.isAlpha, Char.isUpper, Char.isLower,
    Char.isDigit, Bool.or_eq_true, Bool.and_eq_true, decide_eq_true_eq, Char.le_def, ge_iff_le]
  tauto

lemma isMark_iff {c : Char} : isMark c = true ↔ Mark c := by
  simp [isMark, Mark]

lemma isValueChar_iff {c : Char} : isValueChar c = true ↔ ValueChar c := by
  simp [isValueChar, ValueChar, and_assoc]

lemma isKeyChar_iff {c : Char} : isKeyChar c = true ↔ KeyChar c := by
  simp only [isKeyChar, KeyChar, Bool.and_eq_true, Bool.not_eq_true', isValueChar_iff, ← isMark_iff,
    decide_eq_true_eq, Bool.not_eq_true, and_assoc]

lemma not_blank_of_mark {c : Char} (h : Mark c) : isBlank c = false := by
  rcases h with rfl | rfl <;> decide

lemma not_nameChar_of_isBlank {c : Char} (h : isBlank c = true) : ¬ NameChar c := by
  simp only [isBlank, Bool.or_eq_true, Bool.and_eq_true, decide_eq_true_eq] at h
  rintro (hc | hc | hc | rfl | rfl | rfl)
  case inr.inr.inr.inl => simp at h
  case inr.inr.inr.inr.inl => simp at h
  case inr.inr.inr.inr.inr => simp at h
  all_goals
    simp only [Char.le_def, UInt32.le_iff_toNat_le, Char.toNat_val, Char.reduceToNat] at hc
    omega

lemma not_blank_of_nameChar {c : Char} (h : NameChar c) : isBlank c = false :=
  Bool.eq_false_iff.mpr fun hblank => not_nameChar_of_isBlank hblank h

lemma isValueChar_of_mark {c : Char} (h : Mark c) : isValueChar c = true := by
  rcases h with rfl | rfl <;> decide

lemma isValueChar_of_isBlank {c : Char} (h : isBlank c = true) : isValueChar c = true := by
  rw [isValueChar_iff]
  refine ⟨?_, ?_, ?_⟩ <;> (rintro rfl; revert h; decide)

lemma isKeyChar_of_isBlank {c : Char} (h : isBlank c = true) : isKeyChar c = true := by
  rw [isKeyChar_iff]
  refine ⟨isValueChar_iff.mp (isValueChar_of_isBlank h), ?_, fun hmark => ?_⟩
  · rintro rfl
    revert h
    decide
  · rw [not_blank_of_mark hmark] at h
    exact absurd h (by simp)

/-! ### Trimming -/

/-- The end is trimmed from the left as well as from the right. -/
lemma trimEnd_eq (t : List Char) : trimEnd t = t.rdropWhile isBlank := by
  induction t with
  | nil => rfl
  | cons c t ih =>
    rw [trimEnd, ih, List.rdropWhile, List.rdropWhile, List.reverse_cons, List.dropWhile_append]
    cases h : t.reverse.dropWhile isBlank with
    | nil => by_cases hc : isBlank c = true <;> simp [hc]
    | cons d ds =>
      obtain ⟨e, es, he⟩ := List.exists_cons_of_ne_nil (show (d :: ds).reverse ≠ [] by simp)
      simp only [List.isEmpty_cons, Bool.false_eq_true, if_false, List.reverse_append, he]
      rfl

lemma trim_eq_nil_iff {t : List Char} : trim t = [] ↔ Blanks t := by
  rw [trim, List.rdropWhile_eq_nil_iff]
  constructor
  · intro h x hx
    rw [← List.takeWhile_append_dropWhile (p := isBlank) (l := t)] at hx
    rcases List.mem_append.mp hx with hx | hx
    · exact List.mem_takeWhile_imp hx
    · exact h x hx
  · exact fun h x hx => h x ((List.dropWhile_sublist isBlank).subset hx)

/-! ### Places in a text -/

namespace Cursor

/-- A text stands between two places. -/
def Reads (c : Cursor) (t : List Char) (d : Cursor) : Prop :=
  c.rest = t ++ d.rest ∧ d.pos = c.pos + utf8Length t

variable {a b c d : Cursor} {t u : List Char} {x : Char} {p : Char → Bool}

lemma Reads.nil (c : Cursor) : c.Reads [] c := ⟨rfl, rfl⟩

lemma reads_nil_iff : c.Reads [] d ↔ d = c := by
  refine ⟨fun ⟨hrest, hpos⟩ => ?_, fun h => h ▸ Reads.nil c⟩
  obtain ⟨pos, rest⟩ := d
  rw [show rest = c.rest from hrest.symm, show pos = c.pos from hpos]

lemma Reads.trans (h : a.Reads t b) (h' : b.Reads u c) : a.Reads (t ++ u) c := by
  obtain ⟨hrest, hpos⟩ := h
  obtain ⟨hrest', hpos'⟩ := h'
  refine ⟨by rw [hrest, hrest', List.append_assoc], ?_⟩
  rw [hpos', hpos, utf8Length_append, Nat.add_assoc]

/-- Behind one text there is one place. -/
lemma Reads.eq (h : a.Reads t b) (h' : a.Reads t c) : b = c := by
  obtain ⟨hrest, hpos⟩ := h
  obtain ⟨hrest', hpos'⟩ := h'
  obtain ⟨pos, rest⟩ := b
  obtain ⟨pos', rest'⟩ := c
  rw [show pos = pos' from hpos.trans hpos'.symm,
    show rest = rest' from List.append_cancel_left (hrest.symm.trans hrest')]

/-- A text may be cut anywhere. -/
lemma Reads.exists_of_append (h : a.Reads (t ++ u) c) : ∃ b, a.Reads t b ∧ b.Reads u c := by
  obtain ⟨hrest, hpos⟩ := h
  rw [List.append_assoc] at hrest
  rw [utf8Length_append, ← Nat.add_assoc] at hpos
  exact ⟨⟨a.pos + utf8Length t, u ++ c.rest⟩, ⟨hrest, rfl⟩, ⟨rfl, hpos⟩⟩

lemma exists_reads (h : c.rest = t ++ u) : ∃ d, c.Reads t d ∧ d.rest = u :=
  ⟨⟨c.pos + utf8Length t, u⟩, ⟨h, rfl⟩, rfl⟩

lemma reads_singleton_iff : c.Reads [x] d ↔ c.rest = x :: d.rest ∧ d.pos = c.pos + x.utf8Size := by
  rfl

lemma reads_drop (h : c.rest = x :: t) : c.Reads [x] (c.drop 1) := by
  refine ⟨?_, ?_⟩
  · rw [drop, h]
    rfl
  · rw [drop, h]
    rfl

lemma mem_run (h : x ∈ c.run p) : p x = true := List.mem_takeWhile_imp h

lemma reads_run (p : Char → Bool) (c : Cursor) : c.Reads (c.run p) (c.afterRun p) :=
  ⟨List.takeWhile_append_dropWhile.symm, rfl⟩

/-- The place stops a run: it is the end, or the character there is not of the kind. -/
def Stops (p : Char → Bool) (c : Cursor) : Prop := ∀ x ∈ c.rest.head?, p x = false

lemma stops_afterRun (p : Char → Bool) (c : Cursor) : (c.afterRun p).Stops p := by
  intro x hx
  have h := List.head?_dropWhile_not p c.rest
  rw [show (c.rest.dropWhile p).head? = some x from hx] at h
  exact h

/-- **What is of the kind up to a place that stops it is the run.** -/
theorem Reads.run_eq (h : c.Reads t d) (ht : ∀ x ∈ t, p x = true) (hd : d.Stops p) :
    c.run p = t ∧ c.afterRun p = d := by
  have hrun : c.run p = t := by
    rw [run, h.1, List.takeWhile_append_of_pos ht]
    cases hrest : d.rest with
    | nil => simp
    | cons x rest =>
      have hx : p x = false := hd x (by rw [hrest]; rfl)
      simp [hx]
  exact ⟨hrun, (reads_run p c).eq (hrun ▸ h)⟩

lemma Reads.stops (h : c.Reads (x :: t) d) (hx : p x = false) : c.Stops p := by
  intro y hy
  rw [h.1] at hy
  rw [← Option.some.inj hy]
  exact hx

/-- The blanks that are skipped are those up to a character that is not blank. -/
lemma Reads.skipBlanks {w : List Char} (h : c.Reads (w ++ ([x] ++ t)) d) (hw : Blanks w)
    (hx : isBlank x = false) : c.Reads w c.skipBlanks ∧ c.skipBlanks.Reads ([x] ++ t) d := by
  obtain ⟨b, hblanks, hbehind⟩ := h.exists_of_append
  obtain ⟨-, hskip⟩ := hblanks.run_eq (p := isBlank) hw (hbehind.stops hx)
  rw [Cursor.skipBlanks, hskip]
  exact ⟨hblanks, hbehind⟩

/-- Blanks in front of a run that may have blanks belong to it. -/
lemma run_skipBlanks (hp : ∀ x, isBlank x = true → p x = true) (c : Cursor) :
    c.skipBlanks.run p = (c.run p).dropWhile isBlank ∧ c.skipBlanks.afterRun p = c.afterRun p := by
  have hblanks : ∀ x ∈ c.run isBlank, p x = true := fun x hx => hp x (mem_run hx)
  have hreads : c.Reads (c.run isBlank ++ c.skipBlanks.run p) (c.skipBlanks.afterRun p) :=
    (reads_run isBlank c).trans (reads_run p c.skipBlanks)
  have hrun := hreads.run_eq (p := p) (by
    intro x hx
    rcases List.mem_append.mp hx with hx | hx
    · exact hblanks x hx
    · exact mem_run hx) (stops_afterRun p c.skipBlanks)
  refine ⟨?_, hrun.2.symm⟩
  rw [hrun.1, List.dropWhile_append_of_pos fun x hx => mem_run hx]
  -- the run behind the blanks does not begin with one
  cases h : c.skipBlanks.run p with
  | nil => rfl
  | cons x rest =>
    have hx : isBlank x = false := by
      refine stops_afterRun isBlank c x ?_
      have hhead := (reads_run p c.skipBlanks).1
      rw [h] at hhead
      rw [show (c.afterRun isBlank).rest = _ from hhead]
      rfl
    simp [hx]

lemma run_skipBlanks_of_value (c : Cursor) :
    c.skipBlanks.run isValueChar = (c.run isValueChar).dropWhile isBlank ∧
      c.skipBlanks.afterRun isValueChar = c.afterRun isValueChar :=
  run_skipBlanks (fun _ hx => isValueChar_of_isBlank hx) c

lemma run_skipBlanks_of_key (c : Cursor) :
    c.skipBlanks.run isKeyChar = (c.run isKeyChar).dropWhile isBlank ∧
      c.skipBlanks.afterRun isKeyChar = c.afterRun isKeyChar :=
  run_skipBlanks (fun _ hx => isKeyChar_of_isBlank hx) c

/-- The blanks in front of a key begin its run. -/
lemma pos_skipBlanks_of_key (c : Cursor) :
    c.skipBlanks.pos = c.pos + utf8Length ((c.run isKeyChar).takeWhile isBlank) := by
  have hrun : (c.run isKeyChar).takeWhile isBlank = c.run isBlank := by
    rw [run, run, List.takeWhile_takeWhile]
    refine congrArg (fun p => c.rest.takeWhile p) (funext fun x => ?_)
    by_cases hx : isBlank x = true <;> simp [hx, isKeyChar_of_isBlank]
  rw [hrun]
  rfl

end Cursor

end ComponentTree.Selector
