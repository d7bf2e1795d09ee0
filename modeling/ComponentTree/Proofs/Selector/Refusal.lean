/-
# The reader reports the first defect

A step is refused for the defect in it or for the character behind it, and a selector for the first
of its steps that has one (`stepsFrom_eq_error`).  A text is refused therefore exactly if it begins
with a defect, and what stands behind the defect does not matter.

The error of a defect points at what is wrong (`Error.PointsAt`): its position is that of the
bracket or the mark that is left open, of the character that cannot stand there, or of the pair
that has no equals sign.  Where something is left open that is so in the whole text, and otherwise
in the text up to the character that shows the defect; then any text that goes on from there in
another way has the same error (`pointsAt_of_parse_eq_error`).
-/
import ComponentTree.Proofs.Selector.Defects

namespace ComponentTree.Selector

open Text Cursor

variable {opening pos : Nat} {c d : Cursor} {e : Error} {t past : List Char}

/-! ### Steps -/

lemma stepEnd_eq_error : stepEnd c = .error e ↔
    ∃ x rest, c.rest = x :: rest ∧ isBlank x = false ∧ e = .stray x c.pos := by
  rw [stepEnd]
  split
  · next h => simp [h]
  · next x rest h =>
    rw [h]
    by_cases hx : isBlank x = true
    · simp [hx]
    · have hstray : (if x = ']' then Error.unopened c.pos else .unexpected x c.pos) =
          .stray x c.pos := rfl
      rw [if_neg hx, ← apply_ite Except.error, hstray]
      constructor
      · intro h
        exact ⟨x, rest, rfl, Bool.eq_false_iff.mpr hx, (Except.error.inj h).symm⟩
      · rintro ⟨y, rest', heq, -, rfl⟩
        rw [(List.cons.inj heq).1]

lemma step_eq_error_iff_parts : step c = .error e ↔ bracket (c.afterRun isNameChar) = .error e ∨
    ∃ pairs after, bracket (c.afterRun isNameChar) = .ok (pairs, after) ∧
      stepEnd after = .error e := by
  rw [step, Outcome.bind_eq_error]
  refine or_congr_right ?_
  constructor
  · rintro ⟨⟨pairs, after⟩, hbracket, h⟩
    rcases Outcome.bind_eq_error.mp h with hend | ⟨u, -, h⟩
    · exact ⟨pairs, after, hbracket, hend⟩
    · simp [pure, Except.pure] at h
  · rintro ⟨pairs, after, hbracket, hend⟩
    exact ⟨(pairs, after), hbracket, Outcome.bind_eq_error.mpr (.inl hend)⟩

/-- **A step is refused for the defect in it, or behind it.** -/
theorem step_eq_error : step c = .error e ↔ c.Shows (StepDefect c.pos) e := by
  have hname : ∀ x ∈ c.run isNameChar, NameChar x := fun x hx => isNameChar_iff.mp (mem_run hx)
  have hreads := reads_run isNameChar c
  rw [step_eq_error_iff_parts]
  constructor
  · intro h
    by_cases hopen : ∃ rest, (c.afterRun isNameChar).rest = '[' :: rest
    · obtain ⟨rest, hrest⟩ := hopen
      rcases h with h | ⟨pairs, after, hbracket, hend⟩
      · have hwhole := hreads.trans (reads_drop hrest)
        rw [bracket_of_open hrest] at h
        refine hwhole.shows (constraints_eq_error.mp h) fun u hu => ?_
        rw [hwhole.2, hreads.2] at hu
        exact .bracket hname hu
      · obtain ⟨t, ht, hbehind⟩ := (bracket_eq_ok hrest).mp hbracket
        obtain ⟨x, rest, hx, hblank, rfl⟩ := stepEnd_eq_error.mp hend
        have hwhole := hreads.trans hbehind
        rw [hwhole.2]
        exact ⟨_, _, hwhole.trans (reads_drop hx), .behind hname ht hblank, by simp⟩
    · have hnot : ∀ x ∈ (c.afterRun isNameChar).rest.head?, x ≠ '[' := by
        rintro x hx rfl
        exact hopen (List.head?_eq_some_iff.mp hx)
      rw [bracket_eq_nil hnot] at h
      obtain h | ⟨pairs, after, hbracket, hend⟩ := h
      · simp at h
      obtain ⟨rfl, rfl⟩ := Prod.mk.inj (Except.ok.inj hbracket)
      obtain ⟨x, rest, hx, hblank, rfl⟩ := stepEnd_eq_error.mp hend
      have hhead : x ∈ (c.afterRun isNameChar).rest.head? := by rw [hx]; rfl
      have hchar : ¬ NameChar x := by
        rw [← isNameChar_iff, stops_afterRun isNameChar c x hhead]
        exact Bool.false_ne_true
      rw [hreads.2]
      exact ⟨_, _, hreads.trans (reads_drop hx), .name hname hchar (hnot x hhead) hblank, by simp⟩
  · rintro ⟨t, d, hwhole, h, hend⟩
    have hrunOf : ∀ {name : List Char} {d}, c.Reads name d → (∀ x ∈ name, NameChar x) →
        d.Stops isNameChar → c.afterRun isNameChar = d := by
      intro name d hreads hname hstop
      exact (hreads.run_eq (fun x hx => isNameChar_iff.mpr (hname x hx)) hstop).2
    cases h with
    | bracket hname h =>
      obtain ⟨d₂, hreads, hrest⟩ := hwhole.exists_of_append
      obtain ⟨d₁, hreads', hopen⟩ := hreads.exists_of_append
      obtain rfl := hrunOf hreads' hname (hopen.stops (by decide))
      obtain rfl := hopen.eq (reads_drop hopen.1)
      rw [← hreads.2, ← hreads'.2] at h
      left
      rw [bracket_of_open hopen.1, constraints_eq_error]
      exact ⟨_, d, hrest, h, hend⟩
    | name hname hx hopen hblank =>
      obtain ⟨d', hreads, hstray⟩ := hwhole.exists_of_append
      have hstop : isNameChar _ = false := Bool.eq_false_iff.mpr (mt isNameChar_iff.mp hx)
      obtain rfl := hrunOf hreads hname (hstray.stops hstop)
      right
      refine ⟨[], _, bracket_eq_nil fun y hy => ?_, ?_⟩
      · rw [hstray.1] at hy
        rw [← Option.some.inj hy]
        exact hopen
      · exact stepEnd_eq_error.mpr ⟨_, _, hstray.1, hblank, by rw [hreads.2]⟩
    | behind hname ht hblank =>
      obtain ⟨d₂, hreads, hstray⟩ := hwhole.exists_of_append
      obtain ⟨d₁, hreads', hbracket⟩ := hreads.exists_of_append
      obtain ⟨u, rfl⟩ := ht.exists_cons
      obtain rfl := hrunOf hreads' hname (hbracket.stops (by decide))
      right
      refine ⟨_, d₂, (bracket_eq_ok hbracket.1).mpr ⟨_, ht, hbracket⟩, ?_⟩
      exact stepEnd_eq_error.mpr ⟨_, _, hstray.1, hblank, by rw [hreads.2]⟩

/-! ### Selectors -/

/-- With a name in front, which may be empty, a text still begins without a blank. -/
lemma exists_cons_of_name {name : List Char} (hname : ∀ x ∈ name, NameChar x)
    (ht : ∃ x u, t = x :: u ∧ isBlank x = false) :
    ∃ x u, name ++ t = x :: u ∧ isBlank x = false := by
  cases name with
  | nil => exact ht
  | cons x name => exact ⟨x, name ++ t, rfl, not_blank_of_nameChar (hname x List.mem_cons_self)⟩

lemma StepDefect.exists_cons (h : StepDefect pos t e) :
    ∃ x u, t = x :: u ∧ isBlank x = false := by
  cases h with
  | bracket hname h =>
    rw [List.append_assoc]
    exact exists_cons_of_name hname ⟨'[', _, rfl, by decide⟩
  | name hname hx hopen hblank => exact exists_cons_of_name hname ⟨_, [], rfl, hblank⟩
  | behind hname ht hblank =>
    obtain ⟨u, rfl⟩ := ht.exists_cons
    rw [List.append_assoc]
    exact exists_cons_of_name hname ⟨'[', _, rfl, by decide⟩

lemma SelectorDefect.ne_nil (h : SelectorDefect pos t e) : t ≠ [] := by
  cases h with
  | step hw h =>
    obtain ⟨x, u, rfl, -⟩ := h.exists_cons
    simp
  | more hw ht hparted h =>
    obtain ⟨x, u, rfl, -⟩ := ht.exists_cons
    simp

/-- Behind the blanks, a defect of the step there is one of the selector. -/
lemma stepsFrom_eq_error_of_step (h : step c.skipBlanks = .error e) :
    stepsFrom c = .error e := by
  have hne : c.skipBlanks.rest ≠ [] := by
    obtain ⟨t, d, hreads, hdefect, -⟩ := step_eq_error.mp h
    obtain ⟨x, u, rfl, -⟩ := hdefect.exists_cons
    rw [hreads.1]
    simp
  rw [stepsFrom_eq_bind hne, h]
  rfl

/-- **A text is refused exactly if it begins with a defect, and for that defect.** -/
theorem stepsFrom_eq_error :
    stepsFrom c = .error e ↔ c.Shows (SelectorDefect c.pos) e := by
  have hskip : ∀ c : Cursor, c.Reads (c.run isBlank) c.skipBlanks := reads_run isBlank
  have hblanks : ∀ c : Cursor, Blanks (c.run isBlank) := fun c x hx => mem_run hx
  constructor
  · intro h
    have hfirst : ∀ {c : Cursor}, step c.skipBlanks = .error e →
        c.Shows (SelectorDefect c.pos) e := by
      intro c h
      refine (hskip c).shows (step_eq_error.mp h) fun u hu => ?_
      rw [(hskip c).2] at hu
      exact .step (hblanks c) hu
    fun_induction stepsFrom c with
    | case1 => simp at h
    | case2 c rest hrest =>
      obtain rfl := Except.error.inj h
      exact hfirst (step_of_close hrest)
    | case3 c x rest hrest hclose e' hs =>
      obtain rfl := Except.error.inj h
      exact hfirst hs
    | case4 c x rest hrest hclose s after hs _ ih =>
      obtain ⟨t, ht, hreads, hparted⟩ :=
        (step_eq_ok hrest (isBlank_head_skipBlanks hrest)).mp hs
      obtain ⟨u, d, hu, hdefect, hend⟩ := ih (Outcome.map_eq_error.mp h)
      have hwhole := (hskip c).trans hreads
      have hparted : Parted u := by
        obtain ⟨y, v, rfl⟩ := List.exists_cons_of_ne_nil hdefect.ne_nil
        rwa [hu.1] at hparted
      rw [hwhole.2] at hdefect
      exact ⟨_, d, hwhole.trans hu, .more (hblanks c) ht hparted hdefect, hend⟩
  · rintro ⟨t, d, hreads, h, hend⟩
    generalize hpos : c.pos = pos at h
    induction h generalizing c with
    | step hw h =>
      subst hpos
      obtain ⟨d', hbefore, hstep⟩ := hreads.exists_of_append
      obtain ⟨x, u, rfl, hx⟩ := h.exists_cons
      obtain ⟨-, rfl⟩ := hbefore.run_eq (p := isBlank) hw (hstep.stops hx)
      rw [← hbefore.2] at h
      exact stepsFrom_eq_error_of_step (step_eq_error.mpr ⟨_, d, hstep, h, hend⟩)
    | more hw ht hparted h ih =>
      subst hpos
      obtain ⟨d₂, hreads, hrest⟩ := hreads.exists_of_append
      obtain ⟨d₁, hbefore, hstep⟩ := hreads.exists_of_append
      have hparted : Parted d₂.rest := by
        obtain ⟨y, v, rfl⟩ := List.exists_cons_of_ne_nil h.ne_nil
        rwa [hrest.1]
      rw [stepsFrom_of_step hw hbefore ht hstep hparted, Outcome.map_eq_error]
      exact ih hrest hend hreads.2

/-- A text is refused for the defect that it begins with. -/
lemma parse_eq_error {text : String} :
    parse text = .error e ↔ (⟨0, text.toList⟩ : Cursor).Shows (SelectorDefect 0) e := by
  rw [parse, Outcome.map_eq_error, stepsFrom_eq_error]

/-- A text whose first step has a defect is refused for it. -/
lemma parse_eq_error_of_step {text : String}
    (h : step (⟨0, text.toList⟩ : Cursor).skipBlanks = .error e) : parse text = .error e := by
  rw [parse, stepsFrom_eq_error_of_step h]
  rfl

/-! ### What an error points at -/

/-- The position that an error of a text tells. -/
def Error.pos? : Error → Option Nat
  | unclosed pos => some pos
  | unopened pos => some pos
  | nested pos => some pos
  | noEquals _ pos => some pos
  | noKey pos => some pos
  | unquoted pos => some pos
  | unexpected _ pos => some pos
  | _ => none

/-- What an error points at in a text that ends where the defect shows. -/
inductive Error.PointsAt : Error → List Char → Prop
  | unclosed {before behind : List Char} :
      PointsAt (.unclosed (utf8Length before)) (before ++ ['['] ++ behind)
  | unopened {before : List Char} : PointsAt (.unopened (utf8Length before)) (before ++ [']'])
  | nested {before : List Char} (hopen : '[' ∈ before) :
      PointsAt (.nested (utf8Length before)) (before ++ ['['])
  | noEquals {before pair w : List Char} {ended : Terminator} (hpair : '=' ∉ pair)
      (hw : Blanks w) :
      PointsAt (.noEquals (String.ofList pair) (utf8Length before))
        (before ++ pair ++ w ++ [ended.char])
  | noKey {before : List Char} : PointsAt (.noKey (utf8Length before)) (before ++ ['='])
  | unquoted {mark : Char} {before behind : List Char} (hmark : Mark mark)
      (hbehind : mark ∉ behind) :
      PointsAt (.unquoted (utf8Length before)) (before ++ [mark] ++ behind)
  | unexpected {char : Char} {before : List Char} :
      PointsAt (.unexpected char (utf8Length before)) (before ++ [char])

/-- The place behind `past` is in the bracket that opens at `opening`. -/
structure Inside (past : List Char) (opening pos : Nat) : Prop where
  opens : ∃ before behind, past = before ++ ['['] ++ behind ∧ opening = utf8Length before
  pos_eq : pos = utf8Length past

lemma Inside.append (h : Inside past opening pos) (t : List Char) :
    Inside (past ++ t) opening (pos + utf8Length t) := by
  obtain ⟨⟨before, behind, rfl, hopening⟩, rfl⟩ := h
  exact ⟨⟨before, behind ++ t, List.append_assoc .., hopening⟩, (utf8Length_append ..).symm⟩

lemma EndDefect.pointsAt (h : EndDefect opening pos t e) (hin : Inside past opening pos) :
    e.PointsAt (past ++ t) := by
  obtain ⟨⟨before, behind, hpast, rfl⟩, rfl⟩ := hin
  cases h with
  | unclosed =>
    rw [List.append_nil, hpast]
    exact .unclosed
  | nested => exact .nested (by simp [hpast])
  | unexpected => exact .unexpected

lemma ValueDefect.pointsAt (h : ValueDefect opening pos t e) (hin : Inside past opening pos) :
    e.PointsAt (past ++ t) := by
  cases h with
  | @unquoted mark before content hbefore hmark hcontent =>
    rw [hin.pos_eq, ← utf8Length_append]
    have h : (Error.unquoted (utf8Length (past ++ before))).PointsAt
        (past ++ before ++ [mark] ++ content) := .unquoted hmark hcontent
    simpa only [List.append_assoc] using h
  | quoted hbefore hmark hcontent hbehind hstop h =>
    rw [← List.append_assoc]
    exact h.pointsAt (hin.append _)
  | plain hchars hfirst hstop h =>
    rw [← List.append_assoc]
    exact h.pointsAt (hin.append _)

/-- What is trimmed off the end of a text is blank. -/
lemma exists_eq_trim (t : List Char) :
    ∃ w, Blanks w ∧ t = t.takeWhile isBlank ++ trim t ++ w := by
  refine ⟨(t.dropWhile isBlank).rtakeWhile isBlank, fun x hx => List.mem_rtakeWhile_imp hx, ?_⟩
  rw [trim, List.append_assoc, List.rdropWhile_append_rtakeWhile, List.takeWhile_append_dropWhile]

lemma EntryDefect.pointsAt (h : EntryDefect opening pos t e) (hin : Inside past opening pos) :
    e.PointsAt (past ++ t) := by
  cases h with
  | key hkey hstop h =>
    rw [← List.append_assoc]
    exact h.pointsAt (hin.append _)
  | noKey hw =>
    rw [hin.pos_eq, ← utf8Length_append, ← List.append_assoc]
    exact .noKey
  | @noEquals key ended hkey hsome =>
    obtain ⟨w, hw, heq⟩ := exists_eq_trim key
    have hpair : '=' ∉ trim key := by
      intro hmem
      have hmem : '=' ∈ key := by
        rw [heq]
        simp [hmem]
      exact (hkey '=' hmem).2.1 rfl
    have h : (Error.noEquals (String.ofList (trim key))
        (utf8Length (past ++ key.takeWhile isBlank))).PointsAt
        (past ++ key.takeWhile isBlank ++ trim key ++ w ++ [ended.char]) := .noEquals hpair hw
    have hwhole : past ++ key.takeWhile isBlank ++ trim key ++ w ++ [ended.char] =
        past ++ (key ++ [ended.char]) := by
      rw [List.append_assoc past, List.append_assoc past, ← heq, List.append_assoc]
    rw [hin.pos_eq, ← utf8Length_append]
    exact hwhole ▸ h
  | value hkey hsome h =>
    rw [← List.append_assoc]
    exact h.pointsAt (hin.append _)

lemma PairsDefect.pointsAt {first : Bool} (h : PairsDefect opening first pos t e)
    (hin : Inside past opening pos) : e.PointsAt (past ++ t) := by
  induction h generalizing past with
  | entry h => exact h.pointsAt hin
  | @blank first pos w ended hw hnot =>
    have h : (Error.noEquals (String.ofList []) (utf8Length (past ++ w))).PointsAt
        (past ++ w ++ [] ++ [] ++ [ended.char]) := .noEquals (by simp) (by simp [Blanks])
    rw [hin.pos_eq, ← utf8Length_append]
    simpa using h
  | more ht h ih =>
    rw [← List.append_assoc]
    exact ih (hin.append _)

lemma Error.pointsAt_stray {x : Char} :
    (Error.stray x (utf8Length past)).PointsAt (past ++ [x]) := by
  rw [Error.stray]
  split
  · next hclose => exact hclose ▸ .unopened
  · exact .unexpected

lemma StepDefect.pointsAt (h : StepDefect (utf8Length past) t e) : e.PointsAt (past ++ t) := by
  cases h with
  | @bracket name t e hname h =>
    rw [← List.append_assoc]
    refine h.pointsAt ⟨⟨past ++ name, [], ?_, ?_⟩, ?_⟩ <;> simp
  | name hname hx hopen hblank =>
    rw [← utf8Length_append, ← List.append_assoc]
    exact Error.pointsAt_stray
  | @behind name t pairs x hname ht hblank =>
    have h : (Error.stray x (utf8Length (past ++ (name ++ t)))).PointsAt
        (past ++ (name ++ t) ++ [x]) := Error.pointsAt_stray
    rwa [utf8Length_append, List.append_assoc past] at h

/-- **The error of a defect points at what is wrong.** -/
theorem SelectorDefect.pointsAt (h : SelectorDefect pos t e) (hpos : pos = utf8Length past) :
    e.PointsAt (past ++ t) := by
  induction h generalizing past with
  | step hw h =>
    rw [hpos, ← utf8Length_append] at h
    rw [← List.append_assoc]
    exact h.pointsAt
  | more hw ht hparted h ih =>
    rw [← List.append_assoc]
    exact ih (by rw [hpos, ← utf8Length_append])

/-! ### Positions -/

/-- What an error points at begins at a character. -/
lemma Error.PointsAt.exists_pos (h : e.PointsAt t) :
    ∃ before x behind, t = before ++ x :: behind ∧ e.pos? = some (utf8Length before) := by
  cases h with
  | unclosed => exact ⟨_, _, _, List.append_assoc .., rfl⟩
  | unopened => exact ⟨_, _, _, rfl, rfl⟩
  | nested => exact ⟨_, _, _, rfl, rfl⟩
  | @noEquals before pair w ended hpair hw =>
    obtain ⟨x, behind, hx⟩ := List.exists_cons_of_ne_nil
      (show pair ++ w ++ [ended.char] ≠ [] by simp)
    refine ⟨before, x, behind, ?_, rfl⟩
    rw [← hx]
    simp only [List.append_assoc]
  | noKey => exact ⟨_, _, _, rfl, rfl⟩
  | unquoted => exact ⟨_, _, _, List.append_assoc .., rfl⟩
  | unexpected => exact ⟨_, _, _, rfl, rfl⟩

/-- The bytes before a character end at a boundary of characters that is not the end. -/
lemma isValid_utf8Length {text : String} {before behind : List Char} {x : Char}
    (h : text.toList = before ++ x :: behind) :
    (⟨utf8Length before⟩ : String.Pos.Raw).IsValid text ∧
      utf8Length before < text.utf8ByteSize := by
  constructor
  · refine String.Pos.Raw.isValid_iff_exists_append.mpr
      ⟨String.ofList before, String.ofList (x :: behind), ?_, ?_⟩
    · rw [← String.ofList_append, ← h, String.ofList_toList]
    · rw [String.rawEndPos, ← utf8Length_toList, String.toList_ofList]
  · have := x.utf8Size_pos
    rw [← utf8Length_toList, h, utf8Length_append, utf8Length_cons]
    omega

/-- **Every error of a text points at what is wrong there, and at the earliest place.**  Its
position is a boundary of characters within the text.  If it is about something left open, it points
at that in the whole text; otherwise it points at what is wrong in the text up to the character that
shows it, and every text that begins so is refused with the same error. -/
theorem pointsAt_of_parse_eq_error {text : String} (h : parse text = .error e) :
    (∃ pos, e.pos? = some pos ∧ (⟨pos⟩ : String.Pos.Raw).IsValid text ∧ pos < text.utf8ByteSize) ∧
      if e.atEnd then e.PointsAt text.toList
      else ∃ read, read <+: text.toList ∧ e.PointsAt read ∧
        ∀ other : String, read <+: other.toList → parse other = .error e := by
  obtain ⟨read, d, hreads, hdefect, hend⟩ := parse_eq_error.mp h
  have hpoints : e.PointsAt ([] ++ read) := hdefect.pointsAt rfl
  rw [List.nil_append] at hpoints
  have htext : text.toList = read ++ d.rest := hreads.1
  constructor
  · obtain ⟨before, x, behind, rfl, hpos⟩ := hpoints.exists_pos
    rw [List.append_assoc] at htext
    exact ⟨_, hpos, isValid_utf8Length htext⟩
  · split
    · next hatEnd =>
      rw [hend hatEnd, List.append_nil] at htext
      exact htext ▸ hpoints
    · next hatEnd =>
      refine ⟨read, ⟨d.rest, htext.symm⟩, hpoints, fun other ⟨rest, hother⟩ => ?_⟩
      obtain ⟨d', hreads', -⟩ := exists_reads (c := ⟨0, other.toList⟩) hother.symm
      exact parse_eq_error.mpr ⟨read, d', hreads', hdefect, fun h => absurd h hatEnd⟩

/-- In a text with characters of several bytes the second pair of a bracket has no equals sign: the
error has its position in bytes, and it is the same whatever stands behind the comma. -/
theorem pointsAt_of_parse_eq_error_sample :
    parse " [né='é, ' , né é ,x]" = .error (.noEquals "né é" 15) ∧
      (⟨15⟩ : String.Pos.Raw).IsValid " [né='é, ' , né é ,x]" ∧
      ∃ read, read <+: " [né='é, ' , né é ,x]".toList ∧
        (Error.noEquals "né é" 15).PointsAt read ∧
        ∀ other : String, read <+: other.toList → parse other = .error (.noEquals "né é" 15) := by
  have h : parse " [né='é, ' , né é ,x]" = .error (.noEquals "né é" 15) :=
    parse_eq_error_of_step (by cbv)
  obtain ⟨⟨pos, hpos, hvalid, -⟩, hread⟩ := pointsAt_of_parse_eq_error h
  obtain rfl : 15 = pos := Option.some.inj hpos
  exact ⟨h, hvalid, hread⟩

end ComponentTree.Selector
