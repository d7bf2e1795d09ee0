/-
# Documents are read as they were written

A value is written over several lines and read by a machine with a stack, the lists and objects that
are open.  Wherever the machine awaits a value inside open lists and objects, reading the text of a
value brings it to where it delivers the node of the value to them (`Value.ReadBack`); what it
awaited, how far the text is indented and what follows make no difference.  For a list or object this
comes from its parts, the machine reading one part after the other (`resume_items`, `resume_members`).

Doubles are left out (`Value.Plain`): what the shortest digits of a double are is not a matter of
JSON.  Of a value that has doubles it may still be supposed that its text is read back
(`Value.Legible`).
-/
import ComponentTree.Proofs.Json.Lexemes
import ComponentTree.Proofs.Json.Records

namespace ComponentTree.Json

open Lexeme (bytesOf bytesOf_append EndsNumber)

/-- What may come next once a text has been read up to its end. -/
def resume (e : Expectation) (cs : List Char) : Option Expectation :=
  (Lexeme.scan cs).bind (·.foldlM Expectation.next e)

section Machine

variable {e : Expectation} {outer : List Frame} {l : Lexeme} {cs rest : List Char}

lemma resume_nil (e : Expectation) : resume e [] = some e := by
  rw [resume, Lexeme.scan]
  rfl

lemma resume_space {c : Char} (hc : Lexeme.isSpace c = true) (rest : List Char) :
    resume e (c :: rest) = resume e rest := by
  rw [resume, Lexeme.scan, if_pos hc, resume]

lemma resume_spaces (n : ℕ) (rest : List Char) :
    resume e (List.replicate n ' ' ++ rest) = resume e rest := by
  induction n with
  | zero => rfl
  | succ n ih =>
    rw [List.replicate_succ, List.cons_append, resume_space rfl, ih]

lemma scanOne_of_isSpace {c : Char} (hc : Lexeme.isSpace c = true) (rest : List Char) :
    Lexeme.scanOne (c :: rest) = none := by
  simp only [Lexeme.isSpace, Bool.or_eq_true, decide_eq_true_eq] at hc
  obtain ((rfl | rfl) | rfl) | rfl := hc <;> rfl

/-- One lexeme makes one step. -/
lemma resume_lexeme (h : Lexeme.scanOne cs = some (l, rest)) :
    resume e cs = (e.next l).bind (resume · rest) := by
  cases cs with
  | nil => cases h
  | cons c cs =>
    have hc : ¬ Lexeme.isSpace c = true := by
      intro hc
      rw [scanOne_of_isSpace hc] at h
      cases h
    have hscan : Lexeme.scan (c :: cs) = (Lexeme.scan rest).map (l :: ·) := by
      rw [Lexeme.scan, if_neg hc]
      split
      · next hnone => cases h.symm.trans hnone
      · next hsome =>
        cases h.symm.trans hsome
        rfl
    rw [resume, hscan, Option.bind_map]
    -- Where the rest cannot be cut into lexemes, nothing comes of either side.
    cases hrest : Lexeme.scan rest with
    | none =>
      cases e.next l with
      | none => rfl
      | some e =>
        show none = resume e rest
        rw [resume, hrest]
        rfl
    | some ls =>
      show (l :: ls).foldlM Expectation.next e = _
      rw [List.foldlM_cons]
      refine congrArg (Option.bind _) (funext fun e => ?_)
      rw [resume, hrest]
      rfl

/-- Reading a text is letting the machine run on it. -/
lemma readBytes_eq_some {s : String} {node : Node}
    (h : resume (.value []) (bytesOf s) = some (.nothing node)) :
    readBytes s.toUTF8 = some node := by
  rw [resume, Option.bind_eq_some_iff] at h
  obtain ⟨ls, hls, hnode⟩ := h
  rw [Lexeme.readBytes_toUTF8, hls, Option.bind_some, assemble, hnode]

/-- An empty text is no JSON. -/
lemma readBytes_of_isEmpty {bytes : ByteArray} (h : bytes.isEmpty = true) :
    readBytes bytes = none := by
  rw [ByteArray.isEmpty, beq_iff_eq] at h
  obtain rfl := ByteArray.size_eq_zero_iff.mp h
  rw [readBytes, ByteArray.toList_empty, List.map_nil, Lexeme.scan]
  rfl

lemma bytesOf_lineStart (level : ℕ) :
    bytesOf (Value.lineStart level) = '\n' :: List.replicate (2 * level) ' ' := by
  have hspaces : ∀ n, "".pushn ' ' n = String.ofList (List.replicate n ' ') := by
    intro n
    rw [String.pushn_eq_repeat_push]
    induction n with
    | zero => rfl
    | succ n ih =>
      rw [Nat.repeat, ih, List.replicate_succ', String.ofList_append]
      rfl
  have hbytes : bytesOf (String.ofList (List.replicate (2 * level) ' ')) =
      List.replicate (2 * level) ' ' := by
    refine Lexeme.bytesOf_ofList_of_ascii fun c hc => ?_
    rw [List.eq_of_mem_replicate hc]
    decide
  rw [Value.lineStart, bytesOf_append, hspaces, hbytes]
  rfl

lemma resume_lineStart (level : ℕ) (rest : List Char) :
    resume e (bytesOf (Value.lineStart level) ++ rest) = resume e rest := by
  rw [bytesOf_lineStart, List.cons_append, resume_space rfl, resume_spaces]

/-! ### Values -/

/-- The machine awaits a value inside open lists and objects.  The first item of a list is awaited
inside that list. -/
inductive Awaits : Expectation → List Frame → Prop
  | value (outer : List Frame) : Awaits (.value outer) outer
  | firstItem (outer : List Frame) : Awaits (.firstItem outer) (.list [] :: outer)

lemma Awaits.next (h : Awaits e outer) (hl : l ≠ .closeArray) :
    e.next l = Expectation.begin outer l := by
  cases h with
  | value => rfl
  | firstItem =>
    cases l with
    | closeArray => exact absurd rfl hl
    | _ => rfl

/-- The machine awaits a key of an object that has these members so far, the last first. -/
inductive AwaitsKey : Expectation → List (Option String × Node) → List Frame → Prop
  | firstKey (outer : List Frame) : AwaitsKey (.firstKey outer) [] outer
  | laterKey (members : List (Option String × Node)) (outer : List Frame) :
    AwaitsKey (.laterKey members outer) members outer

lemma AwaitsKey.next {members : List (Option String × Node)} (h : AwaitsKey e members outer)
    (key : Option String) : e.next (.text key) = some (.colon members key outer) := by
  cases h <;> rfl

/-- What follows the first part of a list or an object: the other parts, each behind a comma on a
line of its own, then the bracket that closes it, and what follows that. -/
def following (level : ℕ) (last : String) (rest : List Char) : List String → List Char
  | [] => bytesOf (Value.lineStart level) ++ (bytesOf last ++ rest)
  | p :: ps =>
    ',' :: (bytesOf (Value.lineStart (level + 1)) ++ (bytesOf p ++ following level last rest ps))

lemma endsNumber_following (level : ℕ) (last : String) (rest : List Char) (parts : List String) :
    EndsNumber (following level last rest parts) := by
  cases parts with
  | nil =>
    rw [following, bytesOf_lineStart]
    exact Lexeme.endsNumber_cons (by decide)
  | cons p ps => exact Lexeme.endsNumber_cons (by decide)

/-- Parts are parted by a comma and a new line. -/
lemma bytesOf_intercalate (level : ℕ) (last : String) (rest : List Char) (p : String)
    (ps : List String) :
    bytesOf (("," ++ Value.lineStart (level + 1)).intercalate (p :: ps)) ++
        (bytesOf (Value.lineStart level) ++ (bytesOf last ++ rest)) =
      bytesOf p ++ following level last rest ps := by
  induction ps generalizing p with
  | nil => rw [String.intercalate_singleton, following]
  | cons q qs ih =>
    rw [String.intercalate_cons_cons, bytesOf_append, bytesOf_append, bytesOf_append,
      List.append_assoc, List.append_assoc, List.append_assoc, ih, following]
    rfl

lemma bytesOf_bracketed (level : ℕ) (first last : String) (p : String) (ps : List String)
    (rest : List Char) :
    bytesOf (Value.bracketed level first last (p :: ps)) ++ rest =
      bytesOf first ++ (bytesOf (Value.lineStart (level + 1)) ++
        (bytesOf p ++ following level last rest ps)) := by
  have hbracketed : Value.bracketed level first last (p :: ps) =
      first ++ Value.lineStart (level + 1) ++
        ("," ++ Value.lineStart (level + 1)).intercalate (p :: ps) ++ Value.lineStart level ++ last :=
    rfl
  rw [hbracketed, ← bytesOf_intercalate]
  simp only [bytesOf_append, List.append_assoc]

end Machine

namespace Value

open Expectation (deliver closeList closeObject)

/-- Wherever a value is awaited inside few enough lists and objects that `depth` more may be opened,
its text is read as the value, and delivered to them. -/
def ReadBack (depth : ℕ) (v : Value) : Prop :=
  ∀ (level : ℕ) {e : Expectation} {outer : List Frame} {rest : List Char}, Awaits e outer →
    outer.length + depth ≤ nestingLimit → EndsNumber rest →
    resume e (bytesOf (v.prettyAt level) ++ rest) = resume (deliver (.ofValue v) outer) rest

variable {depth : ℕ} {v : Value} {outer : List Frame} {rest : List Char}

/-- A value that is written as one lexeme. -/
lemma readBack_of_lexeme {l : Lexeme} (hl : l ≠ .closeArray)
    (hbegin : ∀ outer, Expectation.begin outer l = some (deliver (.ofValue v) outer))
    (h : ∀ level rest, EndsNumber rest →
      Lexeme.scanOne (bytesOf (v.prettyAt level) ++ rest) = some (l, rest)) :
    v.ReadBack depth := by
  intro level e outer rest hawaits _ hrest
  rw [resume_lexeme (h level rest hrest), hawaits.next hl, hbegin, Option.bind_some]

lemma readBack_null : null.ReadBack depth :=
  readBack_of_lexeme (l := .scalar .null) (by simp) (fun _ => rfl) fun level rest _ => by
    rw [prettyAt]
    rfl

lemma readBack_bool (b : Bool) : (bool b).ReadBack depth :=
  readBack_of_lexeme (l := .scalar (.bool b)) (by simp) (fun _ => rfl) fun level rest _ => by
    rw [prettyAt]
    cases b <;> rfl

lemma readBack_string (s : String) : (string s).ReadBack depth :=
  readBack_of_lexeme (l := .text (some s)) (by simp) (fun _ => rfl) fun level rest _ => by
    rw [prettyAt]
    exact Lexeme.scanOne_renderString s rest

lemma readBack_integer {n : Int} (hlow : -(UInt64.size / 2 : ℕ) ≤ n) (hhigh : n < UInt64.size) :
    (number (.integer n)).ReadBack depth :=
  readBack_of_lexeme (l := .scalar (.number (.integer n))) (by simp) (fun _ => rfl)
    fun level rest hrest => by
      rw [prettyAt]
      exact Lexeme.scanOne_toString hlow hhigh hrest

/-! ### Lists -/

lemma closeList_eq (items : List Value) (h : outer.length < nestingLimit) :
    closeList (Node.ofItems items).reverse outer = .ofValue (.array items) := by
  rw [closeList, if_pos h, List.reverse_reverse, Node.ofValue]

lemma ofItems_concat (items : List Value) (v : Value) :
    (Node.ofItems (items ++ [v])).reverse = .ofValue v :: (Node.ofItems items).reverse := by
  have happend : ∀ items : List Value, Node.ofItems (items ++ [v]) =
      Node.ofItems items ++ [.ofValue v] := by
    intro items
    induction items with
    | nil => rfl
    | cons w items ih => exact congrArg (Node.ofValue w :: ·) ih
  rw [happend, List.reverse_append]
  rfl

/-- The items behind the first are read one after the other, then the end of the list. -/
lemma resume_items {items : List Value} (h : ∀ v ∈ items, v.ReadBack depth) (level : ℕ)
    (before : List Value) (hdepth : outer.length + (depth + 1) ≤ nestingLimit)
    (rest : List Char) :
    resume (.afterItem (Node.ofItems before).reverse outer)
        (following level "]" rest (prettyItems (level + 1) items)) =
      resume (deliver (.ofValue (.array (before ++ items))) outer) rest := by
  induction items generalizing before with
  | nil =>
    have hclose : Lexeme.scanOne (bytesOf "]" ++ rest) = some (.closeArray, rest) := rfl
    rw [prettyItems, following, resume_lineStart, List.append_nil,
      ← closeList_eq before (show outer.length < nestingLimit by omega), resume_lexeme hclose]
    rfl
  | cons v items ih =>
    obtain ⟨hv, hitems⟩ := List.forall_mem_cons.mp h
    have hdeep : (Frame.list (Node.ofItems before).reverse :: outer).length + depth ≤
        nestingLimit := by
      rw [List.length_cons]
      omega
    have hcomma : ∀ cs, Lexeme.scanOne (',' :: cs) = some (.comma, cs) := fun _ => rfl
    rw [prettyItems, following, resume_lexeme (hcomma _)]
    -- Behind the comma a value is awaited inside the list.
    show resume (.value (.list (Node.ofItems before).reverse :: outer)) _ = _
    rw [resume_lineStart, hv (level + 1) (.value _) hdeep (endsNumber_following _ _ _ _)]
    show resume (.afterItem (.ofValue v :: (Node.ofItems before).reverse) outer) _ = _
    rw [← ofItems_concat, ih hitems, List.append_assoc]
    rfl

lemma readBack_array {items : List Value} (h : ∀ v ∈ items, v.ReadBack depth) :
    (array items).ReadBack (depth + 1) := by
  intro level e outer rest hawaits hdepth _
  have hopen : ∀ cs, Lexeme.scanOne (bytesOf "[" ++ cs) = some (.openArray, cs) := fun _ => rfl
  rw [prettyAt]
  cases items with
  | nil =>
    have hclose : ∀ cs, Lexeme.scanOne (bytesOf "]" ++ cs) = some (.closeArray, cs) := fun _ => rfl
    rw [prettyItems, bracketed, bytesOf_append, List.append_assoc, resume_lexeme (hopen _),
      hawaits.next (by simp)]
    show resume (.firstItem outer) _ = _
    rw [resume_lexeme (hclose _), ← closeList_eq [] (show outer.length < nestingLimit by omega)]
    rfl
  | cons v items =>
    obtain ⟨hv, hitems⟩ := List.forall_mem_cons.mp h
    have hdeep : (Frame.list [] :: outer).length + depth ≤ nestingLimit := by
      rw [List.length_cons]
      omega
    rw [prettyItems, bytesOf_bracketed, resume_lexeme (hopen _), hawaits.next (by simp)]
    show resume (.firstItem outer) _ = _
    rw [resume_lineStart, hv (level + 1) (.firstItem _) hdeep (endsNumber_following _ _ _ _)]
    exact resume_items hitems level [v] hdepth rest

/-! ### Objects -/

/-- Members as the machine keeps them, the last first. -/
def kept (members : List (String × Value)) : List (Option String × Node) :=
  (members.map fun m => (some m.1, .ofValue m.2)).reverse

lemma kept_concat (members : List (String × Value)) (m : String × Value) :
    kept (members ++ [m]) = (some m.1, .ofValue m.2) :: kept members := by
  rw [kept, List.map_append, List.reverse_append]
  rfl

lemma closeObject_eq (members : List (String × Value)) (h : outer.length < nestingLimit) :
    closeObject (kept members) outer = .ofValue (.object members) := by
  have hmembers : (members.map fun m => (some m.1, Node.ofValue m.2)).mapM
      (fun m : Option String × Node => m.1.map (·, m.2)) = some (Node.ofMembers members) := by
    induction members with
    | nil => rfl
    | cons m members ih =>
      rw [List.map_cons, List.mapM_cons, ih]
      rfl
  rw [closeObject, if_pos h, kept, List.reverse_reverse, hmembers, Node.ofValue]

/-- A member is read where its key is awaited. -/
lemma resume_member {e : Expectation} {before : List (String × Value)} {m : String × Value}
    (hm : m.2.ReadBack depth) (level : ℕ) (hawaits : AwaitsKey e (kept before) outer)
    (hdepth : outer.length + (depth + 1) ≤ nestingLimit) (hrest : EndsNumber rest) :
    resume e (bytesOf (renderString m.1 ++ ": " ++ m.2.prettyAt level) ++ rest) =
      resume (.afterMember (kept (before ++ [m])) outer) rest := by
  have hcolon : ∀ cs, Lexeme.scanOne (bytesOf ": " ++ cs) = some (.colon, ' ' :: cs) := fun _ => rfl
  have hdeep : (Frame.object (kept before) (some m.1) :: outer).length + depth ≤ nestingLimit := by
    rw [List.length_cons]
    omega
  rw [bytesOf_append, bytesOf_append, List.append_assoc, List.append_assoc,
    resume_lexeme (Lexeme.scanOne_renderString _ _), hawaits.next]
  show resume (.colon (kept before) (some m.1) outer) _ = _
  rw [resume_lexeme (hcolon _)]
  -- The space behind the colon stands in front of the value.
  show resume (.value (.object (kept before) (some m.1) :: outer)) _ = _
  rw [resume_space rfl, hm level (.value _) hdeep hrest, kept_concat]
  rfl

/-- The members behind the first are read one after the other, then the end of the object. -/
lemma resume_members {members : List (String × Value)} (h : ∀ m ∈ members, m.2.ReadBack depth)
    (level : ℕ) (before : List (String × Value))
    (hdepth : outer.length + (depth + 1) ≤ nestingLimit) (rest : List Char) :
    resume (.afterMember (kept before) outer)
        (following level "\x7d" rest (prettyMembers (level + 1) members)) =
      resume (deliver (.ofValue (.object (before ++ members))) outer) rest := by
  induction members generalizing before with
  | nil =>
    have hclose : Lexeme.scanOne (bytesOf "\x7d" ++ rest) = some (.closeObject, rest) := rfl
    rw [prettyMembers, following, resume_lineStart, List.append_nil,
      ← closeObject_eq before (show outer.length < nestingLimit by omega), resume_lexeme hclose]
    rfl
  | cons m members ih =>
    obtain ⟨hm, hmembers⟩ := List.forall_mem_cons.mp h
    have hcomma : ∀ cs, Lexeme.scanOne (',' :: cs) = some (.comma, cs) := fun _ => rfl
    rw [prettyMembers, following, resume_lexeme (hcomma _)]
    -- Behind the comma a key is awaited.
    show resume (.laterKey (kept before) outer) _ = _
    rw [resume_lineStart,
      resume_member hm (level + 1) (.laterKey _ _) hdepth (endsNumber_following _ _ _ _),
      ih hmembers, List.append_assoc]
    rfl

lemma readBack_object {members : List (String × Value)} (h : ∀ m ∈ members, m.2.ReadBack depth) :
    (object members).ReadBack (depth + 1) := by
  intro level e outer rest hawaits hdepth _
  have hopen : ∀ cs, Lexeme.scanOne (bytesOf "\x7b" ++ cs) = some (.openObject, cs) :=
    fun _ => rfl
  rw [prettyAt]
  cases members with
  | nil =>
    have hclose : ∀ cs, Lexeme.scanOne (bytesOf "\x7d" ++ cs) = some (.closeObject, cs) :=
      fun _ => rfl
    rw [prettyMembers, bracketed, bytesOf_append, List.append_assoc, resume_lexeme (hopen _),
      hawaits.next (by simp)]
    show resume (.firstKey outer) _ = _
    rw [resume_lexeme (hclose _), ← closeObject_eq [] (show outer.length < nestingLimit by omega)]
    rfl
  | cons m members =>
    obtain ⟨hm, hmembers⟩ := List.forall_mem_cons.mp h
    have hfirst : AwaitsKey (.firstKey outer) (kept []) outer := .firstKey outer
    rw [prettyMembers, bytesOf_bracketed, resume_lexeme (hopen _), hawaits.next (by simp)]
    show resume (.firstKey outer) _ = _
    rw [resume_lineStart,
      resume_member hm (level + 1) hfirst hdepth (endsNumber_following _ _ _ _)]
    exact resume_members hmembers level [m] hdepth rest

/-! ### Texts -/

/-- A value without doubles, with integers in their range, in which no more than so many lists and
objects stand one inside the other. -/
inductive Plain : ℕ → Value → Prop
  | null {depth : ℕ} : Plain depth .null
  | bool {depth : ℕ} (b : Bool) : Plain depth (.bool b)
  | integer {depth : ℕ} {n : Int} (low : -(UInt64.size / 2 : ℕ) ≤ n) (high : n < UInt64.size) :
    Plain depth (.number (.integer n))
  | string {depth : ℕ} (s : String) : Plain depth (.string s)
  | array {depth : ℕ} {items : List Value} (h : ∀ v ∈ items, Plain depth v) :
    Plain (depth + 1) (.array items)
  | object {depth : ℕ} {members : List (String × Value)} (h : ∀ m ∈ members, Plain depth m.2) :
    Plain (depth + 1) (.object members)

lemma Plain.readBack (h : Plain depth v) : v.ReadBack depth := by
  induction h with
  | null => exact readBack_null
  | bool b => exact readBack_bool b
  | integer low high => exact readBack_integer low high
  | string s => exact readBack_string s
  | array _ ih => exact readBack_array ih
  | object _ ih => exact readBack_object ih

lemma Plain.record {fields : List (String × Option Value)}
    (h : ∀ f ∈ fields, ∀ v ∈ f.2, Plain depth v) : Plain (depth + 1) (.record fields) := by
  refine .object fun m hm => ?_
  obtain ⟨f, hf, hmap⟩ := List.mem_filterMap.mp hm
  obtain ⟨v, hv, rfl⟩ := Option.map_eq_some_iff.mp hmap
  exact h f hf v hv

lemma plain_ofNat {n : ℕ} (h : n < UInt64.size) : Plain depth (.ofNat n) :=
  .integer (by omega) (Int.ofNat_lt.mpr h)

/-- The text of a value is read as the value. -/
def Legible (v : Value) : Prop := readBytes v.pretty.toUTF8 = some (.ofValue v)

/-- **Plain values are read back from their texts**, at most 127 lists and objects one inside the
other. -/
theorem Plain.legible (h : Plain nestingLimit v) : v.Legible := by
  have hread : resume (.value []) (bytesOf (v.prettyAt 0) ++ []) =
      resume (deliver (.ofValue v) []) [] :=
    h.readBack 0 (.value []) (Nat.zero_add _).le (by rintro _ ⟨⟩)
  rw [List.append_nil, resume_nil] at hread
  exact readBytes_eq_some hread

lemma Legible.isEmpty_eq_false (h : v.Legible) : v.pretty.toUTF8.isEmpty = false := by
  by_contra hempty
  rw [Bool.not_eq_false] at hempty
  rw [Legible, readBytes_of_isEmpty hempty] at h
  cases h

end Value

/-- A decoder that reads a document reads it from its text. -/
lemma Decoder.Reads.readBytes {α : Type} {d : Decoder α} {v : Value} {a : α} (h : d.Reads v a)
    (hv : v.Legible) : d.readBytes v.pretty.toUTF8 = .ok a := by
  rw [Decoder.readBytes, hv]
  exact h _ (Value.writtenAs_ofValue v)

end ComponentTree.Json
