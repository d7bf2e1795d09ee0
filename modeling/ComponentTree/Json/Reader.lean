/-
# Reading JSON

Reading goes in two passes.  The first cuts the text into lexemes (`Lexeme.scan`), the second
puts the lexemes together to a node, keeping the lists and objects that are still open on a
stack (`assemble`).  Either pass fails on a text that is not JSON, and failing is all that is
said about such a text.

The first pass looks at the bytes of the text, a byte being held as the character with its
number.  Only between quotation marks may a byte be other than ASCII, and only there does it
matter whether the bytes are UTF-8; a text that is not is unreadable.
-/
import ComponentTree.Json.Node

namespace ComponentTree.Json

/-! ### Lexemes -/

/-- The smallest parts of a JSON text. -/
inductive Lexeme where
  | openArray
  | closeArray
  | openObject
  | closeObject
  | comma
  | colon
  /-- A text; `none` if it has half of a surrogate pair or is not UTF-8. -/
  | text (content : Option String)
  /-- A literal other than a text. -/
  | scalar (node : Node)

namespace Lexeme

/-- A part of a text between its quotation marks: a byte, or the 16-bit unit that an escape
`\u` gives. -/
inductive Piece where
  | byte (c : Char)
  | unit (n : Nat)

/-- The value of a hexadecimal digit. -/
def hexDigit? (c : Char) : Option Nat :=
  if '0' ≤ c ∧ c ≤ '9' then some (c.toNat - '0'.toNat)
  else if 'a' ≤ c ∧ c ≤ 'f' then some (c.toNat - 'a'.toNat + 10)
  else if 'A' ≤ c ∧ c ≤ 'F' then some (c.toNat - 'A'.toNat + 10)
  else none

/-- The 16-bit unit of four hexadecimal digits. -/
def unit? (a b c d : Char) : Option Nat := do
  let a ← hexDigit? a
  let b ← hexDigit? b
  let c ← hexDigit? c
  let d ← hexDigit? d
  return ((a * 16 + b) * 16 + c) * 16 + d

/-- The character behind a backslash that stands for one character. -/
def escape? : Char → Option Char
  | '"' => some '"'
  | '\\' => some '\\'
  | '/' => some '/'
  | 'b' => some '\x08'
  | 'f' => some '\x0c'
  | 'n' => some '\n'
  | 'r' => some '\r'
  | 't' => some '\t'
  | _ => none

/-- The pieces of a text up to its closing quotation mark, and what follows the mark. -/
def scanText : List Char → Option (List Piece × List Char)
  | [] => none
  | '"' :: rest => some ([], rest)
  | '\\' :: 'u' :: a :: b :: c :: d :: rest => do
    let n ← unit? a b c d
    let (pieces, rest) ← scanText rest
    return (.unit n :: pieces, rest)
  | '\\' :: e :: rest => do
    let c ← escape? e
    let (pieces, rest) ← scanText rest
    return (.byte c :: pieces, rest)
  | c :: rest =>
    if c.toNat < 0x20 ∨ c = '\\' then none
    else do
      let (pieces, rest) ← scanText rest
      return (.byte c :: pieces, rest)

/-- Put pieces together to the bytes of a text; a high and a low surrogate in a row are one
character, and a surrogate without its partner is none. -/
def join : List Piece → Option (List UInt8)
  | [] => some []
  | .byte c :: rest => (join rest).map (c.toNat.toUInt8 :: ·)
  | .unit n :: rest =>
    if n < 0xD800 ∨ 0xDFFF < n then
      (join rest).map (String.utf8EncodeChar (Char.ofNat n) ++ ·)
    else
      match rest with
      | .unit l :: rest =>
        if n < 0xDC00 ∧ 0xDC00 ≤ l ∧ l ≤ 0xDFFF then
          let c := Char.ofNat (0x10000 + (n - 0xD800) * 0x400 + (l - 0xDC00))
          (join rest).map (String.utf8EncodeChar c ++ ·)
        else none
      | _ => none

/-- The text that pieces make, if they make one. -/
def content (pieces : List Piece) : Option String :=
  (join pieces).bind fun bytes => String.fromUTF8? ⟨bytes.toArray⟩

/-- The digits at the front of a text, and what follows them. -/
def scanDigits (cs : List Char) : List Nat × List Char :=
  ((cs.takeWhile Char.isDigit).map fun c => c.toNat - '0'.toNat, cs.dropWhile Char.isDigit)

/-- The fraction at the front of a text, if it begins with a point. -/
def scanFraction : List Char → Option (Option (List Nat) × List Char)
  | '.' :: rest =>
    match scanDigits rest with
    | ([], _) => none
    | (digits, rest) => some (some digits, rest)
  | rest => some (none, rest)

/-- The sign at the front of a text, if there is one: whether it is a minus. -/
def scanSign : List Char → Bool × List Char
  | '-' :: rest => (true, rest)
  | '+' :: rest => (false, rest)
  | rest => (false, rest)

/-- The exponent at the front of a text, if it begins with an `e`. -/
def scanExponent : List Char → Option (Option Int × List Char)
  | [] => some (none, [])
  | c :: rest =>
    if c = 'e' ∨ c = 'E' then
      match scanDigits (scanSign rest).2 with
      | ([], _) => none
      | (digits, rest') =>
        let n : Int := Number.Literal.ofDigits digits
        some (some (if (scanSign rest).1 then -n else n), rest')
    else some (none, c :: rest)

/-- A number without its sign at the front of a text.  A zero in front of the point stands
alone. -/
def scanUnsigned (negative : Bool) (cs : List Char) : Option (Lexeme × List Char) := do
  let whole := (scanDigits cs).1
  if whole = [] ∨ (whole.head? = some 0 ∧ whole ≠ [0]) then none
  else
    let (fraction, rest) ← scanFraction (scanDigits cs).2
    let (exponent, rest) ← scanExponent rest
    let literal : Number.Literal := ⟨negative, whole, fraction, exponent⟩
    match literal.number? with
    | some n => return (.scalar (.number n), rest)
    | none => return (.scalar .unreadable, rest)

/-- A number at the front of a text. -/
def scanNumber : List Char → Option (Lexeme × List Char)
  | '-' :: rest => scanUnsigned true rest
  | cs => scanUnsigned false cs

/-- The lexeme at the front of a text that does not begin with a space. -/
def scanOne : List Char → Option (Lexeme × List Char)
  | '[' :: rest => some (.openArray, rest)
  | ']' :: rest => some (.closeArray, rest)
  | '\x7b' :: rest => some (.openObject, rest)
  | '\x7d' :: rest => some (.closeObject, rest)
  | ',' :: rest => some (.comma, rest)
  | ':' :: rest => some (.colon, rest)
  | '"' :: rest => do
    let (pieces, rest) ← scanText rest
    return (.text (content pieces), rest)
  | 'n' :: 'u' :: 'l' :: 'l' :: rest => some (.scalar .null, rest)
  | 't' :: 'r' :: 'u' :: 'e' :: rest => some (.scalar (.bool true), rest)
  | 'f' :: 'a' :: 'l' :: 's' :: 'e' :: rest => some (.scalar (.bool false), rest)
  | cs => scanNumber cs

/-- The space between lexemes. -/
def isSpace (c : Char) : Bool := c = ' ' || c = '\t' || c = '\n' || c = '\r'

/-! ### Each lexeme takes at least one character -/

theorem scanText_length : ∀ {cs : List Char} {ps : List Piece} {rest : List Char},
    scanText cs = some (ps, rest) → rest.length < cs.length := by
  intro cs
  fun_induction scanText cs with
  | case1 => simp
  | case2 rest => intro ps r h; simp only [Option.some.injEq, Prod.mk.injEq] at h; simp [h.2]
  | case3 a b c d rest ih =>
    intro ps r h
    simp only [Option.bind_eq_bind, Option.bind_eq_some_iff] at h
    obtain ⟨n, -, ⟨ps', r'⟩, h', h⟩ := h
    simp only [Option.pure_def, Option.some.injEq, Prod.mk.injEq] at h
    have := ih h'
    simp only [List.length_cons, ← h.2]
    omega
  | case4 e rest _ ih =>
    intro ps r h
    simp only [Option.bind_eq_bind, Option.bind_eq_some_iff] at h
    obtain ⟨n, -, ⟨ps', r'⟩, h', h⟩ := h
    simp only [Option.pure_def, Option.some.injEq, Prod.mk.injEq] at h
    have := ih h'
    simp only [List.length_cons, ← h.2]
    omega
  | case5 => simp
  | case6 c rest _ _ _ _ ih =>
    intro ps r h
    simp only [Option.bind_eq_bind, Option.bind_eq_some_iff] at h
    obtain ⟨⟨ps', r'⟩, h', h⟩ := h
    simp only [Option.pure_def, Option.some.injEq, Prod.mk.injEq] at h
    have := ih h'
    simp only [List.length_cons, ← h.2]
    omega

theorem scanDigits_length {cs : List Char} {digits : List Nat} {rest : List Char}
    (h : scanDigits cs = (digits, rest)) (hne : digits ≠ []) : rest.length < cs.length := by
  simp only [scanDigits, Prod.mk.injEq] at h
  obtain ⟨rfl, rfl⟩ := h
  have hsum := congrArg List.length (List.takeWhile_append_dropWhile (p := Char.isDigit) (l := cs))
  have hpos : 0 < (cs.takeWhile Char.isDigit).length :=
    List.length_pos_iff.mpr fun h0 => hne (by rw [h0]; rfl)
  rw [List.length_append] at hsum
  omega

theorem scanFraction_length {cs : List Char} {fraction : Option (List Nat)} {rest : List Char}
    (h : scanFraction cs = some (fraction, rest)) : rest.length ≤ cs.length := by
  unfold scanFraction at h
  split at h
  · split at h
    · simp at h
    · next hne hs =>
      simp only [Option.some.injEq, Prod.mk.injEq] at h
      have := scanDigits_length hs fun h0 => hne (h0 ▸ rfl)
      simp only [List.length_cons, ← h.2]
      omega
  · simp only [Option.some.injEq, Prod.mk.injEq] at h
    simp [h.2]

theorem scanSign_length (cs : List Char) : (scanSign cs).2.length ≤ cs.length := by
  unfold scanSign
  split <;> simp

theorem scanExponent_length {cs : List Char} {exponent : Option Int} {rest : List Char}
    (h : scanExponent cs = some (exponent, rest)) : rest.length ≤ cs.length := by
  unfold scanExponent at h
  split at h
  · simp only [Option.some.injEq, Prod.mk.injEq] at h
    simp [h.2]
  · next c cs =>
    split at h
    · split at h
      · simp at h
      · next hne hs =>
        simp only [Option.some.injEq, Prod.mk.injEq] at h
        have := scanDigits_length hs fun h0 => hne (h0 ▸ rfl)
        have := scanSign_length cs
        simp only [List.length_cons, ← h.2]
        omega
    · simp only [Option.some.injEq, Prod.mk.injEq] at h
      simp [h.2]

theorem scanUnsigned_length {negative : Bool} {cs : List Char} {l : Lexeme} {rest : List Char}
    (h : scanUnsigned negative cs = some (l, rest)) : rest.length < cs.length := by
  unfold scanUnsigned at h
  dsimp only at h
  split at h
  · simp at h
  · next hne =>
    simp only [Option.bind_eq_bind, Option.bind_eq_some_iff] at h
    obtain ⟨⟨f, r₁⟩, hf, ⟨e, r₂⟩, he, h⟩ := h
    have h₁ : (scanDigits cs).2.length < cs.length :=
      scanDigits_length rfl fun h0 => hne (.inl h0)
    have h₂ := scanFraction_length hf
    have h₃ : r₂.length ≤ r₁.length := scanExponent_length he
    have hr : rest = r₂ := by
      dsimp only at h
      split at h <;> simp_all
    rw [hr]
    omega

theorem scanNumber_length {cs : List Char} {l : Lexeme} {rest : List Char}
    (h : scanNumber cs = some (l, rest)) : rest.length < cs.length := by
  unfold scanNumber at h
  split at h
  · have := scanUnsigned_length h
    simp only [List.length_cons]
    omega
  · exact scanUnsigned_length h

/-- A lexeme takes at least one character. -/
theorem scanOne_length {cs : List Char} {l : Lexeme} {rest : List Char}
    (h : scanOne cs = some (l, rest)) : rest.length < cs.length := by
  unfold scanOne at h
  split at h
  case h_7 =>
    simp only [Option.bind_eq_bind, Option.bind_eq_some_iff] at h
    obtain ⟨⟨ps, r⟩, hs, h⟩ := h
    simp only [Option.pure_def, Option.some.injEq, Prod.mk.injEq] at h
    have := scanText_length hs
    simp only [List.length_cons, ← h.2]
    omega
  case h_11 => exact scanNumber_length h
  all_goals
    simp only [Option.some.injEq, Prod.mk.injEq] at h
    simp only [List.length_cons, ← h.2]
    omega

/-- The lexemes of a text. -/
def scan (cs : List Char) : Option (List Lexeme) :=
  match cs with
  | [] => some []
  | c :: rest =>
    if isSpace c then scan rest
    else
      match _h : scanOne (c :: rest) with
      | none => none
      | some (l, rest') => (scan rest').map (l :: ·)
termination_by cs.length
decreasing_by
  · simp
  · exact scanOne_length ‹_›

end Lexeme

/-! ### From lexemes to a node -/

/-- A list or object that waits for its next item or for the value of a key.  What it has so
far stands last first; a key that cannot be read is none. -/
inductive Frame where
  | list (items : List Node)
  | object (members : List (Option String × Node)) (key : Option String)

/-- What may come next, inside which open lists and objects. -/
inductive Expectation where
  /-- A value. -/
  | value (outer : List Frame)
  /-- The first item of a list, or its end. -/
  | firstItem (outer : List Frame)
  /-- The first key of an object, or its end. -/
  | firstKey (outer : List Frame)
  /-- A further key of an object. -/
  | laterKey (members : List (Option String × Node)) (outer : List Frame)
  /-- The colon behind a key. -/
  | colon (members : List (Option String × Node)) (key : Option String) (outer : List Frame)
  /-- A comma or the end of a list. -/
  | afterItem (items : List Node) (outer : List Frame)
  /-- A comma or the end of an object. -/
  | afterMember (members : List (Option String × Node)) (outer : List Frame)
  /-- Nothing: the text is complete. -/
  | nothing (node : Node)

/-- How many lists and objects may stand one inside the other. -/
def nestingLimit : Nat := 127

namespace Expectation

/-- What may come once a node is complete. -/
def deliver (node : Node) : List Frame → Expectation
  | [] => .nothing node
  | .list items :: outer => .afterItem (node :: items) outer
  | .object members key :: outer => .afterMember ((key, node) :: members) outer

/-- The node of a closed list. -/
def closeList (items : List Node) (outer : List Frame) : Node :=
  if outer.length < nestingLimit then .array items.reverse else .unreadable

/-- The node of a closed object. -/
def closeObject (members : List (Option String × Node)) (outer : List Frame) : Node :=
  if outer.length < nestingLimit then
    match members.reverse.mapM fun m => m.1.map (·, m.2) with
    | some members => .object members
    | none => .unreadable
  else .unreadable

/-- What may come once a lexeme has begun a value. -/
def begin (outer : List Frame) : Lexeme → Option Expectation
  | .openArray => some (.firstItem outer)
  | .openObject => some (.firstKey outer)
  | .text (some s) => some (deliver (.string s) outer)
  | .text none => some (deliver .unreadable outer)
  | .scalar node => some (deliver node outer)
  | _ => none

/-- What may come after one more lexeme, if it may come itself. -/
def next : Expectation → Lexeme → Option Expectation
  | .value outer, l => begin outer l
  | .firstItem outer, .closeArray => some (deliver (closeList [] outer) outer)
  | .firstItem outer, l => begin (.list [] :: outer) l
  | .firstKey outer, .closeObject => some (deliver (closeObject [] outer) outer)
  | .firstKey outer, .text key => some (.colon [] key outer)
  | .laterKey members outer, .text key => some (.colon members key outer)
  | .colon members key outer, .colon => some (.value (.object members key :: outer))
  | .afterItem items outer, .comma => some (.value (.list items :: outer))
  | .afterItem items outer, .closeArray => some (deliver (closeList items outer) outer)
  | .afterMember members outer, .comma => some (.laterKey members outer)
  | .afterMember members outer, .closeObject => some (deliver (closeObject members outer) outer)
  | _, _ => none

end Expectation

/-- The node that lexemes make, if they make one. -/
def assemble (lexemes : List Lexeme) : Option Node :=
  match lexemes.foldlM Expectation.next (.value []) with
  | some (.nothing node) => some node
  | _ => none

/-- Read the bytes of a JSON text. -/
def readBytes (bytes : ByteArray) : Option Node :=
  (Lexeme.scan (bytes.toList.map fun b => Char.ofNat b.toNat)).bind assemble

/-- Read a JSON text. -/
def read (text : String) : Option Node := readBytes text.toUTF8

end ComponentTree.Json
