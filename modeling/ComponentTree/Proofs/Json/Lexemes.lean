/-
# Lexemes are read as they were written

A document is written character by character and read byte by byte.  What is written of a text
between its quotation marks (`escapedChar`), and of an integer, is cut into one lexeme again, whatever
follows it (`scanOne_renderString`, `scanOne_toString`); only of an integer the end has to be
seen, so what follows must not go on with the number (`EndsNumber`).

A character is written in one of three ways (`escapedChar_cases`), and that is the only place where
single characters are looked at.
-/
import ComponentTree.Json.Printer
import ComponentTree.Json.Reader
import Mathlib.Data.List.Basic
import Mathlib.Tactic.IntervalCases
import Mathlib.Tactic.Lemma

namespace ComponentTree.Json

namespace Lexeme

/-! ### Bytes -/

/-- A byte as the character with its number. -/
def byteChar (b : UInt8) : Char := Char.ofNat b.toNat

/-- The bytes of a text as the reader looks at them. -/
def bytesOf (s : String) : List Char := (s.toList.flatMap String.utf8EncodeChar).map byteChar

lemma toNat_byteChar (b : UInt8) : (byteChar b).toNat = b.toNat := by
  have hvalid : b.toNat.isValidChar := .inl (by have := b.toNat_lt; omega)
  rw [byteChar, Char.ofNat, dif_pos hvalid]
  rfl

lemma bytesOf_append (s t : String) : bytesOf (s ++ t) = bytesOf s ++ bytesOf t := by
  rw [bytesOf, String.toList_append, List.flatMap_append, List.map_append, bytesOf, bytesOf]

/-- An ASCII character is a single byte. -/
lemma utf8EncodeChar_of_ascii {c : Char} (hc : c.toNat < 128) :
    String.utf8EncodeChar c = [c.toNat.toUInt8] :=
  String.utf8EncodeChar_eq_singleton (Char.utf8Size_eq_one_iff.mpr (Nat.le_of_lt_succ hc))

/-- Every byte of a character beyond ASCII is beyond ASCII. -/
lemma le_of_mem_utf8EncodeChar {c : Char} (hc : 128 ≤ c.toNat) {b : UInt8}
    (hb : b ∈ String.utf8EncodeChar c) : 128 ≤ b.toNat := by
  have hhigh : ∀ d k : ℕ, d + k < 256 → 128 ≤ k → 128 ≤ (UInt8.ofNat (d + k)).toNat := by
    intro d k hd hk
    rw [UInt8.toNat_ofNat', Nat.mod_eq_of_lt hd]
    omega
  rw [Char.toNat] at hc
  rw [String.utf8EncodeChar, if_neg (by omega)] at hb
  split at hb
  · simp only [List.mem_cons, List.not_mem_nil, or_false] at hb
    obtain rfl | rfl := hb <;> exact hhigh _ _ (by omega) (by omega)
  split at hb
  · simp only [List.mem_cons, List.not_mem_nil, or_false] at hb
    obtain rfl | rfl | rfl := hb <;> exact hhigh _ _ (by omega) (by omega)
  · simp only [List.mem_cons, List.not_mem_nil, or_false] at hb
    obtain rfl | rfl | rfl | rfl := hb <;> exact hhigh _ _ (by omega) (by omega)

lemma bytesOf_ofList_of_ascii {cs : List Char} (hcs : ∀ c ∈ cs, c.toNat < 128) :
    bytesOf (String.ofList cs) = cs := by
  rw [bytesOf, String.toList_ofList]
  induction cs with
  | nil => rfl
  | cons c cs ih =>
    obtain ⟨hc, hcs⟩ := List.forall_mem_cons.mp hcs
    have hbyte : c.toNat.toUInt8.toNat = c.toNat := Nat.mod_eq_of_lt (by omega)
    rw [List.flatMap_cons, List.map_append, ih hcs, utf8EncodeChar_of_ascii hc, List.map_singleton,
      byteChar, hbyte, Char.ofNat_toNat]
    rfl

lemma loop_toList (bytes : ByteArray) (i : ℕ) (r : List UInt8) :
    ByteArray.toList.loop bytes i r = r.reverse ++ bytes.data.toList.drop i := by
  fun_induction ByteArray.toList.loop bytes i r with
  | case1 i r hi ih =>
    have hbyte : bytes.get! i = bytes.data[i] := getElem!_pos bytes.data i hi
    have hdrop : bytes.data.toList.drop i = bytes.data[i] :: bytes.data.toList.drop (i + 1) :=
      List.drop_eq_getElem_cons (show i < bytes.data.toList.length from hi)
    rw [ih, hdrop, hbyte, List.reverse_cons, List.append_assoc]
    rfl
  | case2 i r hi => rw [List.drop_of_length_le (Nat.le_of_not_lt hi), List.append_nil]

/-- The reader looks at the bytes of the characters, one character after the other. -/
lemma readBytes_toUTF8 (s : String) : readBytes s.toUTF8 = (scan (bytesOf s)).bind assemble := by
  have hbytes : s.toUTF8.toList = s.toList.flatMap String.utf8EncodeChar := by
    rw [ByteArray.toList, loop_toList, String.toUTF8_eq_toByteArray, ← String.utf8Encode_toList,
      List.utf8Encode, List.data_toByteArray]
    rfl
  rw [readBytes, hbytes]
  rfl

/-! ### Texts in quotation marks -/

/-- A character is written in one of three ways: by a letter behind a backslash, by its number, or
as it is. -/
lemma escapedChar_cases (c : Char) :
    (c.toNat < 128 ∧ ∃ e, e ≠ 'u' ∧ bytesOf (escapedChar c) = ['\\', e] ∧ escape? e = some c) ∨
    (c.toNat < 32 ∧ ∃ p q r s, bytesOf (escapedChar c) = ['\\', 'u', p, q, r, s] ∧
      unit? p q r s = some c.toNat) ∨
    (32 ≤ c.toNat ∧ c ≠ '"' ∧ c ≠ '\\' ∧ escapedChar c = c.toString) := by
  by_cases hquote : c = '"'
  · subst hquote
    exact .inl ⟨by decide, '"', by decide, rfl, rfl⟩
  by_cases hslash : c = '\\'
  · subst hslash
    exact .inl ⟨by decide, '\\', by decide, rfl, rfl⟩
  by_cases hcontrol : c.toNat < 32
  -- Each control character is looked at for itself: five have letters, the others numbers.
  · obtain ⟨n, hn, rfl⟩ : ∃ n < 32, c = Char.ofNat n := ⟨_, hcontrol, (Char.ofNat_toNat c).symm⟩
    clear hquote hslash hcontrol
    interval_cases n
    all_goals first
      | exact .inl ⟨by decide, _, by decide, rfl, rfl⟩
      | exact .inr (.inl ⟨by decide, _, _, _, _, rfl, rfl⟩)
  · refine .inr (.inr ⟨Nat.le_of_not_lt hcontrol, hquote, hslash, ?_⟩)
    have hne : ∀ d : Char, d.toNat < 32 → c ≠ d := fun d hd h => hcontrol (h ▸ hd)
    rw [escapedChar, if_neg hquote, if_neg hslash, if_neg (hne _ (by decide)),
      if_neg (hne _ (by decide)), if_neg (hne _ (by decide)), if_neg (hne _ (by decide)),
      if_neg (hne _ (by decide)), if_neg hcontrol]

/-- Bytes that mean nothing between quotation marks but themselves. -/
lemma scanText_bytes {bytes : List UInt8}
    (h : ∀ b ∈ bytes, 32 ≤ b.toNat ∧ byteChar b ≠ '"' ∧ byteChar b ≠ '\\') (rest : List Char) :
    scanText (bytes.map byteChar ++ rest) =
      (scanText rest).map fun r => (bytes.map (.byte ∘ byteChar) ++ r.1, r.2) := by
  induction bytes with
  | nil => simp
  | cons b bytes ih =>
    obtain ⟨⟨hb, hquote, hslash⟩, hbytes⟩ := List.forall_mem_cons.mp h
    have hcontrol : ¬ ((byteChar b).toNat < 0x20 ∨ byteChar b = '\\') := by
      rw [toNat_byteChar]
      exact not_or_intro (Nat.not_lt.mpr hb) hslash
    rw [List.map_cons, List.cons_append, scanText, if_neg hcontrol, ih hbytes]
    · cases scanText rest <;> rfl
    · exact hquote
    · exact fun _ _ _ _ _ hb => absurd hb hslash
    · exact fun _ _ hb => absurd hb hslash

/-- A quotation mark or a backslash is never part of a longer character. -/
lemma stands_of_mem_utf8EncodeChar {c : Char} {b : UInt8} (hc : 32 ≤ c.toNat) (hquote : c ≠ '"')
    (hslash : c ≠ '\\') (hb : b ∈ String.utf8EncodeChar c) :
    32 ≤ b.toNat ∧ byteChar b ≠ '"' ∧ byteChar b ≠ '\\' := by
  by_cases hascii : c.toNat < 128
  · rw [utf8EncodeChar_of_ascii hascii, List.mem_singleton] at hb
    have hbyte : b.toNat = c.toNat := hb ▸ Nat.mod_eq_of_lt (by omega)
    rw [byteChar, hbyte, Char.ofNat_toNat]
    exact ⟨hc, hquote, hslash⟩
  · have hhigh := le_of_mem_utf8EncodeChar (Nat.le_of_not_lt hascii) hb
    have hne : ∀ d : Char, d.toNat < 128 → byteChar b ≠ d := by
      rintro _ hd rfl
      rw [toNat_byteChar] at hd
      omega
    exact ⟨by omega, hne _ (by decide), hne _ (by decide)⟩

lemma join_bytes (bytes : List UInt8) (ps : List Piece) :
    join (bytes.map (.byte ∘ byteChar) ++ ps) = (join ps).map (bytes ++ ·) := by
  induction bytes with
  | nil => simp
  | cons b bytes ih =>
    have hb : (byteChar b).toNat.toUInt8 = b := by
      rw [toNat_byteChar]
      exact UInt8.ofNat_toNat
    rw [List.map_cons, List.cons_append, Function.comp_apply, join, ih, Option.map_map, hb]
    rfl

/-- A written character is read back as its bytes. -/
lemma scanText_escapedChar (c : Char) : ∃ ps : List Piece,
    (∀ rest, scanText (bytesOf (escapedChar c) ++ rest) =
      (scanText rest).map fun r => (ps ++ r.1, r.2)) ∧
    ∀ qs, join (ps ++ qs) = (join qs).map (String.utf8EncodeChar c ++ ·) := by
  obtain ⟨hc, e, he, hbytes, hescape⟩ | ⟨hc, p, q, r, s, hbytes, hunit⟩ |
    ⟨hc, hquote, hslash, hself⟩ := escapedChar_cases c
  · refine ⟨[.byte c], fun rest => ?_, fun qs => ?_⟩
    · rw [hbytes]
      show scanText ('\\' :: e :: rest) = _
      rw [scanText, hescape]
      · cases scanText rest <;> rfl
      · exact fun _ _ _ _ _ hu => absurd hu he
    · rw [utf8EncodeChar_of_ascii hc]
      rfl
  · refine ⟨[.unit c.toNat], fun rest => ?_, fun qs => ?_⟩
    · rw [hbytes]
      show scanText ('\\' :: 'u' :: p :: q :: r :: s :: rest) = _
      rw [scanText, hunit]
      cases scanText rest <;> rfl
    -- Control characters are no surrogates.
    · have hsingle : c.toNat < 0xD800 ∨ 0xDFFF < c.toNat := .inl (by omega)
      rw [List.singleton_append, join.eq_def]
      dsimp only
      rw [if_pos hsingle, Char.ofNat_toNat]
  · refine ⟨(String.utf8EncodeChar c).map (.byte ∘ byteChar), fun rest => ?_, join_bytes _⟩
    have hbytes : bytesOf (escapedChar c) = (String.utf8EncodeChar c).map byteChar := by
      rw [hself, bytesOf, Char.toString, String.toList_singleton, List.flatMap_singleton]
    rw [hbytes]
    exact scanText_bytes (fun b hb => stands_of_mem_utf8EncodeChar hc hquote hslash hb) rest

lemma scanText_escaped (cs : List Char) (rest : List Char) : ∃ ps : List Piece,
    scanText (bytesOf (String.join (cs.map escapedChar)) ++ '"' :: rest) = some (ps, rest) ∧
      join ps = some (cs.flatMap String.utf8EncodeChar) := by
  induction cs with
  | nil => exact ⟨[], rfl, rfl⟩
  | cons c cs ih =>
    obtain ⟨ps, hps, hjoin⟩ := ih
    obtain ⟨qs, hqs, hqjoin⟩ := scanText_escapedChar c
    refine ⟨qs ++ ps, ?_, ?_⟩
    · rw [List.map_cons, String.join_cons, bytesOf_append, List.append_assoc, hqs, hps]
      rfl
    · rw [hqjoin, hjoin]
      rfl

/-- **A written text is read back as one lexeme**, whatever characters it has. -/
theorem scanOne_renderString (s : String) (rest : List Char) :
    scanOne (bytesOf (renderString s) ++ rest) = some (.text (some s), rest) := by
  obtain ⟨ps, hps, hjoin⟩ := scanText_escaped s.toList rest
  have hcontent : content ps = some s := by
    have hutf8 : (⟨(s.toList.flatMap String.utf8EncodeChar).toArray⟩ : ByteArray) =
        s.toByteArray := by
      rw [← String.utf8Encode_toList, List.utf8Encode, ← List.data_toByteArray]
    rw [content, hjoin, Option.bind_some, hutf8, String.fromUTF8?, dif_pos s.isValidUTF8]
    rfl
  have hbytes : bytesOf (renderString s) ++ rest =
      '"' :: (bytesOf (String.join (s.toList.map escapedChar)) ++ '"' :: rest) := by
    rw [renderString, bytesOf_append, bytesOf_append, List.append_assoc]
    rfl
  rw [hbytes, scanOne, hps]
  show some (Lexeme.text (content ps), rest) = _
  rw [hcontent]

/-! ### Integers -/

/-- What follows does not go on with a number. -/
def EndsNumber (rest : List Char) : Prop :=
  ∀ c ∈ rest.head?, c.isDigit = false ∧ c ≠ '.' ∧ c ≠ 'e' ∧ c ≠ 'E'

lemma endsNumber_cons {c : Char} {rest : List Char}
    (h : c.isDigit = false ∧ c ≠ '.' ∧ c ≠ 'e' ∧ c ≠ 'E') : EndsNumber (c :: rest) := by
  rintro _ ⟨⟩
  exact h

lemma scanDigits_append {digits rest : List Char} (hdigits : ∀ c ∈ digits, c.isDigit = true)
    (hrest : EndsNumber rest) :
    scanDigits (digits ++ rest) = (digits.map fun c => c.toNat - '0'.toNat, rest) := by
  have hstop : rest.takeWhile Char.isDigit = [] ∧ rest.dropWhile Char.isDigit = rest := by
    cases rest with
    | nil => exact ⟨rfl, rfl⟩
    | cons c rest =>
      have hc := (hrest c rfl).1
      exact ⟨List.takeWhile_cons_of_neg (by simp [hc]), List.dropWhile_cons_of_neg (by simp [hc])⟩
  rw [scanDigits, List.takeWhile_append_of_pos hdigits, List.dropWhile_append_of_pos hdigits,
    hstop.1, hstop.2, List.append_nil]

lemma scanFraction_of_ends {rest : List Char} (h : EndsNumber rest) :
    scanFraction rest = some (none, rest) := by
  cases rest with
  | nil => rfl
  | cons c rest =>
    obtain ⟨-, hpoint, -⟩ := h c rfl
    rw [scanFraction]
    exact fun _ hc => absurd (List.cons.inj hc).1 hpoint

lemma scanExponent_of_ends {rest : List Char} (h : EndsNumber rest) :
    scanExponent rest = some (none, rest) := by
  cases rest with
  | nil => rfl
  | cons c rest =>
    obtain ⟨-, -, he, hE⟩ := h c rfl
    rw [scanExponent, if_neg (not_or_intro he hE)]

/-- The decimal digits of a number. -/
def digitsOf (n : ℕ) : List ℕ := (Nat.toDigits 10 n).map fun c => c.toNat - '0'.toNat

lemma digitsOf_of_lt {n : ℕ} (hn : n < 10) : digitsOf n = [n] := by
  rw [digitsOf, Nat.toDigits_of_lt_base hn, List.map_singleton]
  exact congrArg (fun d => [d]) (Nat.toNat_digitChar_sub_48_of_lt_ten hn)

lemma digitsOf_add {n d : ℕ} (hn : 0 < n) (hd : d < 10) :
    digitsOf (10 * n + d) = digitsOf n ++ [d] := by
  rw [← digitsOf_of_lt hd, digitsOf, ← Nat.toDigits_append_toDigits (by decide) hn hd,
    List.map_append]
  rfl

lemma ofDigits_digitsOf (n : ℕ) : Number.Literal.ofDigits (digitsOf n) = n := by
  induction n using Nat.base_induction 10 (by decide) with
  | single m hm =>
    rw [digitsOf_of_lt hm]
    exact Nat.zero_add m
  | digit m k hk hm ih =>
    rw [digitsOf_add hm hk, Number.Literal.ofDigits, List.foldl_concat]
    rw [Number.Literal.ofDigits] at ih
    rw [ih, Nat.mul_comm]

lemma digitsOf_ne_nil (n : ℕ) : digitsOf n ≠ [] := by
  rw [digitsOf]
  exact fun h => Nat.toDigits_ne_nil (List.map_eq_nil_iff.mp h)

/-- Only the digits of zero begin with a zero. -/
lemma head_digitsOf {n : ℕ} (hn : 0 < n) : (digitsOf n).head? ≠ some 0 := by
  induction n using Nat.base_induction 10 (by decide) with
  | single m hm =>
    rw [digitsOf_of_lt hm]
    exact fun h => hn.ne' (Option.some.inj h)
  | digit m k hk hm ih =>
    rw [digitsOf_add hm hk, List.head?_append_of_ne_nil _ (digitsOf_ne_nil m)]
    exact ih hm

/-- The literals that are read as integers: without a sign those below 2^64, with a sign those from
1 to 2^63. -/
def InRange (negative : Bool) (n : ℕ) : Prop :=
  if negative then 0 < n ∧ n ≤ UInt64.size / 2 else n < UInt64.size

lemma number?_digitsOf {negative : Bool} {n : ℕ} (hn : InRange negative n) :
    (⟨negative, digitsOf n, none, none⟩ : Number.Literal).number? =
      some (.integer (if negative then -n else n)) := by
  rw [InRange] at hn
  rw [Number.Literal.number?]
  dsimp only
  rw [ofDigits_digitsOf]
  cases negative with
  | false => exact if_pos (by simpa using hn)
  | true => exact (if_neg (by simp)).trans (if_pos (by simpa using hn))

lemma scanUnsigned_toDigits {negative : Bool} {n : ℕ} (hn : InRange negative n) {rest : List Char}
    (hrest : EndsNumber rest) :
    scanUnsigned negative (Nat.toDigits 10 n ++ rest) =
      some (.scalar (.number (.integer (if negative then -n else n))), rest) := by
  have hwhole : scanDigits (Nat.toDigits 10 n ++ rest) = (digitsOf n, rest) :=
    scanDigits_append
      (fun c hc => Nat.isDigit_of_mem_toDigits (by decide) (by decide) hc) hrest
  have hlead : ¬ (digitsOf n = [] ∨ (digitsOf n).head? = some 0 ∧ digitsOf n ≠ [0]) := by
    rintro (hnil | ⟨hzero, hmore⟩)
    · exact digitsOf_ne_nil n hnil
    · obtain rfl | hpos := Nat.eq_zero_or_pos n
      · exact hmore (digitsOf_of_lt (by decide))
      · exact head_digitsOf hpos hzero
  rw [scanUnsigned, hwhole]
  dsimp only
  rw [if_neg hlead, scanFraction_of_ends hrest]
  dsimp only [Option.bind_eq_bind, Option.bind_some]
  rw [scanExponent_of_ends hrest]
  dsimp only [Option.bind_some]
  rw [number?_digitsOf hn]
  rfl

/-- A digit or a minus begins a number and nothing else. -/
lemma scanOne_eq_scanNumber {c : Char} (hc : c.isDigit = true ∨ c = '-') (rest : List Char) :
    scanOne (c :: rest) = scanNumber (c :: rest) := by
  have h : ∀ d : Char, d.isDigit = false → d ≠ '-' → c ≠ d := by
    rintro _ hd hne rfl
    simp [hd, hne] at hc
  rw [scanOne]
  all_goals
    intro _ heq
    exact absurd (List.cons.inj heq).1 (h _ (by decide) (by decide))

lemma bytesOf_repr (n : ℕ) : bytesOf n.repr = Nat.toDigits 10 n := by
  rw [Nat.repr_eq_ofList_toDigits]
  refine bytesOf_ofList_of_ascii fun c hc => ?_
  have hdigit : c.isDigit = true := Nat.isDigit_of_mem_toDigits (by decide) (by decide) hc
  have hnine : c.toNat ≤ 57 := (Char.isDigit_iff_toNat.mp hdigit).2
  omega

/-- **A written integer is read back as one lexeme.** -/
theorem scanOne_toString {n : Int} (hlow : -(UInt64.size / 2 : ℕ) ≤ n) (hhigh : n < UInt64.size)
    {rest : List Char} (hrest : EndsNumber rest) :
    scanOne (bytesOf (toString n) ++ rest) = some (.scalar (.number (.integer n)), rest) := by
  cases n with
  | ofNat m =>
    have hm : InRange false m := Int.ofNat_lt.mp hhigh
    have hscan := scanUnsigned_toDigits hm hrest
    obtain ⟨c, cs, hcs⟩ := List.exists_cons_of_ne_nil (Nat.toDigits_ne_nil (n := m) (b := 10))
    have hc : c.isDigit = true :=
      Nat.isDigit_of_mem_toDigits (by decide) (by decide) (hcs ▸ List.mem_cons_self)
    have hsign : c ≠ '-' := by
      rintro rfl
      exact absurd hc (by decide)
    show scanOne (bytesOf (Nat.repr m) ++ rest) = _
    rw [bytesOf_repr]
    rw [hcs] at hscan ⊢
    rw [List.cons_append, scanOne_eq_scanNumber (.inl hc), scanNumber]
    · exact hscan
    · exact fun _ h => absurd (List.cons.inj h).1 hsign
  | negSucc m =>
    have hm : InRange true (m + 1) := ⟨Nat.succ_pos m, by omega⟩
    show scanOne (bytesOf ("-" ++ Nat.repr (m + 1)) ++ rest) = _
    rw [bytesOf_append, bytesOf_repr]
    show scanOne ('-' :: (Nat.toDigits 10 (m + 1) ++ rest)) = _
    rw [scanOne_eq_scanNumber (.inr rfl), scanNumber]
    exact scanUnsigned_toDigits hm hrest

end Lexeme

end ComponentTree.Json
