/-
# Writing JSON

A value has two written forms: on one line without any space, and over several lines with
two more spaces of indentation for each level.  In both, a text keeps every character but
the quotation mark, the backslash and the control characters below the space.
-/
import ComponentTree.Json.Value
import ComponentTree.Text.Quoted

namespace ComponentTree.Json

/-- A character as it stands in a written text. -/
def escapedChar (c : Char) : String :=
  if c = '"' then "\\\""
  else if c = '\\' then "\\\\"
  else if c = '\n' then "\\n"
  else if c = '\r' then "\\r"
  else if c = '\t' then "\\t"
  else if c = '\x08' then "\\b"
  else if c = '\x0c' then "\\f"
  else if c.toNat < 0x20 then
    (if c.toNat < 0x10 then "\\u000" else "\\u00") ++ Text.hexDigits c.toNat
  else c.toString

/-- A text in its quotation marks. -/
def renderString (s : String) : String :=
  "\"" ++ String.join (s.toList.map escapedChar) ++ "\""

namespace Value

mutual

/-- A value on one line. -/
def compact : Value → String
  | null => "null"
  | bool b => if b then "true" else "false"
  | number n => n.render
  | string s => renderString s
  | array items => "[" ++ ",".intercalate (compactItems items) ++ "]"
  | object members => "\x7b" ++ ",".intercalate (compactMembers members) ++ "\x7d"

/-- Each item on one line. -/
def compactItems : List Value → List String
  | [] => []
  | v :: rest => compact v :: compactItems rest

/-- Each member on one line. -/
def compactMembers : List (String × Value) → List String
  | [] => []
  | (k, v) :: rest => (renderString k ++ ":" ++ compact v) :: compactMembers rest

end

/-- The start of a line at a level of indentation. -/
def lineStart (level : Nat) : String := "\n" ++ "".pushn ' ' (2 * level)

/-- The written items of a list or members of an object between their brackets, a line each. -/
def bracketed (level : Nat) (first last : String) : List String → String
  | [] => first ++ last
  | parts =>
    first ++ lineStart (level + 1) ++ ("," ++ lineStart (level + 1)).intercalate parts ++
      lineStart level ++ last

mutual

/-- A value over several lines, its first line beginning at a level of indentation. -/
def prettyAt (level : Nat) : Value → String
  | null => "null"
  | bool b => if b then "true" else "false"
  | number n => n.render
  | string s => renderString s
  | array items => bracketed level "[" "]" (prettyItems (level + 1) items)
  | object members => bracketed level "\x7b" "\x7d" (prettyMembers (level + 1) members)

/-- Each item at a level of indentation. -/
def prettyItems (level : Nat) : List Value → List String
  | [] => []
  | v :: rest => prettyAt level v :: prettyItems level rest

/-- Each member at a level of indentation. -/
def prettyMembers (level : Nat) : List (String × Value) → List String
  | [] => []
  | (k, v) :: rest => (renderString k ++ ": " ++ prettyAt level v) :: prettyMembers level rest

end

/-- A value over several lines. -/
def pretty (v : Value) : String := prettyAt 0 v

end Value

end ComponentTree.Json
