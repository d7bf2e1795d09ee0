/-
# Quoted characters and texts

Messages quote what they complain about, so that a reader can tell where it begins and ends
and which characters it has: the mark around the text and the backslash are written behind a
backslash, the common control characters by their letters, and what would not show by its
number in lower-case hexadecimal.
-/
import ComponentTree.Text.Hidden

namespace ComponentTree.Text

/-- The lower-case hexadecimal digits of a number, at least one. -/
def hexDigits (n : Nat) : String := String.ofList (Nat.toDigits 16 n)

/-- A character as it is written between two quotation marks of the kind `mark`. -/
def quotedChar (mark : Char) (c : Char) : String :=
  if c = '\x00' then "\\0"
  else if c = '\t' then "\\t"
  else if c = '\n' then "\\n"
  else if c = '\r' then "\\r"
  else if c = '\\' || c = mark then String.ofList ['\\', c]
  else if isHidden c then "\\u\x7b" ++ hexDigits c.toNat ++ "\x7d"
  else c.toString

/-- A character in single quotation marks. -/
def quoteChar (c : Char) : String := "'" ++ quotedChar '\'' c ++ "'"

/-- A text in double quotation marks. -/
def quote (s : String) : String := "\"" ++ String.join (s.toList.map (quotedChar '"')) ++ "\""

end ComponentTree.Text
