/-
# Paths

A path is a row of names parted by slashes.  It starts at the root if a slash is in front, and
in the working folder otherwise.  The name `.` stays where it stands and `..` goes one folder
up; a slash at the end asks for a folder.

A text is a path if it is not too long and does not have the character U+0000 in it
(`Path.ofText`).
-/
import ComponentTree.Settings.Error

namespace ComponentTree.Settings

/-- A path. -/
structure Path where
  /-- Whether the path starts at the root. -/
  rooted : Bool
  /-- The names, of which none is empty. -/
  names : List String
  /-- Whether a slash is at the end. -/
  slash : Bool
deriving DecidableEq, Inhabited

namespace Path

/-- How many bytes the text of a path may take. -/
def textLimit : Nat := 4095

/-- How many bytes a name in a path may take. -/
def nameLimit : Nat := 255

/-- Why a path or a name is refused that takes too many bytes. -/
def tooLong : Error := .io "File name too long (os error 36)"

/-- Whether a name takes few enough bytes. -/
def fits (name : String) : Bool := name.utf8ByteSize ≤ nameLimit

/-- The path that a text is. -/
def ofText (text : String) : Except Error Path :=
  if '\x00' ∈ text.toList then .error (.io "file name contained an unexpected NUL byte")
  else if textLimit < text.utf8ByteSize then .error tooLong
  else .ok {
    rooted := text.toList.head? = some '/'
    names := (text.splitOn "/").filter (· ≠ "")
    slash := text.toList.getLast? = some '/' }

/-- The text of the path to a name in the folder of another path. -/
def join (folder name : String) : String :=
  if folder = "" ∨ folder.toList.getLast? = some '/' then folder ++ name
  else folder ++ "/" ++ name

/-- The names that lead to the folder above, without those that stay where they stand. -/
def above (p : Path) : List String := (p.names.filter (· ≠ ".")).dropLast

end Path

end ComponentTree.Settings
