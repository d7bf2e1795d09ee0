/-
# Keys of settings

Settings are stored under keys that can be names of files everywhere: ASCII letters, ASCII
digits and `- _ .`, at least one character, and no point in front.
-/
import ComponentTree.Settings.Error

namespace ComponentTree.Settings

/-- Whether a character can stand in a key. -/
def isKeyChar (c : Char) : Bool := c.isAlphanum || c = '-' || c = '_' || c = '.'

/-- Whether a text is a key. -/
def isKey (text : String) : Bool :=
  match text.toList with
  | [] => false
  | c :: rest => c ≠ '.' && (c :: rest).all isKeyChar

/-- Check that a text is a key. -/
def checkKey (text : String) : Except Error Unit :=
  if isKey text then .ok () else .error (.invalidKey text)

theorem checkKey_eq_ok {text : String} : checkKey text = .ok () ↔ isKey text = true := by
  unfold checkKey
  split <;> simp_all

end ComponentTree.Settings
