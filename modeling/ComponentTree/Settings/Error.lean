/-
# What can go wrong with settings
-/
import ComponentTree.Json.Decoder
import ComponentTree.Text.Quoted

namespace ComponentTree.Settings

/-- Why settings cannot be loaded or saved. -/
inductive Error where
  /-- Nothing is stored under the key. -/
  | notFound
  /-- The text is no key. -/
  | invalidKey (key : String)
  /-- The system refused to read or write. -/
  | io (reason : String)
  /-- What is stored is not the document asked for. -/
  | unreadable (defect : Json.Defect)
  /-- Something else. -/
  | other (reason : String)
deriving DecidableEq, Inhabited

/-- The wording of an error. -/
def Error.message : Error → String
  | notFound => "not found"
  | invalidKey key => "invalid config key: " ++ Text.quote key
  | io reason => "io error: " ++ reason
  | unreadable .malformed => "stored document is not JSON"
  | unreadable .mismatched => "stored document has the wrong form"
  | other reason => "other: " ++ reason

end ComponentTree.Settings
