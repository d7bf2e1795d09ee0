/-
# Settings in a folder

A folder has files and further folders by name.  As a store it keeps the bytes of a key in the
file of that name with the ending `.json`.  New bytes are written to a file beside it first,
which then takes the place of the old one, so a reader never finds half of what was written.
-/
import ComponentTree.Settings.Store

namespace ComponentTree.Settings

/-- What a name in a folder stands for. -/
inductive FolderEntry where
  | file (bytes : ByteArray)
  | folder
deriving Inhabited

/-- The entries of a folder by name. -/
structure Folder where
  entries : Dict FolderEntry
deriving Inhabited

namespace Folder

/-- The folder without entries. -/
def empty : Folder := ⟨∅⟩

/-! ### Files -/

/-- The bytes of a file. -/
def read (f : Folder) (name : String) : Except Error ByteArray :=
  match f.entries.get? name with
  | some (.file bytes) => .ok bytes
  | some .folder => .error (.io "Is a directory (os error 21)")
  | none => .error .notFound

/-- Give a file its bytes, and make it if it is not there. -/
def write (f : Folder) (name : String) (bytes : ByteArray) : Except Error Folder :=
  match f.entries.get? name with
  | some .folder => .error (.io "Is a directory (os error 21)")
  | _ => .ok ⟨f.entries.insert name (.file bytes)⟩

/-- Give an entry another name, in place of a file that had it. -/
def rename (f : Folder) (source target : String) : Except Error Folder :=
  match f.entries.get? source, f.entries.get? target with
  | none, _ => .error .notFound
  | some _, some .folder => .error (.io "Is a directory (os error 21)")
  | some entry, _ => .ok ⟨(f.entries.erase source).insert target entry⟩

/-- Make a folder in the folder, unless the name is taken. -/
def makeFolder (f : Folder) (name : String) : Option Folder :=
  if f.entries.contains name then none else some ⟨f.entries.insert name .folder⟩

/-! ### The folder as a store -/

/-- The file of a key. -/
def fileName (key : String) : String := key ++ ".json"

/-- A name with another ending in place of what stands behind its last point.  A point in front of
the whole name parts no ending from it. -/
def withEnding (name ending : String) : String :=
  match name.toList.reverse.dropWhile (· ≠ '.') with
  | '.' :: c :: stem => String.ofList (c :: stem).reverse ++ "." ++ ending
  | _ => name ++ "." ++ ending

/-- The file to which the bytes of a key are written first. -/
def draftName (key : String) : String := withEnding (fileName key) "json.tmp"

/-- What is stored under a key. -/
def load (f : Folder) (key : String) : Except Error ByteArray := do
  checkKey key
  f.read (fileName key)

/-- Store bytes under a key. -/
def save (f : Folder) (key : String) (bytes : ByteArray) : Except Error Unit × Folder :=
  match checkKey key with
  | .error e => (.error e, f)
  | .ok () =>
    match f.write (draftName key) bytes with
    | .error e => (.error e, f)
    | .ok drafted =>
      match drafted.rename (draftName key) (fileName key) with
      | .error e => (.error e, drafted)
      | .ok saved => (.ok (), saved)

/-- The folder as a store. -/
def store : Store (StateM Folder) where
  loadBytes key := do return (← get).load key
  saveBytes key bytes := modifyGet (·.save key bytes)

end Folder

end ComponentTree.Settings
