/-
# A disk in memory

A disk has folders within folders.  A folder is known by its place, the names that lead from
the root to it, and has its files in itself (`Folder`); a name in it that stands for a folder
leads on to the place one name further.

A path is followed name by name from the root or from the working folder, and every name but
the last has to be that of a folder (`Disk.locate`).  When a folder is opened, it is made, and
so are the folders on the way to it (`Disk.openFolder`).
-/
import ComponentTree.Settings.Folder
import ComponentTree.Settings.Path

namespace ComponentTree.Settings

/-- The names that lead from the root to a folder. -/
abbrev Place := List String

/-- Folders by their places. -/
structure Disk where
  /-- The folders, each under the text of its place. -/
  folders : Dict Folder
  /-- The place of the working folder. -/
  here : Place
deriving Inhabited

namespace Disk

/-- The disk with nothing on it. -/
def empty : Disk := ⟨∅, []⟩

/-! ### Folders -/

/-- The text of a place. -/
def placeText (place : Place) : String := "/".intercalate place

/-- The folder at a place. -/
def folder (disk : Disk) (place : Place) : Folder :=
  (disk.folders.get? (placeText place)).getD .empty

/-- Put a folder at a place. -/
def putFolder (disk : Disk) (place : Place) (folder : Folder) : Disk :=
  { disk with folders := disk.folders.insert (placeText place) folder }

/-! ### Following paths -/

/-- The place to which a name leads. -/
def enter (disk : Disk) (place : Place) (name : String) : Except Error Place :=
  if name = "." then .ok place
  else if name = ".." then .ok place.dropLast
  else if Path.fits name then
    match (disk.folder place).entries.get? name with
    | some .folder => .ok (place ++ [name])
    | some (.file _) => .error (.io "Not a directory (os error 20)")
    | none => .error .notFound
  else .error Path.tooLong

/-- The place to which a row of names leads. -/
def follow (disk : Disk) (place : Place) (names : List String) : Except Error Place :=
  names.foldlM disk.enter place

/-- The place at which a path starts. -/
def start (disk : Disk) (p : Path) : Place := if p.rooted then [] else disk.here

/-- The place of the folder in which the file at a path is, or would be, and its name there. -/
def locate (disk : Disk) (path : String) : Except Error (Place × String) := do
  let p ← Path.ofText path
  let place ← disk.follow (disk.start p) p.names.dropLast
  match p.names.getLast? with
  | none => .error (.io "Is a directory (os error 21)")
  | some name =>
    if p.slash ∨ name = "." ∨ name = ".." then .error (.io "Is a directory (os error 21)")
    else if Path.fits name then .ok (place, name)
    else .error Path.tooLong

/-! ### Files -/

/-- The bytes of the file at a path. -/
def read (disk : Disk) (path : String) : Except Error ByteArray := do
  let (place, name) ← disk.locate path
  (disk.folder place).read name

/-- Give the file at a path its bytes, and make it if it is not there. -/
def write (disk : Disk) (path : String) (bytes : ByteArray) : Except Error Disk := do
  let (place, name) ← disk.locate path
  return disk.putFolder place (← (disk.folder place).write name bytes)

/-! ### Making folders -/

/-- Enter the folder to which a name leads, and make it if it is not there. -/
def make (disk : Disk) (place : Place) (name : String) : Except Error (Place × Disk) :=
  match disk.enter place name with
  | .ok next => .ok (next, disk)
  | .error .notFound =>
    match (disk.folder place).makeFolder name with
    | some folder =>
      .ok (place ++ [name], (disk.putFolder place folder).putFolder (place ++ [name]) .empty)
    | none => .error (.io "File exists (os error 17)")
  | .error e => .error e

/-- Enter the folders to which names lead one after another, and make those that are not
there.  Those that were made stay when a later one cannot be made. -/
def makeAll (disk : Disk) (place : Place) : List String → Except Error Place × Disk
  | [] => (.ok place, disk)
  | name :: rest =>
    match disk.make place name with
    | .ok (next, disk) => disk.makeAll next rest
    | .error e => (.error e, disk)

/-- Open the folder at a path.  The folders on the way are made first, and then the path is
followed as it is written, so a point at its end asks for a folder that is there. -/
def openFolder (disk : Disk) (path : String) : Except Error Place × Disk :=
  match Path.ofText path with
  | .error e => (.error e, disk)
  | .ok p =>
    match disk.makeAll (disk.start p) p.above with
    | (.error e, disk) => (.error e, disk)
    | (.ok _, disk) =>
      match disk.follow (disk.start p) p.names.dropLast with
      | .error _ => (.error (.io "No such file or directory (os error 2)"), disk)
      | .ok place => disk.makeAll place p.names.getLast?.toList

/-! ### A folder as a store -/

/-- What is stored under a key in the folder at a path. -/
def load (disk : Disk) (path key : String) : Except Error ByteArray := do
  checkKey key
  let (place, _) ← disk.locate (Path.join path (Folder.fileName key))
  (disk.folder place).load key

/-- Store bytes under a key in the folder at a path. -/
def save (disk : Disk) (path key : String) (bytes : ByteArray) : Except Error Unit × Disk :=
  match (do checkKey key; disk.locate (Path.join path (Folder.draftName key))) with
  | .error e => (.error e, disk)
  | .ok (place, _) =>
    let (result, folder) := (disk.folder place).save key bytes
    (result, disk.putFolder place folder)

/-- The folder at a path as a store. -/
def store (path : String) : Store (StateM Disk) where
  loadBytes key := do return (← get).load path key
  saveBytes key bytes := modifyGet (·.save path key bytes)

end Disk

end ComponentTree.Settings
