/-
# What a run of the program needs

A run opens a folder of settings and reads a file with a snapshot.  Where these are is left
open (`Host`); a disk in memory can give both.
-/
import ComponentTree.Settings.Disk

namespace ComponentTree.CommandLine

open Settings (Store Disk)

/-- Where settings and files come from. -/
structure Host (m : Type → Type) where
  /-- Open the settings at a path, or at the place where the system keeps them. -/
  openSettings : Option String → m (Except Settings.Error (Store m))
  /-- The bytes of a file. -/
  readFile : String → m (Option ByteArray)

/-- A disk in memory as a host, on which the system keeps settings at the path `home`. -/
def Host.ofDisk (home : String) : Host (StateM Disk) where
  openSettings path := modifyGet fun disk =>
    let (place, disk) := disk.openFolder (path.getD home)
    (place.map fun _ => Disk.store (path.getD home), disk)
  readFile path := do return ((← get).read path).toOption

end ComponentTree.CommandLine
