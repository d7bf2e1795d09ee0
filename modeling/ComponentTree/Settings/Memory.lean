/-
# Settings in memory

A store in memory takes any text for a key.  It can be made to fail, so that its users can be
seen to cope.
-/
import ComponentTree.Settings.Store

namespace ComponentTree.Settings

/-- Bytes in memory. -/
structure Memory where
  /-- What is stored. -/
  blobs : Dict ByteArray
  /-- Why every access fails, if it does. -/
  failing : Option String
deriving Inhabited

namespace Memory

/-- The memory with nothing in it. -/
def empty : Memory := ⟨∅, none⟩

/-- What is stored under a key. -/
def load (memory : Memory) (key : String) : Except Error ByteArray :=
  match memory.failing with
  | some reason => .error (.other reason)
  | none =>
    match memory.blobs.get? key with
    | some bytes => .ok bytes
    | none => .error .notFound

/-- Store bytes under a key. -/
def save (memory : Memory) (key : String) (bytes : ByteArray) : Except Error Unit × Memory :=
  match memory.failing with
  | some reason => (.error (.other reason), memory)
  | none => (.ok (), { memory with blobs := memory.blobs.insert key bytes })

/-- The memory as a store. -/
def store : Store (StateM Memory) where
  loadBytes key := do return (← get).load key
  saveBytes key bytes := modifyGet (·.save key bytes)

end Memory

end ComponentTree.Settings
