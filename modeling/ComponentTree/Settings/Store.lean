/-
# Storing settings

A store keeps bytes under keys.  Documents are stored as JSON over several lines.  Nothing
stored, and nothing in what is stored, both mean that there is no document; who has a default
does not care why there is none (`Store.loadOr`).

What a store does is left open: it may keep its bytes in memory or in files, so all that is
said here holds in any monad.
-/
import ComponentTree.Json.Printer
import ComponentTree.Settings.Key

namespace ComponentTree.Settings

open Json (Value Decoder)

/-- A place for bytes under keys. -/
structure Store (m : Type → Type) where
  /-- The bytes stored under a key. -/
  loadBytes : String → m (Except Error ByteArray)
  /-- Store bytes under a key. -/
  saveBytes : String → ByteArray → m (Except Error Unit)

namespace Store

variable {m : Type → Type} [Monad m] {α : Type}

/-- The document that a store's answer holds. -/
def document (decoder : Decoder α) : Except Error ByteArray → Except Error (Option α)
  | .ok bytes =>
    if bytes.isEmpty then .ok none
    else ((decoder.readBytes bytes).mapError .unreadable).map some
  | .error .notFound => .ok none
  | .error e => .error e

/-- The document stored under a key. -/
def load (s : Store m) (decoder : Decoder α) (key : String) : m (Except Error (Option α)) :=
  match checkKey key with
  | .error e => pure (.error e)
  | .ok () => document decoder <$> s.loadBytes key

/-- The document stored under a key, or a default where there is none or it cannot be had. -/
def loadOr (s : Store m) (default : α) (decoder : Decoder α) (key : String) : m α := do
  match ← s.load decoder key with
  | .ok (some a) => return a
  | _ => return default

/-- Store a document under a key. -/
def save (s : Store m) (key : String) (document : Value) : m (Except Error Unit) :=
  match checkKey key with
  | .error e => pure (.error e)
  | .ok () => s.saveBytes key document.pretty.toUTF8

end Store

end ComponentTree.Settings
