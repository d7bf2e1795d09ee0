/-
# The program

The outer layer: settings in a folder of the file system, files read from it, results printed
and complaints written to the error output.
-/
import ComponentTree.CommandLine.Run

namespace ComponentTree.Program

open Settings (Store)
open CommandLine (Host)

/-- The wording of a refusal by the system, unless it is that there is no such file. -/
def settingsError (e : IO.Error) : Settings.Error :=
  match e with
  | .noFileOrDirectory .. => .notFound
  | e => .io (toString e)

/-- Do something that the system may refuse. -/
def attempt {α : Type} (action : IO α) : IO (Except Settings.Error α) := do
  try return .ok (← action)
  catch e => return .error (settingsError e)

/-- The folder at a path as a store. -/
def folder (path : String) : Store IO where
  loadBytes key := do
    match Settings.checkKey key with
    | .error e => return .error e
    | .ok () => attempt (IO.FS.readBinFile (path ++ "/" ++ Settings.Folder.fileName key))
  saveBytes key bytes := do
    match Settings.checkKey key with
    | .error e => return .error e
    | .ok () =>
      let draft := path ++ "/" ++ Settings.Folder.draftName key
      attempt do
        IO.FS.writeBinFile draft bytes
        IO.FS.rename draft (path ++ "/" ++ Settings.Folder.fileName key)

/-- Where the system keeps settings. -/
def home : IO (Except Settings.Error String) := do
  match ← IO.getEnv "XDG_CONFIG_HOME", ← IO.getEnv "HOME" with
  | some base, user =>
    if base.startsWith "/" then return .ok (base ++ "/echo")
    else
      match user with
      | some user => return .ok (user ++ "/.config/echo")
      | none => return .error (.other "could not resolve config dir")
  | none, some user => return .ok (user ++ "/.config/echo")
  | none, none => return .error (.other "could not resolve config dir")

/-- The file system as a host. -/
def host : Host IO where
  openSettings path := do
    let path ← match path with
      | some path => pure (.ok path)
      | none => home
    match path with
    | .error e => return .error e
    | .ok path => return (← attempt (IO.FS.createDirAll path)).map fun _ => folder path
  readFile path := do return (← attempt (IO.FS.readBinFile path)).toOption

end ComponentTree.Program

open ComponentTree in
/-- Run the program with its arguments. -/
def main (arguments : List String) : IO UInt32 := do
  match CommandLine.Invocation.ofArguments arguments with
  | .error .shown => return 0
  | .error .misuse =>
    IO.eprintln "the arguments do not fit"
    return 2
  | .ok invocation =>
    match ← CommandLine.run Program.host invocation with
    | .printed text =>
      IO.print text
      return 0
    | .complaint text =>
      IO.eprintln ("Error: " ++ text)
      return 1
