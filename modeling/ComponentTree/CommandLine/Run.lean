/-
# A run of the program

A run loads the preferences, lets the options override them, and then does what the command
asks for: it shows the preferences, and saves them if it is told to, or it reads a snapshot
and prints the ids that a query picks.  Settings that cannot be had are as good as none,
unless they are to be saved.
-/
import ComponentTree.CommandLine.Arguments
import ComponentTree.CommandLine.Host
import ComponentTree.Selector.Document
import ComponentTree.Settings.Preferences
import ComponentTree.Snapshot.Capture
import ComponentTree.Snapshot.Document
import ComponentTree.Snapshot.Load
import ComponentTree.Text.Blank

namespace ComponentTree.CommandLine

open Json (Value Decoder)
open Selector (Form)
open Settings (Store Preferences)

/-- What a run leaves: what it prints, or the complaint with which it ends. -/
inductive Result where
  | printed (text : String)
  | complaint (text : String)
deriving DecidableEq, Inhabited

/-! ### Queries -/

/-- The selector that an operand is, as a text or as JSON; a blank operand is no JSON but asks
for no steps. -/
def selectorForm (json : Bool) (operand : String) : Except String Form :=
  if json then
    if operand.toList.all Text.isBlank then .ok (.json .null)
    else
      match Decoder.value.read operand with
      | .ok v => .ok (.json v)
      | .error _ => .error ("selector is not JSON: " ++ operand)
  else .ok (.text operand)

/-- The component of an id. -/
def component (t : Tree) (id : String) : Except String Component :=
  match t.get? id with
  | some c => .ok c
  | none => .error ("unknown component: " ++ id)

/-- The outcome of a query, with its failure put in words. -/
def outcome {α : Type} (q : Query α) : Except String α := q.outcome.mapError Failure.message

/-- The ids that a command asks for. -/
def answer (t : Tree) (mode : Mode) (json : Bool) : Command → Except String (List String)
  | .first selector => do
    let form ← selectorForm json selector
    return (← outcome (t.resolve form mode)).ids
  | .down id selector => do
    let form ← selectorForm json selector
    return (← outcome (t.withinId id form mode)).ids
  | .up id selector => do
    let form ← selectorForm json selector
    return (← outcome (t.aboveId id form mode)).ids
  | .parents id => do
    let c ← component t id
    return (← outcome (t.above c)).map (·.id)
  | .children id => do
    let c ← component t id
    return (← outcome (t.below c)).map (·.id)
  | .findParent ids => .ok (t.firstKnown ids).toList
  | .prefs _ => .error "prefs is not a query"

/-! ### Snapshots -/

/-- The snapshot in the bytes of the file at a path. -/
def snapshot (path : String) (bytes : Option ByteArray) : Except String Snapshot :=
  match bytes.bind String.fromUTF8? with
  | none => .error ("reading " ++ path)
  | some text =>
    match Decoder.read Snapshot.decode text with
    | .ok s => .ok s
    | .error _ => .error ("parsing " ++ path)

/-- The tree to ask: its root is that of the options, else of the snapshot, else of the
preferences. -/
def tree (options : Options) (preferences : Preferences) (path : String) (s : Snapshot) :
    Except String Tree :=
  match s.load with
  | .error _ => .error ("loading " ++ path)
  | .ok forest => .ok {
      source := forest.source
      root := options.root <|> s.root <|> preferences.root
      maxDepth := preferences.query.depthLimit }

/-! ### Runs -/

/-- The preferences where the options override them. -/
def override (options : Options) (preferences : Preferences) : Preferences :=
  { preferences with
    query := {
      maxDepth := options.maxDepth.getD preferences.query.maxDepth
      collectAll := options.all || preferences.query.collectAll } }

variable {m : Type → Type} [Monad m]

/-- Show preferences, and save them before if asked to. -/
def showPreferences (store : Option (Store m)) (save : Bool) (preferences : Preferences) :
    m Result := do
  let shown := Result.printed (preferences.encode.pretty ++ "\n")
  if save then
    match store with
    | none => return .complaint "no config store to save prefs into"
    | some store =>
      match ← store.save Preferences.key preferences.encode with
      | .ok () => return shown
      | .error e => return .complaint e.message
  else return shown

/-- Ask the tree of a file. -/
def query (host : Host m) (options : Options) (preferences : Preferences) (command : Command) :
    m Result := do
  match options.tree with
  | none => return .complaint "--tree <FILE> is required for queries"
  | some path =>
    let bytes ← host.readFile path
    let ids : Except String (List String) := do
      let s ← snapshot path bytes
      let t ← tree options preferences path s
      answer t preferences.query.mode options.json command
    match ids with
    | .ok ids => return .printed ((Value.ofStrings ids).compact ++ "\n")
    | .error text => return .complaint text

/-- Do what an invocation asks for. -/
def run (host : Host m) (i : Invocation) : m Result := do
  let store := (← host.openSettings i.options.configDir).toOption
  let loaded ← match store with
    | some store => store.loadOr .default Preferences.decode Preferences.key
    | none => pure .default
  let preferences := override i.options loaded
  match i.command with
  | .prefs save =>
    let root := i.options.root <|> preferences.root
    showPreferences store save { preferences with root }
  | command => query host i.options preferences command

end ComponentTree.CommandLine
