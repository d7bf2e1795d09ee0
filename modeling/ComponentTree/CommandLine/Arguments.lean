/-
# Arguments

The arguments are options, then the name of a command, then the operands of the command with
more options among them.  An option that takes a value has it behind an equals sign or as the
next argument, which then must not look like an option itself; `-t` may have it right behind.
Each option may be given once in front of the command and once behind it, and the one behind
counts.  After `--` everything is an operand.

Arguments are taken from left to right, and the first one that asks for help or does not fit
ends the reading (`Invocation.ofArguments`).
-/

namespace ComponentTree.CommandLine

/-! ### What an invocation is -/

/-- What the program is asked to do. -/
inductive Command where
  /-- Follow a selector from the root. -/
  | first (selector : String)
  /-- Pick components within the one of an id. -/
  | down (id selector : String)
  /-- Pick components above the one of an id. -/
  | up (id selector : String)
  /-- List the components above the one of an id. -/
  | parents (id : String)
  /-- List the components below the one of an id. -/
  | children (id : String)
  /-- Find the first id that is there. -/
  | findParent (ids : List String)
  /-- Show the preferences, and save them if asked to. -/
  | prefs (save : Bool)
deriving DecidableEq, Inhabited

/-- The options of an invocation. -/
structure Options where
  /-- The file with the snapshot. -/
  tree : Option String
  /-- The id of the root. -/
  root : Option String
  /-- Whether to collect all components. -/
  all : Bool
  /-- The limit on the depth of descents. -/
  maxDepth : Option UInt64
  /-- Whether selectors are given as JSON. -/
  json : Bool
  /-- The folder of the settings. -/
  configDir : Option String
deriving DecidableEq, Inhabited

/-- What the arguments ask for. -/
structure Invocation where
  options : Options
  command : Command
deriving DecidableEq, Inhabited

/-- Why there is nothing to do. -/
inductive Stop where
  /-- Help or the version was asked for. -/
  | shown
  /-- The arguments do not fit. -/
  | misuse
deriving DecidableEq, Inhabited

/-! ### Options -/

/-- The options by their kind. -/
inductive OptionKind where
  | tree
  | root
  | all
  | maxDepth
  | json
  | configDir
  | save
deriving DecidableEq, Inhabited

namespace OptionKind

/-- The option of a long name. -/
def ofName? : String → Option OptionKind
  | "tree" => some tree
  | "root" => some root
  | "all" => some all
  | "max-depth" => some maxDepth
  | "json" => some json
  | "config-dir" => some configDir
  | "save" => some save
  | _ => none

/-- Whether an option takes a value. -/
def takesValue : OptionKind → Bool
  | tree | root | maxDepth | configDir => true
  | all | json | save => false

end OptionKind

/-- A number from 0 to 2^64 - 1 in decimal digits, with or without a plus sign. -/
def depth? (text : String) : Option UInt64 :=
  let digits := match text.toList with
    | '+' :: rest => rest
    | cs => cs
  if digits ≠ [] ∧ digits.all Char.isDigit then
    let n := digits.foldl (fun n c => 10 * n + (c.toNat - '0'.toNat)) 0
    if n < UInt64.size then some (UInt64.ofNat n) else none
  else none

/-- Whether an option can have a value. -/
def OptionKind.admits (kind : OptionKind) (value : String) : Bool :=
  match kind with
  | tree | configDir => value ≠ ""
  | maxDepth => (depth? value).isSome
  | _ => true

/-- The options given so far, with their values. -/
abbrev Given := List (OptionKind × String)

/-- One more option, which must not have been given before. -/
def Given.add (given : Given) (kind : OptionKind) (value : String) : Except Stop Given :=
  if (given.lookup kind).isNone ∧ kind.admits value then .ok ((kind, value) :: given)
  else .error .misuse

/-- The options of an invocation, where those given behind the command come first. -/
def Options.ofGiven (given : Given) : Options where
  tree := given.lookup .tree
  root := given.lookup .root
  all := (given.lookup .all).isSome
  maxDepth := (given.lookup .maxDepth).bind depth?
  json := (given.lookup .json).isSome
  configDir := given.lookup .configDir

/-! ### Commands -/

/-- The commands by their names. -/
inductive CommandName where
  | first
  | down
  | up
  | parents
  | children
  | findParent
  | prefs
deriving DecidableEq, Inhabited

namespace CommandName

/-- The command of a name. -/
def ofName? : String → Option CommandName
  | "first" => some first
  | "down" => some down
  | "up" => some up
  | "parents" => some parents
  | "children" => some children
  | "find-parent" => some findParent
  | "prefs" => some prefs
  | _ => none

/-- Whether a command can have one more operand than a number of them. -/
def hasRoom (name : CommandName) (count : Nat) : Bool :=
  match name with
  | first | parents | children => count < 1
  | down | up => count < 2
  | findParent => true
  | prefs => false

/-- The command with its operands.  A selector that is left out asks for nothing. -/
def apply (name : CommandName) (save : Bool) (operands : List String) : Except Stop Command :=
  match name, operands with
  | first, [selector] => .ok (.first selector)
  | down, [id] => .ok (.down id "")
  | down, [id, selector] => .ok (.down id selector)
  | up, [id] => .ok (.up id "")
  | up, [id, selector] => .ok (.up id selector)
  | parents, [id] => .ok (.parents id)
  | children, [id] => .ok (.children id)
  | findParent, ids => .ok (.findParent ids)
  | prefs, [] => .ok (.prefs save)
  | _, _ => .error .misuse

end CommandName

/-! ### The kinds of arguments -/

/-- Where an argument stands: in front of the command or behind it. -/
inductive Place where
  | front
  | behind (name : CommandName)
deriving DecidableEq, Inhabited

/-- Whether an option can be given at a place: to save is asked of preferences only. -/
def Place.admits (place : Place) (kind : OptionKind) : Bool :=
  kind ≠ .save || place = .behind .prefs

/-- What an argument is. -/
inductive Argument where
  /-- An option that is complete. -/
  | given (kind : OptionKind) (value : String)
  /-- An option whose value is the next argument. -/
  | awaiting (kind : OptionKind)
  /-- A wish to see help or the version. -/
  | inquiry
  /-- `--`, after which everything is an operand. -/
  | separator
  /-- Anything that does not look like an option. -/
  | operand
  /-- Something that looks like an option and is none. -/
  | unknown
deriving DecidableEq, Inhabited

namespace Argument

/-- A long option, of which `name` is what stands behind the dashes.  The version can be asked
for only in front of the command. -/
def long (place : Place) (name : List Char) : Argument :=
  let key := String.ofList (name.takeWhile (· ≠ '='))
  match (OptionKind.ofName? key).filter place.admits, name.dropWhile (· ≠ '=') with
  | some kind, [] => if kind.takesValue then awaiting kind else given kind ""
  | some kind, _ :: value => if kind.takesValue then given kind (String.ofList value) else unknown
  | none, [] => if key = "help" ∨ (key = "version" ∧ place = .front) then inquiry else unknown
  | none, _ => unknown

/-- A short option, of which the letters stand behind the dash. -/
def short (place : Place) : List Char → Argument
  | ['t'] => awaiting .tree
  | 't' :: '=' :: value => given .tree (String.ofList value)
  | 't' :: value => given .tree (String.ofList value)
  | 'h' :: _ => inquiry
  | 'V' :: _ => if place = .front then inquiry else unknown
  | _ => unknown

/-- What the argument `text` is at a place. -/
def ofText (place : Place) (text : String) : Argument :=
  match text.toList with
  | ['-', '-'] => separator
  | '-' :: '-' :: name => long place name
  | ['-'] => operand
  | '-' :: letters => short place letters
  | _ => operand

end Argument

/-! ### From arguments to an invocation -/

/-- One more operand of a command. -/
def addOperand (name : CommandName) (operands : List String) (text : String) :
    Except Stop (List String) :=
  if name.hasRoom operands.length then .ok (operands ++ [text]) else .error .misuse

/-- Read the arguments behind the name of a command: its options and its operands. -/
def readBehind (name : CommandName) (given : Given) (operands : List String) :
    List String → Except Stop (Given × List String)
  | [] => .ok (given, operands)
  | text :: rest =>
    match Argument.ofText (.behind name) text, rest with
    | .given kind value, rest => do readBehind name (← given.add kind value) operands rest
    | .awaiting kind, value :: rest =>
      if Argument.ofText (.behind name) value = .operand then do
        readBehind name (← given.add kind value) operands rest
      else .error .misuse
    | .operand, rest => do readBehind name given (← addOperand name operands text) rest
    | .separator, rest => do return (given, ← rest.foldlM (addOperand name) operands)
    | .inquiry, _ => .error .shown
    | _, _ => .error .misuse

/-- Help about the command that is named, or about all. -/
def help : List String → Stop
  | [] => .shown
  | [name] => if name = "help" ∨ (CommandName.ofName? name).isSome then .shown else .misuse
  | _ => .misuse

/-- Whether a command follows that only shows help. -/
def showsHelp : List String → Bool
  | [] => false
  | text :: rest =>
    match CommandName.ofName? text with
    | some name =>
      match readBehind name [] [] rest with
      | .error .shown => true
      | _ => false
    | none => text = "help" ∧ help rest = .shown

/-- Read the arguments from the front.  A value that stands in front of the command itself is
looked at only when the command was read, so a command that shows help does so first. -/
def readFront (given : Given) : List String → Except Stop Invocation
  | [] => .error .misuse
  | text :: rest =>
    match Argument.ofText .front text, rest with
    | .given kind value, rest => do readFront (← given.add kind value) rest
    | .awaiting kind, value :: rest =>
      if Argument.ofText .front value = .operand then
        match given.add kind value with
        | .ok given => readFront given rest
        | .error _ => .error (if showsHelp rest then .shown else .misuse)
      else .error .misuse
    | .operand, rest =>
      match CommandName.ofName? text with
      | some name => do
        let (behind, operands) ← readBehind name [] [] rest
        let command ← name.apply (behind.lookup .save).isSome operands
        return ⟨Options.ofGiven (behind ++ given), command⟩
      | none => if text = "help" then .error (help rest) else .error .misuse
    | .inquiry, _ => .error .shown
    | _, _ => .error .misuse

/-- What the arguments ask for. -/
def Invocation.ofArguments (arguments : List String) : Except Stop Invocation :=
  readFront [] arguments

end ComponentTree.CommandLine
