import TickScript.Command.Arguments
import TickScript.Number.Numeral
import TickScript.Path
/-!
# Commands

What the program can be asked to do from a command line.

* `Command.ofArguments`: the command that a command line asks for.
-/

namespace TickScript

/-- The demonstration level that programs are run in. -/
structure RunOptions where
  /-- The most ticks of an attempt. -/
  ticks : Int := 600
  /-- How often the level is started at most. -/
  attempts : Int := 1
  /-- The width of each section. -/
  width : Float := 800
  /-- The number of sections. -/
  sections : Int := 1
  deriving Inhabited, Repr

inductive Command where
  /-- Drives a program through a demonstration level. -/
  | run (program : Path) (options : RunOptions)
  /-- Lists the steps of a program. -/
  | check (program : Path)
  /-- Lists the builtins, all of them or those of one kind. -/
  | builtins (kind : String)
  | version
  /-- Shows what a search knows. -/
  | searchStatus (path : Option Path)
  /-- Makes a search start over. -/
  | searchClear (path : Option Path) (confirmed : Bool)
  /-- Lists the runs of a recording. -/
  | recordingShow (level : String) (runsDir : Option Path)
  /-- Replaces a recording by its backup. -/
  | recordingRestore (level : String) (runsDir : Option Path)
  deriving Inhabited, Repr

/-- What a command line asks for. -/
inductive Request where
  | perform (c : Command)
  | help
  | misuse
  deriving Inhabited, Repr

namespace Command

/-- Reads the arguments of one command: its options, its positional arguments and what it
makes of them. -/
def readCommand (known : List CommandOption) (count : Nat)
    (make? : Arguments → List String → Option Command) (args : List String) : Request :=
  match Arguments.read? (Arguments.help :: known) args with
  | none => .misuse
  | some a =>
    if a.hasFlag "help" then .help
    else if a.positional.length ≠ count then .misuse
    else
      match make? a a.positional with
      | some c => .perform c
      | none => .misuse

/-- The value of an option, or its default. -/
def valueOr {α : Type} (a : Arguments) (name : String) (default : α)
    (read? : String → Option α) : Option α :=
  match a.value? name with
  | none => some default
  | some s => read? s

/-- The number of an option, or its default.  Unlike a number in a script, it is written in
ASCII: with a digit or a blank of another script in it, it is not a number. -/
def numberOr {α : Type} (a : Arguments) (name : String) (default : α)
    (read? : String → Option α) : Option α :=
  valueOr a name default fun s => if s.toList.all (·.toNat < 128) then read? s else none

def pathOption (a : Arguments) (name : String) : Option Path := (a.value? name).map Path.parse

def readRun : List String → Request :=
  readCommand
    [⟨"ticks", some 't', true⟩, ⟨"attempts", some 'a', true⟩, ⟨"width", none, true⟩,
     ⟨"sections", some 's', true⟩] 1 fun a positional => do
    let program ← positional.head?
    let ticks ← numberOr a "ticks" 600 Numeral.int?
    let attempts ← numberOr a "attempts" 1 Numeral.int?
    let width ← numberOr a "width" 800 Numeral.decimalFloat?
    let sections ← numberOr a "sections" 1 Numeral.int?
    return .run (.parse program) { ticks, attempts, width, sections }

def readCheck : List String → Request :=
  readCommand [] 1 fun _ positional => positional.head?.map fun p => .check (.parse p)

def readBuiltins : List String → Request :=
  readCommand [⟨"kind", some 'k', true⟩] 0 fun a _ =>
    some (.builtins ((a.value? "kind").getD ""))

def readVersion : List String → Request := readCommand [] 0 fun _ _ => some .version

def searchPath : CommandOption := ⟨"path", some 'p', true⟩

def readSearchStatus : List String → Request :=
  readCommand [searchPath] 0 fun a _ => some (.searchStatus (pathOption a "path"))

def readSearchClear : List String → Request :=
  readCommand [searchPath, ⟨"yes", some 'y', false⟩] 0 fun a _ =>
    some (.searchClear (pathOption a "path") (a.hasFlag "yes"))

def readLevel (make : String → Option Path → Command) : List String → Request :=
  readCommand [⟨"runs-dir", some 'd', true⟩] 1 fun a positional =>
    positional.head?.map fun level => make level (pathOption a "runs-dir")

/-- Reads the arguments of a group of commands. -/
def readGroup (commands : List (String × (List String → Request))) (args : List String) :
    Request :=
  match Arguments.readGroup? [Arguments.help] args with
  | none => .misuse
  | some (flags, rest) =>
    if flags.contains "help" then .help
    else
      match rest with
      | [] => .misuse
      | name :: rest =>
        match commands.lookup name with
        | some read => read rest
        | none => .misuse

/-- The command that a command line asks for. -/
def ofArguments : List String → Request :=
  readGroup
    [("run", readRun), ("check", readCheck), ("builtins", readBuiltins),
     ("version", readVersion),
     ("optimizer", readGroup [("status", readSearchStatus), ("clear", readSearchClear)]),
     ("recording", readGroup
       [("show", readLevel .recordingShow), ("restore", readLevel .recordingRestore)])]

end Command

end TickScript
