import TickScript.Command.Basic
import TickScript.Command.Confirmation
import TickScript.Console
import TickScript.Attempt
import TickScript.SpecData
import TickScript.Number.Places
/-!
# Carrying out commands

A command reads and writes files and prints.  What goes wrong for a reason that the author
of a program is told about is printed, and the command fails; any other fault is passed
on.  A text that the console cannot show ends the command.

* `Execution.onConsole`: what is left of a command on a console.
* `Command.execute`: what a command does.
* `Execution.ofRequest`: what a command line does.
-/

namespace TickScript

/-- What a command runs on. -/
structure Surroundings where
  console : Console
  stack : Stack

/-- Nothing is in the way of a command. -/
def Surroundings.ample : Surroundings := ⟨.lenient, .unbounded⟩

/-- What a command leaves behind. -/
structure Execution where
  /-- Zero for success. -/
  exit : Nat := 0
  printed : List Printed := []
  files : Files
  /-- A fault that was not announced. -/
  fault : Option Fault := none
  deriving Inhabited

namespace Execution

def line (files : Files) (text : String) : Execution := { printed := [.line text], files }

def failure (files : Files) (text : String) : Execution :=
  { exit := 1, printed := [.line (Printed.styled "red" text)], files }

/-- Prints an announced fault, and passes any other one on. -/
def ofFault (printed : List Printed) (files : Files) (f : Fault) : Execution :=
  match f.title? with
  | some title =>
    { exit := 1
      printed := printed ++ [.line (Printed.styled "red" (title ++ ": " ++ f.message))]
      files }
  | none => { exit := 1, printed, files, fault := some f }

/-- Passes a fault on. -/
def abort (printed : List Printed) (files : Files) (f : Fault) : Execution :=
  { exit := 1, printed, files, fault := some f }

/-- Prints on a console, up to the first text that it cannot show. -/
def onConsole (c : Console) (x : Execution) : Execution :=
  if x.printed.all c.shows then x
  else .abort (x.printed.takeWhile c.shows) x.files .marks

end Execution

/-- Keys in a listing; a dash stands for none. -/
def KeySet.shown (s : KeySet) : String := if s.isEmpty then "-" else s.codes

def Inputs.shown (i : Inputs) : String := i.keys.shown

namespace Command

/-! ## Running a program -/

def runColumns : List String := ["Ticks", "Section", "x", "Inputs committed", "Result"]

/-- What became of an attempt: the report of its end, else the fate of the player. -/
def fate (a : Attempt) : String :=
  match a.report? with
  | some report => report.message
  | none =>
    if a.level.dead then Printed.styled "red" "died"
    else if a.level.won then Printed.styled "green" "won"
    else Printed.styled "dim" "tick limit"

/-- An attempt in a table, and what was recorded in its last section. -/
def summary (number : Nat) (a : Attempt) : List Printed :=
  let table := Printed.table ("Attempt " ++ toString number) runColumns
    [[toString a.level.ticks, toString a.level.stage, (Exact.ofFloat a.level.x).fixed 1,
      toString a.session.engine.commits, fate a]]
  match a.session.recorder.lastSection with
  | none => [table]
  | some s =>
    let runs := (a.session.recorder.runs s).map fun (keys, n) =>
      keys.shown ++ "x" ++ toString n
    [table, .line (Printed.styled "dim" (" ".intercalate runs))]

/-- Attempts from a number on, as long as a search goes on and the console shows what became of
the attempts. -/
def runAttempts (console : Console) (make : Files → SearchRecord → Attempt) (ticks : Nat) :
    Nat → Nat → List Printed → Files → SearchRecord → Execution
  | 0, _, printed, files, _ => { printed, files }
  | left + 1, number, printed, files, record =>
    match (make files record).run ticks with
    | (.error f, a) => .ofFault printed a.session.engine.files f
    | (.ok (), a) =>
      match a.leave with
      | (.error f, a) => .abort printed a.session.engine.files f
      | (.ok (), a) =>
        let result := summary number a
        let printed := printed ++ result
        let files := a.session.engine.files
        if a.isInconclusive && result.all console.shows then
          runAttempts console make ticks left (number + 1) printed files a.session.engine.record
        else { printed, files }

def executeRun (console : Console) (settings : Settings) (files : Files) (now : String)
    (program : Path) (options : RunOptions) : Execution :=
  let config := { settings with runsDir := program.parent }
  let stages := List.replicate options.sections.toNat { width := options.width }
  let make := fun files record =>
    Attempt.new config settings.backupName program.stem stages files record now
  runAttempts console make options.ticks.toNat options.attempts.toNat 1 [] files (.fresh now)

/-! ## Checking a program -/

/-- A step of a listing: its condition, and whether it is unknown or lacks arguments. -/
structure Finding where
  shown : String
  isUnknown : Bool := false
  isShort : Bool := false

def finding (s : Step) : Finding :=
  let shown := s.condition.describe
  match s.condition with
  | .call name args =>
    match Catalogue.standard.spec? name with
    | none => { shown := Printed.styled "red" shown, isUnknown := true }
    | some spec =>
      if args.length < spec.requiredCount then
        { shown := Printed.styled "yellow" shown, isShort := true }
      else { shown }
  | _ => { shown }

/-- The steps of one section in a table. -/
def listing (name : String) (steps : List Step) : Printed :=
  .table ("Section " ++ name) ["#", "Inputs", "Condition"]
    (steps.zipIdx.map fun (s, i) => [toString i, s.inputs.shown, (finding s).shown])

/-- A remark on steps, if there are any. -/
def remark (count : Nat) (text : String) : List Printed :=
  if count = 0 then []
  else [.line (Printed.styled "yellow" (toString count ++ " step(s) " ++ text))]

/-- The sections that are listed, by name. -/
def listed (p : LevelProgram) : List (String × List Step) :=
  if p.isGlobal then [("global", p.steps)]
  else p.sections.map fun (s, steps) => (toString s, steps)

def report (p : LevelProgram) : List Printed :=
  let sections := listed p
  if sections.all (·.2.isEmpty) then [.line (Printed.styled "dim" "Program is empty.")]
  else
    let findings := sections.flatMap fun (_, steps) => steps.map finding
    sections.map (fun (name, steps) => listing name steps)
      ++ [.line ("seed=" ++ toString p.seed ++ " legacySeed=" ++ toString p.legacySeed)]
      ++ remark (findings.countP (·.isUnknown)) "name an unknown builtin"
      ++ remark (findings.countP (·.isShort)) "lack required arguments"

/-- Prints a program; what comes before a section that the stack is too small for is printed. -/
def showProgram (stack : Stack) (files : Files) (p : LevelProgram) : Execution :=
  let isShown := fun (s : String × List Step) => s.2.all stack.describes
  if (listed p).all isShown then { printed := report p, files }
  else
    let shown := ((listed p).takeWhile isShown).map fun (name, steps) => listing name steps
    .abort shown files .nesting

def executeCheck (stack : Stack) (settings : Settings) (files : Files) (program : Path) :
    Execution :=
  let compiled := do
    let file ← ProgramFile.load files program
    file.compileOn stack .standard settings.defaultSeed
  match compiled with
  | .error f => .ofFault [] files f
  | .ok p => showProgram stack files p

/-! ## Listing builtins -/

def executeBuiltins (files : Files) (kind : String) : Execution :=
  let selected := if kind == "" then some none else (BuiltinKind.ofName? kind).map some
  match selected with
  | none => .abort [] files .badValue
  | some selected =>
    let specs := (Builtin.all.map Builtin.spec).filter fun s => selected.all (· == s.kind)
    let sorted := specs.mergeSort fun a b => decide (a.name ≤ b.name)
    let row := fun (s : Spec) => [s.name, s.kind.name, s.usage, s.description]
    { printed := [.table "Builtins" ["Name", "Kind", "Usage", "Description"] (sorted.map row)]
      files }

/-! ## The record of a search -/

/-- How far a search has come. -/
def progress (r : SearchRecord) : String :=
  if r.converged then
    Printed.styled "green" ("converged on " ++ SearchRecord.shown r.low ++ " ticks")
  else if r.exhausted then Printed.styled "red" "exhausted"
  else Printed.styled "yellow" "searching"

def recordText (r : SearchRecord) : String :=
  let history := if r.history.isEmpty then "-" else ", ".intercalate (r.history.map toString)
  "\n".intercalate
    ["State:    " ++ progress r,
     "Low:      " ++ SearchRecord.shown r.low,
     "High:     " ++ (match r.high with | some n => toString n | none => "unknown"),
     "Last:     " ++ SearchRecord.shown r.middle,
     "Probes:   " ++ toString r.history.length ++ " (" ++ history ++ ")",
     "Saved:    " ++ r.lastSaved]

def executeSearchStatus (files : Files) (now : String) (path : Path) : Execution :=
  match (SearchRecord.fresh now).load files path now with
  | (false, _) =>
    .line files (Printed.styled "dim" ("No optimizer state at " ++ path.render ++ "."))
  | (true, r) => { printed := [.panel path.render (recordText r)], files }

def executeSearchClear (files : Files) (now : String) (path : Path) (confirmed : Bool) :
    Execution :=
  if !confirmed then { exit := 1, files }
  else if files.isDirectory path then .abort [] files .directory
  else
    let (_, files) := (SearchRecord.fresh now).save files path now
    .line files (Printed.styled "green" ("Cleared " ++ path.render))

/-! ## Recordings -/

/-- The runs of one section in a table. -/
def recordedRuns (sectionId : Int) (steps : List Step) : Printed :=
  let ticks := (expandSteps steps).length
  .table ("Section " ++ toString sectionId ++ " — " ++ toString ticks ++ " ticks")
    ["Inputs", "Ticks"]
    (((countdowns? steps).getD []).map fun (i, n) => [i.shown, toString n])

/-- The sections one after the other; what comes before a fault is printed. -/
def showSections (files : Files) :
    List (Int × List Value) → List Printed → Execution
  | [], printed => { printed, files }
  | (s, cells) :: rest, printed =>
    match decodeCells (.list cells) with
    | .error f => .abort printed files f
    | .ok steps => showSections files rest (printed ++ [recordedRuns s steps])

def executeRecordingShow (files : Files) (path : Path) : Execution :=
  match (Recording.load files path none).1 with
  | .error f => if f.isAnnounced then .failure files f.message else .abort [] files f
  | .ok r =>
    if r.sections.isEmpty then
      .line files (Printed.styled "dim" ("No recording at " ++ path.render ++ "."))
    else showSections files (r.sections.mergeSort fun a b => decide (a.1 ≤ b.1)) []

def executeRecordingRestore (files : Files) (path backup : Path) : Execution :=
  if files.isDirectory backup then .abort [] files .directory
  else
    match Recording.restore files path backup with
    | none => .failure files ("No backup at " ++ backup.render)
    | some files => .line files (Printed.styled "green" ("Restored " ++ path.render))

/-! ## All commands -/

def versionText : String := "tasrun v0.1.0"

/-- The question that a command asks before it does anything. -/
def question? (settings : Settings) : Command → Option String
  | .searchClear path false =>
    some ("Clear optimizer state at " ++ (path.getD settings.searchPath).render ++ "?")
  | _ => none

/-- Carries a command out, given the answer to its question. -/
def execute (settings : Settings) (files : Files) (now : String) (answer : Bool) (c : Command)
    (on : Surroundings := .ample) : Execution :=
  let x := match c with
    | .run program options => executeRun on.console settings files now program options
    | .check program => executeCheck on.stack settings files program
    | .builtins kind => executeBuiltins files kind
    | .version => .line files versionText
    | .searchStatus path => executeSearchStatus files now (path.getD settings.searchPath)
    | .searchClear path confirmed =>
      executeSearchClear files now (path.getD settings.searchPath) (confirmed || answer)
    | .recordingShow level runsDir =>
      executeRecordingShow files (Level.recordingPath (runsDir.getD settings.runsDir) level)
    | .recordingRestore level runsDir =>
      let directory := runsDir.getD settings.runsDir
      executeRecordingRestore files (Level.recordingPath directory level)
        (Level.backupPath directory settings.backupName)
  x.onConsole on.console

/-- The files that a command may read or write. -/
def paths (settings : Settings) : Command → List Path
  | .run program _ =>
    let directory := program.parent
    [Level.programPath directory program.stem, Level.recordingPath directory program.stem,
     Level.backupPath directory settings.backupName, settings.searchPath]
  | .check program => [program]
  | .builtins _ | .version => []
  | .searchStatus path | .searchClear path _ => [path.getD settings.searchPath]
  | .recordingShow level runsDir => [Level.recordingPath (runsDir.getD settings.runsDir) level]
  | .recordingRestore level runsDir =>
    let directory := runsDir.getD settings.runsDir
    [Level.recordingPath directory level, Level.backupPath directory settings.backupName]

end Command

/-- What a command line does.  Help and misuse print nothing here. -/
def Execution.ofRequest (settings : Settings) (files : Files) (now : String) (answer : Bool)
    (request : Request) (on : Surroundings := .ample) : Execution :=
  match request with
  | .perform c => c.execute settings files now answer on
  | .help => { files }
  | .misuse => { exit := 2, files }

end TickScript
