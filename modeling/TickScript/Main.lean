import TickScript.Command.Execute
import Std.Time.Zoned
/-!
# The command line

Reads the files and settings that a command needs, carries the command out, prints what
there is to print and writes the files that changed.
-/

namespace TickScript.Main

/-- The time in UTC, as records are stamped with it. -/
def timeStamp : IO String := do
  let zero := Std.Time.TimeZone.Offset.zero
  let t := Std.Time.PlainDateTime.ofWallTime (.ofTimestamp (← Std.Time.Timestamp.now) zero)
  let digits := fun (width : Nat) (n : Int) =>
    let text := toString n
    String.ofList (List.replicate (width - text.length) '0') ++ text
  let date := "-".intercalate [digits 4 t.year.toInt, digits 2 t.month.val, digits 2 t.day.val]
  let time := ":".intercalate
    [digits 2 t.hour.val, digits 2 t.minute.val, digits 2 t.second.val]
  return date ++ "T" ++ time ++ "." ++ digits 6 (t.nanosecond.val / 1000) ++ "+00:00"

/-- The environment variables that settings are taken from. -/
def environment : IO (List (String × String)) := do
  let names := ({} : Settings).toFields.map fun (name, _) => Settings.variablePrefix ++ name
  let found ← (names ++ names.map String.toUpper).mapM fun name => do
    return (← IO.getEnv name).map fun text => (name, text)
  return found.filterMap id

/-- The text of a file that is there. -/
def readFile? (path : Path) : IO (Option String) := do
  try
    return some (← IO.FS.readFile path.render)
  catch
    | .noFileOrDirectory .. => return none
    | e => throw e

def readFiles (paths : List Path) : IO Files :=
  paths.foldlM (fun files path => do
    match ← readFile? path with
    | some text => return files.write path text
    | none => return files) .empty

/-- Writes the files that a command changed. -/
def writeFiles (paths : List Path) (before after : Files) : IO Unit :=
  paths.forM fun path => do
    match after.read? path with
    | some text =>
      if before.read? path != some text then
        IO.FS.createDirAll path.parent.render
        IO.FS.writeFile path.render text
    | none => return

/-- Asks until there is an answer; the end of the input declines. -/
partial def ask (question : String) : IO Bool := do
  IO.print (question ++ " [y/N]: ")
  (← IO.getStdout).flush
  let line ← (← IO.getStdin).getLine
  if line.isEmpty then return false
  match Confirmation.ofLine? line with
  | some answer => return answer
  | none => ask question

def usage : List String :=
  ["run PROGRAM [--ticks N] [--attempts N] [--width X] [--sections N]",
   "check PROGRAM",
   "builtins [--kind KIND]",
   "version",
   "optimizer status [--path FILE]",
   "optimizer clear [--path FILE] [--yes]",
   "recording show LEVEL [--runs-dir DIR]",
   "recording restore LEVEL [--runs-dir DIR]"]

def perform (settings : Settings) (c : Command) : IO UInt32 := do
  let paths := c.paths settings
  let before ← readFiles paths
  let answer ← match c.question? settings with
    | some question => ask question
    | none => pure false
  let x := c.execute settings before (← timeStamp) answer
  writeFiles paths before x.files
  x.printed.forM fun p => p.plain.forM IO.println
  match x.fault with
  | some f => IO.eprintln ("failed: " ++ f.title?.getD "invalid value" ++ " " ++ f.message)
  | none => pure ()
  return x.exit.toUInt32

end TickScript.Main

open TickScript in
def main (args : List String) : IO UInt32 := do
  match Settings.ofEnvironment? (← Main.environment) with
  | none =>
    IO.eprintln "invalid settings"
    return 1
  | some settings =>
    match Command.ofArguments args with
    | .perform c => Main.perform settings c
    | .help =>
      Main.usage.forM IO.println
      return 0
    | .misuse =>
      Main.usage.forM IO.eprintln
      return 2
