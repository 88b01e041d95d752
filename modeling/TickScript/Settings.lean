import TickScript.Field
import TickScript.Path
/-!
# Settings

What can be configured from outside: a setting is taken from the environment variable of
its name behind the common prefix, in any case; without one it has its default.

* `Settings.ofEnvironment?`: the settings of an environment.
* `Settings.ofFields?`: the settings of data.
-/

namespace TickScript

structure Settings where
  runsDir : Path := ⟨"", ["__runs"]⟩
  logLevel : String := "INFO"
  /-- The seed of programs that do not set their own. -/
  defaultSeed : Int := 8675309
  recordInputs : Bool := false
  playbackInputs : Bool := false
  restoreBackup : Bool := false
  backupName : String := "latest.rec.bak"
  /-- Where the bounds of the search are kept. -/
  searchPath : Path := ⟨"", ["__runs", "optimization.json"]⟩
  scriptInterval : Int := 16
  scriptDelay : Int := 14
  restartOnDeath : Bool := true
  deriving Repr, Inhabited, DecidableEq

namespace Settings

/-- The prefix of the environment variables, in lower case. -/
def variablePrefix : String := "tasrun_"

def path? (v : Value) : Option Path := (Field.text? v).map Path.parse

/-- Overrides settings by fields; unknown fields are left alone. -/
def override? (s : Settings) (fields : List (String × Value)) : Option Settings := do
  let runsDir ← Field.get fields "runs_dir" s.runsDir path?
  let logLevel ← Field.get fields "log_level" s.logLevel Field.text?
  let defaultSeed ← Field.get fields "default_seed" s.defaultSeed Field.int?
  let recordInputs ← Field.get fields "record_inputs" s.recordInputs Field.bool?
  let playbackInputs ← Field.get fields "playback_inputs" s.playbackInputs Field.bool?
  let restoreBackup ← Field.get fields "restore_backup_recording" s.restoreBackup Field.bool?
  let backupName ← Field.get fields "backup_filename" s.backupName Field.text?
  let searchPath ← Field.get fields "optimizer_state_path" s.searchPath path?
  let scriptInterval ← Field.get fields "scripted_interval_ticks" s.scriptInterval Field.int?
  let scriptDelay ← Field.get fields "scripted_initial_delay" s.scriptDelay Field.int?
  let restartOnDeath ← Field.get fields "restart_on_death" s.restartOnDeath Field.bool?
  return { runsDir, logLevel, defaultSeed, recordInputs, playbackInputs, restoreBackup,
           backupName, searchPath, scriptInterval, scriptDelay, restartOnDeath }

def ofFields? (fields : List (String × Value)) : Option Settings := override? {} fields

/-- The fields that environment variables set. -/
def environmentFields (environment : List (String × String)) : List (String × Value) :=
  environment.reverse.filterMap fun (name, text) =>
    let name := name.toLower
    if variablePrefix.toList.isPrefixOf name.toList then
      some (String.ofList (name.toList.drop variablePrefix.length), .text text)
    else none

def ofEnvironment? (environment : List (String × String)) : Option Settings :=
  ofFields? (environmentFields environment)

/-- Every setting under the name of its field, in order. -/
def toFields (s : Settings) : List (String × Value) :=
  [("runs_dir", .text s.runsDir.render), ("log_level", .text s.logLevel),
   ("default_seed", .int s.defaultSeed), ("record_inputs", .bool s.recordInputs),
   ("playback_inputs", .bool s.playbackInputs),
   ("restore_backup_recording", .bool s.restoreBackup),
   ("backup_filename", .text s.backupName),
   ("optimizer_state_path", .text s.searchPath.render),
   ("scripted_interval_ticks", .int s.scriptInterval),
   ("scripted_initial_delay", .int s.scriptDelay),
   ("restart_on_death", .bool s.restartOnDeath)]

end Settings

end TickScript
