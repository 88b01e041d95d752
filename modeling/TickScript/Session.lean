import TickScript.Engine.Tick
import TickScript.Recording
import TickScript.Settings
/-!
# Sessions

A session joins the engine to the events of a level: its start, one update on each tick,
message boxes, the death of the player and the exit.  Everything that a run owns (program,
cursor, overrides, open probe, recorder) is dropped when the run is cancelled or the level
starts again; the flags and the record of the search are not.

* `Session.start`: a level starts.
* `Session.update`: one tick.
* `Session.endLevel`: the recording is saved, at most once for each start.
-/

namespace TickScript

structure Session where
  engine : Engine
  level : String
  config : Settings
  /-- The name of backups in the runs directory. -/
  backupName : String
  recorder : Recorder := {}
  program : Option LevelProgram := none
  seed : Int
  /-- The section whose program is loaded. -/
  sectionId : Option Int := none
  /-- The player took over; playback stays off until the level starts again. -/
  tookOver : Bool := false
  /-- The recording of this start must not be saved, or was saved already. -/
  closed : Bool := false
  deriving Inhabited

namespace Session

/-- A session for a level, with the record of the search as its file has it.  Without a
file the given record is kept. -/
def new (config : Settings) (backupName level : String) (simulation : Simulation)
    (files : Files) (record : SearchRecord) (now : String) : Session :=
  let engine : Engine :=
    { random := .ofSeed config.defaultSeed
      simulation
      script := { interval := config.scriptInterval, initialDelay := config.scriptDelay }
      record
      files
      recordPath := config.searchPath
      now }
  { engine := engine.loadRecord.2, level, config, backupName, seed := config.defaultSeed }

def modifyEngine (s : Session) (f : Engine → Engine) : Session := { s with engine := f s.engine }

/-- Ticks go on through the death of the player, so that it can be looked at. -/
def survivesDeath (s : Session) : Bool :=
  s.engine.flags.ignoreDeath || s.engine.isSearching

/-- Aborts the run. -/
def cancel (s : Session) : Session :=
  { s with
    engine := { s.engine.clear with script := s.engine.script.cleared, probe := none }
    program := none
    sectionId := none }

/-- Drops what a run owns, and the recorder. -/
def reset (s : Session) : Session :=
  { s.cancel with recorder := {}, tookOver := false, closed := false }

/-! ## Starting a level -/

def recordingPath (s : Session) : Path := Level.recordingPath s.config.runsDir s.level

def backupPath (s : Session) : Path := Level.backupPath s.config.runsDir s.backupName

/-- Replaces the program by the recording of the level. -/
def loadPlayback (s : Session) (program : LevelProgram) : Except Fault Unit × Session :=
  let restored :=
    if s.config.restoreBackup then
      (Recording.restore s.engine.files s.recordingPath s.backupPath).map fun files =>
        { s.modifyEngine ({ · with files }) with closed := true }
    else some s
  match restored with
  | none => (.ok (), s)
  | some s =>
    let (recording, files) := Recording.load s.engine.files s.recordingPath (some s.backupPath)
    let s := s.modifyEngine ({ · with files })
    match recording >>= fun r => Recording.program r.sections with
    | .error f => (.error f, s)
    | .ok sections =>
      let program : LevelProgram :=
        { sections, seed := program.seed, legacySeed := program.legacySeed }
      (.ok (), { s with program := some program })

/-- Starts the level: loads its program or recording and fixes the seeds. -/
def start (s : Session) : Except Fault Unit × Session :=
  let s := s.reset
  let compiled := do
    let file ← ProgramFile.load s.engine.files (Level.programPath s.config.runsDir s.level)
    file.compile .standard s.config.defaultSeed
  match compiled with
  | .error f => (.error f, s)
  | .ok program =>
    let s := { s with program := some program }
    match if s.config.playbackInputs then s.loadPlayback program else (.ok (), s) with
    | (.error f, s) => (.error f, s)
    | (.ok (), s) =>
      let program := s.program.getD program
      let s := if program.isGlobal then s.modifyEngine (·.load (some program.steps)) else s
      let s := s.modifyEngine fun e =>
        { e with
          random := .ofSeed program.seed
          simulation := { e.simulation with seeds := some (program.seed, program.legacySeed) } }
      (.ok (), { s with seed := program.seed })

/-- Installs a program without reading a file. -/
def loadProgram (s : Session) (program : LevelProgram) : Session :=
  { s with
    program := some program
    sectionId := none
    engine := s.engine.load (if program.isGlobal then some program.steps else none) }

/-! ## Ticks -/

/-- Loads the program of the section that the player is in. -/
def enterSection (s : Session) (sectionId : Int) : Session :=
  match s.program with
  | some program =>
    if !program.isGlobal && s.sectionId != some sectionId then
      { s with
        sectionId := some sectionId
        engine := s.engine.load (program.forSection sectionId) }
    else s
  | none => s

/-- The part of a tick that plays the program, unless the player took over. -/
def play (s : Session) (budget : Nat) (paused : Bool) :
    Except Fault (Option TickOutcome) × Session :=
  if s.tookOver || s.engine.program.isNone then (.ok none, s)
  else
    let (result, engine) := s.engine.tickWith budget paused
    (result.map some, { s with engine })

/-- One tick, with a budget for the walk through the program. -/
def updateWith (budget : Nat) (s : Session) : Except Fault (Option TickOutcome) × Session :=
  let player := s.engine.simulation.player
  let paused := s.engine.simulation.paused
  let s := s.enterSection player.sectionId
  let s := s.modifyEngine (·.tickScript paused)
  if player.dead && !s.survivesDeath then (.ok none, s)
  else
    let takesOver := s.config.recordInputs && !s.engine.simulation.held.isEmpty
    let s := { s with tookOver := s.tookOver || takesOver }
    match s.play budget paused with
    | (.error f, s) => (.error f, s)
    | (.ok outcome, s) =>
      let frozen := outcome.any fun o => o.kind = .paused
      let s :=
        if s.config.recordInputs && !frozen then
          { s with
            recorder := s.recorder.record player.sectionId s.engine.simulation.held.keys }
        else s
      (.ok outcome, s.modifyEngine ({ · with messageBox := false }))

def update (s : Session) : Except Fault (Option TickOutcome) × Session :=
  s.updateWith Engine.budget

def showMessageBox (s : Session) : Session := s.modifyEngine ({ · with messageBox := true })

/-! ## The end of a level -/

/-- Saves the recording, if the player took over and it was not saved yet. -/
def endLevel (s : Session) : Except Fault Unit × Session :=
  if s.config.recordInputs && s.tookOver && !s.closed then
    let s := { s with recorder := s.recorder.finalize }
    match (Recording.ofRecorder s.recorder).save s.engine.files s.recordingPath with
    | .error f => (.error f, s)
    | .ok files =>
      (.ok (), { s.modifyEngine ({ · with files }) with closed := true, tookOver := false })
  else (.ok (), s)

/-- The player was killed; unless that is to be survived, the run ends. -/
def playerKilled (s : Session) : Except Fault Unit × Session :=
  match s.endLevel with
  | (.error f, s) => (.error f, s)
  | (.ok (), s) =>
    if s.config.restartOnDeath && !s.survivesDeath then
      let report : Report := { reason := .playerDied, message := "Player died" }
      (.ok (), s.modifyEngine fun e => { e with simulation := e.simulation.endRun report })
    else (.ok (), s)

/-- The level is left. -/
def exitLevel (s : Session) : Except Fault Unit × Session :=
  match s.endLevel with
  | (.error f, s) => (.error f, s)
  | (.ok (), s) => (.ok (), s.cancel)

/-! ## Inputs from the level -/

/-- Forces the input for some ticks: replaces it, or edits that of the current step. -/
def overrideInput (s : Session) (replace : Option Inputs) (subtract add : Inputs)
    (duration : Int) : Session :=
  match replace with
  | some content => s.modifyEngine ({ · with override := ⟨content, duration⟩ })
  | none => s.modifyEngine (·.modifyOverride subtract add duration)

end Session

end TickScript
