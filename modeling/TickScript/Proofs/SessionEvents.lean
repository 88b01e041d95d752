import TickScript.Proofs.Runs
import TickScript.Session

/-!
# What a level tells its session

A level starts, asks for an update on each tick, shows message boxes, kills the player and is
left; its own code forces inputs and turns flags over. `HostEvent` lists what can happen, and
`Session.run` is what becomes of a session when one event follows the other.

An update is described in three parts: what it meets (`Session.met`), whether the player has
taken over (`Session.noticeKeys`), and what is noted at its end (`Session.noteTick`). It is live
if it lets the program have its tick (`Session.isLive`).

* `Session.updateWith_eq`: an update in its parts.
* `Session.updateWith_over`, `Session.updateWith_skips`, `Session.updateWith_program`: the three
  kinds of updates.
-/

namespace TickScript

namespace Engine

theorem exists_origin (e : Engine) : ∃ origin : Option Place,
    e.probe.map (fun p => { p with origin }) = e.probe := by
  cases e.probe with
  | none => exact ⟨none, rfl⟩
  | some p => exact ⟨p.origin, rfl⟩

/-- Loading a program leaves an open probe as it is, except for where it came from. -/
theorem load_cases (e : Engine) (steps : Option (List Step)) :
    ∃ program log, ∃ origin : Option Place, e.load steps =
      { e with program, log, probe := e.probe.map fun p => { p with origin } } := by
  have hforget : ∃ origin : Option Place,
      e.forgetSteps = { e with probe := e.probe.map fun p => { p with origin } } := by
    unfold forgetSteps
    rcases e.probe with _ | ⟨_, _, _, _, _, origin⟩
    · exact ⟨none, rfl⟩
    · rcases origin with _ | ⟨_ | _, _⟩ <;> exact ⟨_, rfl⟩
  obtain ⟨origin, hforget⟩ := hforget
  cases steps with
  | none => exact ⟨none, e.log, origin, by rw [load, hforget]⟩
  | some steps => exact ⟨_, _, origin, by rw [load, hforget]; rfl⟩

/-- The script changes itself and the log, and the override if it plays an entry. -/
theorem tickScript_cases (e : Engine) (paused : Bool) : ∃ script override log,
    e.tickScript paused = { e with script, override, log } ∧
      (paused = true ∨ e.script.tick.played = none → override = e.override) := by
  unfold tickScript
  split
  · exact ⟨_, _, _, rfl, fun _ => rfl⟩
  · next hpaused =>
    dsimp only
    split
    · exact ⟨_, _, _, rfl, fun _ => rfl⟩
    · next hplayed =>
      have hfires : ¬(paused = true ∨ e.script.tick.played = none) := by
        rw [hplayed]
        simp [hpaused]
      split
      · exact ⟨_, _, _, rfl, fun h => absurd h hfires⟩
      · exact ⟨_, _, _, rfl, fun h => absurd h hfires⟩

end Engine

/-! ## Events -/

/-- What the level shows when it asks for an update, and the keys that the player holds. -/
structure View where
  player : Player
  overlay : Option Overlay := none
  paused : Bool := false
  pressed : Inputs := .none
  deriving Inhabited

/-- What can happen to a session. -/
inductive HostEvent where
  | start
  | update (v : View)
  | showMessageBox
  | playerKilled
  | endLevel
  | exitLevel
  | cancel
  | overrideInput (replace : Option Inputs) (subtract add : Inputs) (duration : Int)
  | setFlags (flags : Flags)

namespace Session

/-- The session when an update begins: nothing is written on this tick yet. -/
def see (s : Session) (v : View) : Session :=
  s.modifyEngine fun e =>
    { e with
      simulation :=
        { e.simulation with
          player := v.player
          overlay := v.overlay
          paused := v.paused
          pressed := v.pressed
          current := .none } }

/-- One event, with a budget for the walk of an update. -/
def handle (budget : Nat) (s : Session) : HostEvent → Except Fault (Option TickOutcome) × Session
  | .start => (s.start.1.map fun _ => none, s.start.2)
  | .update v => (s.see v).updateWith budget
  | .showMessageBox => (.ok none, s.showMessageBox)
  | .playerKilled => (s.playerKilled.1.map fun _ => none, s.playerKilled.2)
  | .endLevel => (s.endLevel.1.map fun _ => none, s.endLevel.2)
  | .exitLevel => (s.exitLevel.1.map fun _ => none, s.exitLevel.2)
  | .cancel => (.ok none, s.cancel)
  | .overrideInput replace subtract add duration =>
    (.ok none, s.overrideInput replace subtract add duration)
  | .setFlags flags => (.ok none, s.modifyEngine ({ · with flags }))

/-- The results of events, one after the other, and the session that is left. An event that
fails does not end the run. -/
def run (budget : Nat) :
    List HostEvent → Session → List (Except Fault (Option TickOutcome)) × Session
  | [], s => ([], s)
  | event :: rest, s =>
    let (result, s) := s.handle budget event
    let (results, s) := run budget rest s
    (result :: results, s)

/-- A property of the events of a run, each with the session that it happens to. -/
def Along (budget : Nat) (P : Session → HostEvent → Prop) : List HostEvent → Session → Prop
  | [], _ => True
  | event :: rest, s => P s event ∧ Along budget P rest (s.handle budget event).2

theorem run_cons (budget : Nat) (event : HostEvent) (rest : List HostEvent) (s : Session) :
    run budget (event :: rest) s =
      ((s.handle budget event).1 :: (run budget rest (s.handle budget event).2).1,
        (run budget rest (s.handle budget event).2).2) := rfl

theorem run_concat (budget : Nat) (s : Session) (events : List HostEvent) (event : HostEvent) :
    (s.run budget (events ++ [event])).2 = ((s.run budget events).2.handle budget event).2 := by
  induction events generalizing s with
  | nil => rfl
  | cons e rest ih => exact ih (s.handle budget e).2

/-! ## The parts of an update -/

/-- The session of an update, with the program of the section and after a tick of the script. -/
def met (s : Session) : Session :=
  (s.enterSection s.engine.simulation.player.sectionId).modifyEngine
    (·.tickScript s.engine.simulation.paused)

/-- Whether the player has taken over, once what is held on this tick is known. -/
def noticeKeys (s : Session) : Session :=
  { s with
    tookOver :=
      s.tookOver || (s.config.recordInputs && !s.engine.simulation.held.isEmpty) }

/-- The end of a tick: it is recorded unless it was paused. -/
def noteTick (sectionId : Int) (outcome : Option TickOutcome) (s : Session) : Session :=
  let frozen := outcome.any fun o => o.kind = .paused
  let s :=
    if s.config.recordInputs && !frozen then
      { s with recorder := s.recorder.record sectionId s.engine.simulation.held.keys }
    else s
  s.modifyEngine ({ · with messageBox := false })

theorem updateWith_eq (budget : Nat) (s : Session) :
    s.updateWith budget =
      if s.engine.simulation.player.dead && !s.met.survivesDeath then (.ok none, s.met)
      else
        match s.met.noticeKeys.play budget s.engine.simulation.paused with
        | (.error f, s') => (.error f, s')
        | (.ok outcome, s') =>
          (.ok outcome, s'.noteTick s.engine.simulation.player.sectionId outcome) := rfl

theorem noteTick_eq (s : Session) (sectionId : Int) (outcome : Option TickOutcome) :
    ∃ recorder, s.noteTick sectionId outcome =
      { s with recorder, engine := { s.engine with messageBox := false } } := by
  unfold noteTick
  dsimp only
  split
  · exact ⟨_, rfl⟩
  · exact ⟨_, rfl⟩

theorem noteTick_engine (s : Session) (sectionId : Int) (outcome : Option TickOutcome) :
    (s.noteTick sectionId outcome).engine = { s.engine with messageBox := false } := by
  obtain ⟨recorder, hnote⟩ := s.noteTick_eq sectionId outcome
  rw [hnote]

theorem enterSection_cases (s : Session) (entered : Int) :
    ∃ sectionId program log, ∃ origin : Option Place,
      s.enterSection entered = { s with
        sectionId
        engine := { s.engine with
          program, log, probe := s.engine.probe.map fun p => { p with origin } } } ∧
      (s.program = none → program = s.engine.program) := by
  obtain ⟨origin, hkept⟩ := s.engine.exists_origin
  unfold enterSection
  split
  · next p hp =>
    split
    · obtain ⟨program, log, origin, hload⟩ := s.engine.load_cases (p.forSection entered)
      refine ⟨some entered, program, log, origin, by rw [hload], fun hnone => ?_⟩
      rw [hp] at hnone
      cases hnone
    · exact ⟨s.sectionId, s.engine.program, s.engine.log, origin, by rw [hkept], fun _ => rfl⟩
  · exact ⟨s.sectionId, s.engine.program, s.engine.log, origin, by rw [hkept], fun _ => rfl⟩

/-- What an update meets. The section may have changed, and with it the program; an open probe
stays open. The script may have set the override. -/
theorem met_cases (s : Session) :
    ∃ sectionId program script override log, ∃ origin : Option Place,
      s.met = { s with
        sectionId
        engine := { s.engine with
          program, script, override, log
          probe := s.engine.probe.map fun p => { p with origin } } } ∧
      (s.program = none → program = s.engine.program) ∧
      (s.engine.simulation.paused = true ∨ s.engine.script.tick.played = none →
        override = s.engine.override) := by
  obtain ⟨sectionId, program, log, origin, hentered, hprogram⟩ :=
    s.enterSection_cases s.engine.simulation.player.sectionId
  obtain ⟨script, override, log, hscript, hoverride⟩ := Engine.tickScript_cases
    { s.engine with program, log, probe := s.engine.probe.map fun p => { p with origin } }
    s.engine.simulation.paused
  refine ⟨sectionId, program, script, override, log, origin, ?_, hprogram, hoverride⟩
  rw [met, hentered, modifyEngine]
  dsimp only
  rw [hscript]

theorem met_survivesDeath (s : Session) : s.met.survivesDeath = s.survivesDeath := by
  obtain ⟨_, _, _, _, _, _, hmet, -⟩ := s.met_cases
  have hsearching : s.met.engine.isSearching = s.engine.isSearching := by
    rw [hmet]
    exact Option.isSome_map
  rw [survivesDeath, hsearching, hmet, survivesDeath]

theorem met_tookOver (s : Session) : s.met.noticeKeys.tookOver = s.noticeKeys.tookOver := by
  obtain ⟨_, _, _, _, _, _, hmet, -⟩ := s.met_cases
  rw [hmet]
  rfl

theorem met_simulation (s : Session) : s.met.engine.simulation = s.engine.simulation := by
  obtain ⟨_, _, _, _, _, _, hmet, -⟩ := s.met_cases
  rw [hmet]

theorem met_isFrozen (s : Session) (paused : Bool) :
    s.met.engine.isFrozen paused = s.engine.isFrozen paused := by
  obtain ⟨_, _, _, _, _, _, hmet, -⟩ := s.met_cases
  rw [hmet]
  rfl

/-! ## The kinds of updates -/

/-- The player is dead, and the death is not to be survived. -/
def isOver (s : Session) : Bool := s.engine.simulation.player.dead && !s.survivesDeath

/-- The update lets the program have its tick: it does not count as paused, the player is not
dead for good and has not taken over. -/
def isLive (s : Session) : Bool :=
  !s.engine.isFrozen s.engine.simulation.paused && !s.isOver && !s.noticeKeys.tookOver

variable {s : Session}

theorem isLive_iff : s.isLive = true ↔
    s.engine.isFrozen s.engine.simulation.paused = false ∧ s.isOver = false ∧
      s.noticeKeys.tookOver = false := by
  simp only [isLive, Bool.and_eq_true, Bool.not_eq_true', and_assoc]

/-- An update is over at once, or the program has no tick on it, or one. -/
theorem update_kinds (s : Session) : s.isOver = true ∨
    (s.isOver = false ∧ (s.noticeKeys.tookOver = true ∨ s.met.engine.program = none)) ∨
    (s.isOver = false ∧ s.noticeKeys.tookOver = false ∧ s.met.engine.program ≠ none) := by
  cases hover : s.isOver with
  | true => exact .inl rfl
  | false =>
    by_cases hskips : s.noticeKeys.tookOver = true ∨ s.met.engine.program = none
    · exact .inr (.inl ⟨rfl, hskips⟩)
    · obtain ⟨howned, hprogram⟩ := not_or.mp hskips
      exact .inr (.inr ⟨rfl, Bool.not_eq_true _ ▸ howned, hprogram⟩)

theorem updateWith_over (h : s.isOver = true) (budget : Nat) :
    s.updateWith budget = (.ok none, s.met) := by
  have hover : (s.engine.simulation.player.dead && !s.met.survivesDeath) = true := by
    rwa [met_survivesDeath, ← isOver]
  rw [updateWith_eq, if_pos hover]

/-- Nothing is played for a player who has taken over, nor without a program. -/
theorem updateWith_skips (hover : s.isOver = false)
    (hskips : s.noticeKeys.tookOver = true ∨ s.met.engine.program = none) (budget : Nat) :
    s.updateWith budget =
      (.ok none, s.met.noticeKeys.noteTick s.engine.simulation.player.sectionId none) := by
  have halive : ¬(s.engine.simulation.player.dead && !s.met.survivesDeath) = true := by
    rw [met_survivesDeath, ← isOver, hover]
    exact Bool.false_ne_true
  have hidle : (s.met.noticeKeys.tookOver || s.met.noticeKeys.engine.program.isNone) = true := by
    rcases hskips with howned | hnone
    · rw [met_tookOver, howned, Bool.true_or]
    · rw [show s.met.noticeKeys.engine.program = none from hnone]
      exact Bool.or_true _
  rw [updateWith_eq, if_neg halive, play, if_pos hidle]

/-- Otherwise the program has its tick, which is noted unless it fails. -/
theorem updateWith_program (hover : s.isOver = false) (howned : s.noticeKeys.tookOver = false)
    (hprogram : s.met.engine.program ≠ none) (budget : Nat) :
    s.updateWith budget =
      match s.met.engine.tickWith budget s.engine.simulation.paused with
      | (.error f, engine) => (.error f, { s.met.noticeKeys with engine })
      | (.ok outcome, engine) =>
        (.ok (some outcome), { s.met.noticeKeys with engine }.noteTick
          s.engine.simulation.player.sectionId (some outcome)) := by
  have halive : ¬(s.engine.simulation.player.dead && !s.met.survivesDeath) = true := by
    rw [met_survivesDeath, ← isOver, hover]
    exact Bool.false_ne_true
  have hplays : ¬(s.met.noticeKeys.tookOver || s.met.engine.program.isNone) = true := by
    rw [met_tookOver, howned, Bool.false_or, Option.isNone_iff_eq_none]
    exact hprogram
  have hengine : s.met.noticeKeys.engine = s.met.engine := rfl
  rw [updateWith_eq, if_neg halive, play, hengine, if_neg hplays]
  rcases s.met.engine.tickWith budget s.engine.simulation.paused with ⟨f | outcome, e⟩ <;> rfl

theorem updateWith_plays (hover : s.isOver = false) (howned : s.noticeKeys.tookOver = false)
    (hprogram : s.met.engine.program ≠ none) (budget : Nat) :
    (s.updateWith budget).1 =
        (s.met.engine.tickWith budget s.engine.simulation.paused).1.map some ∧
      ∃ messageBox, (s.updateWith budget).2.engine =
        { (s.met.engine.tickWith budget s.engine.simulation.paused).2 with messageBox } := by
  rw [updateWith_program hover howned hprogram]
  rcases s.met.engine.tickWith budget s.engine.simulation.paused with ⟨f | outcome, e⟩
  · exact ⟨rfl, e.messageBox, rfl⟩
  · exact ⟨rfl, false, noteTick_engine _ _ _⟩

/-- An update that is not live, or has no program, leaves the engine as it was met, but for the
message box. -/
theorem updateWith_idles (h : s.isLive = false ∨ s.met.engine.program = none) (budget : Nat) :
    ∃ messageBox, (s.updateWith budget).2.engine = { s.met.engine with messageBox } := by
  rcases s.update_kinds with hover | ⟨hover, hskips⟩ | ⟨hover, howned, hprogram⟩
  · rw [updateWith_over hover]
    exact ⟨s.met.engine.messageBox, rfl⟩
  · rw [updateWith_skips hover hskips]
    exact ⟨false, noteTick_engine _ _ _⟩
  · cases hfrozen : s.engine.isFrozen s.engine.simulation.paused with
    | true =>
      obtain ⟨-, hengine⟩ := updateWith_plays hover howned hprogram budget
      rwa [Engine.tickWith_frozen budget (s.met_isFrozen _ ▸ hfrozen)] at hengine
    | false =>
      rcases h with hlive | hnone
      · rw [isLive_iff.mpr ⟨hfrozen, hover, howned⟩] at hlive
        cases hlive
      · exact absurd hnone hprogram

/-! ## The start of a level -/

/-- What a session is for: a level, with its settings and the name of backups. -/
def home (s : Session) : String × Settings × String := (s.level, s.config, s.backupName)

theorem home_eq_iff {t : Session} : t.home = s.home ↔
    t.level = s.level ∧ t.config = s.config ∧ t.backupName = s.backupName := by
  simp only [home, Prod.mk.injEq]

theorem recordingPath_of_home {t : Session} (h : t.home = s.home) :
    t.recordingPath = s.recordingPath := by
  obtain ⟨hlevel, hconfig, -⟩ := home_eq_iff.mp h
  rw [recordingPath, recordingPath, hlevel, hconfig]

/-- The program of the level's file. -/
def compiled (s : Session) : Except Fault LevelProgram := do
  let file ← ProgramFile.load s.engine.files (Level.programPath s.config.runsDir s.level)
  file.compile .standard s.config.defaultSeed

/-- A level is given its program, or the recording that takes its place. -/
def openProgram (s : Session) (p : LevelProgram) : Except Fault Unit × Session :=
  if s.config.playbackInputs then { s with program := some p }.loadPlayback p
  else (.ok (), { s with program := some p })

/-- The session with other seeds. -/
def reseeded (s : Session) (random : Twister) (seeds : Option (Int × Int)) (seed : Int) :
    Session :=
  { s.modifyEngine fun e => { e with random, simulation := { e.simulation with seeds } } with
    seed }

/-- A program for the whole level is loaded, and the seeds of the program are fixed. -/
def fixSeeds (s : Session) (p : LevelProgram) : Session :=
  let s := if p.isGlobal then s.modifyEngine (·.load (some p.steps)) else s
  s.reseeded (.ofSeed p.seed) (some (p.seed, p.legacySeed)) p.seed

theorem start_eq (s : Session) :
    s.start =
      match s.compiled with
      | .error f => (.error f, s.reset)
      | .ok p =>
        match s.reset.openProgram p with
        | (.error f, s') => (.error f, s')
        | (.ok (), s') => (.ok (), s'.fixSeeds (s'.program.getD p)) := rfl

/-- The files that a recording is looked for in, and whether saving is over for this start; none
if the backup was to be restored and is missing. -/
def restored? (s : Session) : Option (Files × Bool) :=
  if s.config.restoreBackup then
    (Recording.restore s.engine.files s.recordingPath s.backupPath).map (·, true)
  else some (s.engine.files, s.closed)

theorem loadPlayback_eq (s : Session) (p : LevelProgram) :
    s.loadPlayback p =
      match s.restored? with
      | none => (.ok (), s)
      | some (files, closed) =>
        let opened := Recording.load files s.recordingPath (some s.backupPath)
        let s := { s.modifyEngine ({ · with files := opened.2 }) with closed }
        match opened.1 >>= fun r => Recording.program r.sections with
        | .error f => (.error f, s)
        | .ok sections =>
          (.ok (), { s with
            program := some { sections, seed := p.seed, legacySeed := p.legacySeed } }) := by
  unfold loadPlayback restored?
  split
  · cases Recording.restore s.engine.files s.recordingPath s.backupPath with
    | none => rfl
    | some files => rfl
  · rfl

/-- The session with other files, and with a program that was opened in them. -/
def opened (s : Session) (files : Files) (program : Option LevelProgram) (closed : Bool) :
    Session :=
  { s.modifyEngine ({ · with files }) with program, closed }

/-- What is opened, and whether that fails, depends on the level and on the files only. -/
theorem loadPlayback_alike {t : Session} (hhome : t.home = s.home)
    (hfiles : t.engine.files = s.engine.files) (hclosed : t.closed = s.closed)
    (hprogram : t.program = s.program) (p : LevelProgram) :
    ∃ result files program closed, s.loadPlayback p = (result, s.opened files program closed) ∧
      t.loadPlayback p = (result, t.opened files program closed) := by
  obtain ⟨-, hconfig, hbackup⟩ := home_eq_iff.mp hhome
  have hpath := recordingPath_of_home hhome
  have hbackupPath : t.backupPath = s.backupPath := by
    rw [backupPath, backupPath, hbackup, hconfig]
  have hrestored : t.restored? = s.restored? := by
    rw [restored?, restored?, hconfig, hfiles, hpath, hbackupPath, hclosed]
  rw [loadPlayback_eq, loadPlayback_eq, hrestored, hpath, hbackupPath]
  split
  · refine ⟨_, s.engine.files, s.program, s.closed, rfl, ?_⟩
    rw [← hfiles, ← hprogram, ← hclosed]
    rfl
  · dsimp only
    split
    · refine ⟨_, _, s.program, _, rfl, ?_⟩
      rw [← hprogram]
      rfl
    · exact ⟨_, _, _, _, rfl, rfl⟩

theorem openProgram_alike {t : Session} (hhome : t.home = s.home)
    (hfiles : t.engine.files = s.engine.files) (hclosed : t.closed = s.closed) (p : LevelProgram) :
    ∃ result files program closed, s.openProgram p = (result, s.opened files program closed) ∧
      t.openProgram p = (result, t.opened files program closed) := by
  have hconfig : t.config = s.config := (home_eq_iff.mp hhome).2.1
  by_cases hplayback : s.config.playbackInputs = true
  · rw [openProgram, openProgram, if_pos hplayback, if_pos (hconfig ▸ hplayback)]
    exact loadPlayback_alike (s := { s with program := some p }) (t := { t with program := some p })
      hhome hfiles hclosed rfl p
  · rw [openProgram, openProgram, if_neg hplayback, if_neg (hconfig ▸ hplayback)]
    refine ⟨_, s.engine.files, some p, s.closed, rfl, ?_⟩
    rw [← hfiles, ← hclosed]
    rfl

theorem openProgram_cases (s : Session) (p : LevelProgram) : ∃ result files program closed,
    s.openProgram p = (result, s.opened files program closed) := by
  obtain ⟨result, files, program, closed, hopened, -⟩ :=
    openProgram_alike (s := s) (t := s) rfl rfl rfl p
  exact ⟨result, files, program, closed, hopened⟩

theorem reseeded_eq (s : Session) (random : Twister) (seeds : Option (Int × Int)) (seed : Int) :
    ∃ engine, s.reseeded random seeds seed = { s with engine, seed } := ⟨_, rfl⟩

theorem fixSeeds_cases (s : Session) (p : LevelProgram) : ∃ engine seed,
    s.fixSeeds p = { s with engine, seed } := by
  unfold fixSeeds
  split
  · obtain ⟨engine, hseeded⟩ := (s.modifyEngine (·.load (some p.steps))).reseeded_eq
      (.ofSeed p.seed) (some (p.seed, p.legacySeed)) p.seed
    exact ⟨engine, p.seed, hseeded⟩
  · obtain ⟨engine, hseeded⟩ := s.reseeded_eq (.ofSeed p.seed) (some (p.seed, p.legacySeed)) p.seed
    exact ⟨engine, p.seed, hseeded⟩

/-- The start of a level drops what the last run left, whether it fails or not. -/
theorem start_cases (s : Session) : ∃ engine program closed seed,
    s.start.2 = { s.reset with engine, program, closed, seed } := by
  rw [start_eq]
  generalize s.reset = r
  split
  · exact ⟨r.engine, r.program, r.closed, r.seed, rfl⟩
  · next p _ =>
    obtain ⟨result, files, program, closed, hopened⟩ := r.openProgram_cases p
    rw [hopened]
    split
    · next heq =>
      cases heq
      exact ⟨_, program, closed, r.seed, rfl⟩
    · next heq =>
      cases heq
      obtain ⟨engine, seed, hfixed⟩ :=
        (r.opened files program closed).fixSeeds_cases (program.getD p)
      exact ⟨engine, program, closed, seed, hfixed⟩

theorem fixSeeds_engine (r : Session) (p : LevelProgram) :
    ∃ program log random simulation, ∃ origin : Option Place, (r.fixSeeds p).engine =
      { r.engine with
        program, log, random, simulation
        probe := r.engine.probe.map fun p => { p with origin } } := by
  let simulation := { r.engine.simulation with seeds := some (p.seed, p.legacySeed) }
  unfold fixSeeds
  generalize Twister.ofSeed p.seed = random
  split
  · obtain ⟨program, log, origin, hload⟩ := r.engine.load_cases (some p.steps)
    refine ⟨program, log, random, simulation, origin, ?_⟩
    rw [reseeded, modifyEngine, modifyEngine, hload]
  · obtain ⟨origin, hkept⟩ := r.engine.exists_origin
    refine ⟨r.engine.program, r.engine.log, random, simulation, origin, ?_⟩
    rw [reseeded, modifyEngine, hkept]

/-- What is left of the engine when a run is aborted. -/
theorem engine_cancel (s : Session) : s.cancel.engine = { s.engine with
    program := none, override := .cleared, script := s.engine.script.cleared, probe := none } := rfl

/-- What the start of a level does to the engine, whether it fails or not. -/
theorem start_engine (s : Session) : ∃ program log files random simulation,
    s.start.2.engine = { s.engine with
      program, log, files, random, simulation, override := .cleared
      script := s.engine.script.cleared, probe := none } := by
  have hreset : s.reset.engine = s.cancel.engine := rfl
  rw [engine_cancel] at hreset
  rw [start_eq]
  split
  · exact ⟨_, _, _, _, _, hreset⟩
  · next p _ =>
    obtain ⟨result, files, program, closed, hopened⟩ := s.reset.openProgram_cases p
    have hengine : (s.reset.opened files program closed).engine =
        { s.reset.engine with files } := rfl
    rw [hopened]
    split
    · next heq =>
      cases heq
      exact ⟨_, _, files, _, _, hengine⟩
    · next heq =>
      cases heq
      obtain ⟨program', log, random, simulation, origin, hfixed⟩ :=
        (s.reset.opened files program closed).fixSeeds_engine (program.getD p)
      rw [hengine, hreset] at hfixed
      exact ⟨program', log, files, random, simulation, hfixed⟩

/-- A level starts with the program of its file, or the recording that takes its place. -/
theorem start_of_compiled {p q : LevelProgram} {t : Session} (hcompiled : s.compiled = .ok p)
    (hopened : s.reset.openProgram p = (.ok (), t)) (hp : t.program = some q)
    (hglobal : q.isGlobal = false) :
    ∃ random seeds seed, s.start = (.ok (), t.reseeded random seeds seed) := by
  refine ⟨.ofSeed q.seed, some (q.seed, q.legacySeed), q.seed, ?_⟩
  rw [start_eq, hcompiled]
  dsimp only
  rw [hopened]
  dsimp only
  rw [hp, Option.getD_some, fixSeeds, hglobal, if_neg Bool.false_ne_true]

/-! ## The end of a level -/

/-- The player took over, and the recording was not saved yet. -/
def hasTake (s : Session) : Bool := s.config.recordInputs && s.tookOver && !s.closed

theorem endLevel_eq (s : Session) :
    s.endLevel =
      if s.hasTake then
        match (Recording.ofRecorder s.recorder.finalize).save s.engine.files s.recordingPath with
        | .error f => (.error f, { s with recorder := s.recorder.finalize })
        | .ok files =>
          (.ok (), { s.modifyEngine ({ · with files }) with
            recorder := s.recorder.finalize, closed := true, tookOver := false })
      else (.ok (), s) := rfl

/-- At the end of a level a recording is saved, and then playback is on again, or it is left as
it was. -/
theorem endLevel_cases (s : Session) :
    (s.hasTake = false ∧ s.endLevel = (.ok (), s)) ∨
    (s.hasTake = true ∧ ∃ recorder f, s.endLevel = (.error f, { s with recorder })) ∨
    (s.hasTake = true ∧ ∃ recorder files, s.endLevel =
      (.ok (), { s.modifyEngine ({ · with files }) with
        recorder, closed := true, tookOver := false })) := by
  rw [endLevel_eq]
  cases s.hasTake with
  | false => exact .inl ⟨rfl, rfl⟩
  | true =>
    rw [if_pos rfl]
    split
    · exact .inr (.inl ⟨rfl, _, _, rfl⟩)
    · exact .inr (.inr ⟨rfl, _, _, rfl⟩)

/-- The death of the player ends the level, and perhaps the run, which is reported. -/
theorem playerKilled_eq (s : Session) : ∃ reports, s.playerKilled.2 =
    s.endLevel.2.modifyEngine fun e => { e with simulation := { e.simulation with reports } } := by
  unfold playerKilled
  split
  · next hend =>
    rw [hend]
    exact ⟨_, rfl⟩
  · next hend =>
    rw [hend]
    split
    · exact ⟨_, rfl⟩
    · exact ⟨_, rfl⟩

/-- A level is left without its run, unless saving the recording fails. -/
theorem exitLevel_cases (s : Session) :
    (∃ f, s.endLevel.1 = .error f ∧ s.exitLevel = (.error f, s.endLevel.2)) ∨
    (s.endLevel.1 = .ok () ∧ s.exitLevel = (.ok (), s.endLevel.2.cancel)) := by
  unfold exitLevel
  split
  · next f t heq =>
    rw [heq]
    exact .inl ⟨f, rfl, rfl⟩
  · next t heq =>
    rw [heq]
    exact .inr ⟨rfl, rfl⟩

/-! ## What an event does to the engine -/

theorem endLevel_engine (s : Session) :
    ∃ files, s.endLevel.2.engine = { s.engine with files } := by
  rcases s.endLevel_cases with ⟨-, hend⟩ | ⟨-, _, _, hend⟩ | ⟨-, _, files, hend⟩
  · exact ⟨s.engine.files, by rw [hend]⟩
  · exact ⟨s.engine.files, by rw [hend]⟩
  · exact ⟨files, by rw [hend]; rfl⟩

/-- What an event other than an update does to the engine. A script is cleared at most, and
nothing but a message box raises its mark. -/
theorem handle_engine (s : Session) (budget : Nat) {event : HostEvent}
    (hupdate : ∀ v, event ≠ .update v) :
    ∃ program log files random simulation override script probe flags messageBox,
      (s.handle budget event).2.engine = { s.engine with
        program, log, files, random, simulation, override, script, probe, flags, messageBox } ∧
      (script = s.engine.script ∨ script = s.engine.script.cleared) ∧
      (event ≠ .showMessageBox → messageBox = s.engine.messageBox) := by
  cases event with
  | update v => exact absurd rfl (hupdate v)
  | start =>
    obtain ⟨_, _, _, _, _, hstart⟩ := s.start_engine
    exact ⟨_, _, _, _, _, _, _, _, _, _, hstart, .inr rfl, fun _ => rfl⟩
  | showMessageBox => exact ⟨_, _, _, _, _, _, _, _, _, _, rfl, .inl rfl, fun h => absurd rfl h⟩
  | setFlags => exact ⟨_, _, _, _, _, _, _, _, _, _, rfl, .inl rfl, fun _ => rfl⟩
  | cancel => exact ⟨_, _, _, _, _, _, _, _, _, _, s.engine_cancel, .inr rfl, fun _ => rfl⟩
  | overrideInput replace subtract add duration =>
    cases replace with
    | none => exact ⟨_, _, _, _, _, _, _, _, _, _, rfl, .inl rfl, fun _ => rfl⟩
    | some content => exact ⟨_, _, _, _, _, _, _, _, _, _, rfl, .inl rfl, fun _ => rfl⟩
  | endLevel =>
    obtain ⟨files, hend⟩ := s.endLevel_engine
    exact ⟨_, _, files, _, _, _, _, _, _, _, hend, .inl rfl, fun _ => rfl⟩
  | playerKilled =>
    obtain ⟨files, hend⟩ := s.endLevel_engine
    obtain ⟨reports, hkilled⟩ := s.playerKilled_eq
    have hengine : s.playerKilled.2.engine =
        { s.engine with files, simulation := { s.engine.simulation with reports } } := by
      rw [hkilled, modifyEngine, hend]
    exact ⟨_, _, files, _, _, _, _, _, _, _, hengine, .inl rfl, fun _ => rfl⟩
  | exitLevel =>
    obtain ⟨files, hend⟩ := s.endLevel_engine
    rcases s.exitLevel_cases with ⟨f, -, hexit⟩ | ⟨-, hexit⟩
    · have hengine : s.exitLevel.2.engine = { s.engine with files } := by rw [hexit, hend]
      exact ⟨_, _, files, _, _, _, _, _, _, _, hengine, .inl rfl, fun _ => rfl⟩
    · have hengine := s.endLevel.2.engine_cancel
      rw [hend] at hengine
      rw [handle, hexit]
      exact ⟨_, _, files, _, _, _, _, _, _, _, hengine, .inr rfl, fun _ => rfl⟩

/-! ## What no event changes -/

theorem play_home (s : Session) (budget : Nat) (paused : Bool) :
    (s.play budget paused).2.home = s.home := by
  unfold play
  split
  · rfl
  · rcases s.engine.tickWith budget paused with ⟨result, engine⟩
    rfl

theorem updateWith_home (s : Session) (budget : Nat) : (s.updateWith budget).2.home = s.home := by
  have hmet : s.met.noticeKeys.home = s.home := by
    obtain ⟨_, _, _, _, _, _, hmet, -⟩ := s.met_cases
    rw [hmet]
    rfl
  have hnote : ∀ (t : Session) (sectionId : Int) (outcome : Option TickOutcome),
      (t.noteTick sectionId outcome).home = t.home := by
    intro t sectionId outcome
    obtain ⟨recorder, hnote⟩ := t.noteTick_eq sectionId outcome
    rw [hnote]
    rfl
  have hplay := s.met.noticeKeys.play_home budget s.engine.simulation.paused
  rw [updateWith_eq]
  split
  · exact hmet
  · split
    · next heq =>
      rw [heq] at hplay
      exact hplay.trans hmet
    · next heq =>
      rw [heq] at hplay
      exact (hnote _ _ _).trans (hplay.trans hmet)

theorem start_home (s : Session) : s.start.2.home = s.home := by
  obtain ⟨engine, program, closed, seed, hstart⟩ := s.start_cases
  rw [hstart]
  rfl

theorem cancel_home (s : Session) : s.cancel.home = s.home := rfl

theorem endLevel_home (s : Session) : s.endLevel.2.home = s.home := by
  rcases s.endLevel_cases with ⟨-, hend⟩ | ⟨-, _, _, hend⟩ | ⟨-, _, _, hend⟩ <;> rw [hend] <;> rfl

theorem handle_home (s : Session) (budget : Nat) (event : HostEvent) :
    (s.handle budget event).2.home = s.home := by
  cases event with
  | start => exact s.start_home
  | update v => exact (s.see v).updateWith_home budget
  | showMessageBox | cancel | setFlags => rfl
  | endLevel => exact s.endLevel_home
  | overrideInput replace =>
    cases replace with
    | none => rfl
    | some content => rfl
  | playerKilled =>
    obtain ⟨reports, hkilled⟩ := s.playerKilled_eq
    rw [handle, hkilled]
    exact s.endLevel_home
  | exitLevel =>
    rcases s.exitLevel_cases with ⟨f, -, hexit⟩ | ⟨-, hexit⟩
    · rw [handle, hexit]
      exact s.endLevel_home
    · rw [handle, hexit]
      exact s.endLevel.2.cancel_home.trans s.endLevel_home

theorem run_home (budget : Nat) (events : List HostEvent) (s : Session) :
    (s.run budget events).2.home = s.home := by
  induction events generalizing s with
  | nil => rfl
  | cons event rest ih => exact (ih _).trans (s.handle_home budget event)

end Session

end TickScript
