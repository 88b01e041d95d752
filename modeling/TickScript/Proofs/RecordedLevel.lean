import TickScript.Proofs.LevelFiles
import TickScript.Proofs.Playback
import TickScript.Proofs.SessionEvents

/-!
# A level is recorded and played back

While a level without a program is recorded, nothing is written, so what is held on a tick is
what the player holds (`Session.Records.update`). At the exit the recording is saved, and another
session that plays it back writes on each tick what was held on that tick
(`Session.plays_back_as_recorded`).

The program of a section starts anew whenever the player enters it. The level comes back tick by
tick only if no section is entered twice (`InBlocks`).
-/

namespace TickScript

/-- Between two ticks in a section, the player is in no other section. -/
def InBlocks (sections : List Int) : Prop :=
  ∀ a b : Int, [a, b, a].Sublist sections → b = a

namespace InBlocks

variable {s : Int} {sections : List Int}

theorem of_cons (h : InBlocks (s :: sections)) : InBlocks sections :=
  fun a b hab => h a b (hab.cons s)

/-- One more tick in the same section. -/
theorem cons_self (h : InBlocks (s :: sections)) : InBlocks (s :: s :: sections) := by
  intro a b hab
  cases hab with
  | cons _ hab => exact h a b hab
  | cons_cons _ hab =>
    cases hab with
    | cons _ hab => exact h _ b (hab.cons_cons _)
    | cons_cons _ _ => rfl

/-- A section that was left is not entered again. -/
theorem not_mem {s' : Int} (h : InBlocks (s :: s' :: sections)) (hne : s' ≠ s) :
    s ∉ sections := by
  intro hs
  have hlast : [s].Sublist sections := List.singleton_sublist.mpr hs
  exact hne (h s s' ((hlast.cons_cons s').cons_cons s))

/-- Sections that are visited in ascending order. -/
theorem of_pairwise (h : sections.Pairwise (· ≤ ·)) : InBlocks sections := by
  intro a b hab
  have hsorted := h.sublist hab
  simp only [List.pairwise_cons, List.mem_cons] at hsorted
  have hle := hsorted.1 b (.inl rfl)
  have hge := hsorted.2.1 a (.inl rfl)
  omega

end InBlocks

/-- What the player does on one tick. -/
structure Tick where
  player : Player
  /-- The keys that the player holds. -/
  keys : KeySet := .empty

/-- What is recorded of a tick. -/
def Tick.entry (t : Tick) : Int × KeySet := (t.player.sectionId, t.keys)

namespace Session

/-- The session when a tick begins that is not paused: nothing is written on it yet. -/
def observe (s : Session) (t : Tick) : Session :=
  s.modifyEngine fun e =>
    { e with
      simulation :=
        { e.simulation with
          player := t.player
          paused := false
          pressed := .ofKeys t.keys
          current := .none } }

/-- One update on each tick. -/
def updates : List Tick → Session → List (Except Fault (Option TickOutcome)) × Session
  | [], s => ([], s)
  | t :: rest, s =>
    let (result, s) := (s.observe t).update
    let (results, s) := updates rest s
    (result :: results, s)

theorem updates_cons (t : Tick) (rest : List Tick) (s : Session) :
    updates (t :: rest) s =
      ((s.observe t).update.1 :: (updates rest (s.observe t).update.2).1,
        (updates rest (s.observe t).update.2).2) := rfl

/-- The session after the start of the level and some ticks. -/
def playedFor (s : Session) (ticks : List Tick) : Session := (updates ticks s.start.2).2

/-- The session after the exit. -/
def leftAfter (s : Session) (ticks : List Tick) : Session := (s.playedFor ticks).exitLevel.2

/-- Nothing fails from the start of the level to its exit. -/
structure Succeeds (s : Session) (ticks : List Tick) : Prop where
  start : s.start.1 = .ok ()
  updates : ∀ result ∈ (updates ticks s.start.2).1, ∃ outcome, result = .ok outcome
  exit : (s.playedFor ticks).exitLevel.1 = .ok ()

/-! ## Sections -/

variable {s : Session} {p : LevelProgram} {sectionId : Int}

theorem enterSection_of_eq (h : s.sectionId = some sectionId) : s.enterSection sectionId = s := by
  unfold enterSection
  split
  · have hsame : (s.sectionId != some sectionId) = false := by simp [h]
    rw [hsame, Bool.and_false, if_neg Bool.false_ne_true]
  · rfl

theorem enterSection_of_ne (hp : s.program = some p) (hglobal : p.isGlobal = false)
    (h : s.sectionId ≠ some sectionId) :
    s.enterSection sectionId =
      { s with
        sectionId := some sectionId
        engine := s.engine.load (p.sections.lookup sectionId) } := by
  have hother : (s.sectionId != some sectionId) = true := by simpa using h
  unfold enterSection
  rw [hp]
  dsimp only
  rw [hglobal, hother, if_pos (by rfl), LevelProgram.forSection, hglobal,
    if_neg Bool.false_ne_true]

theorem enterSection_simulation (s : Session) (sectionId : Int) :
    (s.enterSection sectionId).engine.simulation = s.engine.simulation := by
  obtain ⟨_, _, _, _, hentered, -⟩ := s.enterSection_cases sectionId
  rw [hentered]

/-! ## Live ticks -/

theorem modifyEngine_tickScript (h : s.engine.script.queue = []) (paused : Bool) :
    s.modifyEngine (·.tickScript paused) = s := by
  have hbeat : s.engine.script.tick = ⟨none, false, s.engine.script⟩ := by
    rw [ScriptQueue.tick, h]
  rw [modifyEngine, Engine.tickScript, hbeat]
  cases paused <;> rfl

theorem noticeKeys_of_playback (h : s.config.recordInputs = false) : s.noticeKeys = s := by
  have htook : (s.tookOver || (s.config.recordInputs && !s.engine.simulation.held.isEmpty)) =
      s.tookOver := by
    rw [h, Bool.false_and, Bool.or_false]
  rw [noticeKeys, htook]

theorem noteTick_of_playback (h : s.config.recordInputs = false) (outcome : Option TickOutcome) :
    s.noteTick sectionId outcome = s.modifyEngine ({ · with messageBox := false }) := by
  rw [noteTick, h]
  rfl

/-- A tick on which no program was played is recorded. -/
theorem noteTick_none (h : s.config.recordInputs = true) :
    s.noteTick sectionId none =
      { s.modifyEngine ({ · with messageBox := false }) with
        recorder := s.recorder.record sectionId s.engine.simulation.held.keys } := by
  rw [noteTick, h]
  rfl

/-- A tick that the player lives through, while no script is played. -/
theorem updateWith_live {entered : Session} {t : Tick} (hlive : t.player.dead = false)
    (hentered : (s.observe t).enterSection t.player.sectionId = entered)
    (hscript : entered.engine.script.queue = []) (budget : Nat) :
    (s.observe t).updateWith budget =
      match entered.noticeKeys.play budget false with
      | (.error f, s) => (.error f, s)
      | (.ok outcome, s) => (.ok outcome, s.noteTick t.player.sectionId outcome) := by
  have hplayer : (s.observe t).engine.simulation.player = t.player := rfl
  have hpaused : (s.observe t).engine.simulation.paused = false := rfl
  unfold updateWith
  rw [hplayer, hpaused]
  dsimp only
  rw [hentered, modifyEngine_tickScript hscript, hlive]
  rfl

/-! ## Recording -/

/-- The level is being recorded: no program writes, and the ticks so far are those of the log. -/
structure Records (s₀ s : Session) (log : SectionLog) : Prop where
  config : s.config = s₀.config
  level : s.level = s₀.level
  files : s.engine.files = s₀.engine.files
  program : ∃ p, s.program = some p ∧ p.isGlobal = false ∧ p.sections = []
  idle : s.engine.program = none
  script : s.engine.script.queue = []
  recorder : s.recorder = .ofLog log
  tookOver : s.tookOver = log.any fun t => !t.2.isEmpty
  closed : s.closed = false

variable {s₀ : Session} {log : SectionLog}

theorem Records.observe (h : Records s₀ s log) (t : Tick) : Records s₀ (s.observe t) log :=
  ⟨h.config, h.level, h.files, h.program, h.idle, h.script, h.recorder, h.tookOver, h.closed⟩

theorem Records.reseeded (h : Records s₀ s log) (random : Twister) (seeds : Option (Int × Int))
    (seed : Int) : Records s₀ (s.reseeded random seeds seed) log :=
  ⟨h.config, h.level, h.files, h.program, h.idle, h.script, h.recorder, h.tookOver, h.closed⟩

theorem Records.enterSection (h : Records s₀ s log) (sectionId : Int) :
    Records s₀ (s.enterSection sectionId) log := by
  by_cases hsame : s.sectionId = some sectionId
  · rwa [enterSection_of_eq hsame]
  · obtain ⟨p, hp, hglobal, hsections⟩ := h.program
    have hload : s.engine.load (p.sections.lookup sectionId) = s.engine.load none := by
      rw [hsections]
      rfl
    rw [enterSection_of_ne hp hglobal hsame, hload]
    exact ⟨h.config, h.level, h.files, ⟨p, hp, hglobal, hsections⟩, rfl, h.script, h.recorder,
      h.tookOver, h.closed⟩

/-- While nothing is written, the player's keys are what is held. -/
theorem held_observe (s : Session) (t : Tick) :
    (s.observe t).engine.simulation.held = .ofKeys t.keys := by
  have hunion : KeySet.empty.union t.keys = t.keys := KeySet.ext_mem fun k => by simp
  have hheld : (s.observe t).engine.simulation.held = .ofKeys (KeySet.empty.union t.keys) := rfl
  rw [hheld, hunion]

theorem Records.update (h : Records s₀ s log) (hrecord : s₀.config.recordInputs = true)
    {t : Tick} (hlive : t.player.dead = false) (budget : Nat) :
    ∃ s', (s.observe t).updateWith budget = (.ok none, s') ∧ Records s₀ s' (log ++ [t.entry]) := by
  have hentered := (h.observe t).enterSection t.player.sectionId
  have hheld : ((s.observe t).enterSection t.player.sectionId).engine.simulation.held =
      .ofKeys t.keys := by
    rw [enterSection_simulation, held_observe]
  generalize hentering : (s.observe t).enterSection t.player.sectionId = entered
    at hentered hheld
  have hconfig : entered.config.recordInputs = true := by rw [hentered.config, hrecord]
  have hplay : entered.noticeKeys.play budget false = (.ok none, entered.noticeKeys) := by
    have hidle : entered.noticeKeys.engine.program.isNone = true := by
      rw [show entered.noticeKeys.engine.program = none from hentered.idle]
      rfl
    rw [play, hidle, Bool.or_true]
    rfl
  rw [updateWith_live hlive hentering hentered.script, hplay]
  refine ⟨_, rfl, ?_⟩
  rw [noteTick_none (s := entered.noticeKeys) hconfig]
  refine ⟨hentered.config, hentered.level, hentered.files, hentered.program, hentered.idle,
    hentered.script, ?_, ?_, hentered.closed⟩
  · have hrecorded : entered.recorder.record t.player.sectionId
        entered.engine.simulation.held.keys = .ofLog (log ++ [t.entry]) := by
      rw [hentered.recorder, hheld]
      exact (Recorder.ofLog_concat log t.player.sectionId t.keys).symm
    exact hrecorded
  · have htook : (entered.tookOver || (entered.config.recordInputs &&
        !entered.engine.simulation.held.isEmpty)) = (log ++ [t.entry]).any fun t => !t.2.isEmpty := by
      rw [hentered.tookOver, hconfig, hheld, List.any_append]
      simp [Inputs.ofKeys, Inputs.isEmpty, Tick.entry]
    exact htook

theorem updates_records (hrecord : s₀.config.recordInputs = true) (ticks : List Tick)
    (hlive : ∀ t ∈ ticks, t.player.dead = false) : ∀ (s : Session) (log : SectionLog),
    Records s₀ s log →
      (∀ result ∈ (updates ticks s).1, ∃ outcome, result = .ok outcome) ∧
        Records s₀ (updates ticks s).2 (log ++ ticks.map Tick.entry) := by
  induction ticks with
  | nil =>
    intro s log h
    rw [List.map_nil, List.append_nil]
    exact ⟨List.forall_mem_nil _, h⟩
  | cons t rest ih =>
    intro s log h
    obtain ⟨s', hupdate, hnext⟩ := h.update hrecord (hlive t List.mem_cons_self) Engine.budget
    obtain ⟨hresults, hrest⟩ :=
      ih (fun u hu => hlive u (List.mem_cons_of_mem _ hu)) s' (log ++ [t.entry]) hnext
    rw [updates_cons, update, hupdate, List.map_cons]
    rw [List.append_assoc] at hrest
    exact ⟨List.forall_mem_cons.mpr ⟨⟨none, rfl⟩, hresults⟩, hrest⟩

/-! ## The start of the level -/

/-- Without a program file nothing is to be played. -/
theorem load_of_missing {files : Files} {path : Path} (h : files.holds path = false) :
    ProgramFile.load files path = .ok {} := by
  rw [Files.holds, Bool.or_eq_false_iff, Option.isSome_eq_false_iff, Option.isNone_iff_eq_none] at h
  rw [ProgramFile.load, h.1]
  dsimp only
  rw [h.2, if_neg Bool.false_ne_true]

/-- The program of a level without a program file. -/
def blank (s : Session) : LevelProgram :=
  { seed := s.config.defaultSeed, legacySeed := s.config.defaultSeed }

theorem reset_files (s : Session) : s.reset.engine.files = s.engine.files := rfl

theorem reset_config (s : Session) : s.reset.config = s.config := rfl

theorem reset_level (s : Session) : s.reset.level = s.level := rfl

theorem start_of_missing
    (hprogram : s.engine.files.holds (Level.programPath s.config.runsDir s.level) = false)
    {s' : Session} (hopened : s.reset.openProgram s.blank = (.ok (), s'))
    (hp : s'.program = some p) (hglobal : p.isGlobal = false) :
    ∃ random seeds seed, s.start = (.ok (), s'.reseeded random seeds seed) := by
  refine start_of_compiled ?_ hopened hp hglobal
  rw [compiled, load_of_missing hprogram]
  rfl

theorem start_records (hplayback : s.config.playbackInputs = false)
    (hprogram : s.engine.files.holds (Level.programPath s.config.runsDir s.level) = false) :
    s.start.1 = .ok () ∧ Records s s.start.2 [] := by
  have hopened : s.reset.openProgram s.blank =
      (.ok (), { s.reset with program := some s.blank }) := by
    rw [openProgram, reset_config, hplayback, if_neg Bool.false_ne_true]
    rfl
  have hrecords : Records s { s.reset with program := some s.blank } [] :=
    ⟨s.reset_config, s.reset_level, s.reset_files, ⟨s.blank, rfl, rfl, rfl⟩, rfl, rfl, rfl, rfl,
      rfl⟩
  obtain ⟨random, seeds, seed, hstart⟩ := start_of_missing hprogram hopened rfl rfl
  rw [hstart]
  exact ⟨rfl, hrecords.reseeded random seeds seed⟩

/-! ## The exit -/

/-- The recording of a log. -/
def recordingOf (log : SectionLog) : Recording := .ofRecorder (Recorder.ofLog log).finalize

theorem exit_records (h : Records s₀ s log) (hrecord : s₀.config.recordInputs = true)
    (hheld : ∃ t ∈ log, t.2 ≠ .empty) (hfits : (recordingOf log).Fits) :
    s.exitLevel.1 = .ok () ∧ ∃ text,
      s.exitLevel.2.engine.files = s₀.engine.files.write s₀.recordingPath text ∧
        ∀ files : Files, files.read? s₀.recordingPath = some text → ∀ backup,
          (Recording.load files s₀.recordingPath backup).1 = .ok (recordingOf log) := by
  have htook : s.tookOver = true := by
    obtain ⟨t, ht, hkeys⟩ := hheld
    rw [h.tookOver, List.any_eq_true]
    exact ⟨t, ht, by simpa [KeySet.isEmpty] using hkeys⟩
  have hpath : s.recordingPath = s₀.recordingPath := by
    rw [recordingPath, recordingPath, h.config, h.level]
  obtain ⟨text, hsave, hload⟩ := Recording.load_save hfits s.engine.files s₀.recordingPath
  have hsaved : (Recording.ofRecorder s.recorder.finalize).save s.engine.files s.recordingPath =
      .ok (s.engine.files.write s₀.recordingPath text) := by
    rw [h.recorder, hpath]
    exact hsave
  have hconfig : s.config.recordInputs = true := by rw [h.config, hrecord]
  have hend : s.endLevel =
      (.ok (), { s.modifyEngine ({ · with files := s.engine.files.write s₀.recordingPath text })
        with recorder := s.recorder.finalize, closed := true, tookOver := false }) := by
    have hopen : (s.config.recordInputs && s.tookOver && !s.closed) = true := by
      rw [hconfig, htook, h.closed]
      rfl
    have hsaved' : (Recording.ofRecorder s.recorder.finalize).save s.engine.files
        ({ s with recorder := s.recorder.finalize } : Session).recordingPath =
          .ok (s.engine.files.write s₀.recordingPath text) := hsaved
    unfold endLevel
    rw [if_pos hopen]
    dsimp only
    rw [hsaved']
    rfl
  have hexit : s.exitLevel = (.ok (), s.endLevel.2.cancel) := by
    rw [exitLevel, hend]
  rw [hexit]
  refine ⟨rfl, text, ?_, hload⟩
  rw [hend, ← h.files]
  rfl

/-! ## Playing back -/

/-- The level is being played back: what is left to be played is the log. -/
structure Replays (s : Session) (log : SectionLog) : Prop where
  config : s.config.recordInputs = false
  tookOver : s.tookOver = false
  calm : s.engine.Calm
  blocks : InBlocks (s.sectionId.toList ++ log.map (·.1))
  current : ∀ sectionId, s.sectionId = some sectionId → s.engine.Plays (log.heldIn sectionId)
  program : ∃ p, s.program = some p ∧ p.isGlobal = false ∧
    ∀ sectionId ∈ log.map (·.1), s.sectionId ≠ some sectionId → ∃ runs : Runs,
      p.sections.lookup sectionId = some runs.steps ∧ runs.StandFor (log.heldIn sectionId)

theorem Replays.observe (h : s.Replays log) (t : Tick) : (s.observe t).Replays log :=
  ⟨h.config, h.tookOver, ⟨h.calm.override, h.calm.probe, h.calm.script⟩, h.blocks,
    h.current, h.program⟩

theorem Replays.reseeded (h : s.Replays log) (random : Twister) (seeds : Option (Int × Int))
    (seed : Int) : (s.reseeded random seeds seed).Replays log :=
  ⟨h.config, h.tookOver, ⟨h.calm.override, h.calm.probe, h.calm.script⟩, h.blocks,
    h.current, h.program⟩

/-- The program of the section that the player is in is at its cursor, whether the section is
entered on this tick or not. -/
theorem Replays.enterSection {keys : KeySet} (h : s.Replays ((sectionId, keys) :: log)) :
    (s.enterSection sectionId).Replays ((sectionId, keys) :: log) ∧
      (s.enterSection sectionId).sectionId = some sectionId := by
  by_cases hsame : s.sectionId = some sectionId
  · rw [enterSection_of_eq hsame]
    exact ⟨h, hsame⟩
  · obtain ⟨p, hp, hglobal, hsections⟩ := h.program
    obtain ⟨runs, hlookup, hruns⟩ := hsections sectionId List.mem_cons_self hsame
    have hblocks : InBlocks (sectionId :: log.map (·.1)) := by
      have hall := h.blocks
      cases hs : s.sectionId with
      | none => rwa [hs] at hall
      | some left =>
        rw [hs] at hall
        exact hall.of_cons
    rw [enterSection_of_ne hp hglobal hsame, hlookup]
    refine ⟨⟨h.config, h.tookOver, ⟨h.calm.override, ?_, h.calm.script⟩, hblocks.cons_self, ?_, ?_⟩,
      rfl⟩
    · exact congrArg (Option.map _) h.calm.probe
    · rintro s' hs'
      cases hs'
      exact Engine.plays_load hruns s.engine
    · refine ⟨p, hp, hglobal, fun s' hs' hne => hsections s' hs' fun hleft => ?_⟩
      -- the section that was left is not entered again
      have hne' : sectionId ≠ s' := fun heq => hne (congrArg some heq)
      have hall := h.blocks
      rw [hleft] at hall
      rcases List.mem_cons.mp hs' with heq | hmem
      · exact hne' heq.symm
      · exact hall.not_mem hne' hmem

/-- Once the first tick is played, the rest of the log is left. -/
theorem Replays.rest {keys : KeySet} {e : Engine} (h : s.Replays ((sectionId, keys) :: log))
    (hcurrent : s.sectionId = some sectionId) (hcalm : e.Calm)
    (hrest : e.Plays (log.heldIn sectionId)) : ({ s with engine := e } : Session).Replays log := by
  refine ⟨h.config, h.tookOver, hcalm, ?_, fun s' hs' => ?_, ?_⟩
  · have hall := h.blocks
    rw [hcurrent] at hall
    have hblocks : InBlocks ((some sectionId).toList ++ log.map (·.1)) := hall.of_cons
    rwa [← hcurrent] at hblocks
  · have heq : sectionId = s' := Option.some.inj (hcurrent.symm.trans hs')
    exact heq ▸ hrest
  · obtain ⟨p, hp, hglobal, hsections⟩ := h.program
    refine ⟨p, hp, hglobal, fun s' hs' hne => ?_⟩
    have hother : s' ≠ sectionId := fun heq => hne (heq ▸ hcurrent)
    have hlater := hsections s' (List.mem_cons_of_mem _ hs') hne
    rwa [SectionLog.heldIn_cons_of_ne hother] at hlater

/-- One tick writes what was held on it. -/
theorem Replays.update {keys : KeySet} {t : Tick} (h : s.Replays ((t.player.sectionId, keys) :: log))
    (hlive : t.player.dead = false) (k : Nat) :
    ∃ outcome s', (s.observe t).updateWith (k + 2) = (.ok (some outcome), s') ∧ s'.Replays log ∧
      s'.engine.simulation.written = s.engine.simulation.written ++ [.ofKeys keys] := by
  obtain ⟨hentered, hcurrent⟩ := (h.observe t).enterSection
  have hsimulation := enterSection_simulation (s.observe t) t.player.sectionId
  generalize hentering : (s.observe t).enterSection t.player.sectionId = entered
    at hentered hsimulation hcurrent
  have hplays := hentered.current _ hcurrent
  rw [SectionLog.heldIn_cons_self] at hplays
  obtain ⟨outcome, e', htick, hcalm, hrest, hwritten⟩ :=
    Engine.tickWith_plays hentered.calm hplays k
  have hplay : entered.play (k + 2) false = (.ok (some outcome), { entered with engine := e' }) := by
    obtain ⟨p, runs, n, hp, -⟩ := hplays
    rw [play, hentered.tookOver, hp, htick]
    rfl
  have hconfig : ({ entered with engine := e' } : Session).config.recordInputs = false :=
    hentered.config
  rw [updateWith_live hlive hentering hentered.calm.script, noticeKeys_of_playback hentered.config,
    hplay]
  refine ⟨outcome, _, rfl, ?_, ?_⟩
  · rw [noteTick_of_playback hconfig]
    exact hentered.rest (e := { e' with messageBox := false }) hcurrent
      ⟨hcalm.override, hcalm.probe, hcalm.script⟩ hrest
  · have hsame : e'.simulation.written = s.engine.simulation.written ++ [.ofKeys keys] := by
      rw [hwritten, hsimulation]
      rfl
    rw [noteTick_of_playback hconfig]
    exact hsame

/-- On the ticks so far, exactly the first entries of the log are written. -/
theorem updates_replays (ticks : List Tick) (hlive : ∀ t ∈ ticks, t.player.dead = false) :
    ∀ (s : Session) (log : SectionLog), s.Replays log →
      ticks.map (·.player.sectionId) = log.map (·.1) →
      (∀ result ∈ (updates ticks s).1, ∃ outcome, result = .ok outcome) ∧
        (updates ticks s).2.config.recordInputs = false ∧
        ∀ n, (updates (ticks.take n) s).2.engine.simulation.written =
          s.engine.simulation.written ++ (log.take n).map fun t => .ofKeys t.2 := by
  induction ticks with
  | nil =>
    intro s log h hsections
    cases log with
    | cons t log => cases hsections
    | nil =>
      refine ⟨List.forall_mem_nil _, h.config, fun n => ?_⟩
      rw [List.take_nil, List.take_nil, List.map_nil, List.append_nil]
      rfl
  | cons t rest ih =>
    intro s log h hsections
    cases log with
    | nil => cases hsections
    | cons entry log =>
      obtain ⟨sectionId, keys⟩ := entry
      obtain ⟨hsame, htail⟩ := List.cons.inj hsections
      obtain rfl : t.player.sectionId = sectionId := hsame
      obtain ⟨outcome, s', hupdate, hnext, hwritten⟩ :=
        h.update (hlive t List.mem_cons_self) (Engine.budget - 2)
      have hupdate' : (s.observe t).update = (.ok (some outcome), s') := hupdate
      obtain ⟨hresults, hconfig, hrest⟩ :=
        ih (fun u hu => hlive u (List.mem_cons_of_mem _ hu)) s' log hnext htail
      rw [updates_cons, hupdate']
      refine ⟨List.forall_mem_cons.mpr ⟨⟨some outcome, rfl⟩, hresults⟩, hconfig, fun n => ?_⟩
      cases n with
      | zero =>
        rw [List.take_zero, List.take_zero, List.map_nil, List.append_nil]
        rfl
      | succ n =>
        rw [List.take_succ_cons, List.take_succ_cons, updates_cons, hupdate', List.map_cons]
        dsimp only
        rw [hrest n, hwritten, List.append_assoc]
        rfl

theorem loadPlayback_of_load {recording : Recording} {files : Files}
    {sections : List (Int × List Step)} (hrestore : s.config.restoreBackup = false)
    (hload : Recording.load s.engine.files s.recordingPath (some s.backupPath) =
      (.ok recording, files))
    (hsections : Recording.program recording.sections = .ok sections) (program : LevelProgram) :
    s.loadPlayback program =
      (.ok (), { s.modifyEngine ({ · with files }) with
        program := some { sections, seed := program.seed, legacySeed := program.legacySeed } }) := by
  have hbind : ((.ok recording : Except Fault Recording) >>= fun r => Recording.program r.sections) =
      .ok sections := hsections
  rw [loadPlayback, hrestore]
  dsimp only
  rw [if_neg Bool.false_ne_true]
  dsimp only
  rw [hload]
  dsimp only
  rw [hbind]

theorem start_replays {r : Recorder} (hrecord : s.config.recordInputs = false)
    (hplayback : s.config.playbackInputs = true) (hrestore : s.config.restoreBackup = false)
    (hprogram : s.engine.files.holds (Level.programPath s.config.runsDir s.level) = false)
    (hload : ∀ backup, (Recording.load s.engine.files s.recordingPath backup).1 =
      .ok (.ofRecorder r))
    (hcovers : r.Covers Runs.StandFor log) (hblocks : InBlocks (log.map (·.1))) :
    s.start.1 = .ok () ∧ s.start.2.Replays log ∧
      s.start.2.engine.simulation.written = s.engine.simulation.written := by
  let sections : List (Int × List Step) := r.sections.map fun t => (t.1, t.2.steps)
  obtain ⟨files, hread⟩ : ∃ files, Recording.load s.engine.files s.recordingPath
      (some s.backupPath) = (.ok (.ofRecorder r), files) :=
    ⟨_, Prod.ext (hload (some s.backupPath)) rfl⟩
  have hopened : s.reset.openProgram s.blank =
      (.ok (), { s.reset.modifyEngine ({ · with files }) with
        program := some { s.blank with sections } }) := by
    rw [openProgram, reset_config, if_pos hplayback]
    exact loadPlayback_of_load (s := { s.reset with program := some s.blank }) hrestore hread
      (Recording.program_ofRecorder r) s.blank
  have hcalm : ({ s.reset.engine with files } : Engine).Calm := ⟨rfl, rfl, rfl⟩
  have hreplays : ({ s.reset.modifyEngine ({ · with files }) with
      program := some { s.blank with sections } } : Session).Replays log := by
    refine ⟨hrecord, rfl, hcalm, hblocks, fun _ hs => ?_, _, rfl, rfl, fun sectionId hs _ => ?_⟩
    · cases hs
    · obtain ⟨runs, hlookup, hruns⟩ := hcovers.exists_runs hs
      refine ⟨runs, ?_, hruns⟩
      rw [lookup_map_snd, hlookup]
      rfl
  obtain ⟨random, seeds, seed, hstart⟩ := start_of_missing hprogram hopened rfl rfl
  rw [hstart]
  exact ⟨rfl, hreplays.reseeded random seeds seed, rfl⟩

/-- A level without a program file is recorded, its recording is saved at the exit, and whoever
plays it back through the same sections has on each tick exactly the keys written that were held
there, also on the idle ticks at the end that the recording leaves out. A recording counts ticks
up to what a data file can hold. -/
theorem plays_back_as_recorded {ticks : List Tick} (hrecord : s.config.recordInputs = true)
    (hplayback : s.config.playbackInputs = false)
    (hprogram : s.engine.files.holds (Level.programPath s.config.runsDir s.level) = false)
    (hlive : ∀ t ∈ ticks, t.player.dead = false)
    (hsections : ∀ t ∈ ticks, Recording.fits t.player.sectionId = true)
    (hheld : ∃ t ∈ ticks, t.keys ≠ .empty)
    (hblocks : InBlocks (ticks.map (·.player.sectionId))) (hlength : ticks.length < 2 ^ 64) :
    s.Succeeds ticks ∧
      (∃ text, (s.leftAfter ticks).engine.files = s.engine.files.write s.recordingPath text) ∧
      ∀ s' : Session, s'.config.recordInputs = false → s'.config.playbackInputs = true →
        s'.config.restoreBackup = false → s'.config.runsDir = s.config.runsDir →
        s'.level = s.level → s'.engine.files = (s.leftAfter ticks).engine.files →
        ∀ again : List Tick, (∀ t ∈ again, t.player.dead = false) →
          again.map (·.player.sectionId) = ticks.map (·.player.sectionId) →
          s'.Succeeds again ∧ ∀ n,
            (s'.playedFor (again.take n)).engine.simulation.written =
              s'.engine.simulation.written ++ (ticks.take n).map fun t => .ofKeys t.keys := by
  let log : SectionLog := ticks.map Tick.entry
  have hids : log.map (·.1) = ticks.map (·.player.sectionId) := by simp [log, Tick.entry]
  obtain ⟨hstart, hbegin⟩ := start_records hplayback hprogram
  obtain ⟨hresults, hend⟩ := updates_records hrecord ticks hlive _ _ hbegin
  have hcovers := Recorder.covers_finalize log
  have hfits : (recordingOf log).Fits := by
    refine Recording.fits_ofRecorder hcovers (fun sectionId hs => ?_) ?_
    · rw [hids] at hs
      obtain ⟨t, ht, rfl⟩ := List.mem_map.mp hs
      exact hsections t ht
    · rwa [List.length_map]
  have hsome : ∃ t ∈ log, t.2 ≠ .empty := by
    obtain ⟨t, ht, hkeys⟩ := hheld
    exact ⟨t.entry, List.mem_map_of_mem ht, hkeys⟩
  obtain ⟨hexit, text, hfiles, hload⟩ := exit_records hend hrecord hsome hfits
  refine ⟨⟨hstart, hresults, hexit⟩, ⟨text, hfiles⟩, ?_⟩
  intro s' hrecord' hplayback' hrestore' hdir hlevel hfiles' again hlive' hagain
  have hleft : s'.engine.files = s.engine.files.write s.recordingPath text := hfiles'.trans hfiles
  have hpath : s'.recordingPath = s.recordingPath := by
    rw [recordingPath, recordingPath, hdir, hlevel]
  have hprogram' : s'.engine.files.holds (Level.programPath s'.config.runsDir s'.level) = false := by
    rw [hleft, hdir, hlevel]
    exact Level.holds_programPath hprogram text
  have hload' : ∀ backup, (Recording.load s'.engine.files s'.recordingPath backup).1 =
      .ok (.ofRecorder (Recorder.ofLog log).finalize) := by
    rw [hpath]
    refine hload s'.engine.files ?_
    rw [hleft]
    exact Files.read?_write _ _ _
  obtain ⟨hstart', hreplays, hwritten⟩ :=
    start_replays hrecord' hplayback' hrestore' hprogram' hload' hcovers (by rwa [hids])
  obtain ⟨hresults', hconfig, hall⟩ :=
    updates_replays again hlive' _ _ hreplays (by rw [hids]; exact hagain)
  refine ⟨⟨hstart', hresults', ?_⟩, fun n => ?_⟩
  · rw [exitLevel, endLevel, playedFor, hconfig]
    rfl
  · rw [playedFor, hall n, hwritten, ← List.map_take, List.map_map]
    rfl

/-- Two ticks in one section, then idle ticks in another. -/
theorem plays_back_idle_tail : ∃ (s s' : Session) (ticks : List Tick),
    s'.engine.files = (s.leftAfter ticks).engine.files ∧ s.Succeeds ticks ∧ s'.Succeeds ticks ∧
      (s'.playedFor ticks).engine.simulation.written =
        s'.engine.simulation.written ++
          [.ofKeys (.ofList [.right]), .ofKeys (.ofList [.right, .jump]), .none, .none] := by
  obtain ⟨s, hs⟩ : ∃ s : Session, s = new { recordInputs := true } "latest.rec.bak" "stage.lvlx"
    { name := "Stage" } .empty (.fresh "today") "today" := ⟨_, rfl⟩
  obtain ⟨ticks, hticks⟩ : ∃ ticks : List Tick, ticks =
      [⟨{}, .ofList [.right]⟩, ⟨{}, .ofList [.right, .jump]⟩, ⟨{ sectionId := 4 }, .empty⟩,
        ⟨{ sectionId := 4 }, .empty⟩] := ⟨_, rfl⟩
  have hprogram : s.engine.files.holds (Level.programPath s.config.runsDir s.level) = false := by
    rw [hs]
    decide +kernel
  have hlive : ∀ t ∈ ticks, t.player.dead = false := by simp [hticks]
  have hsections : ∀ t ∈ ticks, Recording.fits t.player.sectionId = true := by
    have hfits : Recording.fits 0 = true ∧ Recording.fits 4 = true := by decide
    simp [hticks, hfits]
  have hheld : ∃ t ∈ ticks, t.keys ≠ .empty := by
    rw [hticks]
    exact ⟨_, List.mem_cons_self, by decide⟩
  have hblocks : InBlocks (ticks.map (·.player.sectionId)) := by
    rw [hticks]
    exact .of_pairwise (by decide)
  obtain ⟨hsucceeds, -, hplays⟩ :=
    plays_back_as_recorded (by rw [hs]; rfl) (by rw [hs]; rfl) hprogram hlive hsections hheld
      hblocks (by rw [hticks]; decide)
  have hdir : s.config.runsDir = ({} : Settings).runsDir := by rw [hs]; rfl
  generalize hleft : (s.leftAfter ticks).engine.files = files at hplays
  obtain ⟨s', hfiles, hconfig, hlevel⟩ : ∃ s' : Session,
      s'.engine.files = files ∧ s'.config = { playbackInputs := true } ∧ s'.level = s.level :=
    ⟨{ s with config := { playbackInputs := true }, engine := { s.engine with files } }, rfl, rfl,
      rfl⟩
  have hdir' : s'.config.runsDir = s.config.runsDir := by rw [hconfig, hdir]
  obtain ⟨hsucceeds', hwritten⟩ := hplays s' (by rw [hconfig]) (by rw [hconfig]) (by rw [hconfig])
    hdir' hlevel hfiles ticks hlive rfl
  have hall : ticks.take 4 = ticks := by rw [hticks]; rfl
  have hkeys : (ticks.map fun t => Inputs.ofKeys t.keys) =
      [.ofKeys (.ofList [.right]), .ofKeys (.ofList [.right, .jump]), .none, .none] := by
    rw [hticks]
    rfl
  have hfour := hwritten 4
  rw [hall, hkeys] at hfour
  exact ⟨s, s', ticks, hfiles.trans hleft.symm, hsucceeds, hsucceeds', hfour⟩

end Session

end TickScript
