import Mathlib
import TickScript.Proofs.Pasts
import TickScript.Proofs.Wiring

/-!
# A restart isolates the attempts

Whatever happened to a session, a start of its level drops it: the rest of the session is that of
any other session for the same level that has the same flags, message box, search record, overlay
and files (`Session.restart_isolates`).

Two sessions that differ in what does not matter are apart (`Session.Apart`), and each event keeps
them apart, with the same result (`Session.Apart.handle`). A start brings sessions there that agree
in what a start keeps (`Session.Agrees`); their seeds and random numbers may differ before.
-/

namespace TickScript

/-! ## What a start keeps -/

namespace Engine

/-- A cancelled run leaves the same of both engines, but for their random numbers. -/
structure Agrees (a b : Engine) : Prop where
  flags : b.flags = a.flags
  messageBox : b.messageBox = a.messageBox
  record : b.record = a.record
  overlayOpen : b.overlayOpen = a.overlayOpen
  files : b.files = a.files
  now : b.now = a.now
  host : b.simulation.name = a.simulation.name

theorem Agrees.dropped {a b : Engine} (h : a.Agrees b) (hwiring : b.wiring = a.wiring) :
    Apart a.simulation.told b.simulation.told
      { a.dropped with
        random := b.random
        simulation := { a.simulation with seeds := b.simulation.seeds } }
      b.dropped := by
  obtain ⟨hparts, hpath, hinterval, hdelay⟩ : b.parts = a.parts ∧ b.recordPath = a.recordPath ∧
      b.script.interval = a.script.interval ∧ b.script.initialDelay = a.script.initialDelay := by
    simpa [Engine.wiring] using hwiring
  have hdropped : b.dropped =
      { a.dropped with
        random := b.random, simulation := b.simulation, seen := b.seen
        overlaySeen := b.overlaySeen, log := b.log, commits := b.commits
        watches := b.watches } := by
    simp only [Engine.dropped, clear, load, forgetSteps, ScriptQueue.cleared, hparts, hpath,
      hinterval, hdelay, h.flags, h.messageBox, h.record, h.overlayOpen, h.files, h.now]
  rw [hdropped]
  exact .mk a.simulation.told.append_nothing.symm b.simulation.told.append_nothing.symm h.host rfl

end Engine

namespace Session

/-! ## Sessions apart -/

/-- Two sessions that have everything in common but their engines, which are apart. -/
inductive Apart (x y : Told) (s : Session) : Session → Prop
  | mk {engine : Engine} (h : s.engine.Apart x y engine) : Apart x y s { s with engine }

variable {x y : Told} {s t : Session}

namespace Apart

theorem engine (h : Apart x y s t) : s.engine.Apart x y t.engine := by
  obtain ⟨h⟩ := h
  exact h

theorem withEngine (h : Apart x y s t) {a b : Engine} (hab : a.Apart x y b) :
    Apart x y { s with engine := a } { t with engine := b } := by
  obtain ⟨_⟩ := h
  exact .mk (s := { s with engine := a }) hab

theorem modifyEngine (h : Apart x y s t) {f : Engine → Engine}
    (hf : ∀ {a b : Engine}, a.Apart x y b → (f a).Apart x y (f b)) :
    Apart x y (s.modifyEngine f) (t.modifyEngine f) := by
  obtain ⟨h⟩ := h
  exact .mk (s := s.modifyEngine f) (hf h)

theorem cancel (h : Apart x y s t) : Apart x y s.cancel t.cancel := by
  obtain ⟨h⟩ := h
  exact .mk (s := s.cancel) h.dropped

theorem reset (h : Apart x y s t) : Apart x y s.reset t.reset := by
  obtain ⟨h⟩ := h
  exact .mk (s := s.reset) h.dropped

theorem enterSection (h : Apart x y s t) (entered : Int) :
    Apart x y (s.enterSection entered) (t.enterSection entered) := by
  obtain @⟨engine, h⟩ := h
  unfold Session.enterSection
  dsimp only
  split
  · next p _ =>
    split
    · exact .mk (s := { s with engine := _, sectionId := some entered })
        (h.load (p.forSection entered))
    · exact .mk h
  · exact .mk h

theorem overrideInput (h : Apart x y s t) (replace : Option Inputs) (subtract add : Inputs)
    (duration : Int) :
    Apart x y (s.overrideInput replace subtract add duration)
      (t.overrideInput replace subtract add duration) := by
  cases replace with
  | none => exact h.modifyEngine fun h => h.modifyOverride subtract add duration
  | some content => exact h.modifyEngine fun h => h.withOverride ⟨content, duration⟩

/-! ### The end of a level -/

theorem endLevel (h : Apart x y s t) :
    t.endLevel.1 = s.endLevel.1 ∧ Apart x y s.endLevel.2 t.endLevel.2 := by
  have htake : t.hasTake = s.hasTake := by
    obtain ⟨⟨_⟩⟩ := h
    rfl
  have hsave : (Recording.ofRecorder t.recorder.finalize).save t.engine.files t.recordingPath =
      (Recording.ofRecorder s.recorder.finalize).save s.engine.files s.recordingPath := by
    obtain ⟨⟨_⟩⟩ := h
    rfl
  rw [endLevel_eq, endLevel_eq, htake, hsave]
  split
  · split
    · obtain ⟨h⟩ := h
      exact ⟨rfl, .mk (s := { s with recorder := s.recorder.finalize }) h⟩
    · next files _ =>
      obtain ⟨⟨ha, hb, hname, hseeds⟩⟩ := h
      exact ⟨rfl, .mk (s := { s.modifyEngine ({ · with files }) with
        recorder := s.recorder.finalize, closed := true, tookOver := false })
        (.mk ha hb hname hseeds)⟩
  · exact ⟨rfl, h⟩

theorem survivesDeath (h : Apart x y s t) : t.survivesDeath = s.survivesDeath := by
  obtain ⟨⟨_⟩⟩ := h
  rfl

theorem config (h : Apart x y s t) : t.config = s.config := by
  obtain ⟨_⟩ := h
  rfl

theorem tookOver (h : Apart x y s t) : t.tookOver = s.tookOver := by
  obtain ⟨_⟩ := h
  rfl

theorem playerKilled (h : Apart x y s t) :
    t.playerKilled.1 = s.playerKilled.1 ∧ Apart x y s.playerKilled.2 t.playerKilled.2 := by
  obtain ⟨hresult, hend⟩ := h.endLevel
  unfold Session.playerKilled
  generalize s.endLevel = u at hresult hend ⊢
  generalize t.endLevel = v at hresult hend ⊢
  obtain ⟨f | _, s'⟩ := u <;> obtain ⟨g | _, t'⟩ := v <;> cases hresult
  · exact ⟨rfl, hend⟩
  · dsimp only
    rw [hend.survivesDeath, hend.config]
    split
    · exact ⟨rfl, hend.modifyEngine fun h => h.endRun _⟩
    · exact ⟨rfl, hend⟩

theorem exitLevel (h : Apart x y s t) :
    t.exitLevel.1 = s.exitLevel.1 ∧ Apart x y s.exitLevel.2 t.exitLevel.2 := by
  obtain ⟨hresult, hend⟩ := h.endLevel
  rcases s.exitLevel_cases with ⟨f, hs, hexit⟩ | ⟨hs, hexit⟩ <;>
    rcases t.exitLevel_cases with ⟨g, ht, hexit'⟩ | ⟨ht, hexit'⟩ <;>
    rw [hs, ht] at hresult <;> cases hresult <;> rw [hexit, hexit']
  · exact ⟨rfl, hend⟩
  · exact ⟨rfl, hend.cancel⟩

/-! ### The start of a level -/

theorem reseeded (h : Apart x y s t) (random : Twister) (seeds : Option (Int × Int)) (seed : Int) :
    Apart x y (s.reseeded random seeds seed) (t.reseeded random seeds seed) := by
  obtain ⟨⟨ha, hb, hname, -⟩⟩ := h
  exact .mk (s := s.reseeded random seeds seed) (.mk ha hb hname rfl)

theorem fixSeeds (h : Apart x y s t) (p : LevelProgram) :
    Apart x y (s.fixSeeds p) (t.fixSeeds p) := by
  unfold Session.fixSeeds
  split
  · exact (h.modifyEngine fun h => h.load (some p.steps)).reseeded _ _ _
  · exact h.reseeded _ _ _

theorem opened (h : Apart x y s t) (files : Files) (program : Option LevelProgram)
    (closed : Bool) :
    Apart x y (s.opened files program closed) (t.opened files program closed) := by
  obtain ⟨⟨ha, hb, hname, hseeds⟩⟩ := h
  exact .mk (s := s.opened files program closed) (.mk ha hb hname hseeds)

end Apart

/-- The rest of a start, once the last run is dropped. -/
def launch (s : Session) : Except Fault Unit × Session :=
  match s.compiled with
  | .error f => (.error f, s)
  | .ok p =>
    match s.openProgram p with
    | (.error f, s) => (.error f, s)
    | (.ok (), s) => (.ok (), s.fixSeeds (s.program.getD p))

theorem start_eq_launch (s : Session) : s.start = s.reset.launch := s.start_eq

theorem compiled_congr (hhome : t.home = s.home) (hfiles : t.engine.files = s.engine.files) :
    t.compiled = s.compiled := by
  obtain ⟨hlevel, hconfig, -⟩ := home_eq_iff.mp hhome
  rw [compiled, compiled, hlevel, hconfig, hfiles]

theorem Apart.launch (h : Apart x y s t) :
    t.launch.1 = s.launch.1 ∧ Apart x y s.launch.2 t.launch.2 := by
  have hhome : t.home = s.home := by
    obtain ⟨_⟩ := h
    rfl
  have hfiles : t.engine.files = s.engine.files := by
    obtain ⟨⟨_⟩⟩ := h
    rfl
  have hclosed : t.closed = s.closed := by
    obtain ⟨_⟩ := h
    rfl
  unfold Session.launch
  rw [compiled_congr hhome hfiles]
  split
  · exact ⟨rfl, h⟩
  · next p _ =>
    obtain ⟨result, files, program, closed, hs, ht⟩ := openProgram_alike hhome hfiles hclosed p
    rw [hs, ht]
    cases result with
    | error f => exact ⟨rfl, h.opened files program closed⟩
    | ok _ => exact ⟨rfl, (h.opened files program closed).fixSeeds _⟩

theorem fixSeeds_reseeded (s : Session) (random : Twister) (seeds : Option (Int × Int)) (seed : Int)
    (p : LevelProgram) : (s.reseeded random seeds seed).fixSeeds p = s.fixSeeds p := by
  have hload : ∀ steps, (s.reseeded random seeds seed).modifyEngine (·.load steps) =
      (s.modifyEngine (·.load steps)).reseeded random seeds seed := by
    intro steps
    cases steps with
    | none => rfl
    | some steps => rfl
  have hagain : ∀ (t : Session) (random' : Twister) (seeds' : Option (Int × Int)) (seed' : Int),
      (t.reseeded random seeds seed).reseeded random' seeds' seed' =
        t.reseeded random' seeds' seed' := fun _ _ _ _ => rfl
  unfold fixSeeds
  split
  · rw [hload, hagain]
  · rw [hagain]

/-- A start that succeeds fixes the seeds, whatever they were before. -/
theorem launch_reseeded (s : Session) (random : Twister) (seeds : Option (Int × Int)) (seed : Int) :
    (s.reseeded random seeds seed).launch.1 = s.launch.1 ∧
      (s.launch.1 = .ok () → (s.reseeded random seeds seed).launch = s.launch) := by
  have hcompiled : (s.reseeded random seeds seed).compiled = s.compiled := compiled_congr rfl rfl
  unfold launch
  rw [hcompiled]
  split
  · refine ⟨rfl, ?_⟩
    intro hok
    cases hok
  · next p _ =>
    obtain ⟨result, files, program, closed, hs, hseeded⟩ :=
      openProgram_alike (s := s) (t := s.reseeded random seeds seed) rfl rfl rfl p
    have hopened : (s.reseeded random seeds seed).opened files program closed =
        (s.opened files program closed).reseeded random seeds seed := rfl
    rw [hs, hseeded, hopened]
    cases result with
    | error f =>
      refine ⟨rfl, ?_⟩
      intro hok
      cases hok
    | ok _ =>
      have hfixed := (s.opened files program closed).fixSeeds_reseeded random seeds seed
      exact ⟨rfl, fun _ => congrArg (Prod.mk _) (hfixed _)⟩

/-! ## Updates -/

/-- Sessions apart that are shown the same. -/
structure Alongside (x y : Told) (s t : Session) : Prop where
  apart : Apart x y s t
  shown : t.engine.simulation.shown = s.engine.simulation.shown

/-- What a session saw before the update does not matter. -/
theorem Apart.see (h : Apart x y s t) (v : View) : Alongside x y (s.see v) (t.see v) := by
  obtain ⟨⟨ha, hb, hname, hseeds⟩⟩ := h
  refine ⟨.mk (s := s.see v) (.mk ha hb hname hseeds), ?_⟩
  simp only [Session.see, Session.modifyEngine, Simulation.shown, Simulation.retold, hname, hseeds]

namespace Alongside

theorem player (h : Alongside x y s t) :
    t.engine.simulation.player = s.engine.simulation.player :=
  (congrArg Simulation.player h.shown :)

theorem paused (h : Alongside x y s t) :
    t.engine.simulation.paused = s.engine.simulation.paused :=
  (congrArg Simulation.paused h.shown :)

theorem held (h : Alongside x y s t) : t.engine.simulation.held = s.engine.simulation.held :=
  (congrArg Simulation.held h.shown :)

theorem met (h : Alongside x y s t) : Alongside x y s.met t.met := by
  refine ⟨?_, ?_⟩
  · unfold Session.met
    rw [h.player, h.paused]
    exact (h.apart.enterSection _).modifyEngine fun h => h.tickScript _
  · rw [met_simulation, met_simulation]
    exact h.shown

theorem isOver (h : Alongside x y s t) : t.isOver = s.isOver := by
  rw [Session.isOver, Session.isOver, h.player, h.apart.survivesDeath]

theorem noticeKeys (h : Alongside x y s t) : Alongside x y s.noticeKeys t.noticeKeys := by
  have hheld := h.held
  obtain ⟨⟨h⟩, hshown⟩ := h
  refine ⟨?_, hshown⟩
  unfold Session.noticeKeys
  rw [hheld]
  exact .mk (s := s.noticeKeys) h

theorem engine (h : Alongside x y s t) : s.engine.Alongside x y t.engine :=
  ⟨h.apart.engine, h.shown⟩

theorem tookOver (h : Alongside x y s t) : t.noticeKeys.tookOver = s.noticeKeys.tookOver :=
  h.noticeKeys.apart.tookOver

theorem noteTick (h : Alongside x y s t) (sectionId : Int) (outcome : Option TickOutcome) :
    Apart x y (s.noteTick sectionId outcome) (t.noteTick sectionId outcome) := by
  have hheld := h.held
  have hbox : ∀ {a b : Engine}, a.Apart x y b →
      Engine.Apart x y { a with messageBox := false } { b with messageBox := false } :=
    fun h => h.withMessageBox false
  obtain ⟨⟨h⟩, -⟩ := h
  unfold Session.noteTick
  dsimp only at hheld ⊢
  rw [hheld]
  split
  · exact (Apart.mk (s := { s with
      recorder := s.recorder.record sectionId s.engine.simulation.held.keys }) h).modifyEngine hbox
  · exact (Apart.mk h).modifyEngine hbox

/-- Sessions that are shown the same have the same update. -/
theorem updateWith (h : Alongside x y s t) (budget : Nat) :
    (t.updateWith budget).1 = (s.updateWith budget).1 ∧
      Apart x y (s.updateWith budget).2 (t.updateWith budget).2 := by
  have hprogram : t.met.engine.program = s.met.engine.program := h.met.apart.engine.program
  have hnotice := h.met.noticeKeys
  rcases s.update_kinds with hover | ⟨hover, hskips⟩ | ⟨hover, howned, hsome⟩
  · rw [updateWith_over hover, updateWith_over (h.isOver.trans hover)]
    exact ⟨rfl, h.met.apart⟩
  · rw [updateWith_skips hover hskips, updateWith_skips (h.isOver.trans hover)
      (by rwa [h.tookOver, hprogram]), h.player]
    exact ⟨rfl, hnotice.noteTick _ _⟩
  · rw [updateWith_program hover howned hsome, updateWith_program (h.isOver.trans hover)
      (h.tookOver.trans howned) (hprogram ▸ hsome), h.player, h.paused]
    obtain ⟨hresult, hengine⟩ := h.met.engine.tickWith budget s.engine.simulation.paused
    generalize s.met.engine.tickWith budget s.engine.simulation.paused = u at hresult hengine ⊢
    generalize t.met.engine.tickWith budget s.engine.simulation.paused = v at hresult hengine ⊢
    obtain ⟨f | outcome, a⟩ := u <;> obtain ⟨g | outcome', b⟩ := v <;> cases hresult
    · exact ⟨rfl, hnotice.apart.withEngine hengine.apart⟩
    · exact ⟨rfl, noteTick ⟨hnotice.apart.withEngine hengine.apart, hengine.shown⟩ _ _⟩

end Alongside

/-! ## Events -/

/-- Each event has the same result for sessions apart, and leaves them apart. -/
theorem Apart.handle (h : Apart x y s t) (budget : Nat) (event : HostEvent) :
    (t.handle budget event).1 = (s.handle budget event).1 ∧
      Apart x y (s.handle budget event).2 (t.handle budget event).2 := by
  have hunit : ∀ {r r' : Except Fault Unit}, r' = r →
      r'.map (fun _ => (none : Option TickOutcome)) = r.map fun _ => none :=
    fun hr => congrArg _ hr
  cases event with
  | start =>
    obtain ⟨hresult, hlaunch⟩ := h.reset.launch
    rw [Session.handle, Session.handle, start_eq_launch, start_eq_launch]
    exact ⟨hunit hresult, hlaunch⟩
  | update v => exact (h.see v).updateWith budget
  | showMessageBox => exact ⟨rfl, h.modifyEngine fun h => h.withMessageBox true⟩
  | playerKilled => exact ⟨hunit h.playerKilled.1, h.playerKilled.2⟩
  | endLevel => exact ⟨hunit h.endLevel.1, h.endLevel.2⟩
  | exitLevel => exact ⟨hunit h.exitLevel.1, h.exitLevel.2⟩
  | cancel => exact ⟨rfl, h.cancel⟩
  | overrideInput replace subtract add duration =>
    exact ⟨rfl, h.overrideInput replace subtract add duration⟩
  | setFlags flags => exact ⟨rfl, h.modifyEngine fun h => h.withFlags flags⟩

theorem Apart.run (budget : Nat) : ∀ (events : List HostEvent) {s t : Session}, Apart x y s t →
    (run budget events t).1 = (run budget events s).1 ∧
      Apart x y (run budget events s).2 (run budget events t).2
  | [], _, _, h => ⟨rfl, h⟩
  | event :: rest, _, _, h => by
    obtain ⟨hresult, hhandle⟩ := h.handle budget event
    obtain ⟨hresults, hrest⟩ := Apart.run budget rest hhandle
    exact ⟨List.cons_eq_cons.mpr ⟨hresult, hresults⟩, hrest⟩

/-! ## Restarts -/

/-- What a start does not drop is the same in both sessions. -/
structure Agrees (s t : Session) : Prop where
  home : t.home = s.home
  engine : s.engine.Agrees t.engine

/-- Once the last run is dropped, sessions that agree are apart, but for their seeds. -/
theorem Agrees.reset (h : s.Agrees t) (hs : s.Wired) (ht : t.Wired) :
    Apart s.engine.simulation.told t.engine.simulation.told
      (s.reset.reseeded t.engine.random t.engine.simulation.seeds t.seed) t.reset := by
  obtain ⟨hlevel, hconfig, hbackup⟩ := home_eq_iff.mp h.home
  have hwiring : t.engine.wiring = s.engine.wiring := by
    rw [show t.engine.wiring = _ from ht, show s.engine.wiring = _ from hs, hconfig]
  have hreset : t.reset =
      { s.reset.reseeded t.engine.random t.engine.simulation.seeds t.seed with
        engine := t.engine.dropped } := by
    simp only [Session.reset, Session.cancel, reseeded, Session.modifyEngine, hlevel, hconfig,
      hbackup, Engine.dropped]
  rw [hreset]
  exact .mk (h.engine.dropped hwiring)

/-- What two runs have in common that began with a start of `s` and of `t`. -/
structure SameCourse (s t : Session) (u v : List (Except Fault (Option TickOutcome)) × Session) :
    Prop where
  results : v.1 = u.1
  told : ∃ new : Told, u.2.engine.simulation.told = s.engine.simulation.told ++ new ∧
    v.2.engine.simulation.told = t.engine.simulation.told ++ new
  random : v.2.engine.random = u.2.engine.random
  seeds : v.2.engine.simulation.seeds = u.2.engine.simulation.seeds
  files : v.2.engine.files = u.2.engine.files

theorem Apart.sameCourse {u v : List (Except Fault (Option TickOutcome)) × Session}
    (hresults : v.1 = u.1)
    (h : Apart s.engine.simulation.told t.engine.simulation.told u.2 v.2) : SameCourse s t u v := by
  obtain ⟨results, s'⟩ := u
  obtain ⟨results', t'⟩ := v
  obtain ⟨⟨ha, hb, -, hseeds⟩⟩ := h
  exact ⟨hresults, ⟨_, ha, hb⟩, rfl, hseeds, rfl⟩

/-- Let two sessions for the same level with the same settings have any pasts, and agree in the
flags, the message box, the search record, the overlay and the files. Then a start of the level has
the same result in both; and if it succeeds, any events that follow have the same results, and let
the sessions tell their simulations the same, draw the same random numbers and leave the same
files. -/
theorem restart_isolates (hs : s.Wired) (ht : t.Wired) (h : s.Agrees t) :
    t.start.1 = s.start.1 ∧
      (s.start.1 = .ok () → ∀ (budget : Nat) (events : List HostEvent),
        SameCourse s t (run budget events s.start.2) (run budget events t.start.2)) := by
  obtain ⟨hresult, hlaunch⟩ := (h.reset hs ht).launch
  obtain ⟨hresult', hlaunch'⟩ :=
    s.reset.launch_reseeded t.engine.random t.engine.simulation.seeds t.seed
  rw [← start_eq_launch] at hresult hlaunch
  rw [← start_eq_launch] at hresult' hlaunch'
  refine ⟨hresult.trans hresult', fun hok budget events => ?_⟩
  rw [hlaunch' hok] at hlaunch
  obtain ⟨hresults, hrun⟩ := hlaunch.run budget events
  exact hrun.sameCourse hresults

/-- A session whose player died under an override, with an entry of a script still to be played, is
restarted. -/
theorem restart_isolates_after_death :
    let text := "\x7b\"sections\": \x7b\"0\": [[\"scriptedInput\", [\"j\", 1]], \"r\", 100]\x7d\x7d"
    let s : Session :=
      { engine :=
          { random := default, simulation := { name := "stage" }, record := default
            files := ⟨[(["__runs", "stage.json"], text)]⟩
            recordPath := ({} : Settings).searchPath, now := "" }
        level := "stage.lvlx", config := {}, backupName := "latest.rec.bak", seed := 7 }
    let tick : HostEvent := .update { player := {} }
    let left : Inputs := .ofKeys (.ofList [.left])
    let past : List HostEvent :=
      [.start, tick, .overrideInput (some left) .none .none 50, .playerKilled]
    let t := (run 4 past s).2
    t.engine.override.isActive = true ∧ t.engine.script.isActive = true ∧
      t.engine.simulation.reports.length = 1 ∧
      SameCourse s t (run 4 [tick, tick] s.start.2) (run 4 [tick, tick] t.start.2) := by
  intro text s tick left past t
  have hwired : s.Wired := rfl
  let p : LevelProgram :=
    { sections :=
        [(0, [.mk .none (.call "scriptedInput" [.script [(.ofKeys (.ofList [.jump]), 1)]]),
          .mk (.ofKeys (.ofList [.right])) (.countdown 100)])]
      seed := 8675309, legacySeed := 8675309 }
  obtain ⟨random, seeds, seed, hstart⟩ :=
    start_of_compiled (s := s) (p := p) (q := p) (t := { s.reset with program := some p })
      (by cbv) rfl rfl rfl
  have ht : t = (run 4 [tick, .overrideInput (some left) .none .none 50, .playerKilled]
      ({ s.reset with program := some p }.reseeded random seeds seed)).2 := by
    simp only [t, past]
    rw [run_cons, handle, hstart]
  have hagrees : s.Agrees t := by
    rw [ht]
    refine ⟨rfl, ?_, ?_, ?_, ?_, ?_, ?_, ?_⟩ <;> cbv
  obtain ⟨-, hcourse⟩ := restart_isolates hwired (hwired.run 4 past) hagrees
  refine ⟨?_, ?_, ?_, hcourse (by rw [hstart]) 4 [tick, tick]⟩ <;> rw [ht] <;> cbv

end Session

end TickScript
