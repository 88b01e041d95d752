import Mathlib
import TickScript.Proofs.RecordedRuns
import TickScript.Proofs.SessionEvents
import TickScript.Proofs.Untouched

/-!
# Which ticks are recorded

Whether an update counts as paused is told by the outcome of the program's tick, and there is such
a tick only if the section has a program and the player has not taken over. A paused update that
gets that far is frozen: nothing is played, and nothing is recorded (`Session.freezes`). Without a
program, or after a takeover, a paused update is recorded like any other
(`Session.updateWith_recorder`).

So a recording is the log of the ticks that were not paused, as long as every paused update is
frozen (`Session.records_unpaused_ticks`).

* `Session.heldLog`: what was held on the ticks of a run that were not paused.
* `Session.keepsRecorder`: the events that leave the recorder to these ticks.
* `Session.recorder_run`: the recorder after a run.
-/

namespace TickScript.Session

variable {s : Session}

/-! ## One update -/

/-- The update is paused, and the outcome of the program's tick says so. -/
def freezes (s : Session) : Bool :=
  s.engine.isFrozen s.engine.simulation.paused && !s.noticeKeys.tookOver &&
    s.met.engine.program.isSome

theorem met_recorder (s : Session) :
    s.met.noticeKeys.recorder = s.recorder ∧ s.met.noticeKeys.config = s.config := by
  obtain ⟨_, _, _, _, _, _, hmet, -⟩ := s.met_cases
  rw [hmet]
  exact ⟨rfl, rfl⟩

theorem noteTick_recorder (hrecord : s.config.recordInputs = true) (sectionId : Int)
    (outcome : Option TickOutcome) :
    (s.noteTick sectionId outcome).recorder =
      if outcome.any fun o => o.kind = .paused then s.recorder
      else s.recorder.record sectionId
        (s.noteTick sectionId outcome).engine.simulation.held.keys := by
  rw [noteTick_engine, noteTick, hrecord]
  cases outcome.any fun o => o.kind = .paused with
  | true => rfl
  | false => rfl

/-- An update is recorded unless the player is dead for good, the tick fails, or it is frozen. -/
theorem updateWith_recorder (hrecord : s.config.recordInputs = true) (budget : Nat) :
    (s.updateWith budget).2.recorder =
      if s.isOver || !(s.updateWith budget).1.isOk || s.freezes then s.recorder
      else s.recorder.record s.engine.simulation.player.sectionId
        (s.updateWith budget).2.engine.simulation.held.keys := by
  obtain ⟨hrecorder, hconfig⟩ := s.met_recorder
  have hrecord' : s.met.noticeKeys.config.recordInputs = true := by rw [hconfig, hrecord]
  rcases s.update_kinds with hover | ⟨hover, hskips⟩ | ⟨hover, howned, hprogram⟩
  · rw [updateWith_over hover, hover]
    exact hrecorder
  · have hthawed : s.freezes = false := by
      rcases hskips with howned | hnone
      · simp [freezes, howned]
      · simp [freezes, hnone]
    rw [updateWith_skips hover hskips, noteTick_recorder hrecord', hrecorder, hthawed, hover]
    rfl
  · have hfreezes : s.freezes = s.met.engine.isFrozen s.engine.simulation.paused := by
      simp [freezes, howned, met_isFrozen, Option.isSome_iff_ne_none, hprogram]
    have hpaused := s.met.engine.tickWith_paused_iff budget s.engine.simulation.paused
    rw [updateWith_program hover howned hprogram, hover]
    generalize s.met.engine.tickWith budget s.engine.simulation.paused = t at hpaused ⊢
    obtain ⟨f | outcome, e⟩ := t
    · exact hrecorder
    · have hkind : decide (outcome.kind = .paused) = s.freezes := by
        rw [hfreezes, Bool.eq_iff_iff, ← hpaused, decide_eq_true_iff]
        exact ⟨congrArg some, Option.some.inj⟩
      have hnote := noteTick_recorder (s := { s.met.noticeKeys with engine := e }) hrecord'
        s.engine.simulation.player.sectionId (some outcome)
      rw [Option.any_some, hkind, hrecorder] at hnote
      exact hnote

/-! ## Runs -/

/-- What is held on a tick that is not paused, with the section that the player is in. A tick that
fails is none, and neither is one on which the player is dead for good. -/
def tickHeld (budget : Nat) (s : Session) : HostEvent → SectionLog
  | .update v =>
    let next := (s.see v).updateWith budget
    if (s.see v).isOver || !next.1.isOk || s.engine.isFrozen v.paused then []
    else [(v.player.sectionId, next.2.engine.simulation.held.keys)]
  | _ => []

/-- What was held on the ticks of a run that were not paused. -/
def heldLog (budget : Nat) : List HostEvent → Session → SectionLog
  | [], _ => []
  | event :: rest, s => s.tickHeld budget event ++ heldLog budget rest (s.handle budget event).2

/-- The event drops no recording and saves none, and an update that is paused is frozen. -/
def keepsRecorder (s : Session) : HostEvent → Prop
  | .start => False
  | .update v => s.engine.isFrozen v.paused = true →
    (s.see v).isOver = true ∨ (s.see v).freezes = true
  | .playerKilled | .endLevel | .exitLevel => s.hasTake = false
  | _ => True

theorem recorder_endLevel (h : s.hasTake = false) : s.endLevel = (.ok (), s) := by
  rcases s.endLevel_cases with ⟨-, hend⟩ | ⟨htake, -⟩ | ⟨htake, -⟩
  · exact hend
  · rw [h] at htake
    cases htake
  · rw [h] at htake
    cases htake

theorem handle_recorder (hrecord : s.config.recordInputs = true) {event : HostEvent}
    (h : s.keepsRecorder event) (budget : Nat) :
    (s.handle budget event).2.recorder =
      (s.tickHeld budget event).foldl (fun r t => r.record t.1 t.2) s.recorder := by
  cases event with
  | start => exact h.elim
  | showMessageBox | cancel | setFlags => rfl
  | overrideInput replace =>
    cases replace with
    | none => rfl
    | some content => rfl
  | endLevel =>
    rw [handle, recorder_endLevel h]
    rfl
  | playerKilled =>
    obtain ⟨reports, hkilled⟩ := s.playerKilled_eq
    rw [handle, hkilled, recorder_endLevel h]
    rfl
  | exitLevel =>
    rw [handle, exitLevel, recorder_endLevel h]
    rfl
  | update v =>
    have hskipped : ((s.see v).isOver || !((s.see v).updateWith budget).1.isOk ||
        (s.see v).freezes) = ((s.see v).isOver || !((s.see v).updateWith budget).1.isOk ||
        s.engine.isFrozen v.paused) := by
      cases hfrozen : s.engine.isFrozen v.paused with
      | true =>
        rcases h hfrozen with hover | hfreezes
        · simp [hover]
        · simp [hfreezes]
      | false =>
        have hthawed : (s.see v).engine.isFrozen (s.see v).engine.simulation.paused = false :=
          hfrozen
        simp [freezes, hthawed]
    have hupdate := updateWith_recorder (s := s.see v) hrecord budget
    rw [hskipped] at hupdate
    rw [handle, hupdate, tickHeld]
    split
    · rfl
    · rfl

/-- The recorder takes up the ticks of a run that are not paused, one after the other. -/
theorem recorder_run (budget : Nat) (events : List HostEvent) :
    ∀ s : Session, s.config.recordInputs = true → s.Along budget keepsRecorder events →
      (s.run budget events).2.recorder =
        (s.heldLog budget events).foldl (fun r t => r.record t.1 t.2) s.recorder := by
  induction events with
  | nil => exact fun _ _ _ => rfl
  | cons event rest ih =>
    intro s hrecord h
    have hhome := s.handle_home budget event
    have hrecord' : (s.handle budget event).2.config.recordInputs = true := by
      rw [(home_eq_iff.mp hhome).2.1, hrecord]
    rw [run_cons]
    dsimp only
    rw [ih _ hrecord' h.2, handle_recorder hrecord h.1, heldLog, List.foldl_append]

theorem start_recorder (s : Session) : s.start.2.recorder = {} := by
  obtain ⟨engine, program, closed, seed, hstart⟩ := s.start_cases
  rw [hstart]
  rfl

/-- An update that is paused and frozen leaves the recorder as it was, and everything that is played
back as it was met. If no paused update of a run is recorded, the recording of a section is the log
of the keys that were held there on the ticks that were not paused. -/
theorem records_unpaused_ticks (budget : Nat) :
    (∀ (s : Session) (v : View), s.config.recordInputs = true →
      s.engine.isFrozen v.paused = true → (s.see v).noticeKeys.tookOver = false →
      (s.see v).met.engine.program ≠ none →
      let after := ((s.see v).updateWith budget).2
      after.recorder = s.recorder ∧ ∃ messageBox,
        after.engine = { ((s.see v).enterSection v.player.sectionId).engine with messageBox }) ∧
    ∀ (t : Session) (events : List HostEvent), t.config.recordInputs = true →
      t.start.2.Along budget keepsRecorder events → ∀ sectionId,
        ((t.start.2.run budget events).2.recorder.runs sectionId).toLog =
          (t.start.2.heldLog budget events).heldIn sectionId := by
  refine ⟨?_, ?_⟩
  · intro s v hrecord hfrozen howned hprogram
    have hfrozen' : (s.see v).engine.isFrozen (s.see v).engine.simulation.paused = true := hfrozen
    have hfreezes : (s.see v).freezes = true := by
      simp [freezes, hfrozen', howned, Option.isSome_iff_ne_none, hprogram]
    refine ⟨?_, ?_⟩
    · have hupdate := updateWith_recorder (s := s.see v) hrecord budget
      rw [hfreezes, Bool.or_true, if_pos rfl] at hupdate
      exact hupdate
    · have hpaused : v.paused = true := (Bool.and_eq_true_iff.mp hfrozen).1
      have hmet : (s.see v).met.engine = ((s.see v).enterSection v.player.sectionId).engine := by
        change Engine.tickScript _ v.paused = _
        rw [Engine.tickScript, if_pos hpaused]
        rfl
      have hlive : (s.see v).isLive = false := by simp [isLive, hfrozen']
      rw [← hmet]
      exact updateWith_idles (.inl hlive) budget
  · intro t events hrecord hkeeps sectionId
    have hrecord' : t.start.2.config.recordInputs = true := by
      rw [(home_eq_iff.mp t.start_home).2.1, hrecord]
    have hrun : (t.start.2.run budget events).2.recorder =
        .ofLog (t.start.2.heldLog budget events) := by
      rw [recorder_run budget events _ hrecord' hkeeps, start_recorder]
      rfl
    rw [hrun, (Recorder.covers_ofLog _).runs_eq, Runs.toLog_ofLog]

/-- A program is played for two ticks with a pause in between, and recorded. -/
theorem records_unpaused_ticks_around_pause :
    let text := "\x7b\"sections\": \x7b\"0\": [\"r\", 100]\x7d\x7d"
    let t : Session :=
      { engine := { (default : Engine) with files := ⟨[(["__runs", "stage.json"], text)]⟩ }
        level := "stage.lvlx", config := { recordInputs := true }, backupName := "latest.rec.bak"
        seed := 7 }
    let tick : HostEvent := .update { player := {} }
    let pause : View := { player := {}, paused := true }
    let played := (t.start.2.handle 4 tick).2
    ((played.see pause).updateWith 4).2.recorder = played.recorder ∧
      ((t.start.2.run 4 [tick, .update pause, tick]).2.recorder.runs 0).toLog =
        [.ofList [.right], .ofList [.right]] := by
  intro text t tick pause played
  let p : LevelProgram :=
    { sections := [(0, [.mk (.ofKeys (.ofList [.right])) (.countdown 100)])]
      seed := 8675309, legacySeed := 8675309 }
  obtain ⟨random, seeds, seed, hstart⟩ :=
    start_of_compiled (s := t) (p := p) (q := p) (t := { t.reset with program := some p })
      (by cbv) rfl rfl rfl
  obtain ⟨hfrozen, hlog⟩ := records_unpaused_ticks 4
  refine ⟨?_, ?_⟩
  · have hprogram : (played.see pause).met.engine.program.isSome = true := by
      simp only [played]
      rw [hstart]
      cbv
    refine (hfrozen played pause ?_ ?_ ?_ (Option.isSome_iff_ne_none.mp hprogram)).1 <;>
      simp only [played] <;> rw [hstart] <;> cbv
  · have hkeeps : t.start.2.Along 4 keepsRecorder [tick, .update pause, tick] := by
      rw [hstart]
      have hrunning : ∀ {p : Prop}, false = true → p := fun h => absurd h Bool.false_ne_true
      refine ⟨hrunning, fun _ => .inr ?_, hrunning, trivial⟩
      cbv
    rw [hlog t [tick, .update pause, tick] rfl hkeeps 0, hstart]
    cbv

/-- A level without a program is started, and the player holds a key while the game is paused: the
paused tick is recorded. -/
theorem paused_tick_recorded_without_program : ∃ s : Session, s.config.recordInputs = true ∧
    s.start.1 = .ok () ∧ s.start.2.recorder.sections = [] ∧
      let v : View := { player := {}, paused := true, pressed := .ofKeys (.ofList [.right]) }
      s.start.2.engine.isFrozen v.paused = true ∧
        (s.start.2.handle 4 (.update v)).2.recorder.sections = [(0, [(.ofList [.right], 1)])] := by
  let s : Session :=
    { engine := default, level := "stage.lvlx", config := { recordInputs := true }
      backupName := "latest.rec.bak", seed := 7 }
  let p : LevelProgram := { seed := 8675309, legacySeed := 8675309 }
  obtain ⟨random, seeds, seed, hstart⟩ :=
    start_of_compiled (s := s) (p := p) (q := p) (t := { s.reset with program := some p })
      (by cbv) rfl rfl rfl
  refine ⟨s, rfl, ?_⟩
  rw [hstart]
  refine ⟨rfl, ?_, ?_, ?_⟩ <;> cbv

end TickScript.Session
