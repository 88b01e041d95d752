import Mathlib
import TickScript.Proofs.SessionEvents

/-!
# The player takes over

A session that records gives way to the player: from the first update that sees held keys on,
the program has no ticks (`Session.IsOff`). One mark stands for that and for a recording that is
still to be saved, and saving it takes the mark away. So playback stays off until the level
starts again, unless the recording is saved while the level goes on (`Session.KeepsTake`); at an
exit the program goes as well.

* `Session.IsOff.updateWith`: an update while playback is off.
* `Session.IsOff.handle`, `Session.IsOff.run`: events after which it is still off.
* `Session.tookOver_of_savesTake`: the events that put an end to it.
* `Session.takeover_lasts`: a takeover and what comes after it.
-/

namespace TickScript.Session

variable {s : Session}

/-! ## Playback is off -/

/-- Nothing is played on an update: the player has taken over, or the run was cancelled. -/
inductive IsOff (s : Session) : Prop
  | owned (h : s.tookOver = true)
  | cancelled (hlevel : s.program = none) (hprogram : s.engine.program = none)

theorem IsOff.of_eq {s' : Session} (h : s.IsOff) (htook : s'.tookOver = s.tookOver)
    (hlevel : s'.program = s.program) (hprogram : s'.engine.program = s.engine.program) :
    s'.IsOff := by
  cases h with
  | owned h => exact .owned (htook.trans h)
  | cancelled hnone hprogram' => exact .cancelled (hlevel.trans hnone) (hprogram.trans hprogram')

theorem IsOff.noticeKeys (h : s.IsOff) : s.noticeKeys.IsOff := by
  cases h with
  | owned h => exact .owned (by rw [Session.noticeKeys, h, Bool.true_or])
  | cancelled hlevel hprogram => exact .cancelled hlevel hprogram

theorem IsOff.met (h : s.IsOff) : s.met.IsOff := by
  obtain ⟨_, _, _, _, _, _, hmet, hkept, -⟩ := s.met_cases
  rw [hmet]
  cases h with
  | owned h => exact .owned h
  | cancelled hlevel hprogram => exact .cancelled hlevel ((hkept hlevel).trans hprogram)

theorem isOff_cancel (s : Session) : s.cancel.IsOff := .cancelled rfl rfl

/-- An update that finds playback off, once it is known what is held, plays and writes nothing. -/
theorem updateWith_off (hover : s.isOver = false) (h : s.noticeKeys.IsOff) (budget : Nat) :
    (s.updateWith budget).1 = .ok none ∧ (s.updateWith budget).2.IsOff ∧
      (s.updateWith budget).2.engine.simulation.written = s.engine.simulation.written := by
  have hoff : s.met.noticeKeys.IsOff := by
    cases h with
    | owned h => exact .owned (s.met_tookOver.trans h)
    | cancelled hlevel hprogram =>
      have hcancelled : s.IsOff := .cancelled hlevel hprogram
      exact hcancelled.met.noticeKeys
  have hskips : s.noticeKeys.tookOver = true ∨ s.met.engine.program = none := by
    cases hoff with
    | owned h => exact .inl (s.met_tookOver.symm.trans h)
    | cancelled _ hprogram => exact .inr hprogram
  obtain ⟨recorder, hnote⟩ :=
    s.met.noticeKeys.noteTick_eq s.engine.simulation.player.sectionId none
  rw [updateWith_skips hover hskips, hnote]
  exact ⟨rfl, hoff.of_eq rfl rfl rfl, congrArg Simulation.written s.met_simulation⟩

theorem IsOff.updateWith (h : s.IsOff) (budget : Nat) :
    (s.updateWith budget).1 = .ok none ∧ (s.updateWith budget).2.IsOff ∧
      (s.updateWith budget).2.engine.simulation.written = s.engine.simulation.written := by
  cases hover : s.isOver with
  | true =>
    rw [updateWith_over hover]
    exact ⟨rfl, h.met, congrArg Simulation.written s.met_simulation⟩
  | false => exact updateWith_off hover h.noticeKeys budget

/-- The end of a level keeps playback off, unless the recording is saved. -/
theorem IsOff.endLevel (h : s.IsOff) :
    s.endLevel.2.engine.simulation.written = s.engine.simulation.written ∧
      (¬(s.hasTake = true ∧ s.endLevel.1 = .ok ()) → s.endLevel.2.IsOff) := by
  rcases s.endLevel_cases with ⟨-, hend⟩ | ⟨-, recorder, f, hend⟩ | ⟨htake, recorder, files, hend⟩
  · rw [hend]
    exact ⟨rfl, fun _ => h⟩
  · rw [hend]
    exact ⟨rfl, fun _ => h.of_eq rfl rfl rfl⟩
  · rw [hend]
    exact ⟨rfl, fun hunsaved => absurd ⟨htake, rfl⟩ hunsaved⟩

/-! ## Events -/

/-- The recording is saved while the level goes on. -/
def savesTake (s : Session) : HostEvent → Prop
  | .playerKilled | .endLevel => s.hasTake = true ∧ s.endLevel.1 = .ok ()
  | _ => False

/-- Saving the recording while the level goes on takes the mark of the takeover away. -/
theorem tookOver_of_savesTake {event : HostEvent} (h : s.savesTake event) (budget : Nat) :
    (s.handle budget event).2.tookOver = false := by
  have hended : s.hasTake = true ∧ s.endLevel.1 = .ok () → s.endLevel.2.tookOver = false := by
    rintro ⟨htake, hok⟩
    rcases s.endLevel_cases with ⟨hnone, -⟩ | ⟨-, recorder, f, hend⟩ | ⟨-, recorder, files, hend⟩
    · rw [htake] at hnone
      cases hnone
    · rw [hend] at hok
      cases hok
    · rw [hend]
  cases event with
  | endLevel => exact hended h
  | playerKilled =>
    obtain ⟨reports, hkilled⟩ := s.playerKilled_eq
    rw [handle, hkilled]
    exact hended h
  | _ => exact h.elim

/-- Along some events the recording is not saved while the level goes on. -/
def KeepsTake (budget : Nat) (events : List HostEvent) (s : Session) : Prop :=
  s.Along budget (fun s event => ¬s.savesTake event) events

/-- Playback stays off, and nothing is written. -/
theorem IsOff.handle (h : s.IsOff) {event : HostEvent} (hstart : event ≠ .start)
    (hkeeps : ¬s.savesTake event) (budget : Nat) :
    (s.handle budget event).2.IsOff ∧
      (s.handle budget event).2.engine.simulation.written = s.engine.simulation.written := by
  cases event with
  | start => exact absurd rfl hstart
  | update v =>
    have hseen : (s.see v).IsOff := h.of_eq rfl rfl rfl
    exact (hseen.updateWith budget).2
  | showMessageBox | setFlags => exact ⟨h.of_eq rfl rfl rfl, rfl⟩
  | cancel => exact ⟨s.isOff_cancel, rfl⟩
  | overrideInput replace =>
    cases replace with
    | none => exact ⟨h.of_eq rfl rfl rfl, rfl⟩
    | some content => exact ⟨h.of_eq rfl rfl rfl, rfl⟩
  | endLevel =>
    obtain ⟨hwritten, hoff⟩ := h.endLevel
    exact ⟨hoff hkeeps, hwritten⟩
  | playerKilled =>
    obtain ⟨hwritten, hoff⟩ := h.endLevel
    obtain ⟨reports, hkilled⟩ := s.playerKilled_eq
    rw [Session.handle, hkilled]
    exact ⟨(hoff hkeeps).of_eq rfl rfl rfl, hwritten⟩
  | exitLevel =>
    obtain ⟨hwritten, hoff⟩ := h.endLevel
    rcases s.exitLevel_cases with ⟨f, hend, hexit⟩ | ⟨-, hexit⟩
    · rw [Session.handle, hexit]
      refine ⟨hoff ?_, hwritten⟩
      rintro ⟨-, hok⟩
      rw [hend] at hok
      cases hok
    · rw [Session.handle, hexit]
      exact ⟨isOff_cancel _, hwritten⟩

theorem IsOff.run (budget : Nat) (events : List HostEvent) : ∀ s : Session, s.IsOff →
    .start ∉ events → s.KeepsTake budget events →
    (s.run budget events).2.IsOff ∧
      (s.run budget events).2.engine.simulation.written = s.engine.simulation.written := by
  induction events with
  | nil => exact fun s h _ _ => ⟨h, rfl⟩
  | cons event rest ih =>
    intro s h hstart hkeeps
    obtain ⟨hoff, hwritten⟩ := h.handle (List.ne_of_not_mem_cons hstart).symm hkeeps.1 budget
    obtain ⟨hoff', hwritten'⟩ := ih _ hoff (List.not_mem_of_not_mem_cons hstart) hkeeps.2
    rw [run_cons]
    exact ⟨hoff', hwritten'.trans hwritten⟩

/-- Once an update of a session that records has seen held keys, no update plays or writes
anything until the level starts again, whatever else happens, as long as the recording is not saved
while the level goes on. -/
theorem takeover_lasts {v : View} (hrecord : s.config.recordInputs = true)
    (hlives : v.player.dead = false ∨ s.survivesDeath = true)
    (hheld : (s.see v).engine.simulation.held.isEmpty = false) (budget : Nat) :
    (s.handle budget (.update v)).1 = .ok none ∧
      ∀ events : List HostEvent, .start ∉ events →
        (s.handle budget (.update v)).2.KeepsTake budget events →
        let later := ((s.handle budget (.update v)).2.run budget events).2
        later.engine.simulation.written = s.engine.simulation.written ∧
          ∀ v' : View, (later.handle budget (.update v')).1 = .ok none ∧
            (later.handle budget (.update v')).2.engine.simulation.written =
              s.engine.simulation.written := by
  have hover : (s.see v).isOver = false := by
    have hsurvives : (s.see v).survivesDeath = s.survivesDeath := rfl
    rw [isOver, hsurvives]
    rcases hlives with hlives | hlives
    · rw [show (s.see v).engine.simulation.player.dead = false from hlives, Bool.false_and]
    · rw [hlives, Bool.not_true, Bool.and_false]
  have howned : (s.see v).noticeKeys.IsOff := by
    have hconfig : (s.see v).config.recordInputs = true := hrecord
    refine .owned ?_
    rw [noticeKeys, hconfig, hheld]
    exact Bool.or_true _
  obtain ⟨hnone, hoff, hwritten⟩ := updateWith_off hover howned budget
  refine ⟨hnone, fun events hstart hkeeps => ?_⟩
  obtain ⟨hoff', hwritten'⟩ := hoff.run budget events _ hstart hkeeps
  refine ⟨hwritten'.trans hwritten, fun v' => ?_⟩
  have hseen : IsOff (((((s.see v).updateWith budget).2.run budget events).2).see v') :=
    hoff'.of_eq rfl rfl rfl
  obtain ⟨hnone', -, hwritten''⟩ := hseen.updateWith budget
  exact ⟨hnone', hwritten''.trans (hwritten'.trans hwritten)⟩

/-- A backup was restored, so the recording is not to be saved: the death of the player, which is
lived through, leaves playback off. -/
theorem takeover_lasts_after_restore :
    let s : Session :=
      { engine := (default : Engine).load (some [.mk (.ofKeys (.ofList [.right])) (.countdown 9)])
        level := "stage.lvlx", config := { recordInputs := true, restartOnDeath := false }
        backupName := "latest.rec.bak", seed := 7, closed := true }
    let events : List HostEvent := [.showMessageBox, .playerKilled, .update { player := {} }]
    let taken := (s.handle 4 (.update { player := {}, pressed := .ofKeys (.ofList [.jump]) })).2
    taken.KeepsTake 4 events ∧
      ((taken.run 4 events).2.handle 4 (.update { player := {} })).1 = .ok none := by
  intro s events taken
  have hclosed : (taken.handle 4 .showMessageBox).2.hasTake = false := by decide
  have hkeeps : taken.KeepsTake 4 events :=
    ⟨id, fun hsaved => Bool.false_ne_true (hclosed.symm.trans hsaved.1), id, trivial⟩
  obtain ⟨-, hlasts⟩ := takeover_lasts (s := s)
    (v := { player := {}, pressed := .ofKeys (.ofList [.jump]) }) rfl (.inl rfl) (by decide) 4
  exact ⟨hkeeps, ((hlasts events (by simp [events]) hkeeps).2 { player := {} }).1⟩

/-- A level is started, the player presses a key for one tick and dies, which saves the recording:
on the next tick the program plays on, although the level did not start again. -/
theorem saved_takeover_ends : ∃ s : Session, s.config.recordInputs = true ∧ s.start.1 = .ok () ∧
    let taken := (s.start.2.handle 4
      (.update { player := {}, pressed := .ofKeys (.ofList [.jump]) })).2
    let later := (taken.handle 4 .playerKilled).2
    taken.tookOver = true ∧ later.engine.simulation.written = [] ∧
      (later.handle 4 (.update { player := {} })).2.engine.simulation.written =
        [.ofKeys (.ofList [.right])] := by
  let text := "\x7b\"sections\": \x7b\"0\": [\"r\", 100]\x7d\x7d"
  let s : Session :=
    { engine := { (default : Engine) with files := ⟨[(["__runs", "stage.json"], text)]⟩ }
      level := "stage.lvlx", config := { recordInputs := true, restartOnDeath := false }
      backupName := "latest.rec.bak", seed := 7 }
  let p : LevelProgram :=
    { sections := [(0, [.mk (.ofKeys (.ofList [.right])) (.countdown 100)])]
      seed := 8675309, legacySeed := 8675309 }
  obtain ⟨random, seeds, seed, hstart⟩ :=
    start_of_compiled (s := s) (p := p) (q := p) (t := { s.reset with program := some p })
      (by cbv) rfl rfl rfl
  refine ⟨s, rfl, ?_⟩
  rw [hstart]
  refine ⟨rfl, ?_, ?_, ?_⟩ <;> cbv

end TickScript.Session
