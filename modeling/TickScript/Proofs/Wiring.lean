import TickScript.Proofs.SessionEvents
import TickScript.Proofs.Untouched

/-!
# What the settings fix

The settings say which file keeps the search record and how fast a script is played, and a session
gives its engine all its parts. No event changes any of this: a session is wired as it was when it
was set up (`Session.Wired.run`).
-/

namespace TickScript

/-! ## Engines -/

/-- The parts of an engine that are fixed when the session is set up. -/
def Engine.wiring (e : Engine) : Parts × Path × Int × Int :=
  (e.parts, e.recordPath, e.script.interval, e.script.initialDelay)

namespace Engine

theorem Untouched.wiring {a b : Engine} (h : Untouched a b) : b.wiring = a.wiring := by
  obtain ⟨hinterval, hdelay⟩ := Prod.mk.inj h.timing
  rw [Engine.wiring, Engine.wiring, h.parts, h.recordPath, hinterval, hdelay]

theorem tickKept_wiring (w : Parts × Path × Int × Int) : TickKept fun e => e.wiring = w where
  meet h _ := h
  beginTick h := h
  write h _ := h
  withOverride h _ := h
  classify h := (classify_untouched _).wiring.trans h
  afterTurn h _ _ := (afterTurn_untouched _ _ _).wiring.trans h
  commit h _ := h
  leave h _ _ := (afterTurn_untouched _ _ _).wiring.trans h

theorem tickScript_wiring (e : Engine) (paused : Bool) :
    (e.tickScript paused).wiring = e.wiring := by
  have htick : ({ e with script := e.script.tick.rest } : Engine).wiring = e.wiring := by
    unfold ScriptQueue.tick
    split
    · rfl
    · split
      · split <;> rfl
      · rfl
  unfold tickScript
  split
  · rfl
  · dsimp only
    split
    · exact htick
    · split
      · exact htick
      · exact htick

end Engine

/-! ## Sessions -/

namespace Session

theorem met_wiring (s : Session) : s.met.engine.wiring = s.engine.wiring := by
  obtain ⟨_, _, _, _, hentered, -⟩ := s.enterSection_cases s.engine.simulation.player.sectionId
  have hscript := (s.enterSection s.engine.simulation.player.sectionId).engine.tickScript_wiring
    s.engine.simulation.paused
  rw [hentered] at hscript
  rw [met, hentered]
  exact hscript

theorem updateWith_wiring (s : Session) (budget : Nat) :
    (s.updateWith budget).2.engine.wiring = s.engine.wiring := by
  have hnote : ∀ (t : Session) (sectionId : Int) (outcome : Option TickOutcome),
      (t.noteTick sectionId outcome).engine.wiring = t.engine.wiring := by
    intro t sectionId outcome
    rw [noteTick_engine]
    rfl
  rcases s.update_kinds with hover | ⟨hover, hskips⟩ | ⟨hover, howned, hprogram⟩
  · rw [updateWith_over hover]
    exact s.met_wiring
  · rw [updateWith_skips hover hskips, hnote]
    exact s.met_wiring
  · have htick := (Engine.tickKept_wiring s.engine.wiring).tickWith budget s.met_wiring
      s.engine.simulation.paused
    rw [updateWith_program hover howned hprogram]
    generalize s.met.engine.tickWith budget s.engine.simulation.paused = t at htick ⊢
    obtain ⟨f | outcome, e⟩ := t
    · exact htick
    · exact (hnote _ _ _).trans htick

theorem handle_wiring (s : Session) (budget : Nat) (event : HostEvent) :
    (s.handle budget event).2.engine.wiring = s.engine.wiring := by
  by_cases hupdate : ∃ v, event = .update v
  · obtain ⟨v, rfl⟩ := hupdate
    exact (s.see v).updateWith_wiring budget
  · obtain ⟨_, _, _, _, _, _, script, _, _, _, hengine, hscript, -⟩ :=
      s.handle_engine budget (not_exists.mp hupdate)
    rw [hengine]
    rcases hscript with rfl | rfl <;> rfl

/-- The engine is set up as the settings say, and no part of it is out of reach. -/
def Wired (s : Session) : Prop :=
  s.engine.wiring =
    ({}, s.config.searchPath, s.config.scriptInterval, s.config.scriptDelay)

/-- A session is wired when it is set up. -/
theorem wired_new (config : Settings) (backupName level : String) (simulation : Simulation)
    (files : Files) (record : SearchRecord) (now : String) :
    (new config backupName level simulation files record now).Wired := rfl

theorem Wired.handle {s : Session} (h : s.Wired) (budget : Nat) (event : HostEvent) :
    (s.handle budget event).2.Wired := by
  have hconfig : (s.handle budget event).2.config = s.config :=
    (home_eq_iff.mp (s.handle_home budget event)).2.1
  rw [Wired, s.handle_wiring, hconfig]
  exact h

/-- A session stays wired, whatever happens to it. -/
theorem Wired.run (budget : Nat) : ∀ (events : List HostEvent) {s : Session}, s.Wired →
    (run budget events s).2.Wired
  | [], _, h => h
  | event :: rest, _, h => Wired.run budget rest (h.handle budget event)

end Session

end TickScript
