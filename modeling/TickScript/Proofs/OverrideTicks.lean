import Mathlib
import TickScript.Proofs.Probing
import TickScript.Proofs.SessionEvents

/-!
# Overrides and probes from tick to tick

On an update that lets the program have its tick (`Session.hasTick`), an override that is active
is written and counts down by one; otherwise an open probe is judged before the program goes on.
Both outlive a change of the section. An override of so many ticks is therefore written on
exactly so many updates of this kind, whatever happens between them, unless it is replaced.

* `Session.updateWith_override`, `Session.updateWith_probe`: one update.
* `Session.run_slot`: an override and some events.
* `Session.overrides_and_probes_honoured`: all of them together.
-/

namespace TickScript

namespace Override

/-- An input that is forced for so many more ticks. -/
def slot (content : Inputs) : Nat → Override
  | 0 => .cleared
  | n + 1 => ⟨content, n + 1⟩

theorem tick_slot (content : Inputs) (n : Nat) :
    (slot content (n + 1)).tick = (content, slot content n) := by
  cases n with
  | zero => rfl
  | succ n =>
    have hmore : ¬((n + 1 : Nat) + 1 : Int) ≤ 1 := by omega
    have hrest : ((n + 1 : Nat) + 1 - 1 : Int) = n + 1 := by omega
    rw [slot, tick]
    dsimp only
    rw [if_neg hmore, hrest, slot]

theorem isActive_slot_succ (content : Inputs) (n : Nat) :
    (slot content (n + 1)).isActive = true := by
  have hpositive : (0 : Int) < n + 1 := by omega
  exact decide_eq_true hpositive

/-- A tick uses up one of the ticks that are left. -/
theorem tick_remaining {o : Override} (h : o.isActive = true) :
    o.tick.2.remaining = o.remaining - 1 := by
  have hpositive : 0 < o.remaining := of_decide_eq_true h
  rw [tick]
  dsimp only
  split
  · have hlast : o.remaining - 1 = 0 := by omega
    rw [hlast]
    rfl
  · rfl

end Override

namespace Engine

/-- The tick after the probe was looked at. -/
def conclude (budget : Nat) : Except Fault (Option Report) × Engine →
    Except Fault TickOutcome × Engine
  | (.error f, e) => (.error f, e)
  | (.ok (some _), e) => (.ok ⟨.ended, .none⟩, e)
  | (.ok none, e) => walk budget e

end Engine

namespace Session

variable {s : Session}

/-! ## One update -/

/-- The update is live and meets a program. -/
def hasTick (s : Session) : Bool := s.isLive && s.met.engine.program.isSome

theorem updateWith_of_hasTick (h : s.hasTick = true) (budget : Nat) :
    s.met.engine.isFrozen s.engine.simulation.paused = false ∧
      (s.updateWith budget).1 =
        (s.met.engine.tickWith budget s.engine.simulation.paused).1.map some ∧
      ∃ messageBox, (s.updateWith budget).2.engine =
        { (s.met.engine.tickWith budget s.engine.simulation.paused).2 with messageBox } := by
  rw [hasTick, Bool.and_eq_true, isLive_iff, Option.isSome_iff_ne_none] at h
  obtain ⟨⟨hthawed, hover, howned⟩, hprogram⟩ := h
  exact ⟨(s.met_isFrozen _).trans hthawed, updateWith_plays hover howned hprogram budget⟩

/-- An active override is written, and one tick of it is used up. -/
theorem updateWith_override (h : s.hasTick = true)
    (hactive : s.met.engine.override.isActive = true) (budget : Nat) :
    (s.updateWith budget).1 = .ok (some ⟨.overridden, s.met.engine.override.content⟩) ∧
      (s.updateWith budget).2.engine.simulation.written =
        s.engine.simulation.written ++ [s.met.engine.override.content] ∧
      (s.updateWith budget).2.engine.override = s.met.engine.override.tick.2 := by
  obtain ⟨hthawed, hresult, messageBox, hengine⟩ := updateWith_of_hasTick h budget
  rw [Engine.tickWith_override budget hthawed hactive] at hresult hengine
  have hwritten : s.met.engine.simulation.written = s.engine.simulation.written :=
    congrArg Simulation.written s.met_simulation
  rw [hengine, ← hwritten]
  exact ⟨hresult, rfl, rfl⟩

/-- Without an override, an open probe is judged first, whatever became of the section. -/
theorem updateWith_probe {p : Probe} (h : s.hasTick = true)
    (hinactive : s.met.engine.override.isActive = false) (hprobe : s.engine.probe = some p)
    (budget : Nat) : ∃ origin : Option Place,
    let (outcome, judged, e) := (s.met.engine.beginTick.withProbe none).judge { p with origin }
    let concluded := Engine.conclude budget ((e.keepInPlace judged).settle judged outcome)
    (s.updateWith budget).1 = concluded.1.map some ∧
      ∃ messageBox, (s.updateWith budget).2.engine = { concluded.2 with messageBox } := by
  obtain ⟨hthawed, hupdate⟩ := updateWith_of_hasTick h budget
  obtain ⟨_, _, _, _, _, origin, hmet, -⟩ := s.met_cases
  have hopen : s.met.engine.beginTick.probe = some { p with origin } := by
    rw [hmet, Engine.beginTick, hprobe]
    rfl
  have hplay : s.met.engine.beginTick.play budget =
      Engine.conclude budget s.met.engine.beginTick.classify := by
    unfold Engine.play
    rcases s.met.engine.beginTick.classify with ⟨_ | _ | _, e⟩ <;> rfl
  rw [Engine.tickWith_play budget hthawed hinactive, hplay, Engine.classify_of_probe hopen]
    at hupdate
  exact ⟨origin, hupdate⟩

/-- An update without a tick of the program writes nothing and leaves the override that it
meets. -/
theorem updateWith_of_not_hasTick (h : s.hasTick = false) (budget : Nat) :
    (s.updateWith budget).2.engine.simulation.written = s.engine.simulation.written ∧
      (s.updateWith budget).2.engine.override = s.met.engine.override := by
  have hidles : s.isLive = false ∨ s.met.engine.program = none := by
    rw [hasTick, Bool.and_eq_false_iff, Option.isSome_eq_false_iff, Option.isNone_iff_eq_none] at h
    exact h
  obtain ⟨messageBox, hengine⟩ := updateWith_idles hidles budget
  rw [hengine]
  exact ⟨congrArg Simulation.written s.met_simulation, rfl⟩

/-! ## One override -/

/-- The event does not replace the override, nor drop it: the level goes on, and the script does
not play an entry. -/
def keepsOverride (s : Session) : HostEvent → Prop
  | .start | .exitLevel | .cancel | .overrideInput .. => False
  | .update v => v.paused = true ∨ s.engine.script.tick.played = none
  | _ => True

/-- The event is an update on which the program has its tick. -/
def givesTick (s : Session) : HostEvent → Bool
  | .update v => (s.see v).hasTick
  | _ => false

/-- How often the program has its tick in the course of some events. -/
def countTicks (budget : Nat) : List HostEvent → Session → Nat
  | [], _ => 0
  | event :: rest, s =>
    (s.givesTick event).toNat + countTicks budget rest (s.handle budget event).2

theorem met_override {v : View} (h : s.keepsOverride (.update v)) :
    (s.see v).met.engine.override = s.engine.override := by
  obtain ⟨_, _, _, override, _, _, hmet, -, hoverride⟩ := (s.see v).met_cases
  rw [hmet]
  exact hoverride h

/-- An update on which the program has its tick writes the forced input. -/
theorem handle_slot {event : HostEvent} {content : Inputs} {n : Nat}
    (h : s.keepsOverride event) (htick : s.givesTick event = true)
    (hslot : s.engine.override = .slot content (n + 1)) (budget : Nat) :
    (s.handle budget event).2.engine.simulation.written =
        s.engine.simulation.written ++ [content] ∧
      (s.handle budget event).2.engine.override = .slot content n := by
  cases event with
  | update v =>
    have hmet := (met_override h).trans hslot
    have hactive : (s.see v).met.engine.override.isActive = true := by
      rw [hmet]
      exact Override.isActive_slot_succ content n
    obtain ⟨-, hwritten, hoverride⟩ := updateWith_override htick hactive budget
    rw [hmet] at hwritten hoverride
    rw [Override.tick_slot] at hoverride
    exact ⟨hwritten, hoverride⟩
  | _ => cases htick

/-- No other event writes anything, or changes how many ticks are left. -/
theorem handle_other {event : HostEvent} (h : s.keepsOverride event)
    (htick : s.givesTick event = false) (budget : Nat) :
    (s.handle budget event).2.engine.simulation.written = s.engine.simulation.written ∧
      (s.handle budget event).2.engine.override = s.engine.override := by
  have hend : s.endLevel.2.engine.simulation.written = s.engine.simulation.written ∧
      s.endLevel.2.engine.override = s.engine.override := by
    rcases s.endLevel_cases with ⟨-, hend⟩ | ⟨-, _, _, hend⟩ | ⟨-, _, _, hend⟩ <;> rw [hend] <;>
      exact ⟨rfl, rfl⟩
  cases event with
  | start | exitLevel | cancel | overrideInput => exact h.elim
  | showMessageBox | setFlags => exact ⟨rfl, rfl⟩
  | endLevel => exact hend
  | playerKilled =>
    obtain ⟨reports, hkilled⟩ := s.playerKilled_eq
    rw [handle, hkilled]
    exact hend
  | update v =>
    obtain ⟨hwritten, hoverride⟩ := updateWith_of_not_hasTick htick budget
    exact ⟨hwritten, hoverride.trans (met_override h)⟩

/-- As long as ticks are left of an override that nothing replaces, each tick of the program writes
its input. -/
theorem run_slot (budget : Nat) {content : Inputs} (events : List HostEvent) :
    ∀ (s : Session) (n : Nat), s.Along budget keepsOverride events →
      s.engine.override = .slot content n → s.countTicks budget events ≤ n →
      (s.run budget events).2.engine.simulation.written =
          s.engine.simulation.written ++ List.replicate (s.countTicks budget events) content ∧
        (s.run budget events).2.engine.override =
          .slot content (n - s.countTicks budget events) := by
  induction events with
  | nil =>
    intro s n _ hslot _
    exact ⟨(List.append_nil _).symm, hslot⟩
  | cons event rest ih =>
    intro s n halong hslot hcount
    rw [run_cons]
    dsimp only
    rw [countTicks] at hcount ⊢
    cases htick : s.givesTick event with
    | false =>
      obtain ⟨hwritten, hoverride⟩ := handle_other halong.1 htick budget
      rw [htick, Bool.toNat_false, Nat.zero_add] at hcount
      rw [Bool.toNat_false, Nat.zero_add]
      obtain ⟨hwritten', hoverride'⟩ := ih _ n halong.2 (hoverride.trans hslot) hcount
      exact ⟨hwritten'.trans (congrArg (· ++ _) hwritten), hoverride'⟩
    | true =>
      rw [htick, Bool.toNat_true] at hcount
      rw [Bool.toNat_true]
      obtain ⟨m, rfl⟩ : ∃ m, n = m + 1 := ⟨n - 1, by omega⟩
      obtain ⟨hwritten, hoverride⟩ := handle_slot halong.1 htick hslot budget
      obtain ⟨hwritten', hoverride'⟩ := ih _ m halong.2 hoverride (by omega)
      refine ⟨?_, ?_⟩
      · rw [hwritten', hwritten, List.append_assoc, Nat.add_comm, List.replicate_succ]
        rfl
      · rw [hoverride']
        congr 1
        omega

/-! ## All ticks of the program -/

/-- On each live update that meets a program, an active override is written and counts down by one,
whether it was forced by the level or by the script, and otherwise an open probe is judged, from
whatever section it comes. An input that the level forces for some ticks is written on exactly so
many of these updates, as long as nothing replaces it. -/
theorem overrides_and_probes_honoured (budget : Nat) :
    (∀ s : Session, s.hasTick = true →
      (s.met.engine.override.isActive = true →
        (s.updateWith budget).1 = .ok (some ⟨.overridden, s.met.engine.override.content⟩) ∧
          (s.updateWith budget).2.engine.simulation.written =
            s.engine.simulation.written ++ [s.met.engine.override.content] ∧
          (s.updateWith budget).2.engine.override.remaining =
            s.met.engine.override.remaining - 1) ∧
      (s.met.engine.override.isActive = false → ∀ p, s.engine.probe = some p →
        ∃ origin : Option Place,
          let (outcome, judged, e) :=
            (s.met.engine.beginTick.withProbe none).judge { p with origin }
          let concluded := Engine.conclude budget ((e.keepInPlace judged).settle judged outcome)
          (s.updateWith budget).1 = concluded.1.map some ∧
            ∃ messageBox, (s.updateWith budget).2.engine = { concluded.2 with messageBox })) ∧
    (∀ (s : Session) (content subtract add : Inputs) (duration : Nat), 1 ≤ duration →
      let forced := s.overrideInput (some content) subtract add duration
      ∀ events : List HostEvent, forced.Along budget keepsOverride events →
        forced.countTicks budget events ≤ duration →
        (forced.run budget events).2.engine.simulation.written =
            s.engine.simulation.written ++
              List.replicate (forced.countTicks budget events) content ∧
          (forced.run budget events).2.engine.override =
            .slot content (duration - forced.countTicks budget events)) := by
  refine ⟨fun s htick => ⟨fun hactive => ?_, fun hinactive p hprobe => ?_⟩, ?_⟩
  · obtain ⟨hresult, hwritten, hoverride⟩ := updateWith_override htick hactive budget
    rw [hoverride]
    exact ⟨hresult, hwritten, Override.tick_remaining hactive⟩
  · exact updateWith_probe htick hinactive hprobe budget
  · intro s content subtract add duration hpositive forced events halong hcount
    obtain ⟨n, rfl⟩ : ∃ n, duration = n + 1 := ⟨duration - 1, by omega⟩
    exact run_slot budget events forced (n + 1) halong rfl hcount

/-- A forced input, and a pause in between; and a probe that is too low. -/
theorem overrides_and_probes_honoured_in_section :
    let right : Inputs := .ofKeys (.ofList [.right])
    let jump : Inputs := .ofKeys (.ofList [.jump])
    let s : Session :=
      { engine := (default : Engine).load (some [.mk right (.countdown 9)])
        level := "stage.lvlx", config := {}, backupName := "latest.rec.bak", seed := 7 }
    let forced := s.overrideInput (some jump) .none .none 2
    let events : List HostEvent :=
      [.update { player := {} }, .update { player := {}, paused := true },
        .update { player := {} }]
    let never : Condition := .native ⟨"never", fun _ => .inl false⟩ ""
    let probe : Probe :=
      ⟨right, .lo, .native ⟨"always", fun _ => .inl true⟩ "", never, never, none⟩
    let searching := s.modifyEngine fun e =>
      { e.withProbe (some probe) with record := { e.record with middle := some 3 } }
    (forced.run 4 events).2.engine.simulation.written = [jump, jump] ∧
      (forced.run 4 events).2.engine.override.isActive = false ∧
      (searching.updateWith 4).1 = .ok (some ⟨.ended, .none⟩) := by
  intro right jump s forced events never probe searching
  obtain ⟨hticks, hforced⟩ := overrides_and_probes_honoured 4
  have hcount : forced.countTicks 4 events = 2 := by decide
  obtain ⟨hwritten, hoverride⟩ := hforced s jump .none .none 2 (by decide) events
    ⟨.inr rfl, .inl rfl, .inr rfl, trivial⟩ (by decide)
  have hsame : s.overrideInput (some jump) .none .none (2 : Nat) = forced := rfl
  rw [hsame, hcount] at hwritten hoverride
  obtain ⟨origin, hresult, -⟩ := (hticks searching (by decide)).2 (by decide) probe rfl
  refine ⟨hwritten, ?_, hresult.trans ?_⟩
  · rw [hoverride]
    rfl
  · rcases origin with _ | ⟨_ | _, _⟩ <;> rfl

/-- A level without a program is started and an input is forced for two ticks: the update writes
nothing and uses up nothing of it. -/
theorem override_unwritten_without_program : ∃ s : Session, s.start.1 = .ok () ∧
    let jump : Inputs := .ofKeys (.ofList [.jump])
    let forced := s.start.2.overrideInput (some jump) .none .none 2
    let next := forced.handle 4 (.update { player := {} })
    (forced.see { player := {} }).isLive = true ∧ forced.engine.override.isActive = true ∧
      next.1 = .ok none ∧ next.2.engine.simulation.written = [] ∧
      next.2.engine.override.content = jump ∧ next.2.engine.override.remaining = 2 := by
  let s : Session :=
    { engine := default, level := "stage.lvlx", config := {}, backupName := "latest.rec.bak"
      seed := 7 }
  let p : LevelProgram := { seed := 8675309, legacySeed := 8675309 }
  obtain ⟨random, seeds, seed, hstart⟩ :=
    start_of_compiled (s := s) (p := p) (q := p) (t := { s.reset with program := some p })
      (by cbv) rfl rfl rfl
  refine ⟨s, ?_⟩
  rw [hstart]
  refine ⟨rfl, ?_, ?_, ?_, ?_, ?_, ?_⟩ <;> cbv

end Session

end TickScript
