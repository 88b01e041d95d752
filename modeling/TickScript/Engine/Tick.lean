import TickScript.Engine.Evaluate
/-!
# Ticks

On each tick at most one input is held.  Steps that are satisfied at once and expansions
follow one another within a tick; the walk ends at the first step that has to wait, whose
input is then held, or at the end of the program.

A program that expands for ever never reaches a step that waits.  The walk therefore has
a budget of steps, and a tick that uses it up is an error of its own.

* `Engine.walk`: the walk through the program.
* `Engine.tickWith`, `Engine.tick`: one tick.
* `Engine.drive`: ticks until the run is ended.
-/

namespace TickScript

/-- What became of a tick. -/
inductive TickKind where
  /-- A step of the program waits, and its input is held. -/
  | committed
  | overridden
  | paused
  /-- The program is at its end. -/
  | exhausted
  /-- There is no program. -/
  | idle
  /-- The run was ended. -/
  | ended
  deriving DecidableEq, Repr, Inhabited

def TickKind.name : TickKind → String
  | committed => "committed"
  | overridden => "overridden"
  | paused => "paused"
  | exhausted => "exhausted"
  | idle => "idle"
  | ended => "ended"

structure TickOutcome where
  kind : TickKind
  inputs : Inputs := .none
  deriving Inhabited

namespace Engine

def write (e : Engine) (i : Inputs) : Engine := { e with simulation := e.simulation.write i }

/-- Holds the input of a step that waits. -/
def commit (e : Engine) (i : Inputs) : TickOutcome × Engine :=
  (⟨.committed, i⟩, { e.write i with commits := e.commits + 1 })

def advance (e : Engine) : Engine := { e with program := e.program.map Program.advance }

/-- Walks through the program to the first step that waits. -/
def walk : Nat → Engine → Except Fault TickOutcome × Engine
  | 0, e => (.error .overrun, e)
  | budget + 1, e =>
    match e.program with
    | none => (.ok ⟨.idle, .none⟩, e)
    | some p =>
      match p.current? with
      | none => (.ok ⟨.exhausted, .none⟩, e.write .none)
      | some step =>
        let t := step.condition.evaluate (some ⟨.step p.cursor, []⟩) e
        let e := t.engine.setAt ⟨.step p.cursor, []⟩ t.rest
        match t.outcome with
        | .error f => (.error f, e)
        | .ok .waiting => let (outcome, e) := e.commit step.inputs; (.ok outcome, e)
        | .ok v => walk budget (e.note (.left p.cursor t.rest v)).advance

/-- One tick, with a budget for the walk.  An override comes first, then the outcome of an
open probe, then the program. -/
def tickWith (budget : Nat) (e : Engine) (paused : Bool) : Except Fault TickOutcome × Engine :=
  if paused && !e.flags.ignorePause then (.ok ⟨.paused, .none⟩, e)
  else
    let e := e.beginTick
    if e.override.isActive then
      let (inputs, override) := e.override.tick
      (.ok ⟨.overridden, inputs⟩, { e.write inputs with override })
    else
      match e.classify with
      | (.error f, e) => (.error f, e)
      | (.ok (some _), e) => (.ok ⟨.ended, .none⟩, e)
      | (.ok none, e) => walk budget e

/-- The steps that one tick may walk through. -/
def budget : Nat := 10000000

def tick (e : Engine) (paused : Bool) : Except Fault TickOutcome × Engine :=
  e.tickWith budget paused

/-- Goes from tick to tick until the run is ended, at most so many times, and tells how
many ticks there were.  After each tick the simulation moves on. -/
def drive (moves : TickOutcome → Simulation → Simulation) :
    Nat → Engine → Except Fault Nat × Engine
  | 0, e => (.ok 0, e)
  | limit + 1, e =>
    match e.tick e.simulation.paused with
    | (.error f, e) => (.error f, e)
    | (.ok outcome, e) =>
      let e := { e with simulation := moves outcome e.simulation.endTick }
      if outcome.kind = .ended then (.ok 1, e)
      else
        let (count, e) := e.drive moves limit
        (count.map (· + 1), e)

end Engine

end TickScript
