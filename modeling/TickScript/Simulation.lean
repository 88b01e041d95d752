import TickScript.Inputs
/-!
# The simulation that a program is driven against

What the simulation shows, and what it was told: the keys written on each tick, the
reports of runs that ended, and the seeds of its own random numbers.

* `Simulation.held`: the keys held on this tick, whoever pressed them.
-/

namespace TickScript

structure Simulation where
  /-- How the simulation is called in messages. -/
  name : String
  player : Player := {}
  paused : Bool := false
  /-- The overlay, if the simulation has one. -/
  overlay : Option Overlay := none
  /-- How often the overlay was opened. -/
  overlayLoads : Nat := 0
  /-- The keys that the human player presses. -/
  pressed : Inputs := .none
  /-- The keys written on this tick. -/
  current : Inputs := .none
  /-- Everything that was written, oldest first. -/
  written : List Inputs := []
  /-- The reports of ended runs, oldest first. -/
  reports : List Report := []
  /-- The seed and the legacy seed that were given last. -/
  seeds : Option (Int × Int) := none
  deriving Inhabited

namespace Simulation

/-- Holds exactly the given input on this tick. -/
def write (s : Simulation) (i : Inputs) : Simulation :=
  { s with current := i, written := s.written ++ [i] }

/-- Goes on to the next tick, on which nothing is written yet. -/
def endTick (s : Simulation) : Simulation := { s with current := .none }

def held (s : Simulation) : Inputs := s.current.union s.pressed

def endRun (s : Simulation) (r : Report) : Simulation := { s with reports := s.reports ++ [r] }

end Simulation

end TickScript
