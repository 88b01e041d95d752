import TickScript.Platformer
import TickScript.Session
/-!
# Attempts at a level

A session that drives a program through the demonstration level, from the start of the
level until it is over, the time is up or the player died for good.

* `Attempt.run`: a whole attempt.
-/

namespace TickScript

structure Attempt where
  session : Session
  level : Platformer
  deriving Inhabited

namespace Attempt

/-- An attempt that was not started yet. -/
def new (config : Settings) (backupName program : String) (stages : List Stage) (files : Files)
    (record : SearchRecord) (now : String) : Attempt :=
  let level := Platformer.ofStages stages
  { session := .new config backupName program level.simulation files record now, level }

def isOver (a : Attempt) : Bool := a.level.isOver a.session.engine.simulation

/-- The level starts. -/
def start (a : Attempt) : Except Fault Unit × Attempt :=
  let (result, session) := a.session.start
  (result, { a with session })

/-- Lets the level go on for one tick under the keys that were written. -/
def advance (a : Attempt) : Attempt :=
  let (level, simulation) := a.level.play a.session.engine.simulation
  { session := a.session.modifyEngine ({ · with simulation }), level }

/-- The player is dead for the first time; tells whether the attempt goes on. -/
def killed (a : Attempt) : Except Fault Bool × Attempt :=
  let (result, session) := a.session.playerKilled
  (result.map fun _ => session.survivesDeath, { a with session })

/-- Goes from tick to tick until the attempt is over, at most so many times.  The session
learns once that the player is dead. -/
def play (mourned : Bool) : Nat → Attempt → Except Fault Unit × Attempt
  | 0, a => (.ok (), a)
  | limit + 1, a =>
    if a.isOver then (.ok (), a)
    else
      match a.session.update with
      | (.error f, session) => (.error f, { a with session })
      | (.ok _, session) =>
        let a := { a with session }.advance
        if a.level.dead && !mourned then
          match a.killed with
          | (.error f, a) => (.error f, a)
          | (.ok false, a) => (.ok (), a)
          | (.ok true, a) => play true limit a
        else play mourned limit a

/-- Starts the level and goes through it, with at most so many ticks. -/
def run (a : Attempt) (limit : Nat) : Except Fault Unit × Attempt :=
  match a.start with
  | (.error f, a) => (.error f, a)
  | (.ok (), a) => a.play false limit

/-- The player leaves the level that was won. -/
def leave (a : Attempt) : Except Fault Unit × Attempt :=
  if a.level.won then
    let (result, session) := a.session.exitLevel
    (result, { a with session })
  else (.ok (), a)

/-- The latest report of the attempt. -/
def report? (a : Attempt) : Option Report := a.session.engine.simulation.reports.getLast?

/-- A search has another candidate to probe. -/
def isInconclusive (a : Attempt) : Bool := a.report?.any (·.reason = .probed)

end Attempt

end TickScript
