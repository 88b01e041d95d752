import TickScript.Inputs
/-!
# Overrides

An override holds its own input instead of the program's for a number of ticks.  There is
one slot, and the last one who writes it wins.  A script is the one background process
that writes the slot on its own clock: it plays one queued entry every so many ticks.

* `Override.tick`: one tick under an override.
* `ScriptQueue.tick`: one tick of the script.
-/

namespace TickScript

/-- The input of the override and the ticks that are left of it. -/
structure Override where
  content : Inputs := .none
  remaining : Int := 0
  deriving Inhabited

namespace Override

def isActive (o : Override) : Bool := 0 < o.remaining

def cleared : Override := ⟨.none, 0⟩

/-- Takes the given input, without `subtract` and then with `add`. -/
def edited (base subtract add : Inputs) (duration : Int) : Override :=
  ⟨(base.diff subtract).union add, duration⟩

/-- Uses one tick up and tells its input. -/
def tick (o : Override) : Inputs × Override :=
  (o.content, if o.remaining ≤ 1 then cleared else ⟨o.content, o.remaining - 1⟩)

end Override

/-- The entries that are still to be played, and the clock. -/
structure ScriptQueue where
  interval : Int := 16
  initialDelay : Int := 14
  queue : List (Inputs × Int) := []
  timer : Int := 0
  deriving Inhabited

namespace ScriptQueue

def isActive (q : ScriptQueue) : Bool := !q.queue.isEmpty

/-- Replaces the queue.  Entries that are repeated no time are dropped, and the first one
is played after the initial delay. -/
def load (q : ScriptQueue) (entries : List (Inputs × Int)) : ScriptQueue :=
  { q with queue := entries.filter fun e => 0 < e.2, timer := q.initialDelay }

def cleared (q : ScriptQueue) : ScriptQueue := { q with queue := [], timer := 0 }

/-- What one tick of the script does. -/
structure Beat where
  /-- The entry that is played, if any. -/
  played : Option Inputs
  /-- Whether that was the last time for the entry. -/
  finished : Bool
  rest : ScriptQueue

/-- One tick that is not paused.  The clock is looked at before it is counted down. -/
def tick (q : ScriptQueue) : Beat :=
  match q.queue with
  | [] => ⟨none, false, q⟩
  | (inputs, repeats) :: rest =>
    if q.timer ≤ 0 then
      if repeats ≤ 1 then
        ⟨some inputs, true, { q with queue := rest, timer := q.interval - 1 }⟩
      else
        ⟨some inputs, false,
          { q with queue := (inputs, repeats - 1) :: rest, timer := q.interval - 1 }⟩
    else
      ⟨none, false, { q with timer := q.timer - 1 }⟩

end ScriptQueue

end TickScript
