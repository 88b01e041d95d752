import TickScript.Comparator
import TickScript.Inputs
/-!
# Searching for a duration

The search looks for the shortest (`Mode.lo`) or the longest (`Mode.hi`) number of ticks
for which holding an input succeeds.  Each attempt probes one candidate; its outcome moves
the bounds, which outlive the attempt.  While no upper bound is known the candidate
doubles, afterwards the interval is halved.

* `SearchRecord.next`: the candidate to probe.
* `SearchRecord.apply`: the bounds after an outcome.
* `SearchRecord.report`: what a classified probe means for the search.
-/

namespace TickScript

/-- Whether the shortest or the longest duration is wanted. -/
inductive Mode where
  | lo | hi
  deriving DecidableEq, Repr, Inhabited

namespace Mode

def name : Mode → String
  | lo => "LO"
  | hi => "HI"

/-- Letters in upper case, as far as they occur in the name of a mode. -/
def upper (c : Char) : Char := if c = 'ı' then 'I' else c.toUpper

/-- Reads a mode: its name in any case, or one of the numbers 0 and 1. -/
def read (v : Value) : Except Fault Mode :=
  if v.isNumber 0 then .ok lo
  else if v.isNumber 1 then .ok hi
  else
    match v with
    | .text s =>
      let word := String.ofList (s.toList.map upper)
      if s == "0" || word == "LO" then .ok lo
      else if s == "1" || word == "HI" then .ok hi
      else .error .badValue
    | _ => .error .badValue

end Mode

/-- How one probe turned out. -/
inductive Outcome where
  | tooLow | tooHigh | withinRange
  deriving DecidableEq, Repr, Inhabited

def Outcome.text : Outcome → String
  | .tooLow => "Too low!"
  | .tooHigh => "Too high!"
  | .withinRange => "Within range!"

/-- What is known of a duration across attempts. -/
structure SearchRecord where
  low : Option Int := none
  high : Option Int := none
  /-- The candidate of the latest probe. -/
  middle : Option Int := none
  /-- The candidates of all probes. -/
  history : List Int := []
  lastSaved : String
  deriving DecidableEq, Repr, Inhabited

namespace SearchRecord

/-- Nothing is known. -/
def fresh (now : String) : SearchRecord := { lastSaved := now }

/-- The bounds have met. -/
def converged (r : SearchRecord) : Bool := r.low.isSome && r.low == r.high

/-- The bounds have passed each other. -/
def exhausted (r : SearchRecord) : Bool :=
  match r.low, r.high with
  | some l, some h => h < l
  | _, _ => false

/-- Twice the lower bound, but at least one. -/
def doubled (low : Int) : Int := max (low * 2) 1

/-- The candidate to probe: the middle of the interval, rounded toward the end that the
mode looks for, or a doubled lower bound as long as the interval is open. -/
def next (r : SearchRecord) (mode : Mode) : Int :=
  let low := r.low.getD 0
  match r.high with
  | none => doubled low
  | some high =>
    match mode with
    | .lo => (low + high) / 2
    | .hi => -(-(low + high) / 2)

/-- The bounds after an outcome of the latest probe. -/
def apply (r : SearchRecord) (mode : Mode) : Outcome → Except Fault SearchRecord
  | .tooLow =>
    match r.high, r.middle with
    | none, _ => .ok { r with low := some (doubled (r.low.getD 0)) }
    | some _, some m => .ok { r with low := some (m + 1) }
    | some _, none => .error .kind
  | .tooHigh =>
    match r.middle with
    | some m => .ok { r with high := some (m - 1) }
    | none => .error .kind
  | .withinRange =>
    match mode with
    | .lo => .ok { r with high := r.middle }
    | .hi => .ok { r with low := r.middle }

/-- A bound or candidate in a message. -/
def shown : Option Int → String
  | some n => toString n
  | none => "None"

/-- What a classified probe means for the search, given the bounds after it. -/
def report (r : SearchRecord) (outcome : Outcome) : Report :=
  if r.converged then
    { reason := .converged
      message := "Optimal time: " ++ shown r.low ++ " ticks"
      value := r.low
      history := r.history }
  else if r.exhausted then
    { reason := .exhausted
      message := "Options for time value exhausted"
      history := r.history }
  else
    { reason := .probed
      message := outcome.text ++ " " ++ shown r.middle ++ " ticks"
      value := r.middle
      history := r.history }

end SearchRecord

end TickScript
