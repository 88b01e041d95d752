import TickScript.Program
import TickScript.Simulation
import TickScript.Override
import TickScript.SearchFile
import TickScript.Twister
/-!
# The state of a run

Everything that evaluating a condition may look at or change: the flags, the random
numbers, the simulation and what was seen of it on this tick, the program, the override,
the script and the search.

The conditions that an open probe waits for may be the very arguments of the step that
opened it.  Their `Place` is remembered, so that their state is kept in one piece.

* `Engine.look`, `Engine.lookOverlay`: what is seen of the simulation, once a tick.
* `Engine.splice`: inserting steps into the program.
-/

namespace TickScript

/-- The answer of a condition. -/
inductive Verdict where
  | satisfied
  | waiting
  /-- The program was extended. -/
  | expanded
  deriving DecidableEq, Repr, Inhabited

namespace Verdict

def name : Verdict → String
  | satisfied => "satisfied"
  | waiting => "not_yet_satisfied"
  | expanded => "expanded"

def ofBool (b : Bool) : Verdict := if b then satisfied else waiting

/-- Where a truth value is needed, an expansion counts as true. -/
def holds : Verdict → Bool
  | waiting => false
  | _ => true

@[simp] theorem holds_ofBool (b : Bool) : (ofBool b).holds = b := by cases b <;> rfl

end Verdict

structure Flags where
  ignorePause : Bool := false
  ignoreDeath : Bool := false
  deriving DecidableEq, Repr, Inhabited

namespace Flags

def get (s : Flags) : Flag → Bool
  | .ignorePause => s.ignorePause
  | .ignoreDeath => s.ignoreDeath

def toggle (s : Flags) : Flag → Flags
  | .ignorePause => { s with ignorePause := !s.ignorePause }
  | .ignoreDeath => { s with ignoreDeath := !s.ignoreDeath }

@[simp] theorem get_toggle_self (s : Flags) (f : Flag) : (s.toggle f).get f = !s.get f := by
  cases f <;> rfl

theorem toggle_toggle (s : Flags) (f : Flag) : (s.toggle f).toggle f = s := by
  cases f <;> simp [toggle]

end Flags

/-! ## Places of conditions -/

/-- Where a condition can stand that is evaluated on its own. -/
inductive Root where
  /-- The condition of a step of the program. -/
  | step (index : Nat)
  /-- A condition that is watched under a name. -/
  | watch (name : String)
  deriving DecidableEq, Repr, Inhabited

/-- A condition inside a root condition, by the positions of arguments on the way. -/
structure Place where
  root : Root
  path : List Nat := []
  deriving DecidableEq, Repr, Inhabited

def Place.arg (p : Place) (index : Nat) : Place := { p with path := p.path ++ [index] }

/-- Replaces the condition at the end of a path of argument positions. -/
def Condition.setAt (new : Condition) : List Nat → Condition → Condition
  | [], _ => new
  | i :: path, .call name args =>
    .call name (args.modify i fun
      | .condition c => .condition (setAt new path c)
      | a => a)
  | _, c => c

/-- The open attempt of a search: the input under test and the three conditions that
classify it. -/
structure Probe where
  inputs : Inputs
  mode : Mode
  failLow : Condition
  failHigh : Condition
  success : Condition
  /-- The call whose arguments the conditions are, if it is still there. -/
  origin : Option Place
  deriving Inhabited

/-! ## Events -/

/-- What a run leaves behind in its log. -/
inductive Event where
  /-- A step was left. -/
  | left (cursor : Nat) (condition : Condition) (verdict : Verdict)
  | loaded (count : Nat)
  | queued (count : Nat)
  /-- An entry of the script was played for the last time. -/
  | played (inputs : Inputs) (remaining : Nat)

def Event.line : Event → String
  | left cursor condition verdict =>
    "step " ++ toString cursor ++ " " ++ condition.describe ++ " -> " ++ verdict.name
  | loaded count => "Program loaded with " ++ toString count ++ " steps"
  | queued count => "Scripted override loaded with " ++ toString count ++ " entries"
  | played inputs remaining =>
    "Scripted entry " ++ Text.Quoted.write inputs.codes ++ " done, " ++ toString remaining ++
      " left"

/-! ## The engine -/

/-- Which parts a condition can reach. -/
structure Parts where
  program : Bool := true
  script : Bool := true
  search : Bool := true
  deriving DecidableEq, Repr, Inhabited

structure Engine where
  parts : Parts := {}
  flags : Flags := {}
  random : Twister
  /-- Whether a message box was shown since the last tick. -/
  messageBox : Bool := false
  simulation : Simulation
  /-- The player as seen on this tick, once it was looked at. -/
  seen : Option Player := none
  /-- Whether the overlay was opened; it stays open. -/
  overlayOpen : Bool := false
  overlaySeen : Option Overlay := none
  program : Option Program := none
  /-- How many ticks the program's input was held. -/
  commits : Nat := 0
  override : Override := {}
  script : ScriptQueue := {}
  record : SearchRecord
  probe : Option Probe := none
  files : Files := .empty
  /-- Where the record of the search is kept. -/
  recordPath : Path
  /-- The time that saved records are stamped with. -/
  now : String
  /-- Conditions that are evaluated on their own, by name. -/
  watches : List (String × Condition) := []
  /-- What happened, oldest first. -/
  log : List Event := []
  deriving Inhabited

namespace Engine

def note (e : Engine) (event : Event) : Engine := { e with log := e.log ++ [event] }

/-! ### Looking -/

/-- Forgets what was seen, so that the next look sees this tick. -/
def beginTick (e : Engine) : Engine := { e with seen := none, overlaySeen := none }

/-- The player as of the first look on this tick. -/
def look (e : Engine) : Player × Engine :=
  match e.seen with
  | some p => (p, e)
  | none => (e.simulation.player, { e with seen := some e.simulation.player })

/-- Opens the overlay unless it is open. -/
def openOverlay (e : Engine) : Except Fault Unit × Engine :=
  if e.overlayOpen then (.ok (), e)
  else
    let s := e.simulation
    match s.overlay with
    | some _ =>
      let simulation := { s with overlayLoads := s.overlayLoads + 1 }
      (.ok (), { e with simulation, overlayOpen := true })
    | none => (.error (.overlayUnavailable s.name), e)

/-- The overlay as of the first look on this tick. -/
def lookOverlay (e : Engine) : Except Fault Overlay × Engine :=
  match e.openOverlay with
  | (.error f, e) => (.error f, e)
  | (.ok (), e) =>
    match e.overlaySeen with
    | some o => (.ok o, e)
    | none =>
      let o := e.simulation.overlay.getD {}
      (.ok o, { e with overlaySeen := some o })

/-! ### The program -/

/-- The program has come to its end. -/
def isExhausted (e : Engine) : Bool := e.program.any Program.isExhausted

def currentInputs (e : Engine) : Inputs :=
  match e.program.bind Program.current? with
  | some step => step.inputs
  | none => .none

/-- The steps of the program are gone, and so is every place among them. -/
def forgetSteps (e : Engine) : Engine :=
  { e with
    probe := e.probe.map fun p =>
      match p.origin with
      | some ⟨.step _, _⟩ => { p with origin := none }
      | _ => p }

/-- Installs a program at its start, or none. -/
def load (e : Engine) : Option (List Step) → Engine
  | none => { e.forgetSteps with program := none }
  | some steps =>
    { e.forgetSteps with program := some (.ofSteps steps) }.note (.loaded steps.length)

/-- Drops program and override. -/
def clear (e : Engine) : Engine := { e.load none with override := .cleared }

/-- Inserts steps into the program. -/
def splice (e : Engine) (steps : List Step) : Except Fault Unit × Engine :=
  match e.program with
  | some p => (.ok (), { e with program := some (p.splice steps) })
  | none => (.error .noProgram, e)

/-- Inserts steps on behalf of a condition, which may not reach the program. -/
def expand (e : Engine) (steps : List Step) : Except Fault Unit × Engine :=
  if e.parts.program then e.splice steps else (.error .noExpansion, e)

/-- Replaces a condition at a place. -/
def setAt (e : Engine) (place : Place) (c : Condition) : Engine :=
  match place.root with
  | .step index =>
    { e with program := e.program.map fun p =>
        { p with steps := p.steps.modify index fun s =>
            s.withCondition (Condition.setAt c place.path s.condition) } }
  | .watch name =>
    { e with watches := e.watches.map fun w =>
        if w.1 == name then (name, Condition.setAt c place.path w.2) else w }

/-! ### The override and the script -/

/-- Edits the input of the current step for some ticks. -/
def modifyOverride (e : Engine) (subtract add : Inputs) (duration : Int) : Engine :=
  { e with override := .edited e.currentInputs subtract add duration }

def loadScript (e : Engine) (entries : List (Inputs × Int)) : Engine :=
  let script := e.script.load entries
  { e with script }.note (.queued script.queue.length)

/-- One tick of the script, which writes the override when it plays an entry. -/
def tickScript (e : Engine) (paused : Bool) : Engine :=
  if paused then e
  else
    let beat := e.script.tick
    let e := { e with script := beat.rest }
    match beat.played with
    | none => e
    | some inputs =>
      let e := e.modifyOverride (.ofKeys .directions) inputs 1
      if beat.finished then e.note (.played inputs beat.rest.queue.length) else e

/-! ### The search -/

/-- Saves the record of the search. -/
def saveRecord (e : Engine) : Engine :=
  let (record, files) := e.record.save e.files e.recordPath e.now
  { e with record, files }

/-- Forgets everything that is known, in the file as well. -/
def clearRecord (e : Engine) : Engine := { e with record := .fresh e.now }.saveRecord

/-- Loads the record of the search, by a reader that takes whole numbers up to a length. -/
def loadRecord (e : Engine) (length : Option Nat := none) : Bool × Engine :=
  let (found, record) := e.record.load e.files e.recordPath e.now length
  (found, { e with record })

/-- A probe is open. -/
def isSearching (e : Engine) : Bool := e.probe.isSome

end Engine

end TickScript
