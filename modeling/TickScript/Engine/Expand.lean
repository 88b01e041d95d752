import TickScript.Engine.Basic
import TickScript.Comparator
import TickScript.Cells
/-!
# Expanding

The builtins that do not evaluate conditions of their own: predicates, comparisons, and
the expanders that insert steps, fill the script or open a probe.  An argument that was
not read yet is read when it is needed, and stays read.

* `Engine.check`, `Engine.compare`: predicates.
* `Engine.perform`: expanders without a condition.
* `Engine.startSearch`: opening a probe.
-/

namespace TickScript

/-- What evaluating something leaves: its answer, what is left of it, and the engine. -/
structure Turn (σ : Type) where
  outcome : Except Fault Verdict
  rest : σ
  engine : Engine

/-! ## Arguments -/

namespace Arg

/-- Reads an argument as a condition. -/
def toCondition : Arg → Except Fault Condition
  | .raw v => Catalogue.standard.readCondition v
  | .condition c => .ok c
  | a => .error (.invalidInstruction a.display)

/-- Reads an argument as steps. -/
def toSteps : Arg → Except Fault (List Step)
  | .raw v => Catalogue.standard.readSteps v
  | .steps body => .ok body
  | _ => .error .kind

def toInputs : Arg → Except Fault Inputs
  | .raw v => Inputs.read v
  | .inputs i => .ok i
  | _ => .error .kind

/-- Reads an argument as inputs to choose from; an absent one offers none. -/
def toChoices : Arg → Except Fault (List Inputs)
  | .raw .null => .ok []
  | .raw v => readChoices v
  | .choices list => .ok list
  | _ => .error .kind

def toScript : Arg → Except Fault (List (Inputs × Int))
  | .raw v => readScript v
  | .script entries => .ok entries
  | _ => .error .kind

/-- An argument that builtins take as it is. -/
def toValue : Arg → Value
  | .raw v => v
  | _ => .null

def isAbsent (a : Arg) : Bool :=
  match a with
  | .raw .null => true
  | _ => false

end Arg

/-- The steps at an argument position, which stay read.  An absent argument has no steps
and is an error where steps are required. -/
def stepsAt (name : String) (index : Nat) (required : Bool) (args : List Arg) :
    Except Fault (List Step) × List Arg :=
  match args[index]? with
  | none => (if required then .error (.missingArgument name index) else .ok [], args)
  | some a =>
    if a.isAbsent then
      (if required then .error (.missingArgument name index) else .ok [], args)
    else
      match a.toSteps with
      | .error f => (.error f, args)
      | .ok body => (.ok body, args.set index (.steps body))

/-! ## Predicates -/

namespace Engine

/-- Answers a predicate. -/
def check (e : Engine) : Check → Bool × Engine
  | .always => (true, e)
  | .messageBox => (e.messageBox, e)
  | c =>
    let (p, e) := e.look
    let answer := match c with
      | .always | .messageBox => true
      | .movingUp => decide (p.speedY < 0)
      | .movingDown => !p.onGround && decide (0 ≤ p.speedY)
      | .movingLeft => decide (p.speedX ≤ 0)
      | .movingRight => decide (0 ≤ p.speedX)
      | .onGround => p.onGround
      | .airborne => !p.onGround
      | .climbing => p.climbing
      | .forced => p.forcedState
      | .free => !p.forcedState
      | .inWater => p.inWater
      | .outOfWater => !p.inWater
      | .dead => p.dead
      | .onNpc => p.standingOnNpc
      | .holding => p.holdingNpc
      | .emptyHanded => !p.holdingNpc
    (answer, e)

/-- The number that a comparison looks at. -/
def read (e : Engine) : Reading → Except Fault Exact × Engine
  | .x => let (p, e) := e.look; (.ok (.ofFloat p.x), e)
  | .y => let (p, e) := e.look; (.ok (.ofFloat p.y), e)
  | .speedX => let (p, e) := e.look; (.ok (.ofFloat p.speedX), e)
  | .speedY => let (p, e) := e.look; (.ok (.ofFloat p.speedY), e)
  | .overlayX => let (o, e) := e.lookOverlay; (o.map fun o => .ofFloat o.x, e)
  | .overlayY => let (o, e) := e.lookOverlay; (o.map fun o => .ofFloat o.y, e)
  | .overlayState => let (o, e) := e.lookOverlay; (o.map fun o => .ofInt o.state, e)

/-- Answers a comparison: the comparator is looked at first, then the simulation. -/
def compare (e : Engine) (r : Reading) (args : List Arg) : Except Fault Bool × Engine :=
  match args with
  | token :: value :: _ =>
    match Comparator.ofToken token.toValue with
    | .error f => (.error f, e)
    | .ok c =>
      match e.read r with
      | (.error f, e) => (.error f, e)
      | (.ok number, e) => (c.holds number value.toValue, e)
  | _ =>
    (.error (.missingComparison r.name ("[" ++ ", ".intercalate (args.map Arg.display) ++ "]")), e)

/-- Answers a built-in test. -/
def ask (e : Engine) (t : Native) : Bool × Engine :=
  match t.test e.isExhausted with
  | .inl answer => (answer, e)
  | .inr question => let (p, e) := e.look; (question p, e)

/-! ## Opening a probe -/

/-- The arguments that `optimize` cannot do without, in their order. -/
def searchArguments : List String := ["input", "mode", "fail_low", "fail_high", "success"]

/-- The first required argument that is absent. -/
def missingSearchArgument? (args : List Arg) : Option String :=
  (searchArguments.zipIdx.find? fun (_, i) => args[i]?.all Arg.isAbsent).map (·.1)

/-- A bound that the arguments may give. -/
def boundAt? (args : List Arg) (index : Nat) : Except Fault (Option Int) :=
  match args[index]? with
  | none => .ok none
  | some a => if a.isAbsent then .ok none else a.toValue.toInt.map some

def readProbe (args : List Arg) (origin : Option Place) : Except Fault Probe := do
  let arg := fun i => args.getD i (.raw .null)
  let inputs ← (arg 0).toInputs
  let mode ← Mode.read (arg 1).toValue
  let failLow ← (arg 2).toCondition
  let failHigh ← (arg 3).toCondition
  let success ← (arg 4).toCondition
  return { inputs, mode, failLow, failHigh, success, origin }

/-- Takes the lower bound from the arguments unless it is known; 0 without an argument. -/
def seedLow (r : SearchRecord) (args : List Arg) : Except Fault SearchRecord :=
  match r.low with
  | some _ => .ok r
  | none => (boundAt? args 5).map fun b => { r with low := some (b.getD 0) }

/-- Takes the upper bound from the arguments unless it is known. -/
def seedHigh (r : SearchRecord) (args : List Arg) : Except Fault SearchRecord :=
  match r.high with
  | some _ => .ok r
  | none => (boundAt? args 6).map fun b => { r with high := b }

/-- Opens a probe: picks a candidate, writes it down and inserts a step that holds the
input for so many ticks. -/
def startSearch (e : Engine) (args : List Arg) (origin : Option Place) :
    Except Fault Int × Engine :=
  match missingSearchArgument? args with
  | some name => (.error (.missingSearchArgument name), e)
  | none =>
    match readProbe args origin with
    | .error f => (.error f, e)
    | .ok probe =>
      match seedLow e.record args with
      | .error f => (.error f, e)
      | .ok record =>
        let e := { e with record }
        match seedHigh e.record args with
        | .error f => (.error f, e)
        | .ok record =>
          let candidate := record.next probe.mode
          let e := { e with
            record :=
              { record with middle := some candidate, history := record.history ++ [candidate] } }
          let e := e.saveRecord
          match e.expand [.mk probe.inputs (.countdown candidate)] with
          | (.error f, e) => (.error f, e)
          | (.ok (), e) => (.ok candidate, { e with probe := some probe })

/-! ## Expanders without a condition -/

/-- The answer of an expander that could insert its steps. -/
def expanded (result : Except Fault Unit × Engine) (args : List Arg) : Turn (List Arg) :=
  ⟨result.1.map fun _ => .expanded, args, result.2⟩

def failed (f : Fault) (args : List Arg) (e : Engine) : Turn (List Arg) := ⟨.error f, args, e⟩

def performInsert (e : Engine) (name : String) (args : List Arg) : Turn (List Arg) :=
  match stepsAt name 0 true args with
  | (.error f, args) => failed f args e
  | (.ok body, args) => expanded (e.expand body) args

def performRepeated (e : Engine) (name : String) (args : List Arg) : Turn (List Arg) :=
  match args with
  | [] => failed (.missingArgument name 0) args e
  | count :: _ =>
    match count.toValue.toInt with
    | .error f => failed f args e
    | .ok n =>
      match stepsAt name 1 true args with
      | (.error f, args) => failed f args e
      | (.ok body, args) =>
        expanded (e.expand (List.replicate n.toNat body).flatten) args

/-- The bounds of a random duration; without the second the first is both. -/
def durations (args : List Arg) : Except Fault (Int × Int) := do
  let shortest ← (args.getD 1 (.raw .null)).toValue.toInt
  let longest ← boundAt? args 2
  return (shortest, longest.getD shortest)

/-- Chooses an input and a duration, in this order. -/
def performRandom (e : Engine) (args : List Arg) : Turn (List Arg) :=
  match args with
  | first :: _ :: _ =>
    match first.toChoices with
    | .error f => failed f args e
    | .ok [] => failed .missingChoices args e
    | .ok (choice :: choices) =>
      match durations args with
      | .error f => failed f args e
      | .ok (shortest, longest) =>
        let (pick, random) := e.random.below (choices.length + 1)
        let e := { e with random }
        match pick with
        | none => failed .overrun args e
        | some i =>
          let inputs := (choice :: choices).getD i choice
          if longest < shortest then failed .badValue args e
          else
            let (ticks, random) := e.random.between shortest longest
            let e := { e with random }
            match ticks with
            | none => failed .overrun args e
            | some n => expanded (e.expand [.mk inputs (.countdown n)]) args
  | _ => failed .missingChoices args e

def performScript (e : Engine) (name : String) (args : List Arg) : Turn (List Arg) :=
  if e.parts.script then
    match args with
    | [] => failed (.missingArgument name 0) args e
    | entries :: _ =>
      match entries.toScript with
      | .error f => failed f args e
      | .ok entries => ⟨.ok .expanded, args, e.loadScript entries⟩
  else failed .noScript args e

def performSearch (e : Engine) (args : List Arg) (origin : Option Place) : Turn (List Arg) :=
  if e.parts.search then
    let (result, e) := e.startSearch args origin
    ⟨result.map fun _ => .expanded, args, e⟩
  else failed .noSearch args e

def performClear (e : Engine) (args : List Arg) : Turn (List Arg) :=
  if e.parts.search then ⟨.ok .expanded, args, e.clearRecord⟩ else failed .noSearch args e

/-- Carries out an expander that has no condition to evaluate. -/
def perform (e : Engine) (m : Expander) (name : String) (args : List Arg)
    (place : Option Place) : Turn (List Arg) :=
  match m with
  | .insert => e.performInsert name args
  | .repeated => e.performRepeated name args
  | .randomInput => e.performRandom args
  | .scriptedInput => e.performScript name args
  | .optimize => e.performSearch args place
  | .clearSearch => e.performClear args
  | _ => ⟨.ok .expanded, args, e⟩

end Engine

end TickScript
