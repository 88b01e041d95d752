import TickScript.Engine.Expand
/-!
# Evaluating conditions

Evaluation answers whether a condition is satisfied, and leaves the condition in its new
state: a countdown is one lower, what was passed in a row of conditions is dropped, what
was read stays read.  Nothing of this is lost when evaluation fails.

An argument that was not read before is read on the spot, with all builtins known, and
then evaluated.  What is read in that way has nothing unread left in it that could be
evaluated, so the evaluation is a recursion on the condition, taken twice.

* `Condition.evaluate`: one evaluation.
* `Engine.classify`: the three conditions of an open probe.
-/

namespace TickScript

/-- How a condition that was read on the spot is evaluated. -/
abbrev Late := Option Place → Condition → Engine → Turn Condition

/-! ## Guarded expanders -/

namespace Expander

/-- Evaluates its first argument and then decides what to insert. -/
def isGuarded : Expander → Bool
  | branch | onlyIf | onlyUnless | loop => true
  | _ => false

/-- The steps to insert if the guard holds and if it does not; they stay read. -/
def bodies (m : Expander) (name : String) (args : List Arg) :
    Except Fault (List Step × List Step) × List Arg :=
  match m with
  | .branch =>
    match stepsAt name 1 false args with
    | (.error f, args) => (.error f, args)
    | (.ok yes, args) =>
      match stepsAt name 2 false args with
      | (.error f, args) => (.error f, args)
      | (.ok no, args) => (.ok (yes, no), args)
  | .onlyUnless =>
    match stepsAt name 1 true args with
    | (.error f, args) => (.error f, args)
    | (.ok no, args) => (.ok ([], no), args)
  | _ =>
    match stepsAt name 1 true args with
    | (.error f, args) => (.error f, args)
    | (.ok yes, args) => (.ok (yes, []), args)

/-- Inserts what the answer of the guard asks for.  A loop inserts its body and itself. -/
def finish (m : Expander) (name : String) (args : List Arg) (bodies : List Step × List Step)
    (holds : Bool) (e : Engine) : Except Fault Unit × Engine :=
  let body := if holds then bodies.1 else bodies.2
  if m = .loop ∧ holds then e.expand (body ++ [.mk e.currentInputs (.call name args)])
  else if body.isEmpty then (.ok (), e)
  else e.expand body

end Expander

/-! ## Evaluation -/

mutual

/-- Evaluates a condition that stands at a place, if it stands anywhere. -/
def Condition.evaluateWith (late : Late) (place : Option Place) :
    Condition → Engine → Turn Condition
  | .countdown n, e => ⟨.ok (.ofBool (n = 0)), .countdown (n - 1), e⟩
  | .toggle f, e => ⟨.ok .satisfied, .toggle f, { e with flags := e.flags.toggle f }⟩
  | .native test label, e =>
    let (answer, e) := e.ask test
    ⟨.ok (.ofBool answer), .native test label, e⟩
  | .call name args, e =>
    match Builtin.ofName? name with
    | none => ⟨.error (.unknownBuiltin name), .call name args, e⟩
    | some (.check c) =>
      let (answer, e) := e.check c
      ⟨.ok (.ofBool answer), .call name args, e⟩
    | some (.compare r) =>
      let (answer, e) := e.compare r args
      ⟨answer.map .ofBool, .call name args, e⟩
    | some (.expand m) =>
      match m with
      | .inOrder =>
        let t := evaluateInOrder late args e
        ⟨t.outcome, .call name t.rest, t.engine⟩
      | .anyOf =>
        let t := evaluateAnyOf late place 0 args e
        ⟨t.outcome, .call name t.rest, t.engine⟩
      | m =>
        if m.isGuarded then
          match args with
          | [] => ⟨.error (.missingArgument name 0), .call name [], e⟩
          | guard :: others =>
            match guard.toCondition with
            | .error f => ⟨.error f, .call name (guard :: others), e⟩
            | .ok c =>
              match m.bodies name (.condition c :: others) with
              | (.error f, args) => ⟨.error f, .call name args, e⟩
              | (.ok bodies, args) =>
                let t := guard.evaluateWith late (place.map (·.arg 0)) e
                let args := t.rest :: args.drop 1
                match t.outcome with
                | .error f => ⟨.error f, .call name args, t.engine⟩
                | .ok v =>
                  let (result, e) := m.finish name args bodies v.holds t.engine
                  ⟨result.map fun _ => .expanded, .call name args, e⟩
        else
          let t := e.perform m name args place
          ⟨t.outcome, .call name t.rest, t.engine⟩

/-- Evaluates an argument as a condition. -/
def Arg.evaluateWith (late : Late) (place : Option Place) : Arg → Engine → Turn Arg
  | .condition c, e =>
    let t := c.evaluateWith late place e
    ⟨t.outcome, .condition t.rest, t.engine⟩
  | .raw v, e =>
    match Catalogue.standard.readCondition v with
    | .error f => ⟨.error f, .raw v, e⟩
    | .ok c =>
      let t := late place c e
      ⟨t.outcome, .condition t.rest, t.engine⟩
  | a, e => ⟨.error (.invalidInstruction a.display), a, e⟩

/-- Waits for the first of the conditions that are left, and drops it once it holds.  A
condition that opens a probe is dropped with it, so it has no place. -/
def evaluateInOrder (late : Late) : List Arg → Engine → Turn (List Arg)
  | [], e => ⟨.ok .satisfied, [], e⟩
  | a :: rest, e =>
    let t := a.evaluateWith late none e
    match t.outcome with
    | .error f => ⟨.error f, t.rest :: rest, t.engine⟩
    | .ok v =>
      if v.holds then ⟨.ok (.ofBool rest.isEmpty), rest, t.engine⟩
      else ⟨.ok .waiting, t.rest :: rest, t.engine⟩

/-- Looks at the conditions from a position on until one holds. -/
def evaluateAnyOf (late : Late) (place : Option Place) (index : Nat) :
    List Arg → Engine → Turn (List Arg)
  | [], e => ⟨.ok .waiting, [], e⟩
  | a :: rest, e =>
    let t := a.evaluateWith late (place.map (·.arg index)) e
    match t.outcome with
    | .error f => ⟨.error f, t.rest :: rest, t.engine⟩
    | .ok v =>
      if v.holds then ⟨.ok .satisfied, t.rest :: rest, t.engine⟩
      else
        let u := evaluateAnyOf late place (index + 1) rest t.engine
        ⟨u.outcome, t.rest :: u.rest, u.engine⟩

end

/-- The evaluation of a condition in which nothing is left to be read on the spot. -/
def Condition.evaluateRead : Late :=
  fun place c e => c.evaluateWith (fun _ c e => ⟨.error .overrun, c, e⟩) place e

/-- One evaluation of a condition. -/
def Condition.evaluate (place : Option Place) (c : Condition) (e : Engine) : Turn Condition :=
  c.evaluateWith Condition.evaluateRead place e

/-! ## Classifying a probe -/

namespace Engine

/-- Looks at the conditions of a probe, one after the other, until one holds. -/
def judge (e : Engine) (p : Probe) : Except Fault (Option Outcome) × Probe × Engine :=
  let low := p.failLow.evaluate none e
  let p := { p with failLow := low.rest }
  match low.outcome with
  | .error f => (.error f, p, low.engine)
  | .ok v =>
    if v.holds then (.ok (some .tooLow), p, low.engine)
    else
      let high := p.failHigh.evaluate none low.engine
      let p := { p with failHigh := high.rest }
      match high.outcome with
      | .error f => (.error f, p, high.engine)
      | .ok v =>
        if v.holds then (.ok (some .tooHigh), p, high.engine)
        else
          let within := p.success.evaluate none high.engine
          let p := { p with success := within.rest }
          match within.outcome with
          | .error f => (.error f, p, within.engine)
          | .ok v =>
            (.ok (if v.holds then some .withinRange else none), p, within.engine)

/-- The conditions of a probe are arguments of the call that opened it. -/
def keepInPlace (e : Engine) (p : Probe) : Engine :=
  match p.origin with
  | none => e
  | some place =>
    ((e.setAt (place.arg 2) p.failLow).setAt (place.arg 3) p.failHigh).setAt (place.arg 4) p.success

/-- Checks the outcome of the open probe; an outcome moves the bounds and ends the run.
The probe is set aside while its conditions are looked at, and one that is opened
meanwhile takes its place. -/
def classify (e : Engine) : Except Fault (Option Report) × Engine :=
  match e.probe with
  | none => (.ok none, e)
  | some p =>
    let (outcome, p, e) := { e with probe := none }.judge p
    let e := e.keepInPlace p
    let stillOpen := { e with probe := some (e.probe.getD p) }
    match outcome with
    | .error f => (.error f, stillOpen)
    | .ok none => (.ok none, stillOpen)
    | .ok (some outcome) =>
      match e.record.apply p.mode outcome with
      | .error f => (.error f, stillOpen)
      | .ok record =>
        let e := { e with record, probe := none }.saveRecord
        let report := e.record.report outcome
        (.ok (some report), { e with simulation := e.simulation.endRun report })

end Engine

end TickScript
