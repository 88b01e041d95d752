import TickScript.Engine.Evaluate
/-!
# Cells for a running engine

Cells that are handed to an engine from outside while it runs: steps to insert, and
conditions to evaluate, once or under a name that keeps their state.

* `Engine.spliceCells`, `Engine.expandCells`: steps to insert.
* `Engine.evaluateCell`: a condition that is read, evaluated and forgotten.
* `Engine.watch`, `Engine.evaluateWatch`: a condition that keeps its state.
-/

namespace TickScript.Engine

/-- Inserts steps into the program and tells how many; they are read first. -/
def spliceCells (e : Engine) (cells : Value) : Except Fault Nat × Engine :=
  match Catalogue.standard.readSteps cells with
  | .error f => (.error f, e)
  | .ok steps =>
    let (result, e) := e.splice steps
    (result.map fun _ => steps.length, e)

/-- Inserts steps as a condition does, and tells how many. -/
def expandCells (e : Engine) (cells : Value) : Except Fault Nat × Engine :=
  if e.parts.program then e.spliceCells cells else (.error .noExpansion, e)

/-- Reads a condition, evaluates it once and forgets it. -/
def evaluateCell (e : Engine) (cell : Value) : Except Fault Verdict × Engine :=
  match Catalogue.standard.readCondition cell with
  | .error f => (.error f, e)
  | .ok c =>
    let t := c.evaluate none e
    (t.outcome, t.engine)

/-- Keeps a condition under a name. -/
def watch (e : Engine) (name : String) (c : Condition) : Engine :=
  { e with watches := (name, c) :: e.watches.filter (·.1 != name) }

/-- Evaluates the condition that is kept under a name. -/
def evaluateWatch (e : Engine) (name : String) : Except Fault Verdict × Engine :=
  match e.watches.lookup name with
  | none => (.error .position, e)
  | some c =>
    let place : Place := ⟨.watch name, []⟩
    let t := c.evaluate (some place) e
    (t.outcome, t.engine.setAt place t.rest)

end TickScript.Engine
