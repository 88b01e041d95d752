import TickScript.Condition
/-!
# Reading cells

A program is stored as a flat list of cells.  A text is an input and is followed by the
cell of its condition; a condition where an input is expected is a step without input.  A
condition cell is a number of ticks, the name of a flag or builtin, a list that calls a
builtin, or a list of conditions to wait for one after the other.

The arguments of a known builtin are read as its parameters say; those of any other name
stay as they are.

* `Catalogue.readCondition`: one condition cell.
* `Catalogue.readSteps`: a program.
* `readScript`: the entries of a scripted input.
-/

namespace TickScript

def invalid (v : Value) : Fault := .invalidInstruction v.display

/-- A condition that is one word: a flag, or a call without arguments. -/
def Condition.ofWord (s : String) : Condition :=
  match Flag.ofName? s with
  | some f => .toggle f
  | none => .call s []

/-- A program whose cells are all words. -/
def readWords : List String → Except Fault (List Step)
  | [] => .ok []
  | s :: rest =>
    match Flag.ofName? s with
    | some f => do
      let steps ← readWords rest
      return .mk .none (.toggle f) :: steps
    | none =>
      match rest with
      | [] => .error (.inputWithoutCondition s)
      | word :: rest' => do
        let inputs ← Inputs.read (.text s)
        let steps ← readWords rest'
        return .mk inputs (.ofWord word) :: steps

/-! ## Scripts -/

/-- An input and the number of times it is repeated. -/
def readEntry (inputs repeats : Value) : Except Fault (Inputs × Int) := do
  let i ← Inputs.read inputs
  let n ← repeats.toInt
  return (i, n)

/-- Entries written as pairs, if every item is one. -/
def pairs? : List Value → Option (List (Value × Value))
  | [] => some []
  | .list [a, b] :: rest => (pairs? rest).map ((a, b) :: ·)
  | _ => none

/-- Entries written one after the other: inputs, count, inputs, count and so on. -/
def alternating? : List Value → Option (List (Value × Value))
  | [] => some []
  | [_] => none
  | a :: b :: rest => (alternating? rest).map ((a, b) :: ·)

def readScript (v : Value) : Except Fault (List (Inputs × Int)) := do
  let items ← v.items
  match pairs? items with
  | some entries => entries.mapM fun (i, n) => readEntry i n
  | none =>
    match alternating? items with
    | some entries => entries.mapM fun (i, n) => readEntry i n
    | none => .error .unpairedScript

/-- The inputs to choose from. -/
def readChoices (v : Value) : Except Fault (List Inputs) := do
  let items ← v.items
  items.mapM Inputs.read

/-! ## Conditions and steps -/

/-- A builtin that takes any number of conditions also takes them in one list, which then
starts with a list. -/
def isWrapped : List Value → Bool
  | [.list (.list _ :: _)] => true
  | _ => false

namespace Catalogue

/-- The call of a name with unread arguments, given how they are read: as they stand, or
from the one list that holds them. -/
def readCall (known : Catalogue) (name : String) (args : List Value)
    (plain wrapped : Spec → Except Fault (List Arg)) : Except Fault Condition :=
  match known.spec? name with
  | none => .ok (.call name (args.map .raw))
  | some spec =>
    (if spec.variadic && isWrapped args then wrapped spec else plain spec).map (.call name)

mutual

/-- Reads one condition cell. -/
def readCondition (known : Catalogue) : Value → Except Fault Condition
  | .int n => .ok (.countdown n)
  | .text s => .ok (.ofWord s)
  | .native test label => .ok (.native test (label.getD ""))
  | .list [] => .error .emptyInstruction
  | .list (.list items :: rest) =>
    known.readCall "then" (.list items :: rest)
      (fun spec => known.readArgs spec 0 (.list items :: rest))
      (fun spec => known.readArgs spec 0 items)
  | .list (.int n :: _) => .ok (.countdown n)
  | .list (.bool b :: _) => .error (invalid (.bool b))
  | .list (.text name :: args) =>
    match Flag.ofName? name, args with
    | some f, [] => .ok (.toggle f)
    | _, _ =>
      known.readCall name args
        (fun spec => known.readArgs spec 0 args)
        (fun spec => known.readWrapped spec args)
  | .list (.native test none :: _) => .ok (.native test "")
  | .list [.native test (some label)] => .ok (.native test label)
  | v => .error (invalid v)

/-- Reads the arguments of a call from a position on; an absent one stays absent. -/
def readArgs (known : Catalogue) (spec : Spec) (index : Nat) :
    List Value → Except Fault (List Arg)
  | [] => .ok []
  | v :: rest => do
    let a ← if v.isNull then .ok (.raw v) else
      match spec.kindFor index with
      | .condition => (known.readCondition v).map .condition
      | .steps => (known.readSteps v).map .steps
      | .inputs => (Inputs.read v).map .inputs
      | .inputChoices => (readChoices v).map .choices
      | .script => (readScript v).map .script
      | .value | .comparator => .ok (.raw v)
    let read ← known.readArgs spec (index + 1) rest
    return a :: read

/-- Reads the arguments of a call that are wrapped in one list. -/
def readWrapped (known : Catalogue) (spec : Spec) : List Value → Except Fault (List Arg)
  | .list items :: _ => known.readArgs spec 0 items
  | _ => .ok []

/-- Reads a program. -/
def readSteps (known : Catalogue) : Value → Except Fault (List Step)
  | .list cells => known.readCells cells
  | .text s => readWords (s.toList.map String.singleton)
  | .object fields => readWords (fields.map (·.1))
  | _ => .error .kind

/-- Reads the cells of a program, an input together with its condition. -/
def readCells (known : Catalogue) : List Value → Except Fault (List Step)
  | [] => .ok []
  | .text s :: rest =>
    match Flag.ofName? s, rest with
    | some f, rest => do
      let steps ← known.readCells rest
      return .mk .none (.toggle f) :: steps
    | none, [] => .error (.inputWithoutCondition s)
    | none, v :: rest => do
      let inputs ← Inputs.read (.text s)
      let condition ← known.readCondition v
      let steps ← known.readCells rest
      return .mk inputs condition :: steps
  | cell :: rest => do
    let condition ← known.readCondition cell
    let steps ← known.readCells rest
    return .mk .none condition :: steps

end

end Catalogue

end TickScript
