import TickScript.Inputs
import TickScript.Builtin
/-!
# Conditions and steps

A step holds an input until its condition is satisfied.  A condition is a countdown, a
flag that is switched over, the call of a builtin or a built-in test.  The arguments of a
call are values as the cells give them, until they are read as what the builtin needs;
reading replaces the argument, so what is read once keeps its state.

* `Condition.describe`: a condition in one line.
-/

namespace TickScript

/-- A switch that steps turn over. -/
inductive Flag where
  | ignorePause | ignoreDeath
  deriving DecidableEq, Repr, Inhabited

namespace Flag

def name : Flag → String
  | ignorePause => "ignorePause"
  | ignoreDeath => "ignoreDeath"

def ofName? : String → Option Flag
  | "ignorePause" => some ignorePause
  | "ignoreDeath" => some ignoreDeath
  | _ => none

theorem ofName?_name (f : Flag) : ofName? f.name = some f := by cases f <;> rfl

end Flag

mutual

/-- When a step is done. -/
inductive Condition where
  /-- Satisfied once, after the given number of evaluations. -/
  | countdown (remaining : Int)
  | toggle (flag : Flag)
  | call (name : String) (args : List Arg)
  | native (test : Native) (label : String)

/-- An argument of a call, unread or read. -/
inductive Arg where
  | raw (v : Value)
  | condition (c : Condition)
  | steps (body : List Step)
  | inputs (i : Inputs)
  | choices (list : List Inputs)
  | script (entries : List (Inputs × Int))

/-- An input and the condition that ends it. -/
inductive Step where
  | mk (inputs : Inputs) (condition : Condition)

end

instance : Inhabited Condition := ⟨.countdown 0⟩
instance : Inhabited Arg := ⟨.raw .null⟩
instance : Inhabited Step := ⟨.mk .none (.countdown 0)⟩

namespace Step

def inputs : Step → Inputs
  | mk i _ => i

def condition : Step → Condition
  | mk _ c => c

def withCondition (s : Step) (c : Condition) : Step := mk s.inputs c

@[simp] theorem inputs_mk (i : Inputs) (c : Condition) : (mk i c).inputs = i := rfl

@[simp] theorem condition_mk (i : Inputs) (c : Condition) : (mk i c).condition = c := rfl

@[simp] theorem inputs_withCondition (s : Step) (c : Condition) :
    (s.withCondition c).inputs = s.inputs := rfl

@[simp] theorem condition_withCondition (s : Step) (c : Condition) :
    (s.withCondition c).condition = c := rfl

end Step

/-! ## Description -/

def nativeText (test : Native) (label : String) : String :=
  "<native " ++ (if label == "" then test.name else label) ++ ">"

def itemsText (count : Nat) : String := "[" ++ toString count ++ " items]"

mutual

/-- A condition in one line.  Lists show their length only. -/
def Condition.describe : Condition → String
  | .countdown n => toString n
  | .toggle f => f.name
  | .call name args =>
    match describeArgs args with
    | [] => name
    | shown => name ++ "(" ++ ", ".intercalate shown ++ ")"
  | .native test label => nativeText test label

def describeArgs : List Arg → List String
  | [] => []
  | a :: rest => a.describe :: describeArgs rest

def Arg.describe : Arg → String
  | .raw (.list items) => itemsText items.length
  | .raw (.native test (some label)) => nativeText test label
  | .raw v => v.display
  | .condition c => c.describe
  | .steps body => itemsText body.length
  | .inputs i => Text.Quoted.write i.codes
  | .choices list => itemsText list.length
  | .script entries => itemsText entries.length

end

/-- The arguments of a call in full, as a message shows them. -/
def Arg.display : Arg → String
  | .raw v => v.display
  | a => a.describe

/-- A value in one line: an instruction is described, anything else shown in full. -/
def Value.describe : Value → String
  | .native test (some label) => nativeText test label
  | v => v.display

end TickScript
