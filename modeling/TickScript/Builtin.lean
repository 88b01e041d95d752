import TickScript.Host
/-!
# Builtins

The names a program may call.  A *predicate* looks at the simulation and changes nothing;
an *expander* extends the program.  Each builtin has a specification, which says how the
cells of a call are read and what the call looks like in a listing.

* `Builtin.ofName?`: the builtin of a name.
* `Builtin.ofName?_name`: every builtin is found under its name.
* `Spec.paramFor?`: the parameter that describes an argument.
-/

namespace TickScript

/-! ## Specifications -/

/-- How the cell of an argument is read. -/
inductive ParamKind where
  | value | comparator | condition | steps | inputs | inputChoices | script
  deriving DecidableEq, Repr, Inhabited

def ParamKind.name : ParamKind → String
  | value => "value"
  | comparator => "comparator"
  | condition => "condition"
  | steps => "steps"
  | inputs => "inputs"
  | inputChoices => "input_choices"
  | script => "script"

def ParamKind.all : List ParamKind :=
  [value, comparator, condition, steps, inputs, inputChoices, script]

structure Param where
  name : String
  kind : ParamKind := .value
  description : String := ""
  required : Bool := true
  deriving Repr, Inhabited, DecidableEq

inductive BuiltinKind where
  | predicate | expander
  deriving DecidableEq, Repr, Inhabited

def BuiltinKind.name : BuiltinKind → String
  | predicate => "predicate"
  | expander => "macro"

def BuiltinKind.all : List BuiltinKind := [predicate, expander]

/-- What a listing shows of a builtin, and how its arguments are read. -/
structure Spec where
  name : String
  kind : BuiltinKind := .predicate
  description : String
  parameters : List Param := []
  /-- The last parameter describes all further arguments. -/
  variadic : Bool := false
  deriving Repr, Inhabited, DecidableEq

namespace Spec

/-- The parameter that describes the argument at a position. -/
def paramFor? (s : Spec) (index : Nat) : Option Param :=
  match s.parameters[index]? with
  | some p => some p
  | none => if s.variadic then s.parameters.getLast? else none

/-- How the argument at a position is read; an argument without a parameter stays as it is. -/
def kindFor (s : Spec) (index : Nat) : ParamKind :=
  match s.paramFor? index with
  | some p => p.kind
  | none => .value

def requiredCount (s : Spec) : Nat := s.parameters.countP (·.required)

/-- One line that shows the name and the parameters; brackets mark optional ones. -/
def usage (s : Spec) : String :=
  let shown := s.parameters.map fun p =>
    if p.required then "<" ++ p.name ++ ">" else "[" ++ p.name ++ "]"
  " ".intercalate (s.name :: shown ++ if s.variadic then ["..."] else [])

end Spec

/-! ## Predicates -/

/-- A question about the player that has no arguments. -/
inductive Check where
  | always | movingUp | movingDown | movingLeft | movingRight | onGround | airborne
  | messageBox | climbing | forced | free | inWater | outOfWater | dead | onNpc
  | holding | emptyHanded
  deriving DecidableEq, Repr, Inhabited

namespace Check

def all : List Check :=
  [always, movingUp, movingDown, movingLeft, movingRight, onGround, airborne, messageBox,
   climbing, forced, free, inWater, outOfWater, dead, onNpc, holding, emptyHanded]

def name : Check → String
  | always => "t"
  | movingUp => "mu"
  | movingDown => "md"
  | movingLeft => "ml"
  | movingRight => "mr"
  | onGround => "tg"
  | airborne => "ntg"
  | messageBox => "mb"
  | climbing => "cl"
  | forced => "fs"
  | free => "nfs"
  | inWater => "iw"
  | outOfWater => "niw"
  | dead => "dead"
  | onNpc => "snpc"
  | holding => "hnpc"
  | emptyHanded => "nhnpc"

def description : Check → String
  | always => "Always true."
  | movingUp => "Moving up."
  | movingDown => "Moving down: airborne and not rising (true at the apex of a jump)."
  | movingLeft => "Moving left (or standing still)."
  | movingRight => "Moving right (or standing still)."
  | onGround => "Touching the ground."
  | airborne => "Not touching the ground."
  | messageBox => "A message box was shown this tick."
  | climbing => "Climbing."
  | forced => "In a forced state (pipe, door, powerup...)."
  | free => "Not in a forced state."
  | inWater => "In water."
  | outOfWater => "Not in water."
  | dead => "The player is dying."
  | onNpc => "Standing on an NPC."
  | holding => "Holding an item."
  | emptyHanded => "Not holding an item."

end Check

/-- A number that a comparison looks at. -/
inductive Reading where
  | x | y | speedX | speedY | overlayX | overlayY | overlayState
  deriving DecidableEq, Repr, Inhabited

namespace Reading

def all : List Reading := [x, y, speedX, speedY, overlayX, overlayY, overlayState]

def name : Reading → String
  | x => "x"
  | y => "y"
  | speedX => "sx"
  | speedY => "sy"
  | overlayX => "mapX"
  | overlayY => "mapY"
  | overlayState => "mapState"

def description : Reading → String
  | x => "Compare the player's x position."
  | y => "Compare the player's y position."
  | speedX => "Compare the player's horizontal speed."
  | speedY => "Compare the player's vertical speed."
  | overlayX => "Compare the overlay player's x position."
  | overlayY => "Compare the overlay player's y position."
  | overlayState => "Compare the overlay player's state value."

end Reading

/-! ## Expanders -/

/-- A builtin that extends the program, or keeps state in its own arguments. -/
inductive Expander where
  /-- Inserts steps. -/
  | insert
  /-- Inserts steps a number of times. -/
  | repeated
  /-- Inserts one of two branches. -/
  | branch
  /-- Inserts steps if a condition holds. -/
  | onlyIf
  /-- Inserts steps if a condition does not hold. -/
  | onlyUnless
  /-- Waits for conditions one after the other. -/
  | inOrder
  /-- Waits for any of some conditions. -/
  | anyOf
  /-- Inserts steps and itself again as long as a condition holds. -/
  | loop
  | randomInput
  | scriptedInput
  | optimize
  | clearSearch
  deriving DecidableEq, Repr, Inhabited

namespace Expander

def all : List Expander :=
  [insert, repeated, branch, onlyIf, onlyUnless, inOrder, anyOf, loop, randomInput,
   scriptedInput, optimize, clearSearch]

def name : Expander → String
  | insert => "do"
  | repeated => "dotimes"
  | branch => "if"
  | onlyIf => "when"
  | onlyUnless => "unless"
  | inOrder => "then"
  | anyOf => "or"
  | loop => "while"
  | randomInput => "randomInput"
  | scriptedInput => "scriptedInput"
  | optimize => "optimize"
  | clearSearch => "clearOptimizationData"

def description : Expander → String
  | insert => "Insert the given steps at the current position."
  | repeated => "Insert the given steps n times in a row."
  | branch => "Check a condition once and insert the matching branch."
  | onlyIf => "Insert the steps only if the condition holds."
  | onlyUnless => "Insert the steps only if the condition does not hold."
  | inOrder =>
    "Wait for each condition in turn. Passed conditions are dropped and never checked again."
  | anyOf => "True as soon as any condition holds; re-checks all of them every tick."
  | loop => "While the condition holds, run the steps and check again."
  | randomInput => "Hold a randomly chosen input for a random number of ticks."
  | scriptedInput =>
    "Queue (inputs, repeat) entries for the background override process, which plays one entry every 16 ticks."
  | optimize => "Probe one candidate duration for an input and tune it across runs."
  | clearSearch => "Forget the persisted optimizer bounds and history."

private def conditionParam (name : String) (description : String := "") : Param :=
  ⟨name, .condition, description, true⟩

private def stepsParam (name : String) (description : String := "")
    (required : Bool := true) : Param :=
  ⟨name, .steps, description, required⟩

def parameters : Expander → List Param
  | insert => [stepsParam "steps" "Steps to insert"]
  | repeated =>
    [⟨"n", .value, "Number of repetitions", true⟩,
     stepsParam "steps" "Steps to repeat"]
  | branch =>
    [conditionParam "condition",
     stepsParam "then" "Steps if the condition holds" false,
     stepsParam "else" "Steps if it does not" false]
  | onlyIf | onlyUnless | loop => [conditionParam "condition", stepsParam "steps"]
  | inOrder | anyOf => [conditionParam "condition"]
  | randomInput =>
    [⟨"choices", .inputChoices, "Inputs to choose from", true⟩,
     ⟨"min", .value, "Shortest duration in ticks", true⟩,
     ⟨"max", .value, "Longest duration in ticks (defaults to min)", false⟩]
  | scriptedInput => [⟨"entries", .script, "Alternating inputs and repeat counts", true⟩]
  | optimize =>
    [⟨"input", .inputs, "Input to time", true⟩,
     ⟨"mode", .value, "LO for the shortest, HI for the longest", true⟩,
     conditionParam "fail_low" "True when the duration was too short",
     conditionParam "fail_high" "True when the duration was too long",
     conditionParam "success" "True when the duration worked",
     ⟨"lo", .value, "Lower bound in ticks", false⟩,
     ⟨"hi", .value, "Upper bound in ticks", false⟩]
  | clearSearch => []

/-- Only the two expanders that take any number of conditions. -/
def isVariadic : Expander → Bool
  | inOrder | anyOf => true
  | _ => false

end Expander

/-! ## All builtins -/

inductive Builtin where
  | check (c : Check)
  | compare (r : Reading)
  | expand (m : Expander)
  deriving DecidableEq, Repr, Inhabited

namespace Builtin

/-- Every builtin, predicates first. -/
def all : List Builtin :=
  Check.all.map check ++ Reading.all.map compare ++ Expander.all.map expand

def name : Builtin → String
  | check c => c.name
  | compare r => r.name
  | expand m => m.name

def spec : Builtin → Spec
  | check c => { name := c.name, description := c.description }
  | compare r =>
    { name := r.name
      description := r.description
      parameters :=
        [⟨"comparator", .comparator, "One of < <= == ~= >= >", true⟩,
         ⟨"value", .value, "Value to compare against", true⟩] }
  | expand m =>
    { name := m.name
      kind := .expander
      description := m.description
      parameters := m.parameters
      variadic := m.isVariadic }

/-- The builtin of a name. -/
def ofName? : String → Option Builtin
  | "t" => some (check .always)
  | "mu" => some (check .movingUp)
  | "md" => some (check .movingDown)
  | "ml" => some (check .movingLeft)
  | "mr" => some (check .movingRight)
  | "tg" => some (check .onGround)
  | "ntg" => some (check .airborne)
  | "mb" => some (check .messageBox)
  | "cl" => some (check .climbing)
  | "fs" => some (check .forced)
  | "nfs" => some (check .free)
  | "iw" => some (check .inWater)
  | "niw" => some (check .outOfWater)
  | "dead" => some (check .dead)
  | "snpc" => some (check .onNpc)
  | "hnpc" => some (check .holding)
  | "nhnpc" => some (check .emptyHanded)
  | "x" => some (compare .x)
  | "y" => some (compare .y)
  | "sx" => some (compare .speedX)
  | "sy" => some (compare .speedY)
  | "mapX" => some (compare .overlayX)
  | "mapY" => some (compare .overlayY)
  | "mapState" => some (compare .overlayState)
  | "do" => some (expand .insert)
  | "dotimes" => some (expand .repeated)
  | "if" => some (expand .branch)
  | "when" => some (expand .onlyIf)
  | "unless" => some (expand .onlyUnless)
  | "then" => some (expand .inOrder)
  | "or" => some (expand .anyOf)
  | "while" => some (expand .loop)
  | "randomInput" => some (expand .randomInput)
  | "scriptedInput" => some (expand .scriptedInput)
  | "optimize" => some (expand .optimize)
  | "clearOptimizationData" => some (expand .clearSearch)
  | _ => none

/-- Every builtin is found under its name. -/
theorem ofName?_name (b : Builtin) : ofName? b.name = some b := by
  cases b with
  | check c => cases c <;> rfl
  | compare r => cases r <;> rfl
  | expand m => cases m <;> rfl

@[simp] theorem spec_name (b : Builtin) : b.spec.name = b.name := by cases b <;> rfl

end Builtin

/-! ## Catalogues -/

/-- The builtins that are known while a program is read.  The arguments of an unknown
name stay unread. -/
structure Catalogue where
  spec? : String → Option Spec

namespace Catalogue

/-- Knows every builtin. -/
def standard : Catalogue := ⟨fun name => (Builtin.ofName? name).map Builtin.spec⟩

/-- Knows no name. -/
def empty : Catalogue := ⟨fun _ => none⟩

end Catalogue

end TickScript
