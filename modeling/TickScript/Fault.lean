import TickScript.Value
/-!
# What can go wrong

Every cause of failure in reading, evaluating and storing programs.  Causes that a program's
author is told about have a title and a message; the others are defects of a value for
which no rule gives a text.

* `Fault.title?`: the name under which a cause is announced.
* `Fault.message`: what the author is told.
-/

namespace TickScript

/-- Why the text of a file is malformed. -/
inductive Malformed where
  /-- The text is not a data file. -/
  | text
  /-- The data has the wrong shape. -/
  | shape
  deriving DecidableEq, Repr, Inhabited

inductive Fault where
  /-- A program names a builtin that there is not. -/
  | unknownBuiltin (name : String)
  | comparatorKind (found : Value)
  | unknownComparator (token : String)
  /-- A cell that is no instruction; the text shows it. -/
  | invalidInstruction (shown : String)
  | emptyInstruction
  | inputWithoutCondition (cell : String)
  | missingArgument (builtin : String) (index : Nat)
  /-- A comparison with fewer than two arguments; the text shows those it has. -/
  | missingComparison (builtin : String) (shown : String)
  | missingChoices
  | unpairedScript
  | noExpansion
  | noProgram
  | noScript
  | noSearch
  | unknownFlag (name : String)
  | invalidKeyCode (code : Char)
  | missingSearchArgument (name : String)
  | malformedProgram (path : String) (cause : Malformed)
  | malformedRecording (path : String) (cause : Malformed)
  | recordingCondition
  | overlayUnavailable (host : String)
  /-- A value of the wrong kind. -/
  | kind
  /-- A value of the right kind that is not allowed. -/
  | badValue
  /-- An infinite number where a whole number is needed. -/
  | tooLarge
  /-- A position outside a list. -/
  | position
  /-- Data that does not fit its model. -/
  | shape
  /-- A directory where a file is needed. -/
  | directory
  /-- The budget of a bounded run is used up. -/
  | overrun
  /-- Cells that are nested deeper than the stack reaches. -/
  | nesting
  /-- A text with marks that the console cannot make sense of. -/
  | marks
  deriving Inhabited

namespace Fault

/-- The name under which a cause is announced. -/
def title? : Fault → Option String
  | unknownBuiltin _ => "UnknownBuiltinError"
  | comparatorKind _ | unknownComparator _ => "InvalidComparatorError"
  | invalidInstruction _ | emptyInstruction | inputWithoutCondition _ | missingArgument ..
  | missingComparison .. | missingChoices | unpairedScript | noExpansion | noProgram
  | noScript | noSearch | unknownFlag _ => "InvalidInstructionError"
  | invalidKeyCode _ => "InvalidKeyCodeError"
  | missingSearchArgument _ => "MissingOptimizerArgumentError"
  | malformedProgram .. | malformedRecording .. | recordingCondition => "ProgramFileError"
  | overlayUnavailable _ => "OverlayUnavailableError"
  | _ => none

/-- What the author is told about an announced cause. -/
def message : Fault → String
  | unknownBuiltin name => "No builtin with name '" ++ name ++ "'"
  | comparatorKind found => "Comparator must be a string, got " ++ found.display
  | unknownComparator token => "Invalid comparator '" ++ token ++ "'"
  | invalidInstruction shown => "Invalid instruction: " ++ shown
  | emptyInstruction => "Empty instruction"
  | inputWithoutCondition cell =>
    "Input " ++ Text.Quoted.write cell ++ " has no condition after it"
  | missingArgument builtin index =>
    "'" ++ builtin ++ "' is missing argument " ++ toString (index + 1)
  | missingComparison builtin shown =>
    "'" ++ builtin ++ "' needs a comparator and a value, got " ++ shown
  | missingChoices => "'randomInput' needs choices and a minimum duration"
  | unpairedScript => "Scripted input needs (inputs, repeat) pairs"
  | noExpansion => "No program to expand into"
  | noProgram => "No program loaded to expand into"
  | noScript => "No scripted override process is attached"
  | noSearch => "No optimizer is attached"
  | unknownFlag name => "Unknown flag '" ++ name ++ "'"
  | invalidKeyCode code =>
    "Invalid key code: " ++ Text.Quoted.write (String.singleton code)
  | missingSearchArgument name => "optimize: no " ++ name ++ " given"
  | malformedProgram path _ => "Malformed program file " ++ path
  | malformedRecording path _ => "Malformed recording " ++ path
  | recordingCondition => "Recordings may only contain countdown steps"
  | overlayUnavailable host => host ++ " has no overlay simulation"
  | _ => ""

/-- A cause that the author is told about, rather than a defect without a text. -/
def isAnnounced (f : Fault) : Bool := f.title?.isSome

/-- The cause of a malformed file. -/
def malformed? : Fault → Option Malformed
  | malformedProgram _ cause | malformedRecording _ cause => some cause
  | _ => none

end Fault

/-- Reads a value as a whole number: a decimal number loses its fraction, a text is read
as a numeral. -/
def Value.toInt : Value → Except Fault Int
  | .bool b => .ok (if b then 1 else 0)
  | .int n => .ok n
  | .float x =>
    match Exact.ofFloat x with
    | .nan => .error .badValue
    | .infinite _ => .error .tooLarge
    | e => .ok (e.truncate?.getD 0)
  | .text s =>
    match Numeral.int? s with
    | some n => .ok n
    | none => .error .badValue
  | _ => .error .kind

end TickScript
