/-!
# Arguments of a command line

Options and positional arguments may stand in any order.  An option has a long name, and
perhaps a short one of a single letter.  A value follows its option as the next argument,
whatever that looks like, or behind an equals sign after a long name, or directly after a
short one; flags with short names may be written as one argument.  Behind a double dash
everything is positional.

* `Arguments.read?`: the arguments of a command.
* `Arguments.readGroup?`: the arguments of a group, up to the name of a command.
* `Arguments.read?_positional`: plain arguments are all positional.
-/

namespace TickScript

/-- An option that a command knows. -/
structure CommandOption where
  /-- The long name, without dashes. -/
  name : String
  /-- The short name. -/
  letter : Option Char := none
  /-- Whether a value follows. -/
  hasValue : Bool := true
  deriving DecidableEq, Repr, Inhabited

/-- The arguments of a command, sorted out. -/
structure Arguments where
  flags : List String := []
  /-- The values of options, in the order of the command line. -/
  values : List (String × String) := []
  positional : List String := []
  deriving DecidableEq, Repr, Inhabited

namespace Arguments

/-- The value of an option; of several the last one counts. -/
def value? (a : Arguments) (name : String) : Option String := a.values.reverse.lookup name

def hasFlag (a : Arguments) (name : String) : Bool := a.flags.contains name

/-- The flag that every command and group knows. -/
def help : CommandOption := { name := "help", hasValue := false }

/-- What the value of an option is. -/
inductive Pending where
  /-- It is part of the argument. -/
  | attached (name value : String)
  /-- It is the next argument. -/
  | next (name : String)
  deriving DecidableEq, Repr

/-- What one argument with a dash asks for. -/
structure Marks where
  flags : List String := []
  value : Option Pending := none
  deriving DecidableEq, Repr, Inhabited

/-- An argument that starts with a dash and does not end there. -/
def isMarked (arg : String) : Bool :=
  match arg.toList with
  | '-' :: _ :: _ => true
  | _ => false

/-- A long name, perhaps with a value behind an equals sign. -/
def longMarks? (known : List CommandOption) (body : List Char) : Option Marks :=
  let name := String.ofList (body.takeWhile (· != '='))
  let attached := body.dropWhile (· != '=')
  match known.find? (·.name == name) with
  | none => none
  | some o =>
    match o.hasValue, attached with
    | true, [] => some { value := some (.next name) }
    | true, _ :: value => some { value := some (.attached name (String.ofList value)) }
    | false, [] => some { flags := [name] }
    | false, _ :: _ => none

/-- Short names, one behind the other; the first one with a value takes the rest. -/
def shortMarks? (known : List CommandOption) : List Char → Option Marks
  | [] => some {}
  | c :: rest =>
    match known.find? (·.letter == some c) with
    | none => none
    | some o =>
      if o.hasValue then
        match rest with
        | [] => some { value := some (.next o.name) }
        | value => some { value := some (.attached o.name (String.ofList value)) }
      else (shortMarks? known rest).map fun m => { m with flags := o.name :: m.flags }

def marks? (known : List CommandOption) (arg : String) : Option Marks :=
  match arg.toList with
  | '-' :: '-' :: body => longMarks? known body
  | _ :: body => shortMarks? known body
  | [] => none

def addMarks (a : Arguments) (flags : List String) (values : List (String × String)) : Arguments :=
  { a with flags := flags ++ a.flags, values := values ++ a.values }

def addPositional (a : Arguments) (arg : String) : Arguments :=
  { a with positional := arg :: a.positional }

/-- Sorts the arguments of a command out. -/
def read? (known : List CommandOption) : List String → Option Arguments
  | [] => some {}
  | arg :: rest =>
    if arg = "--" then some { positional := rest }
    else if isMarked arg then
      match marks? known arg with
      | none => none
      | some ⟨flags, none⟩ => (read? known rest).map (addMarks · flags [])
      | some ⟨flags, some (.attached name value)⟩ =>
        (read? known rest).map (addMarks · flags [(name, value)])
      | some ⟨flags, some (.next name)⟩ =>
        match rest with
        | [] => none
        | value :: rest => (read? known rest).map (addMarks · flags [(name, value)])
    else (read? known rest).map (addPositional · arg)

/-- The flags of a group, and the arguments from the name of the command on. -/
def readGroup? (known : List CommandOption) : List String → Option (List String × List String)
  | [] => some ([], [])
  | arg :: rest =>
    if arg = "--" then some ([], rest)
    else if isMarked arg then
      match marks? known arg with
      | some ⟨flags, none⟩ =>
        (readGroup? known rest).map fun (more, rest) => (flags ++ more, rest)
      | _ => none
    else some ([], arg :: rest)

/-- Plain arguments are all positional. -/
theorem read?_positional (known : List CommandOption) (args : List String)
    (h : ∀ a ∈ args, a ≠ "--" ∧ isMarked a = false) :
    read? known args = some { positional := args } := by
  induction args with
  | nil => rfl
  | cons arg rest ih =>
    obtain ⟨hdash, hmark⟩ := h arg List.mem_cons_self
    have ih := ih fun a ha => h a (List.mem_cons_of_mem _ ha)
    simp [read?, hdash, hmark, ih, addPositional]

end Arguments

end TickScript
