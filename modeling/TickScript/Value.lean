import TickScript.Number.Numeral
import TickScript.Number.Shortest
import TickScript.Text.Quoted
import TickScript.Host
/-!
# Cell values

What a program cell can hold before it is read as an instruction: the values of a data
file, where whole numbers and decimal numbers differ, and tests built in by the author.

* `Value.display`: the text of a value in messages.
* `Value.numeric?`: the number that a value counts as in a comparison.
* `Value.sameItem`: when two values are one item of a set.
-/

namespace TickScript

inductive Value where
  | null
  | bool (b : Bool)
  | int (n : Int)
  | float (x : Float)
  | text (s : String)
  | list (items : List Value)
  /-- Keys in the order of the file. -/
  | object (fields : List (String × Value))
  /-- A built-in test; one with a label is an instruction of its own. -/
  | native (test : Native) (label : Option String)
  deriving Inhabited

namespace Value

def isNull : Value → Bool
  | null => true
  | _ => false

/-- Decimal numbers in messages: positional from `10 ^ -4` up to `10 ^ 16`, exponents with
a sign and two digits. -/
def numberLayout : Layout := ⟨-4, 16, 2⟩

def numberWords : Layout.Words := ⟨"nan", "inf"⟩

def displayFloat (x : Float) : String := (Exact.ofFloat x).write numberLayout numberWords

mutual

/-- The text of a value in messages. -/
def display : Value → String
  | null => "None"
  | bool b => if b then "True" else "False"
  | int n => toString n
  | float x => displayFloat x
  | text s => Text.Quoted.write s
  | list items => "[" ++ ", ".intercalate (displayAll items) ++ "]"
  | object fields => "\x7b" ++ ", ".intercalate (displayFields fields) ++ "\x7d"
  | native test label => "<native " ++ label.getD test.name ++ ">"

def displayAll : List Value → List String
  | [] => []
  | v :: rest => v.display :: displayAll rest

def displayFields : List (String × Value) → List String
  | [] => []
  | (key, v) :: rest => (Text.Quoted.write key ++ ": " ++ v.display) :: displayFields rest

end

/-- The number that a value counts as in a comparison: a truth value is 0 or 1. -/
def numeric? : Value → Option Exact
  | bool b => some (.ofInt (if b then 1 else 0))
  | int n => some (.ofInt n)
  | float x => some (.ofFloat x)
  | _ => none

/-- A number equal to the given whole number. -/
def isNumber (v : Value) (n : Int) : Bool :=
  match v.numeric? with
  | some e => e.compare (.ofInt n) == some .eq
  | none => false

/-- Whether two values are one item of a set.  Numbers are one item when they are equal,
whatever their kind; every built-in test is an item of its own. -/
def sameItem (a b : Value) : Bool :=
  match a, b with
  | null, null => true
  | text s, text t => s == t
  | a, b =>
    match a.numeric?, b.numeric? with
    | some x, some y => x.compare y == some .eq
    | _, _ => false

end Value

end TickScript
