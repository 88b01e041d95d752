import TickScript.Value
/-!
# Fields of data

How a field of a data file or a setting takes a value of another kind.  Numbers, truth
values and texts stand for one another where nothing is lost; lists and objects stand for
themselves only.

* `Field.int?`, `Field.float?`, `Field.bool?`, `Field.text?`, `Field.list?`, `Field.object?`.
* `Field.get`: a field with a default.
-/

namespace TickScript.Field

/-- A whole number; a decimal number counts if it is whole and small, a text if it is a
numeral. -/
def int? : Value → Option Int
  | .bool b => some (if b then 1 else 0)
  | .int n => some n
  | .float x =>
    match (Exact.ofFloat x).toInt? with
    | some n => if n.natAbs < Nat.pow 2 63 then some n else none
    | none => none
  | .text s => Numeral.wholeInt? s
  | _ => none

def float? : Value → Option Float
  | .bool b => some (if b then 1 else 0)
  | .int n =>
    let x := Numeral.floatOfInt n
    if x.isFinite then some x else none
  | .float x => some x
  | .text s => Numeral.float? s
  | _ => none

def trueWords : List String := ["1", "on", "t", "true", "y", "yes"]

def falseWords : List String := ["0", "off", "f", "false", "n", "no"]

/-- A truth value, one of the numbers 0 and 1, or one of the words for them. -/
def bool? : Value → Option Bool
  | .bool b => some b
  | .text s =>
    let word := s.toLower
    if trueWords.contains word then some true
    else if falseWords.contains word then some false
    else none
  | v => if v.isNumber 0 then some false else if v.isNumber 1 then some true else none

def text? : Value → Option String
  | .text s => some s
  | _ => none

def list? : Value → Option (List Value)
  | .list items => some items
  | _ => none

def object? : Value → Option (List (String × Value))
  | .object fields => some fields
  | _ => none

/-- A value that may be absent. -/
def optional? {α : Type} (read? : Value → Option α) : Value → Option (Option α)
  | .null => some none
  | v => (read? v).map some

/-- The field of a key; without the key, the default. -/
def get {α : Type} (fields : List (String × Value)) (key : String) (default : α)
    (read? : Value → Option α) : Option α :=
  match fields.lookup key with
  | none => some default
  | some v => read? v

/-- The field of a key that must be there. -/
def need {α : Type} (fields : List (String × Value)) (key : String)
    (read? : Value → Option α) : Option α :=
  fields.lookup key >>= read?

end TickScript.Field
