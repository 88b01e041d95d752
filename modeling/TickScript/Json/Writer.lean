import TickScript.Value
/-!
# Writing data files

Data files are written with one item or field on a line, two blanks of indentation for
each level, and nothing between the brackets of an empty list or object.  Only quotes,
backslashes and control characters are escaped.

* `Json.write`: the text of a value over several lines.
* `Json.compact`: the text of a value on one line.
-/

namespace TickScript.Json

/-- Decimal numbers in data files: positional from `10 ^ -5` up to `10 ^ 16`, exponents with
as many digits as they need. -/
def numberLayout : Layout := ⟨-5, 16, 1⟩

/-- Numbers that are not finite are absent. -/
def numberWords : Layout.Words := ⟨"null", "null"⟩

def floatText (x : Float) : String :=
  match Exact.ofFloat x with
  | .infinite _ => numberWords.infinity
  | e => e.write numberLayout numberWords

def escape (c : Char) : List Char :=
  if c = '"' ∨ c = '\\' then ['\\', c]
  else if c = '\x08' then ['\\', 'b']
  else if c = '\t' then ['\\', 't']
  else if c = '\n' then ['\\', 'n']
  else if c = '\x0c' then ['\\', 'f']
  else if c = '\r' then ['\\', 'r']
  else if c.toNat < 0x20 then '\\' :: 'u' :: Text.Quoted.hex 4 c.toNat
  else [c]

def quote (s : String) : String :=
  String.ofList ('"' :: s.toList.flatMap escape ++ ['"'])

def newline (depth : Nat) : String := "\n" ++ String.ofList (List.replicate (2 * depth) ' ')

mutual

/-- The text of a value that starts at the given depth. -/
def writeAt (depth : Nat) : Value → String
  | .null => "null"
  | .bool b => if b then "true" else "false"
  | .int n => toString n
  | .float x => floatText x
  | .text s => quote s
  | .list [] => "[]"
  | .list items => "[" ++ ",".intercalate (writeItems (depth + 1) items) ++ newline depth ++ "]"
  | .object [] => "\x7b\x7d"
  | .object fields =>
    "\x7b" ++ ",".intercalate (writeFields (depth + 1) fields) ++ newline depth ++ "\x7d"
  | .native .. => "null"

def writeItems (depth : Nat) : List Value → List String
  | [] => []
  | v :: rest => (newline depth ++ writeAt depth v) :: writeItems depth rest

def writeFields (depth : Nat) : List (String × Value) → List String
  | [] => []
  | (key, v) :: rest =>
    (newline depth ++ quote key ++ ": " ++ writeAt depth v) :: writeFields depth rest

end

/-- The text of a value over several lines. -/
def write (v : Value) : String := writeAt 0 v

mutual

/-- Whether a value has no more than so many lists and objects inside one another; an empty
list does not count. -/
def isWithin (levels : Nat) : Value → Bool
  | .list [] => true
  | .list (v :: items) => levels != 0 && isWithin (levels - 1) v && areWithin (levels - 1) items
  | .object fields => levels != 0 && fieldsAreWithin (levels - 1) fields
  | _ => true

def areWithin (levels : Nat) : List Value → Bool
  | [] => true
  | v :: rest => isWithin levels v && areWithin levels rest

def fieldsAreWithin (levels : Nat) : List (String × Value) → Bool
  | [] => true
  | (_, v) :: rest => isWithin levels v && fieldsAreWithin levels rest

end

mutual

/-- Whether every whole number in a value passes a test. -/
def everyInt (test : Int → Bool) : Value → Bool
  | .int n => test n
  | .list items => itemsEveryInt test items
  | .object fields => fieldsEveryInt test fields
  | _ => true

def itemsEveryInt (test : Int → Bool) : List Value → Bool
  | [] => true
  | v :: rest => everyInt test v && itemsEveryInt test rest

def fieldsEveryInt (test : Int → Bool) : List (String × Value) → Bool
  | [] => true
  | (_, v) :: rest => everyInt test v && fieldsEveryInt test rest

end

mutual

/-- The text of a value on one line. -/
def compact : Value → String
  | .null => "null"
  | .bool b => if b then "true" else "false"
  | .int n => toString n
  | .float x => floatText x
  | .text s => quote s
  | .list items => "[" ++ ",".intercalate (compactItems items) ++ "]"
  | .object fields => "\x7b" ++ ",".intercalate (compactFields fields) ++ "\x7d"
  | .native .. => "null"

def compactItems : List Value → List String
  | [] => []
  | v :: rest => compact v :: compactItems rest

def compactFields : List (String × Value) → List String
  | [] => []
  | (key, v) :: rest => (quote key ++ ":" ++ compact v) :: compactFields rest

end

end TickScript.Json
