import TickScript.Value
/-!
# Reading data files

A strict reader for JSON texts.  Numbers without fraction and exponent are whole numbers,
all others decimal.  A key that occurs twice keeps its first place and takes its last
value.  Texts must be Unicode: an escaped half of a surrogate pair is an error.

The reader recurses on a budget that every character pays for, so the length of the text
is always enough.

* `Json.read?`: a whole text.
-/

namespace TickScript.Json

/-- What a reader accepts beyond the common rules, and its limits. -/
structure Dialect where
  /-- Whole numbers stay whole whatever their size; otherwise those beyond 64 bits become
  decimal. -/
  wide : Bool
  /-- Decimal numbers too large for a float are infinite, and the numbers that are not finite
  have words; otherwise they are errors. -/
  infinite : Bool
  /-- The most characters that a number may have before its point or exponent, if there is a
  limit. -/
  length : Option Nat
  /-- The most lists and objects that may stand inside one another. -/
  levels : Option Nat
  /-- Empty lists and objects are a level as well. -/
  emptyLevels : Bool

/-- Numbers of any size, any number of levels. -/
def Dialect.unbounded : Dialect := ⟨true, true, none, none, false⟩

/-- Whole numbers that stay whole, up to a length if there is a limit, and few levels. -/
def Dialect.wideNumbers (length : Option Nat) : Dialect := ⟨true, true, length, some 200, false⟩

/-- Whole numbers of 64 bits, finite decimal numbers, and many levels. -/
def Dialect.narrowNumbers : Dialect := ⟨false, false, none, some 1024, true⟩

def isSpace (c : Char) : Bool := c == ' ' || c == '\t' || c == '\n' || c == '\r'

def skip (cs : List Char) : List Char := cs.dropWhile isSpace

def isDigit (c : Char) : Bool := '0' ≤ c && c ≤ '9'

/-! ## Numbers -/

/-- A number after its sign. -/
def number? (d : Dialect) (negative : Bool) (cs : List Char) : Option (Value × List Char) := do
  let (whole, rest) := cs.span isDigit
  if whole.isEmpty || (whole.head? == some '0' && whole.length != 1) then none
  if d.length.any (· < whole.length + if negative then 1 else 0) then none
  let (point, fraction, rest) := match rest with
    | '.' :: rest => (true, rest.span isDigit)
    | rest => (false, [], rest)
  if point && fraction.isEmpty then none
  let (mark, exponentSign, exponent, rest) := match rest with
    | 'e' :: rest | 'E' :: rest =>
      let (minus, rest) := Numeral.sign rest
      (true, minus, rest.span isDigit)
    | rest => (false, false, [], rest)
  if mark && exponent.isEmpty then none
  let digit := fun (c : Char) => c.toNat - '0'.toNat
  if !point && !mark then
    let n := Numeral.signed negative (Numeral.ofDigits (whole.map digit))
    if d.wide || (-Int.pow 2 63 ≤ n && n < Int.pow 2 64) then return (.int n, rest)
    let x := Numeral.floatOfInt n
    if d.infinite || x.isFinite then return (.float x, rest) else none
  else
    let power := Numeral.signed exponentSign (Numeral.ofDigits (exponent.map digit))
      - fraction.length
    let x := Numeral.floatOf negative (Numeral.ofDigits ((whole ++ fraction).map digit)) power
    if d.infinite || x.isFinite then return (.float x, rest) else none

/-! ## Texts -/

def hexDigit? (c : Char) : Option Nat :=
  if isDigit c then some (c.toNat - '0'.toNat)
  else if 'a' ≤ c && c ≤ 'f' then some (c.toNat - 'a'.toNat + 10)
  else if 'A' ≤ c && c ≤ 'F' then some (c.toNat - 'A'.toNat + 10)
  else none

/-- Four hexadecimal digits. -/
def unit? : List Char → Option (Nat × List Char)
  | a :: b :: c :: d :: rest => do
    let a ← hexDigit? a
    let b ← hexDigit? b
    let c ← hexDigit? c
    let d ← hexDigit? d
    return (((a * 16 + b) * 16 + c) * 16 + d, rest)
  | _ => none

/-- The character of an escape with four digits, after its letter; a first half of a pair
must be followed by a second half. -/
def unicode? (cs : List Char) : Option (Char × List Char) := do
  let (n, rest) ← unit? cs
  if 0xDC00 ≤ n && n < 0xE000 then none
  else if 0xD800 ≤ n && n < 0xDC00 then
    match rest with
    | '\\' :: 'u' :: rest =>
      let (m, rest) ← unit? rest
      if 0xDC00 ≤ m && m < 0xE000 then
        return (Char.ofNat (0x10000 + (n - 0xD800) * 0x400 + (m - 0xDC00)), rest)
      else none
    | _ => none
  else
    return (Char.ofNat n, rest)

/-- The characters of a text after its opening quote, gathered in reverse. -/
def chars? : Nat → List Char → List Char → Option (String × List Char)
  | 0, _, _ => none
  | _ + 1, [], _ => none
  | budget + 1, c :: rest, seen =>
    if c = '"' then some (String.ofList seen.reverse, rest)
    else if c = '\\' then
      match rest with
      | '"' :: rest => chars? budget rest ('"' :: seen)
      | '\\' :: rest => chars? budget rest ('\\' :: seen)
      | '/' :: rest => chars? budget rest ('/' :: seen)
      | 'b' :: rest => chars? budget rest ('\x08' :: seen)
      | 'f' :: rest => chars? budget rest ('\x0c' :: seen)
      | 'n' :: rest => chars? budget rest ('\n' :: seen)
      | 'r' :: rest => chars? budget rest ('\r' :: seen)
      | 't' :: rest => chars? budget rest ('\t' :: seen)
      | 'u' :: rest => do
        let (c, rest) ← unicode? rest
        chars? budget rest (c :: seen)
      | _ => none
    else if c.toNat < 0x20 then none
    else chars? budget rest (c :: seen)

/-! ## Values -/

/-- Sets a key; a known key keeps its place. -/
def setField (fields : List (String × Value)) (key : String) (v : Value) :
    List (String × Value) :=
  if fields.any (·.1 == key) then fields.map fun f => if f.1 == key then (key, v) else f
  else fields ++ [(key, v)]

def word? (word : String) (v : Value) (cs : List Char) : Option (Value × List Char) :=
  if word.toList.isPrefixOf cs then some (v, cs.drop word.length) else none

/-- A number that is not finite, for the dialects that have words for them. -/
def special? (d : Dialect) (word : String) (x : Float) (cs : List Char) :
    Option (Value × List Char) :=
  if d.infinite then word? word (.float x) cs else none

/-- A list or object without content. -/
def empty? (d : Dialect) (levels : Nat) (v : Value) (rest : List Char) :
    Option (Value × List Char) :=
  if d.emptyLevels && levels == 0 then none else some (v, rest)

mutual

/-- A value that may have so many levels. -/
def value? (d : Dialect) (levels : Nat) : Nat → List Char → Option (Value × List Char)
  | 0, _ => none
  | budget + 1, cs =>
    match skip cs with
    | '[' :: rest =>
      match skip rest with
      | ']' :: rest => empty? d levels (.list []) rest
      | rest => if levels = 0 then none else items? d (levels - 1) budget rest []
    | '\x7b' :: rest =>
      match skip rest with
      | '\x7d' :: rest => empty? d levels (.object []) rest
      | rest => if levels = 0 then none else fields? d (levels - 1) budget rest []
    | '"' :: rest => do
      let (s, rest) ← chars? (rest.length + 1) rest []
      return (.text s, rest)
    | '-' :: 'I' :: rest => special? d "nfinity" (-1.0 / 0.0) rest
    | '-' :: rest => number? d true rest
    | 't' :: rest => word? "rue" (.bool true) rest
    | 'f' :: rest => word? "alse" (.bool false) rest
    | 'n' :: rest => word? "ull" .null rest
    | 'I' :: rest => special? d "nfinity" (1.0 / 0.0) rest
    | 'N' :: rest => special? d "aN" (0.0 / 0.0) rest
    | rest => number? d false rest

/-- The items of a list, at least one, gathered in reverse. -/
def items? (d : Dialect) (levels : Nat) :
    Nat → List Char → List Value → Option (Value × List Char)
  | 0, _, _ => none
  | budget + 1, cs, seen => do
    let (v, rest) ← value? d levels budget cs
    match skip rest with
    | ',' :: rest => items? d levels budget rest (v :: seen)
    | ']' :: rest => some (.list (v :: seen).reverse, rest)
    | _ => none

/-- The fields of an object, at least one. -/
def fields? (d : Dialect) (levels : Nat) :
    Nat → List Char → List (String × Value) → Option (Value × List Char)
  | 0, _, _ => none
  | budget + 1, cs, seen =>
    match skip cs with
    | '"' :: rest => do
      let (key, rest) ← chars? (rest.length + 1) rest []
      match skip rest with
      | ':' :: rest =>
        let (v, rest) ← value? d levels budget rest
        match skip rest with
        | ',' :: rest => fields? d levels budget rest (setField seen key v)
        | '\x7d' :: rest => some (.object (setField seen key v), rest)
        | _ => none
      | _ => none
    | _ => none

end

/-- Reads a whole text. -/
def read? (d : Dialect) (s : String) : Option Value := do
  let cs := s.toList
  let (v, rest) ← value? d (d.levels.getD cs.length) (2 * cs.length + 2) cs
  if (skip rest).isEmpty then return v else none

end TickScript.Json
