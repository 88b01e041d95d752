import TickScript.Text.Blank
import TickScript.Text.DecimalDigit
/-!
# Numbers in texts

Two readers of whole numbers and two of decimal numbers.  All of them allow blanks around
the number, a sign, and single underscores between digits.

* `Numeral.int?`: digits of any script, nothing else.
* `Numeral.wholeInt?`: ASCII digits, zeros in front, and a fraction of zeros.
* `Numeral.float?`: ASCII digits with fraction and exponent, or a word.
* `Numeral.decimalFloat?`: the same, with underscores between digits only.
* `Numeral.floatOf`: the float nearest to `± digits · 10 ^ power`.
-/

namespace TickScript.Numeral

/-- The longest run of digits that is read as a whole number. -/
def digitLimit : Nat := 4300

/-- The values of a nonempty run of digits with single underscores between them. -/
def digitRun? (digit? : Char → Option Nat) : List Char → Option (List Nat)
  | [] => none
  | [c] => (digit? c).map ([·])
  | c :: '_' :: rest => do
    let d ← digit? c
    let ds ← digitRun? digit? rest
    return d :: ds
  | c :: rest => do
    let d ← digit? c
    let ds ← digitRun? digit? rest
    return d :: ds

def ofDigits (ds : List Nat) : Nat := ds.foldl (fun n d => 10 * n + d) 0

/-- Splits a sign off; the flag tells whether it was a minus. -/
def sign : List Char → Bool × List Char
  | '+' :: rest => (false, rest)
  | '-' :: rest => (true, rest)
  | cs => (false, cs)

def signed (negative : Bool) (n : Nat) : Int := if negative then -(n : Int) else n

/-- Reads a whole number written with decimal digits of any script. -/
def int? (s : String) : Option Int := do
  let (negative, body) := sign (Text.trim s.toList)
  let ds ← digitRun? Text.digitValue? body
  if ds.length ≤ digitLimit then return signed negative (ofDigits ds) else none

/-! ## Whole numbers in data -/

/-- A bare numeral: perhaps a minus, then ASCII digits, of which the first is a zero only if
it is the only one. -/
def bareInt? (cs : List Char) : Option Int :=
  let (negative, body) := match cs with
    | '-' :: rest => (true, rest)
    | _ => (false, cs)
  if body.isEmpty || digitLimit < cs.length then none
  else if body.head? == some '0' && body.length != 1 then none
  else (body.mapM Text.asciiDigit?).map fun ds => signed negative (ofDigits ds)

/-- What is left behind zeros and underscores, of which the last is given: the number, which
starts with a digit or a minus, or the last of them before a point or at the end. -/
def afterZeros? (last : Char) : List Char → Option (List Char)
  | [] => some [last]
  | c :: rest =>
    if c = '0' ∨ c = '_' then afterZeros? c rest
    else if c = '.' then some (last :: c :: rest)
    else if c = '-' ∨ (Text.asciiDigit? c).isSome then some (c :: rest)
    else none

/-- Removes the zeros before a number, and the underscores among them; the number must
start with a digit. -/
def dropZeros? : List Char → Option (List Char)
  | [] => none
  | c :: rest =>
    if c = '0' then afterZeros? c rest
    else if (Text.asciiDigit? c).isSome then some (c :: rest)
    else none

/-- Removes a fraction of zeros, of which there must be one at least. -/
def dropFraction (cs : List Char) : List Char :=
  let (whole, fraction) := cs.span (· != '.')
  if 2 ≤ fraction.length && (fraction.drop 1).all (· == '0') then whole else cs

/-- Removes underscores that stand alone inside a text.  One at an end, or two side by side,
and all of them stay. -/
def dropUnderscores (cs : List Char) : List Char :=
  let pairs := cs.zip (cs.drop 1)
  if cs.head? == some '_' || cs.getLast? == some '_' || pairs.contains ('_', '_') then cs
  else cs.filter (· != '_')

/-- Reads a whole number of a data field: blanks around it, one sign, zeros in front, single
underscores inside and a fraction of zeros behind are allowed.  Behind zeros in front a minus
may stand, if there was none before them. -/
def wholeInt? (s : String) : Option Int := do
  let (negative, body) := sign (Text.trim s.toList)
  let body ← dropZeros? body
  let body := dropUnderscores (dropFraction body)
  bareInt? (if negative then '-' :: body else body)

/-! ## Decimal numbers -/

/-- The float nearest to `± digits · 10 ^ power`.  Beyond the range of floats in either
direction the power is cut off before any large power of ten is computed. -/
def floatOf (negative : Bool) (digits : Nat) (power : Int) : Float :=
  let lead := power + (Nat.toDigits 10 digits).length
  let magnitude :=
    if digits = 0 then 0.0
    else if 320 < lead then 1.0 / 0.0
    else if lead < -340 then 0.0
    else if 0 ≤ power then Float.ofScientific (digits * Nat.pow 10 power.toNat) false 0
    else Float.ofScientific digits true (-power).toNat
  if negative then -magnitude else magnitude

def floatOfInt (n : Int) : Float := floatOf (n < 0) n.natAbs 0

/-- The text of an unsigned decimal number: digits with at most one point, then perhaps
an exponent.  The result is the digits and the power of ten. -/
def decimal? (cs : List Char) : Option (Nat × Int) := do
  let (mantissa, tail) := cs.span fun c => c != 'e' && c != 'E'
  let (whole, point) := mantissa.span (· != '.')
  let fraction := point.drop 1
  let ds ← (whole ++ fraction).mapM Text.asciiDigit?
  if ds.isEmpty then none
  let exponent ← match tail with
    | [] => some 0
    | _ :: rest =>
      let (negative, body) := sign rest
      if body.isEmpty then none
      else (body.mapM Text.asciiDigit?).map fun es => signed negative (ofDigits es)
  return (ofDigits ds, exponent - fraction.length)

def plainFloat? (cs : List Char) : Option Float :=
  let (negative, body) := sign cs
  let word := String.ofList (body.map Char.toLower)
  if word == "nan" then some (0.0 / 0.0)
  else if word == "inf" || word == "infinity" then floatOf negative 1 400
  else (decimal? body).map fun (digits, power) => floatOf negative digits power

/-- Reads a decimal number, an infinity or a number that is not a number, written in
ASCII.  Blanks may stand around it or single underscores inside it, but not both. -/
def float? (s : String) : Option Float :=
  match plainFloat? (Text.trim s.toList) with
  | some x => some x
  | none => plainFloat? (dropUnderscores s.toList)

/-- Takes out the underscores, each of which must stand between two digits. -/
def joinDigits? (before : Bool) : List Char → Option (List Char)
  | [] => some []
  | '_' :: rest =>
    if before && (rest.head?.bind Text.asciiDigit?).isSome then joinDigits? false rest else none
  | c :: rest => (joinDigits? (Text.asciiDigit? c).isSome rest).map (c :: ·)

/-- Reads a decimal number, an infinity or a number that is not a number, written in
ASCII.  Blanks may stand around it and single underscores between its digits. -/
def decimalFloat? (s : String) : Option Float :=
  joinDigits? false (Text.trim s.toList) >>= plainFloat?

end TickScript.Numeral
