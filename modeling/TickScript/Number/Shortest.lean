import TickScript.Number.Exact
/-!
# The shortest decimal that reads back

A finite positive binary64 number `m · 2 ^ e` is the nearest float for every real in an
interval around it, ends included iff `m` is even.  For one digit, two digits and so on
the two neighbours of the number on the grid of decimals with so many digits are tested
for membership in that interval; the first grid with a hit gives the digits, and of two
hits the nearer one is taken (an even last digit when they are equally near).
Seventeen digits always suffice.

* `Shortest.digits`: the digits and their power of ten.
* `Decimal.layout`: a decimal written positionally or with an exponent.
-/

namespace TickScript

/-- The decimal number `digits · 10 ^ power`. -/
structure Decimal where
  digits : Nat
  power : Int
  deriving DecidableEq, Repr, Inhabited

namespace Shortest

/-- A nonnegative rational number, as numerator and positive denominator. -/
structure Ratio where
  num : Nat
  den : Nat

def Ratio.le (a b : Ratio) : Bool := a.num * b.den ≤ b.num * a.den

def Ratio.lt (a b : Ratio) : Bool := a.num * b.den < b.num * a.den

/-- The number `n · base ^ e`. -/
def scaled (n base : Nat) (e : Int) : Ratio := ⟨n * Nat.pow base e.toNat, Nat.pow base (-e).toNat⟩

/-- The interval of reals that read back as `m · 2 ^ e`.  Below a power of two the floats
lie twice as dense, except at the least exponent. -/
structure Interval where
  lower : Ratio
  upper : Ratio
  closed : Bool

def interval (m : Nat) (e : Int) : Interval where
  lower := scaled (if m = Nat.pow 2 52 ∧ -1074 < e then 4 * m - 1 else 4 * m - 2) 2 (e - 2)
  upper := scaled (4 * m + 2) 2 (e - 2)
  closed := m % 2 = 0

def Interval.contains (i : Interval) (r : Ratio) : Bool :=
  if i.closed then i.lower.le r && r.le i.upper else i.lower.lt r && r.lt i.upper

/-- The exponent of the leading decimal digit of a positive rational number. -/
def leading (r : Ratio) : Int :=
  if r.den ≤ r.num then
    (Nat.toDigits 10 (r.num / r.den)).length - 1
  else
    let length := (Nat.toDigits 10 (r.den / r.num)).length
    if r.num * Nat.pow 10 (length - 1) = r.den then -(length - 1 : Int) else -(length : Int)

/-- The neighbour of `r` on the grid of multiples of `10 ^ power` that lies in the
interval and is nearest to `r`. -/
def onGrid? (r : Ratio) (i : Interval) (power : Int) : Option Nat :=
  let unit := scaled 1 10 power
  let below := r.num * unit.den / (r.den * unit.num)
  let above := below + 1
  let hitBelow := i.contains (scaled below 10 power)
  let hitAbove := i.contains (scaled above 10 power)
  if hitBelow && hitAbove then
    -- twice the number against the sum of its neighbours
    let twice := 2 * r.num * unit.den
    let sum := (2 * below + 1) * r.den * unit.num
    if twice < sum then some below
    else if sum < twice then some above
    else if below % 2 = 0 then some below else some above
  else if hitBelow then some below
  else if hitAbove then some above
  else none

/-- Tries grids of `count`, `count + 1`, … digits. -/
def search (r : Ratio) (i : Interval) (lead : Int) : Nat → Nat → Decimal
  | 0, count => ⟨(onGrid? r i (lead - count)).getD 0, lead - count⟩
  | tries + 1, count =>
    match onGrid? r i (lead - count) with
    | some d => ⟨d, lead - count⟩
    | none => search r i lead tries (count + 1)

/-- The fewest decimal digits that read back as `m · 2 ^ e`, for `m` positive. -/
def digits (m : Nat) (e : Int) : Decimal :=
  let r := scaled m 2 e
  search r (interval m e) (leading r) 17 0

end Shortest

/-! ## Layout -/

/-- How a format writes a decimal number; an exponent always has a sign. -/
structure Layout where
  /-- Leading exponents from this one on are written positionally … -/
  least : Int
  /-- … up to, but not including, this one. -/
  bound : Int
  /-- The least number of digits of an exponent. -/
  width : Nat

namespace Decimal

/-- The same number without zeros at the end of its digits. -/
def trim (d : Decimal) : Decimal :=
  let text := Nat.toDigits 10 d.digits
  let zeros := (text.reverse.takeWhile (· == '0')).length
  if d.digits = 0 then ⟨0, 0⟩ else ⟨d.digits / Nat.pow 10 zeros, d.power + zeros⟩

/-- Writes a decimal number in the given layout; a positional number always shows a
point and a digit after it. -/
def layout (style : Layout) (decimal : Decimal) : String :=
  let d := decimal.trim
  let text := Nat.toDigits 10 d.digits
  let lead : Int := d.power + text.length - 1
  if style.least ≤ lead ∧ lead < style.bound then
    if 0 ≤ d.power then
      String.ofList (text ++ List.replicate d.power.toNat '0') ++ ".0"
    else if 0 ≤ lead then
      String.ofList (text.take (lead.toNat + 1)) ++ "." ++
        String.ofList (text.drop (lead.toNat + 1))
    else
      "0." ++ String.ofList (List.replicate (-lead - 1).toNat '0' ++ text)
  else
    let tail := text.drop 1
    let exponent := Nat.toDigits 10 lead.natAbs
    String.ofList (text.take 1)
      ++ (if tail.isEmpty then "" else "." ++ String.ofList tail)
      ++ "e" ++ (if lead < 0 then "-" else "+")
      ++ String.ofList (List.replicate (style.width - exponent.length) '0' ++ exponent)

end Decimal

/-- The words that a format has for the numbers that are not finite. -/
structure Layout.Words where
  nan : String
  infinity : String

/-- Writes a float with the fewest digits that read back. -/
def Exact.write (style : Layout) (words : Layout.Words) : Exact → String
  | .nan => words.nan
  | .infinite negative => (if negative then "-" else "") ++ words.infinity
  | .finite negative m e =>
    (if negative then "-" else "") ++
      Decimal.layout style (if m = 0 then ⟨0, 0⟩ else Shortest.digits m e)

end TickScript
