/-!
# The exact value of a float

A finite binary64 number is `± m · 2 ^ e` with integers `m` and `e`.  Reading the number
off its bits turns comparison with an integer of any size, truncation and printing into
exact integer arithmetic.

* `Exact.ofFloat`: the reading.
* `Exact.compare`: order of two readings; a number that is not a number has none.
* `Exact.truncate?`: the integer part, rounded toward zero.
* `Exact.compare_ofInt`: integers are compared as integers.
-/

namespace TickScript

/-- What the bits of a float stand for.  An integer is the reading `finite _ m 0`. -/
inductive Exact where
  | nan
  | infinite (negative : Bool)
  /-- The number `± mantissa · 2 ^ exponent`. -/
  | finite (negative : Bool) (mantissa : Nat) (exponent : Int)
  deriving DecidableEq, Repr, Inhabited

namespace Exact

/-- Reads sign, exponent and fraction off the 64 bits. -/
def ofBits (bits : Nat) : Exact :=
  let negative := bits.testBit 63
  let biased : Nat := bits / Nat.pow 2 52 % Nat.pow 2 11
  let fraction := bits % Nat.pow 2 52
  if biased = 2047 then
    if fraction = 0 then .infinite negative else .nan
  else if biased = 0 then
    .finite negative fraction (-1074)
  else
    .finite negative (Nat.pow 2 52 + fraction) ((biased : Int) - 1075)

def ofFloat (x : Float) : Exact := ofBits x.toBits.toNat

def ofInt (n : Int) : Exact := .finite (n < 0) n.natAbs 0

/-- The numerator over the common denominator `2 ^ max (-exponent) 0`. -/
def numerator (negative : Bool) (mantissa : Nat) (exponent : Int) : Int :=
  let magnitude : Int := mantissa * Int.pow 2 exponent.toNat
  if negative then -magnitude else magnitude

def denominator (exponent : Int) : Nat := Nat.pow 2 (-exponent).toNat

/-- The order of two numbers; `none` if one of them is not a number. -/
def compare : Exact → Exact → Option Ordering
  | .nan, _ => none
  | _, .nan => none
  | .infinite a, .infinite b =>
    some (if a = b then .eq else if a then .lt else .gt)
  | .infinite a, .finite .. => some (if a then .lt else .gt)
  | .finite .., .infinite b => some (if b then .gt else .lt)
  | .finite na ma ea, .finite nb mb eb =>
    some (Ord.compare (numerator na ma ea * denominator eb) (numerator nb mb eb * denominator ea))

/-- The integer part, rounded toward zero; only finite numbers have one. -/
def truncate? : Exact → Option Int
  | .finite negative mantissa exponent =>
    some ((numerator negative mantissa exponent).tdiv (denominator exponent))
  | _ => none

/-- The integer with the same value, if there is one. -/
def toInt? (x : Exact) : Option Int :=
  x.truncate?.filter fun n => x.compare (ofInt n) == some .eq

theorem numerator_ofInt (n : Int) : numerator (n < 0) n.natAbs 0 = n := by
  have hone : Int.pow 2 (0 : Int).toNat = 1 := rfl
  unfold numerator
  by_cases h : n < 0
  · simp only [h, decide_true, if_true, hone, Int.mul_one]
    omega
  · simp only [h, decide_false, Bool.false_eq_true, if_false, hone, Int.mul_one]
    omega

/-- Integers are compared as integers. -/
theorem compare_ofInt (a b : Int) : (ofInt a).compare (ofInt b) = some (Ord.compare a b) := by
  simp [ofInt, compare, numerator_ofInt, denominator]

/-- An integer is its own integer part. -/
theorem truncate?_ofInt (n : Int) : (ofInt n).truncate? = some n := by
  simp [ofInt, truncate?, numerator_ofInt, denominator]

end Exact

end TickScript
