import TickScript.Number.Exact
/-!
# Numbers with a fixed count of decimal places

A float is rounded to a multiple of `10 ^ -places`, exactly, a half going to the even
neighbour.

* `Places.round_error`: the rounded quotient is within half a unit of the quotient.
* `Exact.fixed`: the text of the rounded number.
-/

namespace TickScript

namespace Places

/-- The integer nearest to `num / den`; a half goes to the even neighbour. -/
def round (num den : Nat) : Nat :=
  let below := num / den
  let twice := 2 * (num % den)
  if twice < den then below
  else if den < twice then below + 1
  else if below % 2 = 0 then below else below + 1

/-- The rounded quotient is within half a unit of the quotient. -/
theorem round_error (num : Nat) {den : Nat} (h : 0 < den) :
    2 * (round num den * den) ≤ 2 * num + den ∧ 2 * num ≤ 2 * (round num den * den) + den := by
  have hdiv : den * (num / den) + num % den = num := Nat.div_add_mod num den
  have hlt : num % den < den := Nat.mod_lt num h
  have hsucc : (num / den + 1) * den = num / den * den + den := Nat.succ_mul _ _
  have hcomm : num / den * den = den * (num / den) := Nat.mul_comm _ _
  unfold round
  dsimp only
  split
  · omega
  · split
    · omega
    · split <;> omega

end Places

/-- A number with a fixed count of decimal places, at least one. -/
def Exact.fixed (places : Nat) : Exact → String
  | .nan => "nan"
  | .infinite negative => if negative then "-inf" else "inf"
  | .finite negative m e =>
    let units := Places.round ((numerator false m e).natAbs * Nat.pow 10 places) (denominator e)
    let text := Nat.toDigits 10 units
    let padded := List.replicate (places + 1 - text.length) '0' ++ text
    let whole := padded.length - places
    (if negative then "-" else "") ++ String.ofList (padded.take whole) ++ "." ++
      String.ofList (padded.drop whole)

end TickScript
