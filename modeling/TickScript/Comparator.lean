import TickScript.Fault
/-!
# Comparators

A comparison is exact: whole numbers of any size and decimal numbers are compared by
value, never rounded to one another.  A number that is not a number is unequal to
everything and in no order.  Values that are not numbers are unequal to every number, and
an order with them is an error.

* `Comparator.ofToken`: the comparator of a token.
* `Comparator.holds`: compares a number with a value.
-/

namespace TickScript

inductive Comparator where
  | lt | le | eq | ne | ge | gt
  deriving DecidableEq, Repr, Inhabited

namespace Comparator

/-- The comparator of a token; there are two tokens for "not equal". -/
def ofToken : Value → Except Fault Comparator
  | .text "<" => .ok lt
  | .text "<=" => .ok le
  | .text "==" => .ok eq
  | .text "~=" => .ok ne
  | .text "!=" => .ok ne
  | .text ">=" => .ok ge
  | .text ">" => .ok gt
  | .text token => .error (.unknownComparator token)
  | v => .error (.comparatorKind v)

/-- Whether a comparator accepts an order; `none` is the order of numbers of which one is
not a number. -/
def accepts : Comparator → Option Ordering → Bool
  | lt, o => o == some .lt
  | le, o => o == some .lt || o == some .eq
  | eq, o => o == some .eq
  | ne, o => o != some .eq
  | ge, o => o == some .gt || o == some .eq
  | gt, o => o == some .gt

/-- Compares a number with a value. -/
def holds (c : Comparator) (number : Exact) (v : Value) : Except Fault Bool :=
  match v.numeric? with
  | some other => .ok (c.accepts (number.compare other))
  | none =>
    match c with
    | eq => .ok false
    | ne => .ok true
    | _ => .error .kind

theorem accepts_ne (o : Option Ordering) : ne.accepts o = !eq.accepts o := rfl

end Comparator

end TickScript
