import TickScript.Text.Blank
/-!
# Confirmations

A command that destroys something asks first.  Yes and no may be shortened to one letter,
in any case; an empty line declines, and any other line is no answer.

* `Confirmation.ofLine?`: what one line answers.
* `Confirmation.read`: the first answer of an input.
-/

namespace TickScript

namespace Confirmation

/-- The lines of an input; a line ends with a line feed, a carriage return or both. -/
def lines (cs : List Char) : List String :=
  go cs []
where
  go : List Char → List Char → List String
    | [], [] => []
    | [], seen => [String.ofList seen.reverse]
    | '\r' :: '\n' :: rest, seen => String.ofList seen.reverse :: go rest []
    | c :: rest, seen =>
      if c = '\n' ∨ c = '\r' then String.ofList seen.reverse :: go rest []
      else go rest (c :: seen)

/-- Blanks and the information separators, which do not count around an answer. -/
def isIgnored (c : Char) : Bool := Text.isBlank c || (0x1C ≤ c.toNat && c.toNat ≤ 0x1F)

/-- What one line answers, if it is an answer.  Nothing at all declines. -/
def ofLine? (line : String) : Option Bool :=
  let cs := (line.toList.dropWhile isIgnored).reverse.dropWhile isIgnored
  match String.ofList (cs.reverse.map Char.toLower) with
  | "y" | "yes" => some true
  | "n" | "no" | "" => some false
  | _ => none

/-- The first line that is an answer counts; without any the question is declined. -/
def read (input : String) : Bool := ((lines input.toList).findSome? ofLine?).getD false

end Confirmation

end TickScript
