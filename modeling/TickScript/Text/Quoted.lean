/-!
# Quoted text

A text is shown between single quotes, or between double quotes when it holds a single
quote and no double quote.  The quote in use and the backslash are escaped, and so is
every character that has no printed form.

* `Quoted.write`: the quoted form.
* `Quoted.mark`: which quote is used.
-/

namespace TickScript.Text.Quoted

/-- Control and format characters, separators other than the space, surrogates and
private characters. -/
def unprintable : List (Nat × Nat) :=
  [(0x0, 0x1F), (0x7F, 0xA0), (0xAD, 0xAD), (0x600, 0x605), (0x61C, 0x61C), (0x6DD, 0x6DD),
   (0x70F, 0x70F), (0x890, 0x891), (0x8E2, 0x8E2), (0x1680, 0x1680), (0x180E, 0x180E),
   (0x2000, 0x200F), (0x2028, 0x202F), (0x205F, 0x2064), (0x2066, 0x206F), (0x3000, 0x3000),
   (0xD800, 0xF8FF), (0xFEFF, 0xFEFF), (0xFFF9, 0xFFFB), (0x110BD, 0x110BD),
   (0x110CD, 0x110CD), (0x13430, 0x13438), (0x1BCA0, 0x1BCA3), (0x1D173, 0x1D17A),
   (0xE0001, 0xE0001), (0xE0020, 0xE007F), (0xF0000, 0xFFFFD), (0x100000, 0x10FFFD)]

def isPrintable (c : Char) : Bool :=
  !unprintable.any fun (first, last) => first ≤ c.toNat && c.toNat ≤ last

/-- Hexadecimal digits, padded with zeros to a width. -/
def hex (width n : Nat) : List Char :=
  let text := Nat.toDigits 16 n
  List.replicate (width - text.length) '0' ++ text

/-- Double quotes serve a text that holds a single quote and no double quote. -/
def mark (cs : List Char) : Char :=
  if cs.contains '\'' && !cs.contains '"' then '"' else '\''

def escape (quote c : Char) : List Char :=
  if c = quote ∨ c = '\\' then ['\\', c]
  else if c = '\n' then ['\\', 'n']
  else if c = '\r' then ['\\', 'r']
  else if c = '\t' then ['\\', 't']
  else if isPrintable c then [c]
  else if c.toNat < 0x100 then '\\' :: 'x' :: hex 2 c.toNat
  else if c.toNat < 0x10000 then '\\' :: 'u' :: hex 4 c.toNat
  else '\\' :: 'U' :: hex 8 c.toNat

/-- The quoted form of a text. -/
def write (s : String) : String :=
  let quote := mark s.toList
  String.ofList (quote :: s.toList.flatMap (escape quote) ++ [quote])

end TickScript.Text.Quoted
