/-!
# What is printed

A command prints lines, tables and boxed texts.  Texts carry marks in brackets for their
style, and a console takes whatever looks like a mark for one.

* `Printed.plain`: what is printed, laid out without styles.
* `Console.shows`: whether a console can make sense of the marks.
-/

namespace TickScript

inductive Printed where
  | line (text : String)
  | table (title : String) (columns : List String) (rows : List (List String))
  /-- A text of several lines in a box. -/
  | panel (title text : String)
  deriving DecidableEq, Repr, Inhabited

namespace Printed

/-- Puts a text between the marks of a style. -/
def styled (style text : String) : String := "[" ++ style ++ "]" ++ text ++ "[/" ++ style ++ "]"

/-- The styles in use. -/
def styles : List String := ["red", "green", "yellow", "dim"]

/-- Removes the marks of one style. -/
def unstyled (text style : String) : String :=
  (text.replace ("[" ++ style ++ "]") "").replace ("[/" ++ style ++ "]") ""

def plainText (text : String) : String := styles.foldl unstyled text

def pad (width : Nat) (text : String) : String := text.pushn ' ' (width - text.length)

/-- Every text that is read for marks. -/
def texts : Printed → List String
  | line text => [text]
  | table title columns rows => title :: columns ++ rows.flatten
  | panel title text => [title, text]

/-- The cells of a table in columns of equal width. -/
def layout (rows : List (List String)) : List String :=
  let columns := (rows.map List.length).foldl max 0
  let widths := (List.range columns).map fun i =>
    (rows.map fun row => (row.getD i "").length).foldl max 0
  rows.map fun row => "  ".intercalate (row.zipWith (fun cell width => pad width cell) widths)

/-- What is printed, laid out without styles. -/
def plain : Printed → List String
  | line text => [plainText text]
  | table title columns rows => title :: layout (columns :: rows.map (·.map plainText))
  | panel title text => title :: (plainText text).splitOn "\n"

end Printed

/-- A console, given the texts whose marks it can make sense of.  A text without brackets has no
marks; a mark that closes what was never opened makes no sense. -/
structure Console where
  accepts : String → Bool

namespace Console

/-- Shows every text. -/
def lenient : Console := ⟨fun _ => true⟩

def shows (c : Console) (p : Printed) : Bool := p.texts.all c.accepts

end Console

end TickScript
