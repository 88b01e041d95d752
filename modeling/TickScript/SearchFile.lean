import TickScript.Search
import TickScript.Field
import TickScript.Files
import TickScript.Json.Reader
import TickScript.Json.Writer
/-!
# The file of a search

The record of a search is kept in a file, so that the search goes on after a restart.  A
file that cannot be read counts as no knowledge at all.  The reader of the file may have a
limit for the length of a whole number; without one it takes numbers of any size.

* `SearchRecord.write`, `SearchRecord.read?`: the text of a record and back.
* `SearchRecord.load`: the record that a file holds.
-/

namespace TickScript.SearchRecord

def number : Option Int → Value
  | some n => .int n
  | none => .null

/-- A record as data. -/
def toValue (r : SearchRecord) : Value :=
  .object
    [("lo_bound", number r.low), ("hi_bound", number r.high), ("mid_value", number r.middle),
     ("history", .list (r.history.map .int)), ("last_saved", .text r.lastSaved)]

def write (r : SearchRecord) : String := Json.write r.toValue

/-- Sets the fields that are given; unknown fields are left alone. -/
def override? (r : SearchRecord) (fields : List (String × Value)) : Option SearchRecord := do
  let low ← Field.get fields "lo_bound" r.low (Field.optional? Field.int?)
  let high ← Field.get fields "hi_bound" r.high (Field.optional? Field.int?)
  let middle ← Field.get fields "mid_value" r.middle (Field.optional? Field.int?)
  let history ← Field.get fields "history" r.history fun v => do
    (← Field.list? v).mapM Field.int?
  let lastSaved ← Field.get fields "last_saved" r.lastSaved Field.text?
  return { low, high, middle, history, lastSaved }

/-- A record from data; fields that are not there say that nothing is known. -/
def ofValue? (now : String) (v : Value) : Option SearchRecord :=
  Field.object? v >>= (fresh now).override?

/-- A record from a text, by a reader that takes whole numbers up to a length. -/
def read? (now : String) (text : String) (length : Option Nat := none) :
    Option SearchRecord := do
  let v ← Json.read? (.wideNumbers length) text
  ofValue? now v

/-- Loads the record of a file, and tells whether there was one.  Without a file the
record stays as it is; a file that cannot be read leaves a fresh one. -/
def load (r : SearchRecord) (files : Files) (path : Path) (now : String)
    (length : Option Nat := none) : Bool × SearchRecord :=
  if files.holds path then
    match files.read? path >>= (read? now · length) with
    | some loaded => (true, loaded)
    | none => (false, fresh now)
  else
    (false, r)

/-- Saves the record under the time of saving. -/
def save (r : SearchRecord) (files : Files) (path : Path) (now : String) :
    SearchRecord × Files :=
  let r := { r with lastSaved := now }
  (r, files.write path r.write)

end TickScript.SearchRecord
