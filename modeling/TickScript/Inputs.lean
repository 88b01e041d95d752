import TickScript.Key
import TickScript.Fault
/-!
# Inputs

What an input cell says is to be held on a tick.  A text is read letter by letter.  A list
is taken item by item: the full names of keys stand for the keys, and any other item is
kept aside as a stray, which no channel shows but which still counts as something held.

* `Inputs.read`: an input cell.
* `Inputs.codes`: the letters of the keys.
-/

namespace TickScript

structure Inputs where
  keys : KeySet
  strays : List Value := []
  deriving Inhabited

namespace Inputs

/-- Nothing held. -/
def none : Inputs := ⟨KeySet.empty, []⟩

def ofKeys (s : KeySet) : Inputs := ⟨s, []⟩

def codes (i : Inputs) : String := i.keys.codes

def isEmpty (i : Inputs) : Bool := i.keys.isEmpty && i.strays.isEmpty

def count (i : Inputs) : Nat := i.keys.size + i.strays.length

def addStray (strays : List Value) (v : Value) : List Value :=
  if strays.any v.sameItem then strays else strays ++ [v]

def union (a b : Inputs) : Inputs :=
  ⟨a.keys.union b.keys, b.strays.foldl addStray a.strays⟩

def diff (a b : Inputs) : Inputs :=
  ⟨a.keys.diff b.keys, a.strays.filter fun v => !b.strays.any v.sameItem⟩

/-- Reads a text letter by letter; the first unknown letter is at fault. -/
def ofCodes : List Char → KeySet → Except Fault KeySet
  | [], held => .ok held
  | c :: rest, held =>
    match Key.ofCode? c with
    | some k => ofCodes rest (held.insert k)
    | .none => .error (.invalidKeyCode c)

/-- Takes one item of a list; a list, an object or a labelled test is no item. -/
def addItem (i : Inputs) : Value → Except Fault Inputs
  | .text s =>
    match Key.ofName? s with
    | some k => .ok { i with keys := i.keys.insert k }
    | .none => .ok { i with strays := addStray i.strays (.text s) }
  | .list _ | .object _ | .native _ (some _) => .error .kind
  | v => .ok { i with strays := addStray i.strays v }

def ofItems (items : List Value) : Except Fault Inputs := items.foldlM addItem none

/-- Reads an input cell. -/
def read : Value → Except Fault Inputs
  | .text s => (ofCodes s.toList KeySet.empty).map ofKeys
  | .list items => ofItems items
  | .object fields => ofItems (fields.map fun (key, _) => .text key)
  | _ => .error .kind

end Inputs

/-- The items that a value is made of, where a list is expected: the letters of a text,
the keys of an object. -/
def Value.items : Value → Except Fault (List Value)
  | .list items => .ok items
  | .text s => .ok (s.toList.map fun c => .text (String.singleton c))
  | .object fields => .ok (fields.map fun (key, _) => .text key)
  | _ => .error .kind

end TickScript
