/-!
# File paths

A path is a root and a list of names.  Empty names and names that are a single point say
nothing and are left out; two points are kept.

* `Path.parse`, `Path.render`: from text and back.
* `Path.join`: a path below a directory; an absolute path stands for itself.
* `Path.resolve`: the names that lead from the working directory to the file.
-/

namespace TickScript

structure Path where
  /-- Empty for a relative path. -/
  root : String
  names : List String
  deriving DecidableEq, Repr, Inhabited

namespace Path

/-- Splits a text at every slash. -/
def split : List Char → List (List Char)
  | [] => [[]]
  | c :: rest =>
    match split rest with
    | [] => [[c]]
    | piece :: pieces => if c = '/' then [] :: piece :: pieces else (c :: piece) :: pieces

def pieces (s : String) : List String :=
  ((split s.toList).map String.ofList).filter fun n => n != "" && n != "."

def parse (s : String) : Path where
  root :=
    let slashes := (s.toList.takeWhile (· == '/')).length
    if slashes = 0 then "" else if slashes = 2 then "//" else "/"
  names := pieces s

def isAbsolute (p : Path) : Bool := p.root != ""

/-- The text of a path; the working directory is a single point. -/
def render (p : Path) : String :=
  if p.root == "" && p.names.isEmpty then "." else p.root ++ "/".intercalate p.names

def join (directory path : Path) : Path :=
  if path.isAbsolute then path else ⟨directory.root, directory.names ++ path.names⟩

/-- The last name, empty if there is none. -/
def name (p : Path) : String := p.names.getLast?.getD ""

def parent (p : Path) : Path := ⟨p.root, p.names.dropLast⟩

/-- The last name without its last extension.  A point at either end of the name starts
no extension. -/
def stem (p : Path) : String :=
  let cs := p.name.toList
  let extension := cs.reverse.takeWhile (· != '.')
  if extension.length = cs.length ∨ extension.isEmpty ∨ extension.length + 1 = cs.length then
    p.name
  else
    String.ofList (cs.take (cs.length - extension.length - 1))

/-- Follows the names from the working directory; two points go one directory up.  The
names of an absolute path start with an empty one. -/
def resolve (p : Path) : List String :=
  let names := (p.names.foldl (fun (walked : List String) n =>
    if n == ".." then walked.drop 1 else n :: walked) []).reverse
  if p.isAbsolute then "" :: names else names

example : (parse "./o//p.json").render = "o/p.json" := by decide +kernel
example : (parse "").render = "." := by decide +kernel
example : (parse "a/.").name = "a" := by decide +kernel

end Path

end TickScript
