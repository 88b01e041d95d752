import TickScript.Cells
import TickScript.Field
import TickScript.Files
import TickScript.Json.Reader
import TickScript.Json.Writer
/-!
# Program files

The program of a level is kept in a file beside its recording.  It has either one program
for the whole level or one for each section, which takes over when the player enters the
section.

* `Level.programPath`: where the program of a level is.
* `ProgramFile.load`: the file as data; a missing file is an empty program.
* `ProgramFile.compile`: all cells read.
* `ProgramFile.compileOn`: the same on a stack that may be too small for it.
-/

namespace TickScript

/-! ## Levels -/

namespace Level

/-- The extensions of level files. -/
def extensions : List String := [".lvlx", ".lvl"]

/-- The name of a level file without its extension. -/
def stem (level : String) : String :=
  let name := (Path.parse level).name
  match extensions.find? fun e => e.toList.isSuffixOf name.toList with
  | some e => String.ofList (name.toList.take (name.length - e.length))
  | none => name

/-- A file of a level in a directory. -/
def file (directory : Path) (level extension : String) : Path :=
  directory.join (.parse (stem level ++ extension))

def programPath (directory : Path) (level : String) : Path := file directory level ".json"

def recordingPath (directory : Path) (level : String) : Path := file directory level ".rec"

def backupPath (directory : Path) (backupName : String) : Path :=
  directory.join (.parse backupName)

end Level

/-! ## Section tables -/

/-- Sets the entry of a key; a known key keeps its place. -/
def setEntry {α : Type} (table : List (Int × α)) (key : Int) (a : α) : List (Int × α) :=
  if table.any (·.1 == key) then table.map fun t => if t.1 == key then (key, a) else t
  else table ++ [(key, a)]

/-- A table from section numbers to lists of cells. -/
def sectionCells? (v : Value) : Option (List (Int × List Value)) := do
  let fields ← Field.object? v
  fields.foldlM (fun table (key, v) => do
    let section_ ← Numeral.wholeInt? key
    let cells ← Field.list? v
    return setEntry table section_ cells) []

/-! ## Program files -/

/-- A program file as it is on disk. -/
structure ProgramFile where
  isGlobal : Bool := false
  seed : Option Int := none
  legacySeed : Option Int := none
  steps : List Value := []
  sections : List (Int × List Value) := []
  deriving Inhabited

/-- A program file with all cells read. -/
structure LevelProgram where
  isGlobal : Bool := false
  steps : List Step := []
  sections : List (Int × List Step) := []
  seed : Int
  legacySeed : Int
  deriving Inhabited

/-- The program that runs in a section. -/
def LevelProgram.forSection (p : LevelProgram) (sectionId : Int) : Option (List Step) :=
  if p.isGlobal then some p.steps else p.sections.lookup sectionId

/-- The steps of all sections. -/
def LevelProgram.allSteps (p : LevelProgram) : List Step := p.steps ++ p.sections.flatMap (·.2)

namespace ProgramFile

/-- A field under either of two names, of which the first wins. -/
def named (fields : List (String × Value)) (name other : String) : String :=
  if (fields.lookup name).isSome then name else other

def ofValue? (v : Value) : Option ProgramFile := do
  let fields ← Field.object? v
  let isGlobal ← Field.get fields (named fields "global" "is_global") false Field.bool?
  let seed ← Field.get fields "seed" none (Field.optional? Field.int?)
  let legacySeed ←
    Field.get fields (named fields "legacySeed" "legacy_seed") none (Field.optional? Field.int?)
  let steps ← Field.get fields "steps" [] Field.list?
  let sections ← Field.get fields "sections" [] sectionCells?
  return { isGlobal, seed, legacySeed, steps, sections }

/-- Reads a program file; without a file the program is empty. -/
def load (files : Files) (path : Path) : Except Fault ProgramFile :=
  match files.read? path with
  | some text =>
    match Json.read? .narrowNumbers text with
    | none => .error (.malformedProgram path.render .text)
    | some v =>
      match ofValue? v with
      | none => .error (.malformedProgram path.render .shape)
      | some file => .ok file
  | none => if files.isDirectory path then .error .directory else .ok {}

/-- Reads the cells of every section. -/
def compileSections (known : Catalogue) :
    List (Int × List Value) → Except Fault (List (Int × List Step))
  | [] => .ok []
  | (key, cells) :: rest => do
    let steps ← known.readCells cells
    let sections ← compileSections known rest
    return (key, steps) :: sections

/-- Reads all cells of a program file. -/
def compile (file : ProgramFile) (known : Catalogue) (defaultSeed : Int) :
    Except Fault LevelProgram := do
  let steps ← if file.isGlobal then known.readCells file.steps else .ok []
  let sections ← compileSections known file.sections
  return {
    isGlobal := file.isGlobal
    steps, sections
    seed := file.seed.getD defaultSeed
    legacySeed := file.legacySeed.getD defaultSeed }

/-- Whether no more than so many lists and objects stand inside one another. -/
def isWithin (levels : Nat) (file : ProgramFile) : Bool :=
  Json.areWithin levels file.steps && file.sections.all fun s => Json.areWithin levels s.2

end ProgramFile

/-! ## Deep nesting -/

/-- The call stack, given what it is large enough for. -/
structure Stack where
  /-- To read the cells of a file, and to show the one that cannot be read. -/
  reads : ProgramFile → Bool
  /-- To describe a step. -/
  describes : Step → Bool
  /-- So many lists and objects inside one another are never too many. -/
  levels : Nat
  reads_of_isWithin : ∀ file : ProgramFile, file.isWithin levels = true → reads file = true
  describes_of_isWithin : ∀ (file : ProgramFile) (known : Catalogue) (defaultSeed : Int)
    (p : LevelProgram), file.isWithin levels = true → file.compile known defaultSeed = .ok p →
      ∀ s ∈ p.allSteps, describes s = true

/-- A stack that is always large enough.  No file has more levels than its reader allows. -/
def Stack.unbounded : Stack where
  reads _ := true
  describes _ := true
  levels := 1024
  reads_of_isWithin _ _ := rfl
  describes_of_isWithin _ _ _ _ _ _ _ _ := rfl

/-- Reads all cells of a program file, if the stack is large enough. -/
def ProgramFile.compileOn (stack : Stack) (file : ProgramFile) (known : Catalogue)
    (defaultSeed : Int) : Except Fault LevelProgram :=
  if stack.reads file then file.compile known defaultSeed else .error .nesting

end TickScript
