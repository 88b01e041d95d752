import TickScript.ProgramFile
import TickScript.Json.Writer
/-!
# Recordings

A recording holds for each section what was held on its ticks, run by run: the keys, then
the number of ticks.  Its cells are those of a program, so a recording plays back as a
program whose steps are all countdowns.

* `Runs.ofLog`, `Runs.toLog`: ticks to runs and back.
* `encodeLog`: ticks to cells.
* `Recorder.record`: one tick.
* `Recording.load`, `Recording.save`: the file.
* `Runs.toLog_ofLog`: the runs of a log play back as the log.
-/

namespace TickScript

/-! ## Runs -/

/-- Keys and the number of ticks that they are held. -/
abbrev Runs := List (KeySet × Nat)

namespace Runs

/-- One more tick at the end. -/
def push (runs : Runs) (keys : KeySet) : Runs :=
  match runs.getLast? with
  | some (last, n) => if last = keys then runs.dropLast ++ [(last, n + 1)] else runs ++ [(keys, 1)]
  | none => [(keys, 1)]

/-- The runs of a log of ticks. -/
def ofLog (log : List KeySet) : Runs := log.foldl push []

/-- The ticks that runs stand for. -/
def toLog (runs : Runs) : List KeySet := runs.flatMap fun (keys, n) => List.replicate n keys

/-- Runs as cells. -/
def cells (runs : Runs) : List Value := runs.flatMap fun (keys, n) => [.text keys.codes, .int n]

@[simp] theorem toLog_append (a b : Runs) : toLog (a ++ b) = toLog a ++ toLog b := by
  simp [toLog]

theorem toLog_push (runs : Runs) (keys : KeySet) :
    toLog (push runs keys) = toLog runs ++ [keys] := by
  unfold push
  split
  · next last n h =>
    obtain ⟨front, rfl⟩ := List.getLast?_eq_some_iff.mp h
    split
    · next heq =>
      subst heq
      simp [toLog, List.replicate_succ']
    · simp [toLog]
  · next h =>
    rw [List.getLast?_eq_none_iff] at h
    subst h
    rfl

/-- The runs of a log play back as the log. -/
theorem toLog_ofLog (log : List KeySet) : toLog (ofLog log) = log := by
  have general : ∀ runs : Runs, toLog (log.foldl push runs) = toLog runs ++ log := by
    induction log with
    | nil => simp
    | cons keys rest ih =>
      intro runs
      rw [List.foldl_cons, ih, toLog_push]
      simp
  simpa [ofLog, toLog] using general []

end Runs

/-! ## Encoding a log -/

/-- One more tick at the end of the cells of a log.  The last two cells are the letters and
the length of the last run. -/
def extendCells (cells : List Value) (keys : KeySet) : List Value :=
  match cells.reverse with
  | .int n :: .text codes :: before =>
    if codes = keys.codes then before.reverse ++ [.text codes, .int (n + 1)]
    else cells ++ [.text keys.codes, .int 1]
  | _ => cells ++ [.text keys.codes, .int 1]

/-- Writes a log of ticks as cells, run by run. -/
def encodeLog (log : List KeySet) : List Value := log.foldl extendCells []

/-! ## Playback -/

/-- Steps that are all countdowns, with what they count down from. -/
def countdowns? : List Step → Option (List (Inputs × Int))
  | [] => some []
  | .mk i (.countdown n) :: rest => (countdowns? rest).map ((i, n) :: ·)
  | _ => none

/-- Reads cells of which every condition is a countdown. -/
def decodeCells (cells : Value) : Except Fault (List Step) := do
  let steps ← Catalogue.empty.readSteps cells
  match countdowns? steps with
  | some _ => return steps
  | none => .error .recordingCondition

/-- The ticks that countdown steps are played on. -/
def expandSteps (steps : List Step) : List Inputs :=
  ((countdowns? steps).getD []).flatMap fun (i, n) => List.replicate n.toNat i

/-! ## Recording a level -/

/-- What was held so far, section by section in the order of the first visits. -/
structure Recorder where
  sections : List (Int × Runs) := []
  lastSection : Option Int := none
  deriving Inhabited, Repr, DecidableEq

namespace Recorder

def isEmpty (r : Recorder) : Bool := r.sections.all (·.2.isEmpty)

def runs (r : Recorder) (sectionId : Int) : Runs := (r.sections.lookup sectionId).getD []

/-- Records one tick. -/
def record (r : Recorder) (sectionId : Int) (keys : KeySet) : Recorder where
  sections := setEntry r.sections sectionId ((r.runs sectionId).push keys)
  lastSection := some sectionId

/-- Shortens an idle run at the end of a list to one tick. -/
def trimIdle (runs : Runs) : Runs :=
  match runs.getLast? with
  | some (keys, _) => if keys = .empty then runs.dropLast ++ [(keys, 1)] else runs
  | none => runs

/-- Shortens an idle run at the end of the last section to one tick. -/
def finalize (r : Recorder) : Recorder :=
  match r.lastSection with
  | none => r
  | some s =>
    match r.sections.lookup s with
    | none => r
    | some runs => { r with sections := setEntry r.sections s (trimIdle runs) }

end Recorder

/-! ## Files -/

/-- A recording as it is on disk. -/
structure Recording where
  version : Int := 0
  sections : List (Int × List Value) := []
  deriving Inhabited

namespace Recording

def ofRecorder (r : Recorder) : Recording where
  sections := r.sections.map fun (s, runs) => (s, runs.cells)

def ofValue? (v : Value) : Option Recording := do
  let fields ← Field.object? v
  let version ← Field.get fields "version" 0 Field.int?
  let sections ← Field.get fields "sections" [] sectionCells?
  return { version, sections }

def toValue (r : Recording) : Value :=
  .object
    [("version", .int r.version),
     ("sections", .object (r.sections.map fun (s, cells) => (toString s, .list cells)))]

/-- Whole numbers that a data file can hold. -/
def fits (n : Int) : Bool := -Int.pow 2 63 ≤ n && n < Int.pow 2 64

/-- How many lists and objects a data file can hold inside one another. -/
def levels : Nat := 254

def write? (r : Recording) : Option String :=
  if (r.sections.all fun (s, _) => fits s) && Json.everyInt fits r.toValue &&
      Json.isWithin levels r.toValue then
    some (Json.write r.toValue)
  else none

def save (r : Recording) (files : Files) (path : Path) : Except Fault Files :=
  match r.write? with
  | some text => .ok (files.write path text)
  | none => .error .kind

/-- Reads a recording; without a file it is empty.  The file is copied to the backup, if
one is named, before it is read. -/
def load (files : Files) (path : Path) (backup : Option Path) :
    Except Fault Recording × Files :=
  match files.read? path with
  | none => (if files.isDirectory path then .error .directory else .ok {}, files)
  | some text =>
    let files := match backup with
      | some b => files.write b text
      | none => files
    match Json.read? .narrowNumbers text with
    | none => (.error (.malformedRecording path.render .text), files)
    | some v =>
      match ofValue? v with
      | none => (.error (.malformedRecording path.render .shape), files)
      | some r => (.ok r, files)

/-- Copies the backup over a recording; without a backup nothing happens. -/
def restore (files : Files) (path backup : Path) : Option Files :=
  (files.read? backup).map (files.write path)

/-- The program that plays a recording back, section by section. -/
def program : List (Int × List Value) → Except Fault (List (Int × List Step))
  | [] => .ok []
  | (s, cells) :: rest => do
    let steps ← decodeCells (.list cells)
    let sections ← program rest
    return (s, steps) :: sections

end Recording

end TickScript
