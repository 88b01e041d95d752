import TickScript.Command.Execute
import TickScript.Proofs.RecordingFile

/-!
# Values of the wrong kind

A cell that is no instruction is announced to the author of a program. What stands where steps,
inputs, choices or a script are expected is not looked at before it is taken apart, so a value
that has no parts, or a part that cannot be held or counted, ends in a defect without a text.

Whether a value is of the kind that is expected can be told from the value alone
(`Catalogue.conditionFits`, `ProgramFile.fits`). It decides what can go wrong: every reader fails
with a defect only if a value is of the wrong kind, and never succeeds if one is (`Judged`).

Apart from the kinds, cells may be nested deeper than the call stack reaches, and a text of the
program may look like marks that the console cannot show.

* `Catalogue.judged_readCondition`: the check and the reader, for all cells at once.
* `ProgramFile.judged_compile`: a whole file.
* `ProgramFile.compileOn_cases`: what the stack changes.
* `Command.check_announces`: what checking a file prints.
-/

namespace TickScript

/-! ## Kinds of values -/

namespace Value

/-- A value that can be one item of a set. -/
def isItem : Value → Bool
  | .list _ | .object _ | .native _ (some _) => false
  | _ => true

/-- A value that inputs can be taken from: letters, items or keys. -/
def isInput : Value → Bool
  | .text _ | .object _ => true
  | .list items => items.all isItem
  | _ => false

/-- A value that a whole number can be made of. -/
def isCount : Value → Bool
  | .bool _ | .int _ => true
  | .float x =>
    match Exact.ofFloat x with
    | .finite .. => true
    | _ => false
  | .text s => (Numeral.int? s).isSome
  | _ => false

/-- A list of inputs to choose from. -/
def isChoices (v : Value) : Bool :=
  match v.items with
  | .ok items => items.all isInput
  | .error _ => false

def isEntry (entry : Value × Value) : Bool := entry.1.isInput && entry.2.isCount

/-- A script: inputs, each with a count. What cannot be paired is announced. -/
def isScript (v : Value) : Bool :=
  match v.items with
  | .ok items =>
    match pairs? items with
    | some entries => entries.all isEntry
    | none =>
      match alternating? items with
      | some entries => entries.all isEntry
      | none => true
  | .error _ => false

end Value

namespace Catalogue

/-- The arguments of a call are of the kinds that the parameters ask for, given how to tell. -/
def callFits (known : Catalogue) (name : String) (args : List Value)
    (plain wrapped : Spec → Bool) : Bool :=
  match known.spec? name with
  | none => true
  | some spec => if spec.variadic && isWrapped args then wrapped spec else plain spec

mutual

/-- Every argument in a condition cell is of the kind that its parameter asks for. -/
def conditionFits (known : Catalogue) : Value → Bool
  | .list (.list items :: rest) =>
    known.callFits "then" (.list items :: rest)
      (fun spec => known.argsFit spec 0 (.list items :: rest))
      (fun spec => known.argsFit spec 0 items)
  | .list (.text name :: args) =>
    match Flag.ofName? name, args with
    | some _, [] => true
    | _, _ =>
      known.callFits name args
        (fun spec => known.argsFit spec 0 args)
        (fun spec => known.wrappedFit spec args)
  | _ => true

def argsFit (known : Catalogue) (spec : Spec) (index : Nat) : List Value → Bool
  | [] => true
  | v :: rest =>
    (v.isNull ||
      match spec.kindFor index with
      | .condition => known.conditionFits v
      | .steps => known.stepsFit v
      | .inputs => v.isInput
      | .inputChoices => v.isChoices
      | .script => v.isScript
      | .value | .comparator => true) &&
    known.argsFit spec (index + 1) rest

def wrappedFit (known : Catalogue) (spec : Spec) : List Value → Bool
  | .list items :: _ => known.argsFit spec 0 items
  | _ => true

def stepsFit (known : Catalogue) : Value → Bool
  | .list cells => known.cellsFit cells
  | .text _ | .object _ => true
  | _ => false

/-- A text fits both as an input and as a condition. -/
def cellsFit (known : Catalogue) : List Value → Bool
  | [] => true
  | cell :: rest => known.conditionFits cell && known.cellsFit rest

end

end Catalogue

/-- Every argument in a program that is read from the file is of the right kind. -/
def ProgramFile.fits (file : ProgramFile) (known : Catalogue) : Bool :=
  (!file.isGlobal || known.cellsFit file.steps) && file.sections.all fun s => known.cellsFit s.2

/-! ## Checks and readers -/

/-- A defect of one value. -/
def Fault.isValueDefect : Fault → Bool
  | kind | badValue | tooLarge => true
  | _ => false

/-- What a reader returns agrees with a check of the kinds: it returns nothing if the check fails,
and if the check passes then only announced causes keep it from returning something. -/
inductive Judged {α : Type} (fits : Bool) : Except Fault α → Prop
  | ok (a : α) (h : fits = true) : Judged fits (.ok a)
  | announced {f : Fault} (hf : f.isAnnounced = true) : Judged fits (.error f)
  | defect {f : Fault} (h : fits = false) (hf : f.isValueDefect = true) : Judged fits (.error f)

namespace Judged

variable {α β : Type} {fits fits' : Bool} {x : Except Fault α}

theorem bind {k : α → Except Fault β} (hx : Judged fits x) (hk : ∀ a, Judged fits' (k a)) :
    Judged (fits && fits') (x >>= k) := by
  cases hx with
  | ok a h =>
    rw [h, Bool.true_and]
    exact hk a
  | announced hf => exact .announced hf
  | defect h hf => exact .defect (by rw [h, Bool.false_and]) hf

theorem map (hx : Judged fits x) (g : α → β) : Judged fits (x.map g) := by
  cases hx with
  | ok a h => exact .ok _ h
  | announced hf => exact .announced hf
  | defect h hf => exact .defect h hf

/-- What is done with a result that is there already. -/
theorem andThen {k : α → Except Fault β} (hx : Judged fits x)
    (hk : ∀ a, ∃ b, k a = .ok b) : Judged fits (x >>= k) := by
  cases hx with
  | ok a h =>
    obtain ⟨b, hb⟩ := hk a
    have hok : (Except.ok a >>= k) = .ok b := hb
    rw [hok]
    exact .ok b h
  | announced hf => exact .announced hf
  | defect h hf => exact .defect h hf

theorem mapM {items : List α} {check : α → Bool} {read : α → Except Fault β}
    (h : ∀ a, Judged (check a) (read a)) : Judged (items.all check) (items.mapM read) := by
  induction items with
  | nil => exact .ok [] rfl
  | cons a items ih =>
    rw [List.mapM_cons, List.all_cons]
    exact (h a).bind fun b => ih.andThen fun bs => ⟨b :: bs, rfl⟩

end Judged

/-! ## Inputs, counts and scripts -/

theorem Inputs.judged_ofCodes (cs : List Char) (held : KeySet) :
    Judged true (ofCodes cs held) := by
  induction cs generalizing held with
  | nil => exact .ok held rfl
  | cons c cs ih =>
    rw [ofCodes]
    split
    · exact ih _
    · exact .announced rfl

theorem Inputs.judged_addItem (i : Inputs) (v : Value) : Judged v.isItem (i.addItem v) := by
  cases v with
  | text s =>
    rw [addItem]
    split <;> exact .ok _ rfl
  | native test label => cases label with
    | none => exact .ok _ rfl
    | some label => exact .defect rfl rfl
  | list | object => exact .defect rfl rfl
  | null | bool | int | float => exact .ok _ rfl

theorem Inputs.judged_foldlM_addItem (items : List Value) (i : Inputs) :
    Judged (items.all Value.isItem) (items.foldlM addItem i) := by
  induction items generalizing i with
  | nil => exact .ok i rfl
  | cons v items ih =>
    rw [List.foldlM_cons, List.all_cons]
    exact (i.judged_addItem v).bind ih

theorem Inputs.judged_read (v : Value) : Judged v.isInput (read v) := by
  cases v with
  | text s => exact (judged_ofCodes _ _).map _
  | list items => exact judged_foldlM_addItem items none
  | object fields =>
    have hkeys : (fields.map fun field => Value.text field.1).all Value.isItem = true := by
      simp [Value.isItem]
    have hread := judged_foldlM_addItem (fields.map fun field => .text field.1) none
    rw [hkeys] at hread
    exact hread
  | null | bool | int | float | native => exact .defect rfl rfl

theorem Value.judged_toInt (v : Value) : Judged v.isCount v.toInt := by
  cases v with
  | bool | int => exact .ok _ rfl
  | float x =>
    rw [isCount, toInt]
    cases Exact.ofFloat x with
    | nan | infinite => exact .defect rfl rfl
    | finite => exact .ok _ rfl
  | text s =>
    rw [isCount, toInt]
    cases Numeral.int? s with
    | none => exact .defect rfl rfl
    | some n => exact .ok n rfl
  | null | list | object | native => exact .defect rfl rfl

theorem judged_readEntry (entry : Value × Value) :
    Judged (Value.isEntry entry) (readEntry entry.1 entry.2) :=
  (Inputs.judged_read entry.1).bind fun _ => entry.2.judged_toInt.andThen fun _ => ⟨_, rfl⟩

/-- What has no items is of the wrong kind. -/
theorem Value.items_eq_error {v : Value} {f : Fault} (h : v.items = .error f) : f = .kind := by
  cases v <;> cases h <;> rfl

theorem judged_readChoices (v : Value) : Judged v.isChoices (readChoices v) := by
  rw [Value.isChoices, readChoices]
  cases h : v.items with
  | error f =>
    obtain rfl := Value.items_eq_error h
    exact .defect rfl rfl
  | ok items => exact Judged.mapM Inputs.judged_read

theorem judged_readScript (v : Value) : Judged v.isScript (readScript v) := by
  rw [Value.isScript, readScript]
  cases h : v.items with
  | error f =>
    obtain rfl := Value.items_eq_error h
    exact .defect rfl rfl
  | ok items =>
    dsimp only [bind, Except.bind]
    cases pairs? items with
    | some entries => exact Judged.mapM judged_readEntry
    | none =>
      cases alternating? items with
      | some entries => exact Judged.mapM judged_readEntry
      | none => exact .announced rfl

/-! ## Conditions and steps -/

theorem judged_readWords (words : List String) : Judged true (readWords words) := by
  unfold readWords
  split
  · exact .ok [] rfl
  · next s rest =>
    split
    · exact (judged_readWords rest).andThen fun _ => ⟨_, rfl⟩
    · split
      · exact .announced rfl
      · next word rest' =>
        exact (Inputs.judged_read (.text s)).bind fun _ =>
          (judged_readWords rest').andThen fun _ => ⟨_, rfl⟩

namespace Catalogue

variable (known : Catalogue)

theorem judged_readCall (name : String) (args : List Value)
    {plain wrapped : Spec → Except Fault (List Arg)} {plainFits wrappedFits : Spec → Bool}
    (hplain : ∀ spec, Judged (plainFits spec) (plain spec))
    (hwrapped : ∀ spec, Judged (wrappedFits spec) (wrapped spec)) :
    Judged (known.callFits name args plainFits wrappedFits)
      (known.readCall name args plain wrapped) := by
  rw [callFits, readCall]
  cases known.spec? name with
  | none => exact .ok _ rfl
  | some spec =>
    dsimp only
    split
    · exact (hwrapped spec).map _
    · exact (hplain spec).map _

mutual

/-- Reading one condition cell goes wrong without a text only where a value is of the wrong
kind. -/
theorem judged_readCondition (v : Value) :
    Judged (known.conditionFits v) (known.readCondition v) := by
  unfold readCondition
  split
  · exact .ok _ rfl
  · exact .ok _ rfl
  · exact .ok _ rfl
  · exact .announced rfl
  · next items rest =>
    rw [conditionFits]
    exact known.judged_readCall _ _ (fun spec => judged_readArgs spec 0 (.list items :: rest))
      (fun spec => judged_readArgs spec 0 items)
  · exact .ok _ rfl
  · exact .announced rfl
  · next name args =>
    have hcall : Judged _ _ := known.judged_readCall name args
      (fun spec => judged_readArgs spec 0 args) (fun spec => judged_readWrapped spec args)
    unfold conditionFits
    cases Flag.ofName? name with
    | none => exact hcall
    | some f =>
      cases args with
      | nil => exact .ok _ rfl
      | cons => exact hcall
  · exact .ok _ rfl
  · exact .ok _ rfl
  · exact .announced rfl
termination_by sizeOf v

theorem judged_readArgs (spec : Spec) (index : Nat) (vs : List Value) :
    Judged (known.argsFit spec index vs) (known.readArgs spec index vs) := by
  cases vs with
  | nil =>
    rw [argsFit, readArgs]
    exact .ok [] rfl
  | cons v rest =>
    have hrest : ∀ a : Arg, Judged (known.argsFit spec (index + 1) rest)
        (known.readArgs spec (index + 1) rest >>= fun read => .ok (a :: read)) := fun a =>
      (judged_readArgs spec (index + 1) rest).andThen fun read => ⟨a :: read, rfl⟩
    rw [argsFit, readArgs]
    cases v.isNull with
    | true => exact (Judged.ok (.raw v) rfl).bind hrest
    | false =>
      cases spec.kindFor index with
      | condition => exact ((judged_readCondition v).map Arg.condition).bind hrest
      | steps => exact ((judged_readSteps v).map Arg.steps).bind hrest
      | inputs => exact ((Inputs.judged_read v).map Arg.inputs).bind hrest
      | inputChoices => exact ((judged_readChoices v).map Arg.choices).bind hrest
      | script => exact ((judged_readScript v).map Arg.script).bind hrest
      | value | comparator => exact (Judged.ok (.raw v) rfl).bind hrest
termination_by sizeOf vs

theorem judged_readWrapped (spec : Spec) (vs : List Value) :
    Judged (known.wrappedFit spec vs) (known.readWrapped spec vs) := by
  cases vs with
  | nil => exact .ok [] rfl
  | cons v rest =>
    cases v with
    | list items => exact judged_readArgs spec 0 items
    | _ => exact .ok [] rfl
termination_by sizeOf vs

theorem judged_readSteps (v : Value) : Judged (known.stepsFit v) (known.readSteps v) := by
  cases v with
  | list cells => exact judged_readCells cells
  | text | object => exact judged_readWords _
  | _ => exact .defect rfl rfl
termination_by sizeOf v

/-- Reading a program goes wrong without a text only where a value is of the wrong kind. -/
theorem judged_readCells (vs : List Value) : Judged (known.cellsFit vs) (known.readCells vs) := by
  unfold readCells
  split
  · exact .ok _ rfl
  · next s rest =>
    split
    · next rest _ _ _ _ => exact (judged_readCells rest).andThen fun _ => ⟨_, rfl⟩
    · exact .announced rfl
    · next v rest _ =>
      exact (Inputs.judged_read (.text s)).bind fun _ => (judged_readCondition v).bind fun _ =>
        (judged_readCells rest).andThen fun _ => ⟨_, rfl⟩
  · next cell rest _ =>
    rw [cellsFit]
    exact (judged_readCondition cell).bind fun _ =>
      (judged_readCells rest).andThen fun _ => ⟨_, rfl⟩
termination_by sizeOf vs

end

end Catalogue

/-! ## Program files -/

namespace ProgramFile

theorem judged_compileSections (known : Catalogue) (sections : List (Int × List Value)) :
    Judged (sections.all fun s => known.cellsFit s.2) (compileSections known sections) := by
  induction sections with
  | nil => exact .ok [] rfl
  | cons s sections ih =>
    rw [List.all_cons, compileSections]
    exact (known.judged_readCells s.2).bind fun _ => ih.andThen fun _ => ⟨_, rfl⟩

/-- Steps that are not for the whole level are not read. -/
theorem judged_compile (file : ProgramFile) (known : Catalogue) (seed : Int) :
    Judged (file.fits known) (file.compile known seed) := by
  have hsections := judged_compileSections known file.sections
  rw [fits, compile]
  cases file.isGlobal with
  | true =>
    exact (known.judged_readCells file.steps).bind fun _ => hsections.andThen fun _ => ⟨_, rfl⟩
  | false => exact (Judged.ok [] rfl).bind fun _ => hsections.andThen fun _ => ⟨_, rfl⟩

/-- The stack makes a difference to files that are nested too deeply only. -/
theorem compileOn_cases (stack : Stack) (file : ProgramFile) (known : Catalogue) (seed : Int) :
    file.compileOn stack known seed = file.compile known seed ∨
      file.compileOn stack known seed = .error .nesting ∧ file.isWithin stack.levels = false := by
  rw [compileOn]
  by_cases hreads : stack.reads file = true
  · exact .inl (if_pos hreads)
  · have hwithin := mt (stack.reads_of_isWithin file) hreads
    exact .inr ⟨if_neg hreads, Bool.eq_false_iff.mpr hwithin⟩

/-- The file of a program of which nothing but the steps is given. -/
def ofSteps (steps : List Value) : ProgramFile := { isGlobal := true, steps }

/-- Such a file as data. -/
def stepsValue (steps : List Value) : Value :=
  .object [("global", .bool true), ("steps", .list steps)]

theorem load_stepsValue {steps : List Value} (h : Json.AllLegible .narrowNumbers 1022 steps)
    (files : Files) (path : Path) :
    load (files.write path (Json.write (stepsValue steps))) path = .ok (ofSteps steps) := by
  have hkeys : ["global", "steps"].Nodup := by decide
  have hlegible : Json.Legible .narrowNumbers 1024 (stepsValue steps) :=
    ⟨.inl (by decide), hkeys, trivial, ⟨.inl (by decide), h⟩, trivial⟩
  have hread : Json.read? .narrowNumbers (Json.write (stepsValue steps)) =
      some (stepsValue steps) := Json.read?_write hlegible
  rw [load, Files.read?_write]
  simp only [hread]
  rfl

end ProgramFile

namespace Execution

theorem ofFault_of_title (files : Files) {f : Fault} {title : String}
    (h : f.title? = some title) :
    ofFault [] files f = failure files (title ++ ": " ++ f.message) := by
  rw [ofFault, h]
  rfl

theorem ofFault_of_isValueDefect (files : Files) {f : Fault} (h : f.isValueDefect = true) :
    ofFault [] files f = abort [] files f := by
  cases f <;> first | rfl | cases h

theorem onConsole_of_shows {c : Console} {x : Execution} (h : x.printed.all c.shows = true) :
    x.onConsole c = x := if_pos h

theorem onConsole_abort (c : Console) (files : Files) (f : Fault) :
    (abort [] files f).onConsole c = abort [] files f := rfl

theorem onConsole_failure {c : Console} {text : String}
    (h : c.accepts (Printed.styled "red" text) = true) (files : Files) :
    (failure files text).onConsole c = failure files text := by
  refine onConsole_of_shows ?_
  simp [failure, Console.shows, Printed.texts, h]

end Execution

namespace Command

/-- What checking a file does that was loaded. -/
theorem execute_check {settings : Settings} {files : Files} {path : Path} {file : ProgramFile}
    (hload : ProgramFile.load files path = .ok file) (now : String) (answer : Bool)
    (on : Surroundings) :
    execute settings files now answer (.check path) on =
      Execution.onConsole on.console
        (match file.compileOn on.stack .standard settings.defaultSeed with
        | .error f => .ofFault [] files f
        | .ok p => showProgram on.stack files p) := by
  rw [execute, executeCheck, hload]
  rfl

theorem mem_allSteps_of_listed {p : LevelProgram} {name : String} {steps : List Step}
    (h : (name, steps) ∈ listed p) {s : Step} (hs : s ∈ steps) : s ∈ p.allSteps := by
  rw [listed] at h
  rw [LevelProgram.allSteps, List.mem_append]
  split at h
  · cases List.mem_singleton.mp h
    exact .inl hs
  · obtain ⟨⟨key, steps⟩, hmem, heq⟩ := List.mem_map.mp h
    cases heq
    exact .inr (List.mem_flatMap.mpr ⟨_, hmem, hs⟩)

theorem showProgram_of_describes {stack : Stack} {p : LevelProgram}
    (h : ∀ s ∈ p.allSteps, stack.describes s = true) (files : Files) :
    showProgram stack files p = { printed := report p, files } := by
  refine if_pos (List.all_eq_true.mpr fun t ht => List.all_eq_true.mpr fun s hs => ?_)
  exact h s (mem_allSteps_of_listed ht hs)

/-- A program file in which every value is of the right kind, and which the stack is large enough
for, is read, or it fails with an announced cause. The check lists the program, or it prints the
cause and fails, if the console can show the texts. Every file that can be read has values of the
right kinds. In any other file either an announced cause comes first, or a defect of a value or its
nesting ends the check. -/
theorem check_announces {settings : Settings} {files : Files} {path : Path} {file : ProgramFile}
    (hload : ProgramFile.load files path = .ok file) (now : String) (answer : Bool)
    (on : Surroundings) :
    let compiled := file.compileOn on.stack .standard settings.defaultSeed
    let shown := execute settings files now answer (.check path) on
    (file.fits .standard = true → file.isWithin on.stack.levels = true →
      (∃ p, compiled = .ok p ∧
        ((report p).all on.console.shows = true → shown = { printed := report p, files })) ∨
      ∃ f title, compiled = .error f ∧ f.title? = some title ∧
        let text := title ++ ": " ++ f.message
        (on.console.accepts (Printed.styled "red" text) = true → shown = .failure files text)) ∧
    (∀ p, compiled = .ok p → file.fits .standard = true) ∧
    ∀ f, compiled = .error f → f.isAnnounced = true ∨ shown = .abort [] files f ∧
      (f.isValueDefect = true ∧ file.fits .standard = false ∨
        f = .nesting ∧ file.isWithin on.stack.levels = false) := by
  intro compiled shown
  have hshown : shown = Execution.onConsole on.console (match compiled with
      | .error f => .ofFault [] files f
      | .ok p => showProgram on.stack files p) := execute_check hload now answer on
  have hcases : compiled = _ ∨ compiled = _ ∧ _ :=
    file.compileOn_cases on.stack .standard settings.defaultSeed
  have hjudged := file.judged_compile .standard settings.defaultSeed
  have hdescribes := on.stack.describes_of_isWithin file .standard settings.defaultSeed
  rw [hshown]
  clear_value compiled
  rcases hcases with hcompiled | ⟨rfl, hwithin⟩
  · rw [← hcompiled] at hjudged hdescribes
    cases hjudged with
    | ok p hfits =>
      refine ⟨fun _ hwithin => .inl ⟨p, rfl, fun hshows => ?_⟩, fun _ _ => hfits, nofun⟩
      dsimp only
      rw [showProgram_of_describes (hdescribes p hwithin rfl), Execution.onConsole_of_shows hshows]
    | @announced f hf =>
      obtain ⟨title, htitle⟩ := Option.isSome_iff_exists.mp hf
      refine ⟨fun _ _ => .inr ⟨f, title, rfl, htitle, fun haccepts => ?_⟩, nofun, fun _ heq => ?_⟩
      · dsimp only
        rw [Execution.ofFault_of_title files htitle, Execution.onConsole_failure haccepts]
      · cases heq
        exact .inl hf
    | @defect f hmisfit hf =>
      refine ⟨fun hfits => absurd hfits (by rw [hmisfit]; decide), nofun, fun _ heq => .inr ?_⟩
      cases heq
      refine ⟨?_, .inl ⟨hf, hmisfit⟩⟩
      dsimp only
      rw [Execution.ofFault_of_isValueDefect files hf, Execution.onConsole_abort]
  · refine ⟨fun _ h => absurd h (by rw [hwithin]; decide), nofun, fun _ heq => .inr ?_⟩
    cases heq
    exact ⟨rfl, .inr ⟨rfl, hwithin⟩⟩

/-- A step whose condition is a truth value, in the body of a call. -/
theorem check_announces_in_body :
    let steps : List Value := [.list [.text "do", .list [.text "r", .bool true]]]
    let path : Path := .parse "level.json"
    let files := Files.empty.write path (Json.write (ProgramFile.stepsValue steps))
    execute {} files "" false (.check path) .ample =
      .failure files "InvalidInstructionError: Invalid instruction: True" := by
  intro steps path files
  have hlegible : Json.AllLegible .narrowNumbers 1022 steps :=
    ⟨⟨.inl (by decide), trivial, ⟨.inl (by decide), trivial, trivial, trivial⟩, trivial⟩, trivial⟩
  have hload : ProgramFile.load files path = .ok (.ofSteps steps) :=
    ProgramFile.load_stepsValue hlegible .empty path
  have hfails : (ProgramFile.ofSteps steps).compile .standard ({} : Settings).defaultSeed =
      .error (.invalidInstruction "True") := rfl
  obtain ⟨p, hp, -⟩ | ⟨f, title, hf, htitle, hshown⟩ :=
    (check_announces hload "" false .ample).1 (by decide) (by decide)
  · cases hp.symm.trans hfails
  · cases hf.symm.trans hfails
    cases htitle
    exact hshown rfl

/-- A number where steps are expected is not announced. -/
theorem check_ends_at_number :
    let steps : List Value := [.list [.text "do", .int 5]]
    let path : Path := .parse "level.json"
    let files := Files.empty.write path (Json.write (ProgramFile.stepsValue steps))
    ProgramFile.load files path = .ok (.ofSteps steps) ∧
    (ProgramFile.ofSteps steps).compile .standard ({} : Settings).defaultSeed = .error .kind ∧
    Fault.kind.isAnnounced = false ∧
    execute {} files "" false (.check path) .ample = .abort [] files .kind := by
  intro steps path files
  have hfive : Json.Dialect.narrowNumbers.Fits 5 := Recording.narrowNumbers_fits (by decide)
  have hlegible : Json.AllLegible .narrowNumbers 1022 steps :=
    ⟨⟨.inl (by decide), trivial, hfive, trivial⟩, trivial⟩
  have hload : ProgramFile.load files path = .ok (.ofSteps steps) :=
    ProgramFile.load_stepsValue hlegible .empty path
  refine ⟨hload, rfl, rfl, ?_⟩
  rw [execute_check hload]
  rfl

-- A text of the program that closes a mark which was never opened.
example :
    let p : LevelProgram :=
      { isGlobal := true, seed := 0, legacySeed := 0
        steps := [.mk .none (.call "x" [.raw (.text ">="), .raw (.text "[/x]")])] }
    (showProgram .unbounded .empty p).onConsole ⟨(· != "x('>=', '[/x]')")⟩ =
      .abort [] .empty .marks := rfl

end Command

end TickScript
