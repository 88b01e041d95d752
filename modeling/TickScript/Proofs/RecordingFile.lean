import TickScript.Proofs.RecordedRuns
import TickScript.Proofs.Rows
import TickScript.Proofs.WrittenData

/-!
# A recording in its file

A recording comes back from its file as it was saved, as long as a reader can hold its numbers
(`Recording.Fits`, `Recording.load_save`), and its cells are read as one countdown for each run
(`Recording.program_ofRecorder`).
-/

namespace TickScript

/-! ## Levels of data -/

namespace Json

variable {levels : Nat}

theorem areWithin_iff {items : List Value} :
    areWithin levels items = true ↔ ∀ v ∈ items, isWithin levels v = true := by
  induction items with
  | nil => simp [areWithin]
  | cons v items ih => simp [areWithin, ih]

theorem fieldsAreWithin_iff {fields : List (String × Value)} :
    fieldsAreWithin levels fields = true ↔ ∀ f ∈ fields, isWithin levels f.2 = true := by
  induction fields with
  | nil => simp [fieldsAreWithin]
  | cons f fields ih => simp [fieldsAreWithin, ih]

theorem isWithin_list {items : List Value} (h : ∀ v ∈ items, isWithin levels v = true) :
    isWithin (levels + 1) (.list items) = true := by
  cases items with
  | nil => rfl
  | cons v items =>
    have hall := areWithin_iff.mpr h
    rw [areWithin] at hall
    rw [isWithin, Bool.and_assoc]
    exact hall

variable {test : Int → Bool}

theorem itemsEveryInt_iff {items : List Value} :
    itemsEveryInt test items = true ↔ ∀ v ∈ items, everyInt test v = true := by
  induction items with
  | nil => simp [itemsEveryInt]
  | cons v items ih => simp [itemsEveryInt, ih]

theorem fieldsEveryInt_iff {fields : List (String × Value)} :
    fieldsEveryInt test fields = true ↔ ∀ f ∈ fields, everyInt test f.2 = true := by
  induction fields with
  | nil => simp [fieldsEveryInt]
  | cons f fields ih => simp [fieldsEveryInt, ih]

end Json

/-! ## Runs as steps -/

namespace Runs

/-- The steps that play the runs. -/
def steps (runs : Runs) : List Step := runs.map fun r => .mk (.ofKeys r.1) (.countdown r.2)

end Runs

/-- The names of flags have a letter that stands for no key. -/
theorem Flag.ofName?_codes (keys : KeySet) : Flag.ofName? keys.codes = none := by
  have hcodes : ∀ k ∈ Key.all, k.code ≠ 'g' := by decide
  have hletter : 'g' ∉ keys.codes.toList := by
    rw [KeySet.codes, String.toList_ofList, List.mem_map]
    rintro ⟨k, -, hk⟩
    exact hcodes k k.mem_all hk
  unfold Flag.ofName?
  split
  · next heq => exact absurd (heq ▸ by decide) hletter
  · next heq => exact absurd (heq ▸ by decide) hletter
  · rfl

theorem Inputs.ofCodes_codes (ks : List Key) (held : KeySet) :
    Inputs.ofCodes (ks.map Key.code) held = .ok (ks.foldl KeySet.insert held) := by
  induction ks generalizing held with
  | nil => rfl
  | cons k ks ih =>
    rw [List.map_cons, Inputs.ofCodes, Key.ofCode?_code, List.foldl_cons]
    exact ih (held.insert k)

/-- The letters of the keys are read as the keys. -/
theorem Inputs.read_codes (keys : KeySet) :
    Inputs.read (.text keys.codes) = .ok (.ofKeys keys) := by
  have hfold : keys.toList.foldl KeySet.insert .empty = keys := KeySet.ofList_toList keys
  rw [Inputs.read, KeySet.codes, String.toList_ofList, Inputs.ofCodes_codes, hfold]
  rfl

theorem Catalogue.readCells_cells (known : Catalogue) (runs : Runs) :
    known.readCells runs.cells = .ok runs.steps := by
  induction runs with
  | nil => rfl
  | cons r runs ih =>
    have hcells : Runs.cells (r :: runs) = .text r.1.codes :: .int r.2 :: Runs.cells runs := rfl
    rw [hcells, readCells_held (Flag.ofName?_codes _) (Inputs.read_codes _) rfl, ih]
    rfl

theorem countdowns?_steps (runs : Runs) :
    countdowns? runs.steps = some (runs.map fun r => (.ofKeys r.1, (r.2 : Int))) := by
  induction runs with
  | nil => rfl
  | cons r runs ih =>
    have hsteps : Runs.steps (r :: runs) =
        .mk (.ofKeys r.1) (.countdown r.2) :: Runs.steps runs := rfl
    rw [hsteps, countdowns?, ih]
    rfl

/-- The cells of runs are read as one countdown for each run. -/
theorem decodeCells_cells (runs : Runs) : decodeCells (.list runs.cells) = .ok runs.steps := by
  rw [decodeCells, Catalogue.readSteps, Catalogue.readCells_cells]
  simp only [bind, Except.bind, countdowns?_steps]
  rfl

namespace Recording

/-! ## What the reader can hold -/

/-- A cell of a recording: a text, or a number that a data file can hold. -/
def IsCell : Value → Prop
  | .text _ => True
  | .int n => fits n = true
  | _ => False

/-- A reader can hold the recording. -/
structure Fits (r : Recording) : Prop where
  version : fits r.version = true
  nodup : (r.sections.map (·.1)).Nodup
  sections : ∀ t ∈ r.sections, fits t.1 = true
  cells : ∀ t ∈ r.sections, ∀ v ∈ t.2, IsCell v

theorem bounds_of_fits {n : Int} (h : fits n = true) : -2 ^ 63 ≤ n ∧ n < 2 ^ 64 := by
  rw [fits, Bool.and_eq_true, decide_eq_true_eq, decide_eq_true_eq] at h
  exact h

theorem narrowNumbers_fits {n : Int} (h : fits n = true) : Json.Dialect.narrowNumbers.Fits n where
  length limit hlimit := by cases hlimit
  size := .inr (bounds_of_fits h)

/-- A number of 64 bits has few digits. -/
theorem length_of_fits {n : Int} (h : fits n = true) :
    (toString n).length ≤ Numeral.digitLimit := by
  obtain ⟨hlow, hhigh⟩ := bounds_of_fits h
  have habs : n.natAbs < 10 ^ 20 := by omega
  have hdigits : (Nat.toDigits 10 n.natAbs).length ≤ 20 :=
    (Nat.length_toDigits_le_iff (by omega) (by omega)).mpr habs
  have hlimit : Numeral.digitLimit = 4300 := rfl
  rw [← String.length_toList, Numeral.toList_toString]
  split
  · rw [List.length_cons]
    omega
  · omega

variable {r : Recording}

theorem IsCell.legible {v : Value} (h : IsCell v) (levels : Nat) :
    Json.Legible .narrowNumbers levels v := by
  cases v with
  | text s => exact trivial
  | int n => exact narrowNumbers_fits h
  | _ => exact False.elim h

theorem IsCell.isWithin {v : Value} (h : IsCell v) (levels : Nat) :
    Json.isWithin levels v = true := by
  cases v with
  | text s => rfl
  | int n => rfl
  | _ => exact False.elim h

theorem IsCell.everyInt {v : Value} (h : IsCell v) : Json.everyInt fits v = true := by
  cases v with
  | text s => rfl
  | int n => exact h
  | _ => exact False.elim h

/-- The fields of the sections of a recording. -/
def fields (sections : List (Int × List Value)) : List (String × Value) :=
  sections.map fun t => (toString t.1, .list t.2)

theorem fieldsLegible {sections : List (Int × List Value)}
    (h : ∀ t ∈ sections, ∀ v ∈ t.2, IsCell v) (levels : Nat) :
    Json.FieldsLegible .narrowNumbers (levels + 1) (fields sections) := by
  rw [Json.fieldsLegible_iff]
  intro f hf
  obtain ⟨t, ht, rfl⟩ := List.mem_map.mp hf
  exact ⟨.inl (Nat.succ_ne_zero levels),
    Json.allLegible_iff.mpr fun v hv => (h t ht v hv).legible levels⟩

theorem fieldsAreWithin {sections : List (Int × List Value)}
    (h : ∀ t ∈ sections, ∀ v ∈ t.2, IsCell v) (levels : Nat) :
    Json.fieldsAreWithin (levels + 1) (fields sections) = true := by
  rw [Json.fieldsAreWithin_iff]
  intro f hf
  obtain ⟨t, ht, rfl⟩ := List.mem_map.mp hf
  exact Json.isWithin_list fun v hv => (h t ht v hv).isWithin levels

theorem nodup_fields (h : r.Fits) : ((fields r.sections).map (·.1)).Nodup := by
  have hmap : (fields r.sections).map (·.1) = (r.sections.map (·.1)).map toString := by
    simp [fields]
  rw [hmap]
  refine h.nodup.map_on fun s hs s' hs' heq => ?_
  obtain ⟨t, ht, rfl⟩ := List.mem_map.mp hs
  obtain ⟨t', ht', rfl⟩ := List.mem_map.mp hs'
  -- both are read from the one text
  have hread := Numeral.wholeInt?_toString (length_of_fits (h.sections t ht))
  rw [heq, Numeral.wholeInt?_toString (length_of_fits (h.sections t' ht'))] at hread
  exact (Option.some.inj hread).symm

theorem toValue_eq (r : Recording) :
    r.toValue = .object [("version", .int r.version), ("sections", .object (fields r.sections))] :=
  rfl

theorem legible_toValue (h : r.Fits) : Json.Legible .narrowNumbers 1024 r.toValue := by
  have hkeys : ["version", "sections"].Nodup := by decide
  rw [toValue_eq]
  exact ⟨.inl (by decide), hkeys, narrowNumbers_fits h.version,
    ⟨.inl (by decide), nodup_fields h, fieldsLegible h.cells 1021⟩, trivial⟩

/-! ## There and back -/

theorem foldlM_sectionCells {sections : List (Int × List Value)}
    (h : ∀ t ∈ sections, fits t.1 = true) : ∀ table : List (Int × List Value),
    ((table ++ sections).map (·.1)).Nodup →
    (fields sections).foldlM (fun table (key, v) => do
      let section_ ← Numeral.wholeInt? key
      let cells ← Field.list? v
      return setEntry table section_ cells) table = some (table ++ sections) := by
  induction sections with
  | nil =>
    intro table _
    rw [List.append_nil]
    rfl
  | cons t sections ih =>
    intro table hnodup
    obtain ⟨s, cells⟩ := t
    have hread : Numeral.wholeInt? (toString s) = some s :=
      Numeral.wholeInt?_toString (length_of_fits (h (s, cells) List.mem_cons_self))
    have hnew : s ∉ table.map (·.1) := by
      rw [List.map_append, List.nodup_append] at hnodup
      exact fun hs => hnodup.2.2 s hs s (by simp) rfl
    have hassoc : table ++ (s, cells) :: sections = (table ++ [(s, cells)]) ++ sections := by simp
    have hrest := ih (fun u hu => h u (List.mem_cons_of_mem _ hu)) (table ++ [(s, cells)])
      (by rwa [← hassoc])
    rw [fields, List.map_cons, List.foldlM_cons, hassoc, ← hrest]
    simp only [hread, Option.bind_eq_bind, Option.bind_some, Field.list?, Option.pure_def,
      setEntry_of_not_mem hnew]
    rfl

theorem ofValue?_toValue (h : r.Fits) : ofValue? r.toValue = some r := by
  have hsections : sectionCells? (.object (fields r.sections)) = some r.sections :=
    foldlM_sectionCells h.sections [] h.nodup
  rw [toValue_eq]
  simp [ofValue?, Field.object?, Field.get, Field.int?, List.lookup_cons, hsections]

theorem everyInt_toValue (h : r.Fits) : Json.everyInt fits r.toValue = true := by
  have hfields : Json.fieldsEveryInt fits (fields r.sections) = true := by
    rw [Json.fieldsEveryInt_iff]
    intro f hf
    obtain ⟨t, ht, rfl⟩ := List.mem_map.mp hf
    exact Json.itemsEveryInt_iff.mpr fun v hv => (h.cells t ht v hv).everyInt
  rw [toValue_eq]
  simp [Json.everyInt, Json.fieldsEveryInt, h.version, hfields]

theorem write?_eq (h : r.Fits) : r.write? = some (Json.write r.toValue) := by
  have hsections : (r.sections.all fun t => fits t.1) = true := List.all_eq_true.mpr h.sections
  have hwithin : Json.isWithin levels r.toValue = true := by
    have hfields := fieldsAreWithin h.cells 251
    rw [toValue_eq]
    simp [Json.isWithin, Json.fieldsAreWithin, levels, hfields]
  rw [write?, everyInt_toValue h, hwithin]
  exact if_pos (by rw [Bool.and_true, Bool.and_true]; exact hsections)

/-- A recording that a reader can hold comes back from its file. -/
theorem load_save (h : r.Fits) (files : Files) (path : Path) :
    ∃ text, r.save files path = .ok (files.write path text) ∧
      ∀ (files' : Files), files'.read? path = some text → ∀ backup,
        (load files' path backup).1 = .ok r := by
  refine ⟨Json.write r.toValue, by rw [save, write?_eq h], fun files' hfile backup => ?_⟩
  have hread : Json.read? .narrowNumbers (Json.write r.toValue) = some r.toValue :=
    Json.read?_write (legible_toValue h)
  rw [load, hfile]
  simp only [hread, ofValue?_toValue h]

/-! ## The recording of a recorder -/

theorem program_cells (sections : List (Int × Runs)) :
    program (sections.map fun t => (t.1, t.2.cells)) =
      .ok (sections.map fun t => (t.1, t.2.steps)) := by
  induction sections with
  | nil => rfl
  | cons t sections ih =>
    rw [List.map_cons, program, decodeCells_cells, ih]
    rfl

/-- The program of a recording has the runs of each section as its steps. -/
theorem program_ofRecorder (r : Recorder) :
    program (ofRecorder r).sections = .ok (r.sections.map fun t => (t.1, t.2.steps)) :=
  program_cells r.sections

theorem fits_of_lt {n : Nat} (h : n < 2 ^ 64) : fits n = true := by
  have hzero : -Int.pow 2 63 ≤ 0 := by decide
  have hlow : -Int.pow 2 63 ≤ (n : Int) := hzero.trans (Int.natCast_nonneg n)
  have hhigh : (n : Int) < 2 ^ 64 := by omega
  rw [fits, Bool.and_eq_true, decide_eq_true_eq, decide_eq_true_eq]
  exact ⟨hlow, hhigh⟩

/-- A recorder can be saved if its sections and the lengths of its runs are of 64 bits. -/
theorem fits_of_runs {r : Recorder} (hnodup : (r.sections.map (·.1)).Nodup)
    (hsections : ∀ t ∈ r.sections, fits t.1 = true)
    (hruns : ∀ t ∈ r.sections, ∀ run ∈ t.2, run.2 < 2 ^ 64) : (ofRecorder r).Fits where
  version := rfl
  nodup := by
    have hkeys : (ofRecorder r).sections.map (·.1) = r.sections.map (·.1) := by
      simp [ofRecorder]
    rw [hkeys]
    exact hnodup
  sections t ht := by
    obtain ⟨u, hu, rfl⟩ := List.mem_map.mp ht
    exact hsections u hu
  cells t ht v hv := by
    obtain ⟨u, hu, rfl⟩ := List.mem_map.mp ht
    obtain ⟨run, hrun, hv⟩ := List.mem_flatMap.mp hv
    simp only [List.mem_cons, List.not_mem_nil, or_false] at hv
    rcases hv with rfl | rfl
    · exact trivial
    · exact fits_of_lt (hruns u hu run hrun)

theorem fits_ofRecorder {r : Recorder} {log : SectionLog}
    (h : r.Covers Runs.StandFor log) (hsections : ∀ s ∈ log.map (·.1), fits s = true)
    (hlength : log.length < 2 ^ 64) : (ofRecorder r).Fits := by
  refine fits_of_runs h.nodup (fun t ht => ?_) (fun t ht run hrun => ?_)
  · exact hsections t.1 ((h.visited t.1).mp (List.mem_map_of_mem ht))
  · have hle := (h.related t ht).le_length hrun
    have hlog := log.length_heldIn_le t.1
    omega

end Recording

end TickScript
