import TickScript.SearchFile
import TickScript.Proofs.WrittenData

/-!
# The record of a search in its file

The text of a record is read as the record, last time of saving included, by every reader that
takes its numbers (`SearchRecord.Fits`). A reader without a limit takes the numbers of every
record.

* `SearchRecord.fits_none`: numbers of any size.
* `SearchRecord.read?_write`, `SearchRecord.load_of_written`: the record comes back.
-/

namespace TickScript

namespace SearchRecord

/-- Every whole number of a record. -/
def numbers (r : SearchRecord) : List Int :=
  r.low.toList ++ r.high.toList ++ r.middle.toList ++ r.history

/-- If a reader has a limit for the length of whole numbers, no number of a record is beyond it. -/
def Fits (length : Option Nat) (r : SearchRecord) : Prop :=
  ∀ limit, length = some limit → ∀ n ∈ r.numbers, (toString n).length ≤ limit

/-- Numbers of any size are no matter for a reader without a limit. -/
theorem fits_none (r : SearchRecord) : r.Fits none := nofun

variable {length : Option Nat}

theorem Fits.wideNumbers {r : SearchRecord} (h : r.Fits length) {n : Int} (hn : n ∈ r.numbers) :
    (Json.Dialect.wideNumbers length).Fits n where
  length limit hlimit := h limit hlimit n hn
  size := .inl rfl

theorem legible_number {x : Option Int}
    (h : ∀ n ∈ x.toList, (Json.Dialect.wideNumbers length).Fits n) (levels : Nat) :
    Json.Legible (.wideNumbers length) levels (number x) := by
  cases x with
  | none => exact trivial
  | some n => exact h n (List.mem_singleton.mpr rfl)

theorem allLegible_ints {ns : List Int} (h : ∀ n ∈ ns, (Json.Dialect.wideNumbers length).Fits n)
    (levels : Nat) : Json.AllLegible (.wideNumbers length) levels (ns.map .int) := by
  rw [Json.allLegible_iff]
  intro v hv
  obtain ⟨n, hn, rfl⟩ := List.mem_map.mp hv
  exact h n hn

theorem legible_toValue {r : SearchRecord} (h : r.Fits length) :
    Json.Legible (.wideNumbers length) 200 r.toValue := by
  have hlow : Json.Legible (.wideNumbers length) 199 (number r.low) :=
    legible_number (fun n hn => h.wideNumbers (by simp [numbers, hn])) 199
  have hhigh : Json.Legible (.wideNumbers length) 199 (number r.high) :=
    legible_number (fun n hn => h.wideNumbers (by simp [numbers, hn])) 199
  have hmiddle : Json.Legible (.wideNumbers length) 199 (number r.middle) :=
    legible_number (fun n hn => h.wideNumbers (by simp [numbers, hn])) 199
  have hhistory : Json.AllLegible (.wideNumbers length) 198 (r.history.map .int) :=
    allLegible_ints (fun n hn => h.wideNumbers (by simp [numbers, hn])) 198
  have hkeys : ["lo_bound", "hi_bound", "mid_value", "history", "last_saved"].Nodup := by decide
  exact ⟨.inl (by decide), hkeys, hlow, hhigh, hmiddle, ⟨.inl (by decide), hhistory⟩, trivial,
    trivial⟩

theorem optional?_number (x : Option Int) : Field.optional? Field.int? (number x) = some x := by
  cases x <;> rfl

theorem mapM_int? (ns : List Int) : (ns.map Value.int).mapM Field.int? = some ns := by
  induction ns with
  | nil => rfl
  | cons n ns ih =>
    rw [List.map_cons, List.mapM_cons, ih]
    rfl

theorem ofValue?_toValue (now : String) (r : SearchRecord) :
    ofValue? now r.toValue = some r := by
  have hhistory : (Field.list? (.list (r.history.map .int)) >>= (·.mapM Field.int?)) =
      some r.history := mapM_int? r.history
  simp only [ofValue?, toValue, Field.object?, override?, Field.get, List.lookup_cons, Field.text?,
    Option.bind_eq_bind, Option.bind_some] at hhistory ⊢
  simp [hhistory, optional?_number]

/-- A record comes back from its text, whatever the time. -/
theorem read?_write {r : SearchRecord} (h : r.Fits length) (now : String) :
    read? now r.write length = some r := by
  have hread : Json.read? (.wideNumbers length) r.write = some r.toValue :=
    Json.read?_write (legible_toValue h)
  rw [read?, hread]
  exact ofValue?_toValue now r

/-- What a file is loaded as that holds the text of a record. -/
theorem load_of_written {r : SearchRecord} (h : r.Fits length) (r' : SearchRecord)
    {files : Files} {path : Path} (hfile : files.read? path = some r.write) (now : String) :
    r'.load files path now length = (true, r) := by
  have hholds : files.holds path = true := by rw [Files.holds, hfile]; rfl
  rw [load, if_pos hholds, hfile, Option.bind_eq_bind, Option.bind_some, read?_write h]

end SearchRecord

end TickScript
