import TickScript.Path
/-!
# The files of a run

The files that a run reads and writes, as a finite map from paths to texts.  Directories
exist as far as files lie in them.

* `Files.read?`, `Files.write`, `Files.remove`: one file.
* `Files.paths`: every path, sorted.
* `Files.read?_write`, `Files.read?_remove`: a file after it was written or removed; the
  others are as they were (`Files.read?_write_of_ne`, `Files.read?_remove_of_ne`).
-/

namespace TickScript

/-- Texts by resolved path. -/
structure Files where
  entries : List (List String × String)
  deriving DecidableEq, Repr, Inhabited

namespace Files

def empty : Files := ⟨[]⟩

def read? (fs : Files) (p : Path) : Option String := fs.entries.lookup p.resolve

def write (fs : Files) (p : Path) (text : String) : Files :=
  ⟨(p.resolve, text) :: fs.entries.filter (·.1 != p.resolve)⟩

def remove (fs : Files) (p : Path) : Files :=
  ⟨fs.entries.filter (·.1 != p.resolve)⟩

/-- A directory is the working directory or one that some file lies in. -/
def isDirectory (fs : Files) (p : Path) : Bool :=
  let names := p.resolve
  names.isEmpty ||
    fs.entries.any fun (key, _) => names.length < key.length && names == key.take names.length

def holds (fs : Files) (p : Path) : Bool := (fs.read? p).isSome || fs.isDirectory p

/-- Every path, in the order of its text. -/
def paths (fs : Files) : List String :=
  (fs.entries.map fun (key, _) => "/".intercalate key).mergeSort (· ≤ ·)

theorem read?_write (fs : Files) (p : Path) (text : String) :
    (fs.write p text).read? p = some text := by
  simp [write, read?]

theorem lookup_filter_ne {key other : List String} (h : other ≠ key)
    (entries : List (List String × String)) :
    (entries.filter (·.1 != key)).lookup other = entries.lookup other := by
  induction entries with
  | nil => rfl
  | cons entry rest ih =>
    obtain ⟨k, v⟩ := entry
    by_cases hk : k = key
    · subst hk
      have hne : (other == k) = false := by simpa using h
      simp [List.lookup_cons, hne, ih]
    · by_cases ho : other = k
      · subst ho
        simp [hk]
      · have hne : (other == k) = false := by simpa using ho
        simp [hk, List.lookup_cons, hne, ih]

theorem read?_write_of_ne (fs : Files) {p q : Path} (h : q.resolve ≠ p.resolve) (text : String) :
    (fs.write p text).read? q = fs.read? q := by
  have hne : (q.resolve == p.resolve) = false := by simpa using h
  simp [write, read?, List.lookup_cons, hne, lookup_filter_ne h]

theorem lookup_filter_self (key : List String) (entries : List (List String × String)) :
    (entries.filter (·.1 != key)).lookup key = none := by
  induction entries with
  | nil => rfl
  | cons entry rest ih =>
    obtain ⟨k, v⟩ := entry
    by_cases hk : k = key
    · simpa [hk] using ih
    · have hne : (key == k) = false := by simpa using fun h : key = k => hk h.symm
      simp [hk, List.lookup_cons, hne, ih]

theorem read?_remove (fs : Files) (p : Path) : (fs.remove p).read? p = none :=
  lookup_filter_self p.resolve fs.entries

theorem read?_remove_of_ne (fs : Files) {p q : Path} (h : q.resolve ≠ p.resolve) :
    (fs.remove p).read? q = fs.read? q :=
  lookup_filter_ne h fs.entries

end Files

end TickScript
