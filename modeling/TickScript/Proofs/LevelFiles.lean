import TickScript.ProgramFile

/-!
# The files of a level

The name of a level has no slash once the way to it is left out, so its files lie in the runs
directory itself (`Level.resolve_file`). The recording and the program file are two files, and a
recording that is saved does not make a program of a level that has none
(`Level.holds_programPath`).
-/

namespace TickScript

namespace Path

theorem split_ne_nil (cs : List Char) : split cs ≠ [] := by
  induction cs with
  | nil => exact List.cons_ne_nil _ _
  | cons c cs ih =>
    cases h : split cs with
    | nil => exact absurd h ih
    | cons piece pieces =>
      rw [split, h]
      dsimp only
      split <;> exact List.cons_ne_nil _ _

theorem not_mem_of_mem_split (cs : List Char) : ∀ piece ∈ split cs, '/' ∉ piece := by
  induction cs with
  | nil =>
    intro piece hpiece
    rw [List.mem_singleton.mp hpiece]
    exact List.not_mem_nil
  | cons c cs ih =>
    cases h : split cs with
    | nil => exact absurd h (split_ne_nil cs)
    | cons first pieces =>
      rw [h] at ih
      intro piece hpiece
      rw [split, h] at hpiece
      dsimp only at hpiece
      split at hpiece
      · rcases List.mem_cons.mp hpiece with rfl | hpiece
        · exact List.not_mem_nil
        · exact ih piece hpiece
      · next hc =>
        rcases List.mem_cons.mp hpiece with rfl | hpiece
        · rw [List.mem_cons, not_or]
          exact ⟨fun heq => hc heq.symm, ih first List.mem_cons_self⟩
        · exact ih piece (List.mem_cons_of_mem _ hpiece)

theorem split_eq_singleton {cs : List Char} (h : '/' ∉ cs) : split cs = [cs] := by
  induction cs with
  | nil => rfl
  | cons c cs ih =>
    rw [List.mem_cons, not_or] at h
    rw [split, ih h.2]
    dsimp only
    rw [if_neg fun hc => h.1 hc.symm]

/-- A name without a slash is a path of one name. -/
theorem parse_eq_singleton {s : String} (hslash : '/' ∉ s.toList) (hempty : s ≠ "")
    (hpoint : s ≠ ".") : parse s = ⟨"", [s]⟩ := by
  have hpieces : pieces s = [s] := by
    simp [pieces, split_eq_singleton hslash, hempty, hpoint]
  have hroot : (s.toList.takeWhile (· == '/')).length = 0 := by
    cases h : s.toList with
    | nil => rfl
    | cons c cs =>
      have hc : (c == '/') = false := by
        rw [beq_eq_false_iff_ne]
        rintro rfl
        exact hslash (by rw [h]; exact List.mem_cons_self)
      rw [List.takeWhile_cons, hc]
      rfl
  rw [parse, hpieces, hroot]
  rfl

/-- The last name of a path has no slash. -/
theorem slash_not_mem_name (s : String) : '/' ∉ (parse s).name.toList := by
  rw [name]
  cases h : (parse s).names.getLast? with
  | none => decide
  | some n =>
    have hn : n ∈ pieces s := List.mem_of_getLast? h
    obtain ⟨cs, hcs, rfl⟩ := List.mem_map.mp (List.mem_filter.mp hn).1
    rw [Option.getD_some, String.toList_ofList]
    exact not_mem_of_mem_split s.toList cs hcs

/-- A file below a directory. -/
theorem resolve_join {n : String} (hn : n ≠ "..") (directory : Path) :
    (directory.join ⟨"", [n]⟩).resolve = directory.resolve ++ [n] := by
  have hparent : (n == "..") = false := by simpa using hn
  have hjoin : directory.join ⟨"", [n]⟩ = ⟨directory.root, directory.names ++ [n]⟩ := rfl
  have habsolute : (⟨directory.root, directory.names ++ [n]⟩ : Path).isAbsolute =
      directory.isAbsolute := rfl
  rw [hjoin, resolve, resolve, List.foldl_append, habsolute]
  simp only [List.foldl_cons, List.foldl_nil, hparent, Bool.false_eq_true, if_false,
    List.reverse_cons]
  cases directory.isAbsolute <;> rfl

end Path

namespace Files

/-- A file is no directory on the way to a path that is as long. -/
theorem isDirectory_write {p q : Path} (hlength : p.resolve.length = q.resolve.length)
    {files : Files} (h : files.isDirectory q = false) (text : String) :
    (files.write p text).isDirectory q = false := by
  rw [isDirectory, Bool.or_eq_false_iff, List.any_eq_false] at h ⊢
  refine ⟨h.1, fun entry hentry => ?_⟩
  rcases List.mem_cons.mp hentry with rfl | hentry
  · simp [hlength]
  · exact h.2 entry (List.mem_filter.mp hentry).1

end Files

namespace Level

theorem slash_not_mem_stem (level : String) : '/' ∉ (stem level).toList := by
  have hname := Path.slash_not_mem_name level
  rw [stem]
  split
  · rw [String.toList_ofList]
    exact fun h => hname (List.mem_of_mem_take h)
  · exact hname

/-- Where a file of a level is found. -/
theorem resolve_file (directory : Path) (level : String) {extension : String}
    (hslash : '/' ∉ extension.toList) (hlength : 3 ≤ extension.length) :
    (file directory level extension).resolve =
      directory.resolve ++ [stem level ++ extension] := by
  have hlong : 3 ≤ (stem level ++ extension).length := by
    rw [String.length_append]
    omega
  have hname : '/' ∉ (stem level ++ extension).toList := by
    rw [String.toList_append, List.mem_append, not_or]
    exact ⟨slash_not_mem_stem level, hslash⟩
  have hne : ∀ s : String, s.length < 3 → stem level ++ extension ≠ s := by
    rintro s hs rfl
    omega
  rw [file, Path.parse_eq_singleton hname (hne "" (by decide)) (hne "." (by decide)),
    Path.resolve_join (hne ".." (by decide))]

theorem resolve_programPath (directory : Path) (level : String) :
    (programPath directory level).resolve = directory.resolve ++ [stem level ++ ".json"] :=
  resolve_file directory level (by decide) (by decide)

theorem resolve_recordingPath (directory : Path) (level : String) :
    (recordingPath directory level).resolve = directory.resolve ++ [stem level ++ ".rec"] :=
  resolve_file directory level (by decide) (by decide)

/-- A recording is never the program of its level. -/
theorem holds_programPath {files : Files} {directory : Path} {level : String}
    (h : files.holds (programPath directory level) = false) (text : String) :
    (files.write (recordingPath directory level) text).holds (programPath directory level) =
      false := by
  have hlength : (recordingPath directory level).resolve.length =
      (programPath directory level).resolve.length := by
    rw [resolve_recordingPath, resolve_programPath, List.length_append, List.length_append,
      List.length_singleton, List.length_singleton]
  have hne : (programPath directory level).resolve ≠ (recordingPath directory level).resolve := by
    rw [resolve_recordingPath, resolve_programPath]
    intro heq
    have hnames := List.append_cancel_left heq
    have hchars := congrArg String.toList (List.cons.inj hnames).1
    rw [String.toList_append, String.toList_append] at hchars
    exact absurd (List.append_cancel_left hchars) (by decide)
  rw [Files.holds, Bool.or_eq_false_iff] at h ⊢
  rw [Files.read?_write_of_ne files hne]
  exact ⟨h.1, Files.isDirectory_write hlength h.2 text⟩

end Level

end TickScript
