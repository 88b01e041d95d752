import Mathlib.Data.List.DropRight
import TickScript.Proofs.RecordingFile

/-!
# Logs in a recording

What was held tick by tick goes through four layers before it is played back: the runs of each
section, the letters of their keys, the cells of the file, and its text. Nothing is lost on the
way (`Recorder.log_returns`). A section that is left and entered again goes on where it was
left, and the sections stay in the order in which they were first entered.

When a recording is finished, the idle ticks at the end of the section that was recorded last are
shortened to one. To finish it once more changes nothing.

* `SectionLog.visited`: the sections in the order of the first visits.
* `Recorder.sections_ofLog`: what a recorder holds after the ticks of a log.
* `Recorder.sections_finalize`: what it holds when the recording is finished.
-/

namespace TickScript

/-! ## Idle ticks at the end -/

theorem KeySet.isEmpty_iff {keys : KeySet} : keys.isEmpty = true ↔ keys = .empty := by
  rw [isEmpty, beq_iff_eq]

/-- Shortens the idle ticks at the end, if there are any, to one. -/
def shortenIdle (held : List KeySet) : List KeySet :=
  held.rdropWhile KeySet.isEmpty ++ (held.rtakeWhile KeySet.isEmpty).take 1

theorem shortenIdle_concat_of_ne {keys : KeySet} (h : keys ≠ .empty) (held : List KeySet) :
    shortenIdle (held ++ [keys]) = held ++ [keys] := by
  have hkeys : ¬keys.isEmpty = true := mt KeySet.isEmpty_iff.mp h
  rw [shortenIdle, List.rdropWhile_concat_neg _ _ _ hkeys, List.rtakeWhile_concat_neg _ _ _ hkeys,
    List.take_nil, List.append_nil]

theorem shortenIdle_concat_empty (held : List KeySet) :
    shortenIdle (held ++ [.empty]) = held.rdropWhile KeySet.isEmpty ++ [.empty] := by
  have hidle : KeySet.empty.isEmpty = true := KeySet.isEmpty_iff.mpr rfl
  have hone : (held.rtakeWhile KeySet.isEmpty ++ [KeySet.empty]).take 1 = [KeySet.empty] := by
    cases htake : held.rtakeWhile KeySet.isEmpty with
    | nil => rfl
    | cons keys rest =>
      have hkeys : keys ∈ held.rtakeWhile KeySet.isEmpty := htake ▸ List.mem_cons_self
      simp [KeySet.isEmpty_iff.mp (List.mem_rtakeWhile_imp hkeys)]
  rw [shortenIdle, List.rdropWhile_concat_pos _ _ _ hidle, List.rtakeWhile_concat_pos _ _ _ hidle,
    hone]

namespace Runs

theorem ofLog_concat (held : List KeySet) (keys : KeySet) :
    ofLog (held ++ [keys]) = (ofLog held).push keys := by
  rw [ofLog, List.foldl_append]
  rfl

theorem push_concat (front : Runs) (keys : KeySet) (n : Nat) :
    push (front ++ [(keys, n)]) keys = front ++ [(keys, n + 1)] := by
  unfold push
  rw [List.getLast?_concat, List.dropLast_concat]
  exact if_pos rfl

theorem push_of_ne {runs : Runs} {keys : KeySet} (h : runs.getLast?.map (·.1) ≠ some keys) :
    push runs keys = runs ++ [(keys, 1)] := by
  unfold push
  split
  · next hlast => exact if_neg fun heq => h (by rw [hlast, Option.map_some, heq])
  · next hlast => rw [List.getLast?_eq_none_iff.mp hlast, List.nil_append]

/-- The run that was pushed last is that of the keys. -/
theorem exists_push_eq (runs : Runs) (keys : KeySet) :
    ∃ front n, runs.push keys = front ++ [(keys, n)] := by
  by_cases h : runs.getLast?.map (·.1) = some keys
  · obtain ⟨⟨_, n⟩, hlast, rfl⟩ := Option.map_eq_some_iff.mp h
    obtain ⟨front, rfl⟩ := List.getLast?_eq_some_iff.mp hlast
    exact ⟨front, n + 1, push_concat front _ n⟩
  · exact ⟨runs, 1, push_of_ne h⟩

/-- The last run of a log is that of the keys that were held last. -/
theorem getLast?_ofLog (held : List KeySet) : (ofLog held).getLast?.map (·.1) = held.getLast? := by
  induction held using List.reverseRecOn with
  | nil => rfl
  | append_singleton held keys _ =>
    obtain ⟨front, n, hpush⟩ := exists_push_eq (ofLog held) keys
    rw [ofLog_concat, hpush, List.getLast?_concat, List.getLast?_concat, Option.map_some]

theorem trimIdle_concat_of_ne {keys : KeySet} (h : keys ≠ .empty) (front : Runs) (n : Nat) :
    Recorder.trimIdle (front ++ [(keys, n)]) = front ++ [(keys, n)] := by
  unfold Recorder.trimIdle
  rw [List.getLast?_concat]
  exact if_neg h

theorem trimIdle_concat_empty (front : Runs) (n : Nat) :
    Recorder.trimIdle (front ++ [(.empty, n)]) = front ++ [(.empty, 1)] := by
  unfold Recorder.trimIdle
  rw [List.getLast?_concat, List.dropLast_concat]
  exact if_pos rfl

theorem toLog_concat (front : Runs) (keys : KeySet) (n : Nat) :
    toLog (front ++ [(keys, n)]) = toLog front ++ List.replicate n keys := by
  simp [toLog]

/-- The last run is shortened exactly if the log ends with idle ticks. -/
theorem toLog_trimIdle (held : List KeySet) :
    toLog (Recorder.trimIdle (ofLog held)) = shortenIdle held := by
  induction held using List.reverseRecOn with
  | nil => rfl
  | append_singleton held keys ih =>
    rw [ofLog_concat]
    by_cases hkeys : keys = .empty
    · subst hkeys
      rw [shortenIdle_concat_empty]
      by_cases hidle : held.getLast? = some .empty
      · -- the run goes on, and is shortened as it was before
        obtain ⟨before, rfl⟩ := List.getLast?_eq_some_iff.mp hidle
        have hlast := getLast?_ofLog (before ++ [.empty])
        rw [hidle] at hlast
        obtain ⟨⟨_, n⟩, hlast, rfl⟩ := Option.map_eq_some_iff.mp hlast
        obtain ⟨front, hfront⟩ := List.getLast?_eq_some_iff.mp hlast
        rw [hfront, trimIdle_concat_empty, shortenIdle_concat_empty] at ih
        rw [hfront, push_concat, trimIdle_concat_empty, ih,
          List.rdropWhile_concat_pos _ _ _ (KeySet.isEmpty_iff.mpr rfl)]
      · have hkept : held.rdropWhile KeySet.isEmpty = held := by
          rw [List.rdropWhile_eq_self_iff]
          intro hne hlast
          rw [KeySet.isEmpty_iff] at hlast
          exact hidle (by rw [List.getLast?_eq_some_getLast hne, hlast])
        rw [push_of_ne (getLast?_ofLog held ▸ hidle), trimIdle_concat_empty, toLog_concat,
          toLog_ofLog, hkept, List.replicate_one]
    · obtain ⟨front, n, hpush⟩ := exists_push_eq (ofLog held) keys
      rw [hpush, trimIdle_concat_of_ne hkeys, ← hpush, toLog_push, toLog_ofLog,
        shortenIdle_concat_of_ne hkeys]

/-- The steps of runs are played on the ticks that the runs stand for. -/
theorem expandSteps_steps (runs : Runs) : expandSteps runs.steps = (toLog runs).map .ofKeys := by
  rw [expandSteps, countdowns?_steps, Option.getD_some]
  simp [toLog, List.flatMap_map, List.map_flatMap]

theorem lt_of_trimIdle {runs : Runs} {bound : Nat} (hbound : 1 < bound)
    (h : ∀ run ∈ runs, run.2 < bound) : ∀ run ∈ Recorder.trimIdle runs, run.2 < bound := by
  unfold Recorder.trimIdle
  split
  · split
    · intro run hrun
      rcases List.mem_append.mp hrun with hrun | hrun
      · exact h run (List.dropLast_subset _ hrun)
      · rw [List.mem_singleton.mp hrun]
        exact hbound
    · exact h
  · exact h

theorem trimIdle_trimIdle (runs : Runs) :
    Recorder.trimIdle (Recorder.trimIdle runs) = Recorder.trimIdle runs := by
  induction runs using List.reverseRecOn with
  | nil => rfl
  | append_singleton front run _ =>
    obtain ⟨keys, n⟩ := run
    by_cases hkeys : keys = .empty
    · subst hkeys
      rw [trimIdle_concat_empty, trimIdle_concat_empty]
    · rw [trimIdle_concat_of_ne hkeys, trimIdle_concat_of_ne hkeys]

end Runs

/-! ## Sections -/

namespace SectionLog

/-- The sections of a log, in the order of the first visits. -/
def visited (log : SectionLog) : List Int := (log.map (·.1)).eraseDups

/-- What is kept of a section when the recording is finished. -/
def keptIn (log : SectionLog) (s : Int) : List KeySet :=
  if log.getLast?.map (·.1) = some s then shortenIdle (log.heldIn s) else log.heldIn s

theorem mem_visited {log : SectionLog} {s : Int} : s ∈ log.visited ↔ s ∈ log.map (·.1) :=
  List.mem_eraseDups

theorem visited_concat (log : SectionLog) (s : Int) (keys : KeySet) :
    visited (log ++ [(s, keys)]) =
      if s ∈ log.visited then log.visited else log.visited ++ [s] := by
  have happend : visited (log ++ [(s, keys)]) =
      log.visited ++ ([s].removeAll (log.map (·.1))).eraseDups := by
    rw [visited, List.map_append, List.eraseDups_append]
    rfl
  rw [happend]
  split
  · next hs => simp [List.removeAll, mem_visited.mp hs]
  · next hs => simp [List.removeAll, mt mem_visited.mpr hs, List.eraseDups_cons]

end SectionLog

section

variable {α : Type} {table : List (Int × α)}

theorem map_setEntry {visited : List Int} {s : Int} (hs : s ∈ visited) (f : Int → α) (a : α) :
    setEntry (visited.map fun v => (v, f v)) s a =
      visited.map fun v => (v, if s = v then a else f v) := by
  have hkey : s ∈ (visited.map fun v => (v, f v)).map (·.1) := by simpa using hs
  rw [setEntry, if_pos (any_key_iff.mpr hkey), List.map_map]
  refine List.map_congr_left fun v _ => ?_
  by_cases hv : s = v
  · simp [hv]
  · simp [hv, Ne.symm hv]

theorem lookup_setEntry_self {s : Int} (h : s ∈ table.map (·.1)) (a : α) :
    (setEntry table s a).lookup s = some a := by
  rw [setEntry, if_pos (any_key_iff.mpr h)]
  induction table with
  | nil => cases h
  | cons t table ih =>
    obtain ⟨key, b⟩ := t
    by_cases hkey : key = s
    · simp [hkey]
    · have hne : (s == key) = false := by simpa using Ne.symm hkey
      have hrest : s ∈ table.map (·.1) := by simpa [Ne.symm hkey] using h
      simpa [hkey, hne, List.lookup_cons] using ih hrest

theorem setEntry_setEntry {s : Int} (h : s ∈ table.map (·.1)) (a : α) :
    setEntry (setEntry table s a) s a = setEntry table s a := by
  have hkey : s ∈ (setEntry table s a).map (·.1) := mem_map_fst_setEntry.mpr (.inl h)
  rw [setEntry, if_pos (any_key_iff.mpr hkey), setEntry, if_pos (any_key_iff.mpr h), List.map_map]
  refine List.map_congr_left fun t _ => ?_
  by_cases ht : t.1 = s
  · simp [ht]
  · simp [ht]

end

/-! ## Recorders -/

namespace Recorder

/-- The sections of a recorder are in the order of the first visits, each with the runs of what
was held there. -/
theorem sections_ofLog (log : SectionLog) :
    (ofLog log).sections = log.visited.map fun s => (s, Runs.ofLog (log.heldIn s)) := by
  have hkeys : (ofLog log).sections.map (·.1) = log.visited := by
    induction log using List.reverseRecOn with
    | nil => rfl
    | append_singleton log t ih =>
      obtain ⟨s, keys⟩ := t
      rw [ofLog_concat, record, SectionLog.visited_concat, ← ih]
      split
      · next hs => exact map_fst_setEntry_of_mem hs _
      · next hs => rw [setEntry_of_not_mem hs, List.map_append, List.map_cons, List.map_nil]
  rw [← hkeys, List.map_map]
  refine (List.map_id _).symm.trans (List.map_congr_left fun t ht => ?_)
  have hexact : t.2 = Runs.ofLog (log.heldIn t.1) := (covers_ofLog log).related t ht
  exact Prod.ext rfl hexact

theorem lastSection_ofLog (log : SectionLog) :
    (ofLog log).lastSection = log.getLast?.map (·.1) := by
  induction log using List.reverseRecOn with
  | nil => rfl
  | append_singleton log t _ => rw [ofLog_concat, List.getLast?_concat, record, Option.map_some]

/-- To finish a recording shortens the last run of the section that was recorded last. -/
theorem sections_finalize (log : SectionLog) :
    (ofLog log).finalize.sections = log.visited.map fun s =>
      (s, if log.getLast?.map (·.1) = some s then Recorder.trimIdle (Runs.ofLog (log.heldIn s))
        else Runs.ofLog (log.heldIn s)) := by
  unfold finalize
  rw [lastSection_ofLog]
  cases hlast : log.getLast?.map (·.1) with
  | none => simpa using sections_ofLog log
  | some s =>
    have hs : s ∈ log.map (·.1) := by
      obtain ⟨t, ht, rfl⟩ := Option.map_eq_some_iff.mp hlast
      exact List.mem_map_of_mem (List.mem_of_getLast? ht)
    obtain ⟨runs, hlookup, hexact⟩ := (covers_ofLog log).exists_runs hs
    rw [Exact] at hexact
    subst hexact
    dsimp only
    rw [hlookup]
    dsimp only
    rw [sections_ofLog, map_setEntry (SectionLog.mem_visited.mpr hs)]
    refine List.map_congr_left fun v _ => ?_
    by_cases hv : s = v
    · subst hv
      simp
    · simp [hv]

/-- To finish a recording once more changes nothing. -/
theorem finalize_finalize (r : Recorder) : r.finalize.finalize = r.finalize := by
  cases hlast : r.lastSection with
  | none =>
    have hkept : r.finalize = r := by rw [finalize, hlast]
    rw [hkept, hkept]
  | some s =>
    cases hlookup : r.sections.lookup s with
    | none =>
      have hkept : r.finalize = r := by
        rw [finalize, hlast]
        dsimp only
        rw [hlookup]
      rw [hkept, hkept]
    | some runs =>
      have hs : s ∈ r.sections.map (·.1) := List.mem_map_of_mem (mem_of_lookup hlookup)
      have hfinal : r.finalize = { r with sections := setEntry r.sections s (trimIdle runs) } := by
        rw [finalize, hlast]
        dsimp only
        rw [hlookup]
      rw [hfinal, finalize, hlast]
      dsimp only
      rw [lookup_setEntry_self hs]
      dsimp only
      rw [Runs.trimIdle_trimIdle, setEntry_setEntry hs]

/-! ## Saved recorders -/

/-- The recorder is saved, and the program of its file plays the logs, section by section. -/
def ReadsBack (r : Recorder) (logs : List (Int × List KeySet)) (files : Files) (path : Path) :
    Prop :=
  ∃ files', (Recording.ofRecorder r).save files path = .ok files' ∧
    ∀ backup, ∃ recording sections, (Recording.load files' path backup).1 = .ok recording ∧
      Recording.program recording.sections = .ok sections ∧
      sections.map (fun t => (t.1, expandSteps t.2)) = logs.map fun t => (t.1, t.2.map .ofKeys)

variable {r : Recorder} {visited : List Int} {runs : Int → Runs}

/-- A recorder comes back if its sections and the lengths of its runs are of 64 bits. -/
theorem readsBack_of_runs (hr : r.sections = visited.map fun s => (s, runs s))
    (hnodup : visited.Nodup) (hsections : ∀ s ∈ visited, Recording.fits s = true)
    (hruns : ∀ s, ∀ run ∈ runs s, run.2 < 2 ^ 64) (files : Files) (path : Path) :
    r.ReadsBack (visited.map fun s => (s, (runs s).toLog)) files path := by
  have hfits : (Recording.ofRecorder r).Fits := by
    refine Recording.fits_of_runs ?_ ?_ ?_
    · rw [hr]
      simpa [Function.comp_def] using hnodup
    · intro t ht
      rw [hr] at ht
      obtain ⟨s, hs, rfl⟩ := List.mem_map.mp ht
      exact hsections s hs
    · intro t ht
      rw [hr] at ht
      obtain ⟨s, -, rfl⟩ := List.mem_map.mp ht
      exact hruns s
  obtain ⟨text, hsave, hload⟩ := Recording.load_save hfits files path
  refine ⟨_, hsave, fun backup => ⟨_, _, hload _ (Files.read?_write files path text) backup,
    Recording.program_ofRecorder r, ?_⟩⟩
  rw [hr]
  simp [Runs.expandSteps_steps]

/-- A run whose length is not of 64 bits cannot be saved. -/
theorem save_of_long {t : Int × Runs} (ht : t ∈ r.sections) {run : KeySet × Nat}
    (hrun : run ∈ t.2) (hlong : 2 ^ 64 ≤ run.2) (files : Files) (path : Path) :
    (Recording.ofRecorder r).save files path = .error .kind := by
  have hwide : Recording.fits run.2 = false := by
    rw [← Bool.not_eq_true]
    intro hfits
    have hbounds := Recording.bounds_of_fits hfits
    omega
  have hnumbers : Json.everyInt Recording.fits (Recording.ofRecorder r).toValue = false := by
    rw [← Bool.not_eq_true]
    intro hevery
    rw [Recording.toValue_eq] at hevery
    simp only [Json.everyInt, Json.fieldsEveryInt, Bool.and_true, Bool.and_eq_true] at hevery
    have hcells := Json.fieldsEveryInt_iff.mp hevery.2 (toString t.1, .list t.2.cells)
      (List.mem_map_of_mem (List.mem_map_of_mem (f := fun u => (u.1, u.2.cells)) ht))
    have hcell : Value.int run.2 ∈ t.2.cells := List.mem_flatMap.mpr ⟨run, hrun, by simp⟩
    have hfits := Json.itemsEveryInt_iff.mp hcells _ hcell
    rw [Json.everyInt, hwide] at hfits
    exact Bool.false_ne_true hfits
  rw [Recording.save, Recording.write?, hnumbers, Bool.and_false, Bool.false_and]
  rfl

/-- What was recorded comes back from the file: the sections in the order of the first visits, each
with what was held there, tick by tick. When the recording is finished, only the idle ticks at the
end of the section that was recorded last are shortened to one, once and for all. A data file holds
no number of more than 64 bits. -/
theorem log_returns {log : SectionLog} (hsections : ∀ t ∈ log, Recording.fits t.1 = true)
    (hruns : ∀ s, ∀ run ∈ Runs.ofLog (log.heldIn s), run.2 < 2 ^ 64) (files : Files)
    (path : Path) :
    (ofLog log).ReadsBack (log.visited.map fun s => (s, log.heldIn s)) files path ∧
    (ofLog log).finalize.ReadsBack (log.visited.map fun s => (s, log.keptIn s)) files path ∧
    (ofLog log).finalize.finalize = (ofLog log).finalize := by
  have hnodup : log.visited.Nodup := by
    have hkeys := (covers_ofLog log).nodup
    rw [sections_ofLog] at hkeys
    simpa [Function.comp_def] using hkeys
  have hvisited : ∀ s ∈ log.visited, Recording.fits s = true := by
    intro s hs
    obtain ⟨t, ht, rfl⟩ := List.mem_map.mp (SectionLog.mem_visited.mp hs)
    exact hsections t ht
  refine ⟨?_, ?_, finalize_finalize _⟩
  · simpa [Runs.toLog_ofLog] using
      readsBack_of_runs (sections_ofLog log) hnodup hvisited hruns files path
  · have hshort : ∀ s, ∀ run ∈ (if log.getLast?.map (·.1) = some s then
        trimIdle (Runs.ofLog (log.heldIn s)) else Runs.ofLog (log.heldIn s)), run.2 < 2 ^ 64 := by
      intro s
      split
      · exact Runs.lt_of_trimIdle (by decide) (hruns s)
      · exact hruns s
    simpa [apply_ite, Runs.toLog_ofLog, Runs.toLog_trimIdle, SectionLog.keptIn] using
      readsBack_of_runs (sections_finalize log) hnodup hvisited hshort files path

/-- A section that is left and entered again, with idle ticks at the end of both. -/
theorem log_returns_of_two_visits :
    let log : SectionLog := [(0, .ofList [.right]), (-1, .empty), (-1, .empty),
      (0, .ofList [.right]), (0, .empty), (0, .empty)]
    (ofLog log).finalize.ReadsBack
      [(0, [.ofList [.right], .ofList [.right], .empty]), (-1, [.empty, .empty])] .empty
      (.parse "take.rec") := by
  intro log
  have hsections : ∀ t ∈ log, Recording.fits t.1 = true := by decide
  have hruns : ∀ s, ∀ run ∈ Runs.ofLog (log.heldIn s), run.2 < 2 ^ 64 := by
    intro s run hrun
    have hle := (Runs.standFor_ofLog (log.heldIn s)).le_length hrun
    have hlog : (log.heldIn s).length ≤ 6 := log.length_heldIn_le s
    omega
  have hkept : (log.visited.map fun s => (s, log.keptIn s)) =
      [(0, [.ofList [.right], .ofList [.right], .empty]), (-1, [.empty, .empty])] := by decide
  rw [← hkept]
  exact (log_returns hsections hruns .empty (.parse "take.rec")).2.1

end Recorder

end TickScript
