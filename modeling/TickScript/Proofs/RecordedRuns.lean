import Mathlib.Data.List.Nodup
import TickScript.Recording

/-!
# What a recorder keeps

Tick by tick, a recorder gathers for each section the runs of what was held there
(`Recorder.covers_ofLog`). The idle run at the end of the last section is then shortened, so
that the runs of a section stand for what was held there up to ticks at the end on which nothing
was held (`Runs.StandFor`, `Recorder.covers_finalize`).
-/

namespace TickScript

/-! ## Section tables -/

section

variable {α β : Type} {table : List (Int × α)} {key : Int} {a : α}

theorem any_key_iff : table.any (·.1 == key) = true ↔ key ∈ table.map (·.1) := by
  simp only [List.any_eq_true, List.mem_map, beq_iff_eq]

/-- A new key goes to the end. -/
theorem setEntry_of_not_mem (h : key ∉ table.map (·.1)) (a : α) :
    setEntry table key a = table ++ [(key, a)] := by
  rw [setEntry, if_neg (mt any_key_iff.mp h)]

/-- A known key keeps its place. -/
theorem map_fst_setEntry_of_mem (h : key ∈ table.map (·.1)) (a : α) :
    (setEntry table key a).map (·.1) = table.map (·.1) := by
  rw [setEntry, if_pos (any_key_iff.mpr h), List.map_map]
  refine List.map_congr_left fun t _ => ?_
  by_cases ht : t.1 = key
  · simp [ht]
  · simp [ht]

theorem mem_map_fst_setEntry {s : Int} :
    s ∈ (setEntry table key a).map (·.1) ↔ s ∈ table.map (·.1) ∨ s = key := by
  by_cases h : key ∈ table.map (·.1)
  · rw [map_fst_setEntry_of_mem h]
    constructor
    · exact Or.inl
    · rintro (hs | rfl)
      · exact hs
      · exact h
  · rw [setEntry_of_not_mem h, List.map_append, List.mem_append]
    simp

theorem nodup_setEntry (h : (table.map (·.1)).Nodup) :
    ((setEntry table key a).map (·.1)).Nodup := by
  by_cases hkey : key ∈ table.map (·.1)
  · rw [map_fst_setEntry_of_mem hkey]
    exact h
  · rw [setEntry_of_not_mem hkey, List.map_append]
    exact h.append (List.nodup_singleton _) (by simpa using hkey)

/-- The other entries are as they were. -/
theorem mem_setEntry {t : Int × α} (h : t ∈ setEntry table key a) :
    t = (key, a) ∨ t ∈ table ∧ t.1 ≠ key := by
  by_cases hkey : key ∈ table.map (·.1)
  · rw [setEntry, if_pos (any_key_iff.mpr hkey)] at h
    obtain ⟨u, hu, rfl⟩ := List.mem_map.mp h
    by_cases hsame : u.1 = key
    · exact .inl (by simp [hsame])
    · exact .inr (by simpa [hsame] using hu)
  · rw [setEntry_of_not_mem hkey, List.mem_append, List.mem_singleton] at h
    rcases h with ht | ht
    · refine .inr ⟨ht, ?_⟩
      rintro rfl
      exact hkey (List.mem_map_of_mem ht)
    · exact .inl ht

theorem mem_of_lookup {s : Int} (h : table.lookup s = some a) : (s, a) ∈ table := by
  induction table with
  | nil => cases h
  | cons t table ih =>
    obtain ⟨k, b⟩ := t
    by_cases hs : s = k
    · subst hs
      rw [List.lookup_cons_self, Option.some.injEq] at h
      exact h ▸ List.mem_cons_self
    · have hne : (s == k) = false := by simpa using hs
      rw [List.lookup_cons, hne] at h
      exact List.mem_cons_of_mem _ (ih h)

theorem exists_lookup {s : Int} (h : s ∈ table.map (·.1)) : ∃ a, table.lookup s = some a := by
  obtain ⟨t, ht, rfl⟩ := List.mem_map.mp h
  exact Option.isSome_iff_exists.mp (List.lookup_isSome_iff.mpr ⟨t, ht, by simp⟩)

theorem lookup_eq_none {s : Int} (h : s ∉ table.map (·.1)) : table.lookup s = none := by
  rw [List.lookup_eq_none_iff]
  intro t ht
  rw [bne_iff_ne]
  rintro rfl
  exact h (List.mem_map_of_mem ht)

theorem lookup_map_snd (f : α → β) (s : Int) :
    (table.map fun t => (t.1, f t.2)).lookup s = (table.lookup s).map f := by
  induction table with
  | nil => rfl
  | cons t table ih =>
    obtain ⟨k, b⟩ := t
    rw [List.map_cons, List.lookup_cons, List.lookup_cons]
    cases s == k with
    | true => rfl
    | false => exact ih

end

/-! ## Logs -/

/-- What was held on each tick, with the section that the player was in. -/
abbrev SectionLog := List (Int × KeySet)

namespace SectionLog

/-- What was held on the ticks in a section. -/
def heldIn (log : SectionLog) (s : Int) : List KeySet := (log.filter (·.1 == s)).map (·.2)

variable {log : SectionLog} {s s' : Int} {keys : KeySet}

theorem heldIn_cons_self : heldIn ((s, keys) :: log) s = keys :: heldIn log s := by
  simp [heldIn]

theorem heldIn_cons_of_ne (h : s' ≠ s) : heldIn ((s, keys) :: log) s' = heldIn log s' := by
  have hne : (s == s') = false := by simpa using h.symm
  simp [heldIn, hne]

theorem heldIn_append (log log' : SectionLog) (s : Int) :
    heldIn (log ++ log') s = heldIn log s ++ heldIn log' s := by
  simp [heldIn]

theorem heldIn_eq_nil (h : s ∉ log.map (·.1)) : heldIn log s = [] := by
  rw [heldIn, List.map_eq_nil_iff, List.filter_eq_nil_iff]
  rintro t ht hs
  rw [beq_iff_eq] at hs
  exact h (hs ▸ List.mem_map_of_mem ht)

theorem length_heldIn_le (log : SectionLog) (s : Int) : (heldIn log s).length ≤ log.length := by
  rw [heldIn, List.length_map]
  exact List.length_filter_le _ _

end SectionLog

/-! ## Runs -/

namespace Runs

/-- Played one after the other, the runs are the log, up to ticks at its end on which nothing is
held. -/
structure StandFor (runs : Runs) (log : List KeySet) : Prop where
  pos : ∀ r ∈ runs, 0 < r.2
  idle : ∃ n, log = toLog runs ++ List.replicate n .empty

theorem pos_push {runs : Runs} (h : ∀ r ∈ runs, 0 < r.2) (keys : KeySet) :
    ∀ r ∈ push runs keys, 0 < r.2 := by
  intro r hr
  unfold push at hr
  split at hr
  · next last n hlast =>
    split at hr
    · rcases List.mem_append.mp hr with hr | hr
      · exact h r (List.dropLast_subset _ hr)
      · rw [List.mem_singleton.mp hr]
        exact Nat.succ_pos n
    · rcases List.mem_append.mp hr with hr | hr
      · exact h r hr
      · rw [List.mem_singleton.mp hr]
        exact Nat.one_pos
  · rw [List.mem_singleton.mp hr]
    exact Nat.one_pos

/-- No run of a log is empty. -/
theorem pos_ofLog (log : List KeySet) : ∀ r ∈ ofLog log, 0 < r.2 := by
  have general : ∀ runs : Runs, (∀ r ∈ runs, 0 < r.2) → ∀ r ∈ log.foldl push runs, 0 < r.2 := by
    induction log with
    | nil => exact fun _ h => h
    | cons keys log ih => exact fun runs h => ih _ (pos_push h keys)
  exact general [] (List.forall_mem_nil _)

theorem standFor_ofLog (log : List KeySet) : StandFor (ofLog log) log where
  pos := pos_ofLog log
  idle := ⟨0, by rw [toLog_ofLog, List.replicate_zero, List.append_nil]⟩

/-- An idle run at the end may be shortened, as long as one tick of it stays. -/
theorem StandFor.trimIdle {runs : Runs} {log : List KeySet} (h : StandFor runs log) :
    StandFor (Recorder.trimIdle runs) log := by
  obtain ⟨hpos, n, hlog⟩ := h
  unfold Recorder.trimIdle
  split
  · next keys count hlast =>
    split
    · next hidle =>
      obtain ⟨front, rfl⟩ := List.getLast?_eq_some_iff.mp hlast
      subst hidle
      rw [List.dropLast_concat]
      have hcount : 0 < count := hpos (.empty, count) (by simp)
      refine ⟨?_, count - 1 + n, ?_⟩
      · intro r hr
        rcases List.mem_append.mp hr with hr | hr
        · exact hpos r (List.mem_append_left _ hr)
        · rw [List.mem_singleton.mp hr]
          exact Nat.one_pos
      · have hidle : ∀ m, toLog [(KeySet.empty, m)] = List.replicate m .empty := by
          intro m
          simp [toLog]
        have hsum : count + n = 1 + (count - 1 + n) := by omega
        rw [hlog, toLog_append, toLog_append, hidle, hidle, List.append_assoc, List.append_assoc,
          List.replicate_append_replicate, List.replicate_append_replicate, hsum]
    · exact ⟨hpos, n, hlog⟩
  · exact ⟨hpos, n, hlog⟩

theorem le_length_toLog {runs : Runs} {r : KeySet × Nat} (h : r ∈ runs) :
    r.2 ≤ (toLog runs).length := by
  induction runs with
  | nil => cases h
  | cons q runs ih =>
    have hcons : (toLog (q :: runs)).length = q.2 + (toLog runs).length := by simp [toLog]
    rcases List.mem_cons.mp h with rfl | h
    · omega
    · have hle := ih h
      omega

/-- A run is no longer than the log. -/
theorem StandFor.le_length {runs : Runs} {log : List KeySet} (h : StandFor runs log)
    {r : KeySet × Nat} (hr : r ∈ runs) : r.2 ≤ log.length := by
  obtain ⟨n, rfl⟩ := h.idle
  have hle := le_length_toLog hr
  rw [List.length_append]
  omega

end Runs

/-! ## Recorders -/

namespace Recorder

/-- The recorder after the ticks of a log. -/
def ofLog (log : SectionLog) : Recorder := log.foldl (fun r t => r.record t.1 t.2) {}

theorem ofLog_concat (log : SectionLog) (s : Int) (keys : KeySet) :
    ofLog (log ++ [(s, keys)]) = (ofLog log).record s keys := by
  rw [ofLog, List.foldl_append]
  rfl

/-- There is one entry for each section of the log, and the runs in it are related to what was
held there. -/
structure Covers (r : Recorder) (R : Runs → List KeySet → Prop) (log : SectionLog) : Prop where
  nodup : (r.sections.map (·.1)).Nodup
  visited : ∀ s, s ∈ r.sections.map (·.1) ↔ s ∈ log.map (·.1)
  related : ∀ t ∈ r.sections, R t.2 (log.heldIn t.1)

variable {r : Recorder} {R : Runs → List KeySet → Prop} {log : SectionLog}

/-- What is kept of a section. -/
theorem Covers.exists_runs (h : r.Covers R log) {s : Int} (hs : s ∈ log.map (·.1)) :
    ∃ runs, r.sections.lookup s = some runs ∧ R runs (log.heldIn s) := by
  obtain ⟨runs, hlookup⟩ := exists_lookup ((h.visited s).mpr hs)
  exact ⟨runs, hlookup, h.related (s, runs) (mem_of_lookup hlookup)⟩

/-- While the level is played, the runs are exactly those of what was held. -/
def Exact (runs : Runs) (held : List KeySet) : Prop := runs = Runs.ofLog held

theorem Covers.runs_eq (h : r.Covers Exact log) (s : Int) :
    r.runs s = Runs.ofLog (log.heldIn s) := by
  rw [runs]
  by_cases hs : s ∈ log.map (·.1)
  · obtain ⟨runs, hlookup, hexact⟩ := h.exists_runs hs
    rw [hlookup]
    exact hexact
  · rw [lookup_eq_none (mt (h.visited s).mp hs), SectionLog.heldIn_eq_nil hs]
    rfl

theorem Covers.record (h : r.Covers Exact log) (s : Int) (keys : KeySet) :
    (r.record s keys).Covers Exact (log ++ [(s, keys)]) where
  nodup := nodup_setEntry h.nodup
  visited s' := by
    rw [List.map_append, List.mem_append, ← h.visited s', Recorder.record, mem_map_fst_setEntry,
      List.map_cons, List.map_nil, List.mem_singleton]
  related t ht := by
    rw [SectionLog.heldIn_append]
    rcases mem_setEntry ht with rfl | ⟨ht, hne⟩
    · rw [h.runs_eq s, SectionLog.heldIn_cons_self, Exact, Runs.ofLog, Runs.ofLog,
        List.foldl_append]
      rfl
    · have hexact : t.2 = Runs.ofLog (log.heldIn t.1) := h.related t ht
      rw [SectionLog.heldIn_cons_of_ne hne, hexact]
      simp [Exact, SectionLog.heldIn]

theorem covers_ofLog (log : SectionLog) : (ofLog log).Covers Exact log := by
  have general : ∀ (log' : SectionLog) (r : Recorder), r.Covers Exact log' →
      (log.foldl (fun r t => r.record t.1 t.2) r).Covers Exact (log' ++ log) := by
    induction log with
    | nil =>
      intro log' r h
      rwa [List.append_nil]
    | cons t log ih =>
      intro log' r h
      have hnext := ih _ _ (h.record t.1 t.2)
      rwa [List.append_assoc] at hnext
  exact general [] {} ⟨List.nodup_nil, fun _ => Iff.rfl, List.forall_mem_nil _⟩

/-- Shortening the idle run at the end of the last section keeps what the runs stand for. -/
theorem Covers.finalize (h : r.Covers Runs.StandFor log) :
    r.finalize.Covers Runs.StandFor log := by
  unfold Recorder.finalize
  split
  · exact h
  · next s _ =>
    split
    · exact h
    · next runs hlookup =>
      have hmem := mem_of_lookup hlookup
      refine ⟨nodup_setEntry h.nodup, ?_, ?_⟩
      · intro s'
        rw [mem_map_fst_setEntry, ← h.visited]
        constructor
        · rintro (hs | rfl)
          · exact hs
          · exact List.mem_map_of_mem hmem
        · exact Or.inl
      · intro t ht
        rcases mem_setEntry ht with rfl | ⟨ht, -⟩
        · exact (h.related (s, runs) hmem).trimIdle
        · exact h.related t ht

/-- What is saved of a level. -/
theorem covers_finalize (log : SectionLog) : (ofLog log).finalize.Covers Runs.StandFor log := by
  refine Covers.finalize ⟨(covers_ofLog log).nodup, (covers_ofLog log).visited, fun t ht => ?_⟩
  have hexact : t.2 = Runs.ofLog (log.heldIn t.1) := (covers_ofLog log).related t ht
  rw [hexact]
  exact Runs.standFor_ofLog _

end Recorder

end TickScript
