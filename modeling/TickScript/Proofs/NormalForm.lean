import Mathlib.Data.List.Chain
import TickScript.Proofs.Countdowns
import TickScript.Proofs.SavedLogs

/-!
# The normal form of a log

Many cells play the same log: letters may stand in any order, runs of the same keys may follow one
another, and runs may have no ticks. Cells are in normal form (`Cells.IsNormal`) if none of this is
so. Each log has one normal form, which is what it is encoded as (`encodeLog_normal`), and what a
recorder keeps of each section.

The encoder writes the cells of a log one after the other, and a recorder keeps runs. That they
agree is said by `encodeLog_eq`.
-/

namespace TickScript

/-! ## Letters -/

theorem KeySet.codes_injective {s t : KeySet} (h : s.codes = t.codes) : s = t := by
  have hread := Inputs.read_codes s
  rw [h, Inputs.read_codes t] at hread
  exact congrArg Inputs.keys (Except.ok.inj hread).symm

/-- Letters of keys, each once at most and in the order in which keys are written. -/
def IsCanonical (codes : String) : Prop := codes.toList.Sublist (Key.all.map Key.code)

theorem KeySet.isCanonical_codes (s : KeySet) : IsCanonical s.codes := by
  rw [IsCanonical, codes, String.toList_ofList]
  exact List.filter_sublist.map Key.code

/-- Keys that stand in their order are the members of a set. -/
theorem KeySet.toList_ofList {ks : List Key} (h : ks.Sublist Key.all) :
    (ofList ks).toList = ks := by
  have hsorted : Key.all.Pairwise (·.index < ·.index) := by decide
  have hkeys : ks.Pairwise (·.index < ·.index) := hsorted.sublist h
  have hmembers : (ofList ks).toList.Pairwise (·.index < ·.index) :=
    hsorted.sublist List.filter_sublist
  have hnodup : ∀ {l : List Key}, l.Pairwise (·.index < ·.index) → l.Nodup := fun hl =>
    hl.imp fun hlt heq => absurd (congrArg Key.index heq) (Nat.ne_of_lt hlt)
  have hperm : (ofList ks).toList.Perm ks :=
    (List.perm_ext_iff_of_nodup (hnodup hmembers) (hnodup hkeys)).mpr fun k => by
      rw [mem_toList, mem_ofList]
  refine hperm.eq_of_pairwise (fun a b _ _ hab hba => ?_) hmembers hkeys
  exact absurd hab (Nat.lt_asymm hba)

/-- Letters in their order are those of a set of keys. -/
theorem IsCanonical.exists_keys {codes : String} (h : IsCanonical codes) :
    ∃ keys : KeySet, keys.codes = codes := by
  obtain ⟨ks, hks, hcodes⟩ := List.sublist_map_iff.mp h
  refine ⟨.ofList ks, ?_⟩
  rw [KeySet.codes, KeySet.toList_ofList hks, ← hcodes, String.ofList_toList]

/-! ## Encoding -/

namespace Runs

theorem cells_append (a b : Runs) : cells (a ++ b) = cells a ++ cells b := List.flatMap_append

theorem cells_concat (front : Runs) (keys : KeySet) (n : Nat) :
    cells (front ++ [(keys, n)]) = cells front ++ [.text keys.codes, .int n] := by
  rw [cells_append]
  rfl

end Runs

/-- The letters and the length of the last run are the last two cells. -/
theorem extendCells_cells (runs : Runs) (keys : KeySet) :
    extendCells runs.cells keys = (runs.push keys).cells := by
  cases runs using List.reverseRecOn with
  | nil => rfl
  | append_singleton front run =>
    obtain ⟨last, n⟩ := run
    have hcells : (Runs.cells (front ++ [(last, n)])).reverse
        = .int n :: .text last.codes :: (Runs.cells front).reverse := by
      rw [Runs.cells_concat, List.reverse_append]
      rfl
    unfold extendCells
    rw [hcells]
    dsimp only
    split
    · next heq =>
      rw [KeySet.codes_injective heq, Runs.push_concat, Runs.cells_concat, List.reverse_reverse]
      rfl
    · next hne =>
      have hlast : (front ++ [(last, n)]).getLast?.map (·.1) ≠ some keys := by
        rw [List.getLast?_concat, Option.map_some]
        exact fun h => hne (congrArg KeySet.codes (Option.some.inj h))
      rw [Runs.push_of_ne hlast, Runs.cells_concat (front ++ [(last, n)])]
      rfl

/-- A log is encoded as its runs. -/
theorem encodeLog_eq (log : List KeySet) : encodeLog log = (Runs.ofLog log).cells := by
  induction log using List.reverseRecOn with
  | nil => rfl
  | append_singleton log keys ih =>
    have hconcat : encodeLog (log ++ [keys]) = extendCells (encodeLog log) keys := by
      rw [encodeLog, List.foldl_append]
      rfl
    rw [hconcat, ih, extendCells_cells, Runs.ofLog_concat]

/-! ## Runs in normal form -/

namespace Runs

/-- No run is empty, and no two runs that follow one another hold the same keys. -/
structure IsNormal (runs : Runs) : Prop where
  pos : ∀ r ∈ runs, 0 < r.2
  distinct : runs.IsChain (·.1 ≠ ·.1)

theorem isNormal_ofLog (log : List KeySet) : IsNormal (ofLog log) := by
  refine ⟨pos_ofLog log, ?_⟩
  induction log using List.reverseRecOn with
  | nil => exact .nil
  | append_singleton log keys ih =>
    rw [ofLog_concat]
    by_cases hlast : (ofLog log).getLast?.map (·.1) = some keys
    · -- the last run grows, and holds the same keys as before
      obtain ⟨⟨_, n⟩, hrun, rfl⟩ := Option.map_eq_some_iff.mp hlast
      obtain ⟨front, hfront⟩ := List.getLast?_eq_some_iff.mp hrun
      rw [hfront] at ih ⊢
      rw [push_concat, List.isChain_append]
      obtain ⟨hchain, -, hne⟩ := List.isChain_append.mp ih
      exact ⟨hchain, .singleton _, by simpa using hne⟩
    · rw [push_of_ne hlast, List.isChain_append]
      refine ⟨ih, .singleton _, fun r hr _ hs heq => hlast ?_⟩
      rw [List.head?_singleton, Option.mem_some_iff] at hs
      subst hs
      rw [Option.mem_def.mp hr, Option.map_some, heq]

/-- Pushing some ticks of one run after the first. -/
theorem foldl_push_replicate (front : Runs) (keys : KeySet) (n m : Nat) :
    (List.replicate m keys).foldl push (front ++ [(keys, n)]) = front ++ [(keys, n + m)] := by
  induction m generalizing n with
  | zero => rfl
  | succ m ih =>
    rw [List.replicate_succ, List.foldl_cons, push_concat, ih, Nat.add_assoc, Nat.add_comm 1]

/-- Runs in normal form are the runs of what they stand for. -/
theorem IsNormal.ofLog_toLog {runs : Runs} (h : runs.IsNormal) : ofLog (toLog runs) = runs := by
  induction runs using List.reverseRecOn with
  | nil => rfl
  | append_singleton front run ih =>
    obtain ⟨keys, count⟩ := run
    obtain ⟨hchain, -, hne⟩ := List.isChain_append.mp h.distinct
    have hfront : ofLog (toLog front) = front :=
      ih ⟨fun r hr => h.pos r (List.mem_append_left _ hr), hchain⟩
    have hlast : front.getLast?.map (·.1) ≠ some keys := by
      intro heq
      obtain ⟨r, hr, rfl⟩ := Option.map_eq_some_iff.mp heq
      exact hne r hr (r.1, count) rfl rfl
    obtain ⟨n, rfl⟩ : ∃ n, count = n + 1 :=
      Nat.exists_eq_add_one.mpr (h.pos (keys, count) (by simp))
    rw [toLog_concat, ofLog, List.foldl_append, ← ofLog, hfront, List.replicate_succ,
      List.foldl_cons, push_of_ne hlast, foldl_push_replicate, Nat.add_comm 1]

end Runs

/-! ## Cells in normal form -/

namespace Cells

/-- The cells of some texts and numbers, one after the other. -/
def ofPairs (pairs : List (String × Int)) : List Value :=
  pairs.flatMap fun p => [.text p.1, .int p.2]

/-- Letters and a number of ticks by turns: the letters are in their order, no number is less than
one, and the same letters do not follow one another. -/
def IsNormal (cells : List Value) : Prop :=
  ∃ pairs, cells = ofPairs pairs ∧ (∀ p ∈ pairs, IsCanonical p.1 ∧ 1 ≤ p.2) ∧
    pairs.IsChain (·.1 ≠ ·.1)

/-- The cells are read as steps that are played as the log. -/
def Play (cells : List Value) (log : List KeySet) : Prop :=
  ∃ steps, decodeCells (.list cells) = .ok steps ∧ expandSteps steps = log.map .ofKeys

/-- The letters and the length of a run. -/
def pairOf (run : KeySet × Nat) : String × Int := (run.1.codes, run.2)

theorem ofPairs_pairOf (runs : Runs) : ofPairs (runs.map pairOf) = runs.cells := by
  rw [ofPairs, List.flatMap_map]
  rfl

theorem isNormal_cells {runs : Runs} (h : runs.IsNormal) : IsNormal runs.cells := by
  refine ⟨runs.map pairOf, (ofPairs_pairOf runs).symm, ?_, ?_⟩
  · intro p hp
    obtain ⟨r, hr, rfl⟩ := List.mem_map.mp hp
    exact ⟨r.1.isCanonical_codes, Int.toNat_le.mp (h.pos r hr)⟩
  · rw [List.isChain_map]
    exact h.distinct.imp fun _ _ hne heq => hne (KeySet.codes_injective heq)

/-- Pairs of letters and numbers are those of runs. -/
theorem exists_pairOf {pairs : List (String × Int)}
    (h : ∀ p ∈ pairs, IsCanonical p.1 ∧ 1 ≤ p.2) : ∃ runs : Runs, pairs = runs.map pairOf := by
  induction pairs with
  | nil => exact ⟨[], rfl⟩
  | cons p pairs ih =>
    obtain ⟨codes, n⟩ := p
    obtain ⟨⟨hcodes, hn⟩, hrest⟩ := List.forall_mem_cons.mp h
    obtain ⟨runs, rfl⟩ := ih hrest
    obtain ⟨keys, rfl⟩ := hcodes.exists_keys
    obtain ⟨m, rfl⟩ := Int.eq_ofNat_of_zero_le (Int.le_trans Int.one_nonneg hn)
    exact ⟨(keys, m) :: runs, rfl⟩

/-- Cells in normal form are those of runs in normal form. -/
theorem IsNormal.exists_runs {cells : List Value} (h : IsNormal cells) :
    ∃ runs : Runs, runs.IsNormal ∧ cells = runs.cells := by
  obtain ⟨pairs, rfl, hpairs, hchain⟩ := h
  obtain ⟨runs, rfl⟩ := exists_pairOf hpairs
  refine ⟨runs, ⟨fun r hr => ?_, ?_⟩, ofPairs_pairOf runs⟩
  · exact Int.toNat_le.mpr (hpairs _ (List.mem_map_of_mem hr)).2
  · rw [List.isChain_map] at hchain
    exact hchain.imp fun _ _ hne heq => hne (congrArg KeySet.codes heq)

theorem isNormal_encodeLog (log : List KeySet) : IsNormal (encodeLog log) := by
  rw [encodeLog_eq]
  exact isNormal_cells (Runs.isNormal_ofLog log)

/-- The cells of runs are played as what the runs stand for. -/
theorem play_cells (runs : Runs) : Play runs.cells runs.toLog :=
  ⟨runs.steps, decodeCells_cells runs, Runs.expandSteps_steps runs⟩

theorem play_encodeLog (log : List KeySet) : Play (encodeLog log) log := by
  have hplay := play_cells (Runs.ofLog log)
  rwa [Runs.toLog_ofLog, ← encodeLog_eq] at hplay

theorem ofKeys_injective : Function.Injective Inputs.ofKeys :=
  fun _ _ h => congrArg Inputs.keys h

theorem Play.unique {cells : List Value} {log log' : List KeySet} (h : Play cells log)
    (h' : Play cells log') : log = log' := by
  obtain ⟨steps, hsteps, hlog⟩ := h
  obtain ⟨steps', hsteps', hlog'⟩ := h'
  cases hsteps.symm.trans hsteps'
  exact List.map_injective_iff.mpr ofKeys_injective (hlog.symm.trans hlog')

/-- Cells in normal form are what the log that they play is encoded as. -/
theorem IsNormal.eq_encodeLog {cells : List Value} {log : List KeySet} (h : IsNormal cells)
    (hplay : Play cells log) : cells = encodeLog log := by
  obtain ⟨runs, hruns, rfl⟩ := h.exists_runs
  rw [encodeLog_eq, ← (play_cells runs).unique hplay, hruns.ofLog_toLog]

end Cells

/-! ## Cells that can be read -/

/-- An input that is read from a text has no strays. -/
theorem Inputs.exists_ofKeys {s : String} {i : Inputs} (h : Inputs.read (.text s) = .ok i) :
    ∃ keys, i = .ofKeys keys := by
  obtain ⟨keys, -, rfl⟩ := exists_of_map_ok h
  exact ⟨keys, rfl⟩

/-- In a program that was read from cells, every input is a set of keys. -/
theorem Catalogue.readCells_ofKeys {known : Catalogue} (cells : List Value) {steps : List Step}
    (h : known.readCells cells = .ok steps) : ∀ s ∈ steps, ∃ keys, s.inputs = .ofKeys keys := by
  cases firstRow h with
  | none => exact List.forall_mem_nil _
  | held _ hinputs _ hrest =>
    exact List.forall_mem_cons.mpr ⟨Inputs.exists_ofKeys hinputs, readCells_ofKeys _ hrest⟩
  | alone _ _ hrest =>
    exact List.forall_mem_cons.mpr ⟨⟨.empty, rfl⟩, readCells_ofKeys _ hrest⟩
termination_by sizeOf cells

/-- Whatever is read as countdowns is played as some log. -/
theorem exists_log {cells : List Value} {steps : List Step}
    (h : decodeCells (.list cells) = .ok steps) :
    ∃ log : List KeySet, expandSteps steps = log.map .ofKeys := by
  obtain ⟨counts, rfl⟩ := exists_counts h
  have hread : Catalogue.empty.readCells cells = .ok counts.steps := by
    obtain ⟨read, hread, h⟩ := exists_of_bind_ok h
    split at h
    · cases h
      exact hread
    · cases h
  have hkeys : ∀ i ∈ counts.toLog, Inputs.ofKeys i.keys = i := by
    intro i hi
    obtain ⟨c, hc, hi⟩ := List.mem_flatMap.mp hi
    obtain rfl := List.eq_of_mem_replicate hi
    obtain ⟨keys, hheld⟩ := Catalogue.readCells_ofKeys cells hread _ (List.mem_map_of_mem hc)
    rw [show c.1 = .ofKeys keys from hheld]
    rfl
  refine ⟨counts.toLog.map Inputs.keys, ?_⟩
  rw [expandSteps_counts, List.map_map]
  exact ((List.map_congr_left hkeys).trans (List.map_id _)).symm

/-! ## The normal form -/

/-- A log is encoded in normal form, and in the only one that plays the log. So cells that can be
read at all are what their own log is encoded as if and only if they are in normal form, and cells
in normal form that play the same log are the same. A recorder keeps of every section what its
ticks are encoded as. -/
theorem encodeLog_normal :
    (∀ log, Cells.IsNormal (encodeLog log) ∧ Cells.Play (encodeLog log) log ∧
      ∀ cells, Cells.IsNormal cells → Cells.Play cells log → cells = encodeLog log) ∧
    (∀ cells steps, decodeCells (.list cells) = .ok steps →
      ∃ log : List KeySet, expandSteps steps = log.map .ofKeys ∧
        Cells.IsNormal (encodeLog log) ∧ (encodeLog log = cells ↔ Cells.IsNormal cells)) ∧
    (∀ cells cells' log, Cells.IsNormal cells → Cells.IsNormal cells' → Cells.Play cells log →
      Cells.Play cells' log → cells = cells') ∧
    ∀ log : SectionLog, (Recording.ofRecorder (.ofLog log)).sections =
      log.visited.map fun s => (s, encodeLog (log.heldIn s)) := by
  refine ⟨fun log => ?_, fun cells steps hsteps => ?_, fun cells cells' log h h' hplay hplay' => ?_,
    fun log => ?_⟩
  · exact ⟨Cells.isNormal_encodeLog log, Cells.play_encodeLog log, fun _ h => h.eq_encodeLog⟩
  · obtain ⟨log, hlog⟩ := exists_log hsteps
    refine ⟨log, hlog, Cells.isNormal_encodeLog log, ?_, fun h => ?_⟩
    · rintro rfl
      exact Cells.isNormal_encodeLog log
    · exact (h.eq_encodeLog ⟨steps, hsteps, hlog⟩).symm
  · rw [h.eq_encodeLog hplay, h'.eq_encodeLog hplay']
  · rw [Recording.ofRecorder, Recorder.sections_ofLog, List.map_map]
    exact List.map_congr_left fun s _ => by rw [Function.comp_apply, encodeLog_eq]

/-- A run that is written in two parts, and an empty one. -/
theorem encodeLog_normal_of_split_run :
    let cells : List Value := [.text "r", .int 2, .text "r", .int 1, .text "", .int 0]
    let right : KeySet := .ofList [.right]
    Cells.Play cells [right, right, right] ∧
    encodeLog [right, right, right] = [.text "r", .int 3] ∧ ¬Cells.IsNormal cells := by
  intro cells right
  have hsteps : decodeCells (.list cells) = .ok
      [.mk (.ofKeys right) (.countdown 2), .mk (.ofKeys right) (.countdown 1),
        .mk .none (.countdown 0)] := rfl
  have hencode : encodeLog [right, right, right] = [.text "r", .int 3] := by
    have hruns : Runs.ofLog [right, right, right] = [(right, 3)] := by decide
    have hcodes : right.codes = "r" := by decide
    rw [encodeLog_eq, hruns, ← hcodes]
    rfl
  refine ⟨⟨_, hsteps, rfl⟩, hencode, fun hnormal => ?_⟩
  obtain ⟨log, hlog, -, hcells⟩ := encodeLog_normal.2.1 _ _ hsteps
  have hright : log = [right, right, right] :=
    List.map_injective_iff.mpr Cells.ofKeys_injective (hlog.symm.trans rfl)
  rw [hright, hencode] at hcells
  exact absurd (congrArg List.length (hcells.mpr hnormal)) (by decide)

end TickScript
