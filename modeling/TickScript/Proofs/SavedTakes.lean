import Mathlib
import TickScript.Proofs.RecordedTicks
import TickScript.Proofs.SavedLogs

/-!
# When a take is saved

What a player does in a level is a take. It is saved when the level ends, which may be said in three
ways (`HostEvent.endsLevel`), but only if the player has taken over, and at most once from one start
of the level to the next. A backup that was restored is never overwritten.

A take cannot be saved if a number of it is too wide for a data file. Then nothing is saved, and the
next end of the level tries again.

* `Session.saves`: the calls that save a take, with their results.
* `Session.notedLog`: the ticks that are recorded.
* `Session.hasTake_run`, `Session.run_noted`: the marks and the recorder as long as no call was
  made.
* `Session.first_end_saves`: the end of the level that saves the take.
* `Session.take_saved_once`: when a take is saved, and what is saved of it.
-/

namespace TickScript

/-! ## Logs that can be written -/

namespace Runs

/-- Runs do not become shorter by one more tick. -/
theorem exists_ge_push {runs : Runs} {run : KeySet × Nat} (h : run ∈ runs) (keys : KeySet) :
    ∃ run' ∈ runs.push keys, run.2 ≤ run'.2 := by
  by_cases hlast : runs.getLast?.map (·.1) = some keys
  · obtain ⟨⟨_, n⟩, hrun, rfl⟩ := Option.map_eq_some_iff.mp hlast
    obtain ⟨front, rfl⟩ := List.getLast?_eq_some_iff.mp hrun
    rw [push_concat]
    rcases List.mem_append.mp h with h | h
    · exact ⟨run, List.mem_append_left _ h, Nat.le_refl _⟩
    · rw [List.mem_singleton.mp h]
      exact ⟨_, List.mem_concat_self, Nat.le_succ n⟩
  · rw [push_of_ne hlast]
    exact ⟨run, List.mem_append_left _ h, Nat.le_refl _⟩

theorem exists_ge_ofLog_append {held : List KeySet} {run : KeySet × Nat} (h : run ∈ ofLog held)
    (later : List KeySet) : ∃ run' ∈ ofLog (held ++ later), run.2 ≤ run'.2 := by
  induction later using List.reverseRecOn with
  | nil => exact ⟨run, (List.append_nil held).symm ▸ h, Nat.le_refl _⟩
  | append_singleton later keys ih =>
    obtain ⟨run', hrun', hle⟩ := ih
    obtain ⟨run'', hrun'', hle'⟩ := exists_ge_push hrun' keys
    rw [← List.append_assoc, ofLog_concat]
    exact ⟨run'', hrun'', hle.trans hle'⟩

end Runs

namespace SectionLog

/-- A data file can hold the numbers of a log: its sections, and the lengths of its runs. -/
structure Writable (log : SectionLog) : Prop where
  sections : ∀ t ∈ log, Recording.fits t.1 = true
  runs : ∀ s, ∀ run ∈ Runs.ofLog (log.heldIn s), run.2 < 2 ^ 64

theorem Writable.of_append {log later : SectionLog} (h : (log ++ later).Writable) :
    log.Writable where
  sections t ht := h.sections t (List.mem_append_left _ ht)
  runs s run hrun := by
    obtain ⟨run', hrun', hle⟩ := Runs.exists_ge_ofLog_append hrun (later.heldIn s)
    rw [← heldIn_append] at hrun'
    exact Nat.lt_of_le_of_lt hle (h.runs s run' hrun')

theorem nodup_visited (log : SectionLog) : log.visited.Nodup := by
  have hkeys := (Recorder.covers_ofLog log).nodup
  rw [Recorder.sections_ofLog] at hkeys
  simpa [Function.comp_def] using hkeys

end SectionLog

/-- The file of a recording plays the logs, section by section. -/
def Files.Plays (files : Files) (path : Path) (logs : List (Int × List KeySet)) : Prop :=
  ∀ backup, ∃ recording sections, (Recording.load files path backup).1 = .ok recording ∧
    Recording.program recording.sections = .ok sections ∧
    sections.map (fun t => (t.1, expandSteps t.2)) = logs.map fun t => (t.1, t.2.map .ofKeys)

/-- The finished recording of a log is saved, and plays what is kept of the log. -/
theorem Recorder.save_finalize {log : SectionLog} (h : log.Writable) (files : Files)
    (path : Path) : ∃ files',
      (Recording.ofRecorder (ofLog log).finalize).save files path = .ok files' ∧
        files'.Plays path (log.visited.map fun s => (s, log.keptIn s)) := by
  have hsections : ∀ s ∈ log.visited, Recording.fits s = true := by
    intro s hs
    obtain ⟨t, ht, rfl⟩ := List.mem_map.mp (SectionLog.mem_visited.mp hs)
    exact h.sections t ht
  have hruns : ∀ s, ∀ run ∈ (if log.getLast?.map (·.1) = some s then
      trimIdle (Runs.ofLog (log.heldIn s)) else Runs.ofLog (log.heldIn s)), run.2 < 2 ^ 64 := by
    intro s
    split
    · exact Runs.lt_of_trimIdle (by decide) (h.runs s)
    · exact h.runs s
  simpa [apply_ite, Runs.toLog_ofLog, Runs.toLog_trimIdle, SectionLog.keptIn, ReadsBack,
    Files.Plays] using
    readsBack_of_runs (sections_finalize log) log.nodup_visited hsections hruns files path

/-! ## Events -/

namespace HostEvent

/-- The level ends. -/
def endsLevel : HostEvent → Bool
  | .playerKilled | .endLevel | .exitLevel => true
  | _ => false

end HostEvent

namespace Session

variable {s : Session} {budget : Nat} {event : HostEvent} {events : List HostEvent}

/-- The results of the calls, one at most, that an event makes to save the take. -/
def saveOf (s : Session) (event : HostEvent) : List (Except Fault Unit) :=
  if event.endsLevel && s.hasTake then [s.endLevel.1] else []

/-- The results of all calls of a run. -/
def saves (budget : Nat) : List HostEvent → Session → List (Except Fault Unit)
  | [], _ => []
  | event :: rest, s => s.saveOf event ++ saves budget rest (s.handle budget event).2

/-- The update finds keys held, and the player not dead for good. -/
def takes (s : Session) : HostEvent → Bool
  | .update v => !(s.see v).isOver && !(s.see v).engine.simulation.held.isEmpty
  | _ => false

/-- Some update of a run finds keys held. -/
def takesIn (budget : Nat) : List HostEvent → Session → Bool
  | [], _ => false
  | event :: rest, s => s.takes event || takesIn budget rest (s.handle budget event).2

/-- What is recorded on an event: nothing on an update that is over at once, fails or is frozen. -/
def noted (budget : Nat) (s : Session) : HostEvent → SectionLog
  | .update v =>
    let next := (s.see v).updateWith budget
    if (s.see v).isOver || !next.1.isOk || (s.see v).freezes then []
    else [(v.player.sectionId, next.2.engine.simulation.held.keys)]
  | _ => []

/-- What is recorded in a run. -/
def notedLog (budget : Nat) : List HostEvent → Session → SectionLog
  | [], _ => []
  | event :: rest, s => s.noted budget event ++ notedLog budget rest (s.handle budget event).2

section

variable (s : Session) (events : List HostEvent) (event : HostEvent)

theorem saves_concat : s.saves budget (events ++ [event]) =
    s.saves budget events ++ (s.run budget events).2.saveOf event := by
  induction events generalizing s with
  | nil => exact List.append_nil _
  | cons e rest ih => rw [List.cons_append, saves, ih, ← List.append_assoc, saves, run_cons]

theorem takesIn_append (later : List HostEvent) : s.takesIn budget (events ++ later) =
    (s.takesIn budget events || (s.run budget events).2.takesIn budget later) := by
  induction events generalizing s with
  | nil => rfl
  | cons e rest ih => rw [List.cons_append, takesIn, ih, ← Bool.or_assoc, takesIn, run_cons]

theorem notedLog_concat : s.notedLog budget (events ++ [event]) =
    s.notedLog budget events ++ (s.run budget events).2.noted budget event := by
  induction events generalizing s with
  | nil => exact List.append_nil _
  | cons e rest ih =>
    rw [List.cons_append, notedLog, ih, ← List.append_assoc, notedLog, run_cons]

end

/-! ## The marks of a take -/

/-- What a session keeps of a take: whether the player has taken over, whether it may still be
saved, what was recorded, and the files. -/
def take (s : Session) : Bool × Bool × Recorder × Files :=
  (s.tookOver, s.closed, s.recorder, s.engine.files)

theorem take_eq_iff {t : Session} : t.take = s.take ↔ t.tookOver = s.tookOver ∧
    t.closed = s.closed ∧ t.recorder = s.recorder ∧ t.engine.files = s.engine.files := by
  simp only [take, Prod.mk.injEq]

theorem cancel_take (s : Session) : s.cancel.take = s.take := by
  refine take_eq_iff.mpr ⟨rfl, rfl, rfl, ?_⟩
  rw [engine_cancel]

theorem isOk_map {α β : Type} (f : α → β) (x : Except Fault α) : (x.map f).isOk = x.isOk := by
  cases x <;> rfl

theorem playerKilled_isOk (s : Session) : s.playerKilled.1.isOk = s.endLevel.1.isOk := by
  unfold playerKilled
  split
  · next hend => rw [hend]
  · next hend =>
    rw [hend]
    split <;> rfl

/-- The ways in which a level ends do the same to the take. -/
theorem handle_endsLevel (h : event.endsLevel = true) (budget : Nat) :
    (s.handle budget event).2.take = s.endLevel.2.take ∧
      (s.handle budget event).1.isOk = s.endLevel.1.isOk := by
  cases event with
  | endLevel => exact ⟨rfl, isOk_map _ _⟩
  | playerKilled =>
    obtain ⟨reports, hkilled⟩ := s.playerKilled_eq
    refine ⟨?_, (isOk_map _ _).trans s.playerKilled_isOk⟩
    rw [handle, hkilled]
    rfl
  | exitLevel =>
    rw [handle]
    rcases s.exitLevel_cases with ⟨f, hend, hexit⟩ | ⟨hend, hexit⟩
    · rw [hexit, hend]
      exact ⟨rfl, rfl⟩
    · rw [hexit, hend]
      exact ⟨s.endLevel.2.cancel_take, rfl⟩
  | _ => cases h

/-- Only starts, updates and the end of the level touch the take. -/
theorem handle_take (hstart : event ≠ .start) (hupdate : ∀ v, event ≠ .update v)
    (hends : event.endsLevel = false) (budget : Nat) :
    (s.handle budget event).2.take = s.take := by
  cases event with
  | start => exact absurd rfl hstart
  | update v => exact absurd rfl (hupdate v)
  | endLevel | playerKilled | exitLevel => cases hends
  | cancel => exact s.cancel_take
  | showMessageBox | setFlags => rfl
  | overrideInput replace =>
    cases replace with
    | none => rfl
    | some content => rfl

/-- An update marks that the player has taken over, if keys are held. -/
theorem updateWith_marks (s : Session) (budget : Nat) :
    (s.updateWith budget).2.closed = s.closed ∧ (s.updateWith budget).2.tookOver =
      (s.tookOver || s.config.recordInputs &&
        (!s.isOver && !s.engine.simulation.held.isEmpty)) := by
  have hmet : s.met.closed = s.closed ∧ s.met.tookOver = s.tookOver := by
    obtain ⟨_, _, _, _, _, _, hmet, -⟩ := s.met_cases
    rw [hmet]
    exact ⟨rfl, rfl⟩
  have hnote : ∀ (t : Session) (sectionId : Int) (outcome : Option TickOutcome),
      (t.noteTick sectionId outcome).closed = t.closed ∧
        (t.noteTick sectionId outcome).tookOver = t.tookOver := by
    intro t sectionId outcome
    obtain ⟨recorder, hnote⟩ := t.noteTick_eq sectionId outcome
    rw [hnote]
    exact ⟨rfl, rfl⟩
  have hnotice : ∀ t : Session, t.closed = s.met.noticeKeys.closed →
      t.tookOver = s.met.noticeKeys.tookOver → s.isOver = false →
      t.closed = s.closed ∧ t.tookOver = (s.tookOver || s.config.recordInputs &&
        (!s.isOver && !s.engine.simulation.held.isEmpty)) := by
    intro t hclosed htook hover
    refine ⟨hclosed.trans hmet.1, ?_⟩
    rw [htook, met_tookOver, hover]
    rfl
  rcases s.update_kinds with hover | ⟨hover, hskips⟩ | ⟨hover, howned, hprogram⟩
  · rw [updateWith_over hover, hover]
    exact ⟨hmet.1, hmet.2.trans (by simp)⟩
  · rw [updateWith_skips hover hskips]
    exact hnotice _ (hnote _ _ _).1 (hnote _ _ _).2 hover
  · rw [updateWith_program hover howned hprogram]
    rcases s.met.engine.tickWith budget s.engine.simulation.paused with ⟨f | outcome, e⟩
    · exact hnotice _ rfl rfl hover
    · exact hnotice _ (hnote _ _ _).1 (hnote _ _ _).2 hover

/-- What an event does to the marks: a take that is saved may not be saved again, and the player has
no longer taken over. -/
theorem handle_marks (hstart : event ≠ .start) (budget : Nat) :
    (s.handle budget event).2.closed = (s.closed || (s.saveOf event).any Except.isOk) ∧
      (s.handle budget event).2.tookOver =
        ((s.tookOver || s.config.recordInputs && s.takes event) &&
          !(s.saveOf event).any Except.isOk) := by
  cases hends : event.endsLevel with
  | true =>
    have htakes : s.takes event = false := by
      cases event with
      | update v => cases hends
      | _ => rfl
    obtain ⟨htook, hclosed, -⟩ := take_eq_iff.mp (handle_endsLevel hends budget).1
    rw [hclosed, htook, htakes, saveOf, hends, Bool.true_and]
    rcases s.endLevel_cases with ⟨hnone, hend⟩ | ⟨hsome, _, _, hend⟩ | ⟨hsome, _, _, hend⟩
    · rw [hend, hnone]
      simp
    · rw [hend, hsome]
      simp [Except.isOk, Except.toBool]
    · rw [hend, hsome]
      simp [Except.isOk, Except.toBool]
  | false =>
    have hnone : s.saveOf event = [] := by simp [saveOf, hends]
    rw [hnone]
    by_cases hupdate : ∃ v, event = .update v
    · obtain ⟨v, rfl⟩ := hupdate
      obtain ⟨hclosed, htook⟩ := (s.see v).updateWith_marks budget
      refine ⟨hclosed.trans (by simp; rfl), htook.trans (by simp; rfl)⟩
    · have hother : ∀ v, event ≠ .update v := fun v hv => hupdate ⟨v, hv⟩
      have htakes : s.takes event = false := by
        cases event with
        | update v => exact absurd rfl (hother v)
        | _ => rfl
      obtain ⟨htook, hclosed, -⟩ := take_eq_iff.mp (handle_take (s := s) hstart hother hends budget)
      rw [hclosed, htook, htakes]
      simp

/-! ## Runs -/

theorem config_run (budget : Nat) (events : List HostEvent) (s : Session) :
    (s.run budget events).2.config = s.config :=
  (home_eq_iff.mp (s.run_home budget events)).2.1

theorem not_mem_concat (h : .start ∉ events ++ [event]) : .start ∉ events ∧ event ≠ .start :=
  ⟨fun hmem => h (List.mem_append_left _ hmem), fun heq => h (heq ▸ List.mem_concat_self)⟩

/-- A take that was saved may not be saved again. -/
theorem run_closed (hstart : .start ∉ events) : (s.run budget events).2.closed =
    (s.closed || (s.saves budget events).any Except.isOk) := by
  induction events using List.reverseRecOn with
  | nil => exact (Bool.or_false _).symm
  | append_singleton events event ih =>
    obtain ⟨hbefore, hevent⟩ := not_mem_concat hstart
    rw [run_concat, (handle_marks hevent budget).1, ih hbefore, saves_concat, List.any_append,
      Bool.or_assoc]

theorem run_tookOver (hstart : .start ∉ events) (hunsaved : s.saves budget events = []) :
    (s.run budget events).2.tookOver =
      (s.tookOver || s.config.recordInputs && s.takesIn budget events) := by
  induction events using List.reverseRecOn with
  | nil => simp [run, takesIn]
  | append_singleton events event ih =>
    obtain ⟨hbefore, hevent⟩ := not_mem_concat hstart
    rw [saves_concat, List.append_eq_nil_iff] at hunsaved
    rw [run_concat, (handle_marks hevent budget).2, ih hbefore hunsaved.1, hunsaved.2, config_run,
      takesIn_append, takesIn, takesIn, Bool.or_false, Bool.and_or_distrib_left, ← Bool.or_assoc]
    exact Bool.and_true _

/-- As long as no call was made, the take may be saved if it was made and recorded. -/
theorem hasTake_run (hstart : .start ∉ events) (hunsaved : s.saves budget events = []) :
    (s.run budget events).2.hasTake = true ↔ s.config.recordInputs = true ∧ s.closed = false ∧
      (s.tookOver = true ∨ s.takesIn budget events = true) := by
  rw [hasTake, config_run, run_tookOver hstart hunsaved, run_closed hstart, hunsaved]
  cases s.config.recordInputs <;> cases s.closed <;> simp

theorem saveOf_of_hasTake (hends : event.endsLevel = true) (h : s.hasTake = true) :
    s.saveOf event = [s.endLevel.1] := by
  rw [saveOf, hends, h]
  rfl

theorem hasTake_of_saveOf (h : s.saveOf event ≠ []) : s.hasTake = true := by
  by_contra hnone
  exact h (if_neg fun hboth => hnone (Bool.and_eq_true_iff.mp hboth).2)

/-- A call is made only if the session records, may save, and the player has taken over. -/
theorem of_saves_ne_nil (hstart : .start ∉ events) (h : s.saves budget events ≠ []) :
    s.config.recordInputs = true ∧ s.closed = false ∧
      (s.tookOver = true ∨ s.takesIn budget events = true) := by
  induction events using List.reverseRecOn with
  | nil => exact absurd rfl h
  | append_singleton events event ih =>
    obtain ⟨hbefore, -⟩ := not_mem_concat hstart
    have hmarks : s.config.recordInputs = true ∧ s.closed = false ∧
        (s.tookOver = true ∨ s.takesIn budget events = true) := by
      -- the first call of a run tells what the marks were; later ones need not be looked at
      by_cases hunsaved : s.saves budget events = []
      · rw [saves_concat, hunsaved, List.nil_append] at h
        exact (hasTake_run hbefore hunsaved).mp (hasTake_of_saveOf h)
      · exact ih hbefore hunsaved
    refine hmarks.imp_right (And.imp_right (Or.imp_right fun htakes => ?_))
    rw [takesIn_append, htakes, Bool.true_or]

/-- Nothing is saved after a take was. -/
theorem unsaved_of_saved {later : List HostEvent} (hstart : .start ∉ events ++ later)
    (hsaved : .ok () ∈ s.saves budget events) :
    (s.run budget events).2.saves budget later = [] := by
  rw [List.mem_append, not_or] at hstart
  have hshut : (s.run budget events).2.closed = true := by
    rw [run_closed hstart.1, List.any_eq_true.mpr ⟨_, hsaved, rfl⟩, Bool.or_true]
  by_contra hcalls
  have hopen := (of_saves_ne_nil hstart.2 hcalls).2.1
  rw [hshut] at hopen
  cases hopen

/-! ## What is recorded -/

/-- An event that saves nothing leaves the recorder to what is recorded on it. -/
theorem handle_noted (hrecord : s.config.recordInputs = true) (hstart : event ≠ .start)
    (hunsaved : s.saveOf event = []) (budget : Nat) : (s.handle budget event).2.recorder =
      (s.noted budget event).foldl (fun r t => r.record t.1 t.2) s.recorder := by
  cases hends : event.endsLevel with
  | true =>
    have hnone : s.hasTake = false := by
      rw [Bool.eq_false_iff]
      intro htake
      rw [saveOf_of_hasTake hends htake] at hunsaved
      cases hunsaved
    have hnoted : s.noted budget event = [] := by
      cases event with
      | update v => cases hends
      | _ => rfl
    obtain ⟨-, -, hrecorder, -⟩ := take_eq_iff.mp (handle_endsLevel hends budget).1
    rw [hrecorder, recorder_endLevel hnone, hnoted]
    rfl
  | false =>
    by_cases hupdate : ∃ v, event = .update v
    · obtain ⟨v, rfl⟩ := hupdate
      have hnoted := updateWith_recorder (s := s.see v) hrecord budget
      rw [handle, hnoted, noted]
      split
      · rfl
      · rfl
    · have hother : ∀ v, event ≠ .update v := fun v hv => hupdate ⟨v, hv⟩
      have hnoted : s.noted budget event = [] := by
        cases event with
        | update v => exact absurd rfl (hother v)
        | _ => rfl
      rw [hnoted]
      exact (take_eq_iff.mp (handle_take hstart hother hends budget)).2.2.1

theorem run_noted (hrecord : s.config.recordInputs = true) (hstart : .start ∉ events)
    (hunsaved : s.saves budget events = []) (hempty : s.recorder = {}) :
    (s.run budget events).2.recorder = .ofLog (s.notedLog budget events) := by
  induction events using List.reverseRecOn with
  | nil => exact hempty
  | append_singleton events event ih =>
    obtain ⟨hbefore, hevent⟩ := not_mem_concat hstart
    rw [saves_concat, List.append_eq_nil_iff] at hunsaved
    have hrecord' : (s.run budget events).2.config.recordInputs = true := by
      rw [config_run, hrecord]
    rw [run_concat, handle_noted hrecord' hevent hunsaved.2, ih hbefore hunsaved.1,
      notedLog_concat, Recorder.ofLog, Recorder.ofLog, List.foldl_append]

/-! ## What is saved -/

/-- The end of a level saves the take, if its numbers are not too wide. -/
theorem endLevel_saves (htake : s.hasTake = true) {log : SectionLog}
    (hrecorder : s.recorder = .ofLog log) (hlog : log.Writable) :
    s.endLevel.1 = .ok () ∧ s.endLevel.2.engine.files.Plays s.recordingPath
      (log.visited.map fun v => (v, log.keptIn v)) := by
  obtain ⟨files', hsave, hplays⟩ := Recorder.save_finalize hlog s.engine.files s.recordingPath
  rw [endLevel_eq, if_pos htake, hrecorder, hsave]
  exact ⟨rfl, hplays⟩

/-- The first end of the level after the player has taken over saves the take. -/
theorem first_end_saves (hstart : .start ∉ events) (hempty : s.recorder = {})
    (hlog : (s.notedLog budget events).Writable) (hrecord : s.config.recordInputs = true)
    (hopen : s.closed = false) (htakes : s.takesIn budget events = true)
    (hunsaved : s.saves budget events = []) (hends : event.endsLevel = true) :
    let now := (s.run budget events).2
    let log := s.notedLog budget events
    now.saveOf event = [.ok ()] ∧ (now.handle budget event).1.isOk = true ∧
      (now.handle budget event).2.engine.files.Plays s.recordingPath
        (log.visited.map fun v => (v, log.keptIn v)) := by
  intro now log
  have htake : now.hasTake = true :=
    (hasTake_run hstart hunsaved).mpr ⟨hrecord, hopen, .inr htakes⟩
  have hpath : now.recordingPath = s.recordingPath :=
    recordingPath_of_home (s.run_home budget events)
  obtain ⟨hok, hplays⟩ := endLevel_saves htake (run_noted hrecord hstart hunsaved hempty) hlog
  obtain ⟨hended, hresult⟩ := handle_endsLevel (s := now) hends budget
  refine ⟨by rw [saveOf_of_hasTake hends htake, hok], by rw [hresult, hok]; rfl, ?_⟩
  rw [(take_eq_iff.mp hended).2.2.2, ← hpath]
  exact hplays

/-- As long as its numbers are not too wide, a take is saved once at most. -/
theorem saves_of_writable (hstart : .start ∉ events) (hempty : s.recorder = {})
    (hlog : (s.notedLog budget events).Writable) :
    s.saves budget events = [] ∨ s.saves budget events = [.ok ()] := by
  induction events using List.reverseRecOn with
  | nil => exact .inl rfl
  | append_singleton events event ih =>
    obtain ⟨hbefore, -⟩ := not_mem_concat hstart
    rw [notedLog_concat] at hlog
    rw [saves_concat]
    by_cases hcall : (s.run budget events).2.saveOf event = []
    · rw [hcall, List.append_nil]
      exact ih hbefore hlog.of_append
    · have htake := hasTake_of_saveOf hcall
      have hends : event.endsLevel = true := by
        by_contra hends
        exact hcall (if_neg fun hboth => hends (Bool.and_eq_true_iff.mp hboth).1)
      rcases ih hbefore hlog.of_append with hunsaved | hsaved
      · obtain ⟨hrecord, -⟩ := (hasTake_run hbefore hunsaved).mp htake
        rw [hunsaved, saveOf_of_hasTake hends htake,
          (endLevel_saves htake (run_noted hrecord hbefore hunsaved hempty) hlog.of_append).1]
        exact .inr rfl
      · have hclosed : (s.run budget events).2.closed = _ := run_closed hbefore
        rw [hsaved] at hclosed
        rw [hasTake, hclosed] at htake
        simp [Except.isOk, Except.toBool] at htake

/-! ## The start of a level -/

/-- The start of the level restores a backup of the recording. -/
def restoresBackup (t : Session) : Bool :=
  t.compiled.isOk && (t.config.playbackInputs && t.config.restoreBackup &&
    (t.engine.files.read? t.backupPath).isSome)

theorem loadPlayback_closed (s : Session) (p : LevelProgram) : (s.loadPlayback p).2.closed =
    (s.closed || s.config.restoreBackup && (s.engine.files.read? s.backupPath).isSome) := by
  have hrestored : (s.restored?.map (·.2)).getD s.closed =
      (s.closed || s.config.restoreBackup && (s.engine.files.read? s.backupPath).isSome) := by
    unfold restored? Recording.restore
    cases s.config.restoreBackup with
    | false => exact (Bool.or_false _).symm
    | true =>
      cases s.engine.files.read? s.backupPath with
      | none => exact (Bool.or_false _).symm
      | some text => exact (Bool.or_true _).symm
  rw [← hrestored, loadPlayback_eq]
  cases s.restored? with
  | none => rfl
  | some found =>
    obtain ⟨files, closed⟩ := found
    dsimp only
    split
    · rfl
    · rfl

/-- A take may not be saved if a backup was restored. -/
theorem start_closed (t : Session) : t.start.2.closed = t.restoresBackup := by
  have hopened : ∀ p, (t.reset.openProgram p).2.closed = (t.config.playbackInputs &&
      t.config.restoreBackup && (t.engine.files.read? t.backupPath).isSome) := by
    intro p
    have hfiles : t.reset.engine.files = t.engine.files := rfl
    unfold openProgram
    rw [show t.reset.config = t.config from rfl]
    cases t.config.playbackInputs with
    | false => rfl
    | true =>
      rw [if_pos rfl, loadPlayback_closed]
      rfl
  rw [start_eq, restoresBackup]
  cases t.compiled with
  | error f => rfl
  | ok p =>
    refine Eq.trans ?_ (hopened p)
    dsimp only
    generalize t.reset.openProgram p = opened
    obtain ⟨f | _, s⟩ := opened
    · rfl
    · obtain ⟨engine, seed, hfixed⟩ := s.fixSeeds_cases (s.program.getD p)
      dsimp only
      rw [hfixed]

/-! ## One start -/

/-- From one start of the level to the next, a take is saved only if the session records, no backup
was restored, and the player has taken over by then; nothing is saved after that. If a data file can
hold the numbers of what is recorded, a take is saved once at most, and the first end of the level
after the player has taken over does save it: the file plays all ticks that were recorded since
the start, as they are when the recording is finished. -/
theorem take_saved_once (budget : Nat) (t : Session) {events : List HostEvent}
    (hstart : .start ∉ events) :
    let s := t.start.2
    let now := (s.run budget events).2
    let log := s.notedLog budget events
    (s.saves budget events ≠ [] → t.config.recordInputs = true ∧ t.restoresBackup = false ∧
      s.takesIn budget events = true) ∧
    (∀ earlier later, events = earlier ++ later → .ok () ∈ s.saves budget earlier →
      (s.run budget earlier).2.saves budget later = []) ∧
    (log.Writable → (s.saves budget events).length ≤ 1 ∧
      (t.config.recordInputs = true → t.restoresBackup = false →
        s.takesIn budget events = true → s.saves budget events = [] →
        ∀ event : HostEvent, event.endsLevel = true →
          now.saveOf event = [.ok ()] ∧ (now.handle budget event).1.isOk = true ∧
            (now.handle budget event).2.engine.files.Plays t.recordingPath
              (log.visited.map fun v => (v, log.keptIn v)))) := by
  intro s now log
  have hconfig : s.config = t.config := (home_eq_iff.mp t.start_home).2.1
  have hclosed : s.closed = t.restoresBackup := t.start_closed
  have hempty : s.recorder = {} := t.start_recorder
  have htook : s.tookOver = false := by
    obtain ⟨_, _, _, _, hstarted⟩ := t.start_cases
    rw [show s = t.start.2 from rfl, hstarted]
    rfl
  refine ⟨?_, ?_, ?_⟩
  · intro hcalls
    obtain ⟨hrecord, hopen, htakes⟩ := of_saves_ne_nil hstart hcalls
    rw [hconfig] at hrecord
    rw [hclosed] at hopen
    exact ⟨hrecord, hopen, htakes.resolve_left (by rw [htook]; exact Bool.false_ne_true)⟩
  · rintro earlier later rfl hsaved
    exact unsaved_of_saved hstart hsaved
  · intro hlog
    refine ⟨?_, ?_⟩
    · rcases saves_of_writable hstart hempty hlog with hcalls | hcalls
      · rw [hcalls]
        exact Nat.zero_le 1
      · rw [hcalls]
        exact Nat.le_refl 1
    · intro hrecord hfresh htakes hunsaved event hends
      rw [← hconfig] at hrecord
      rw [← hclosed] at hfresh
      rw [← recordingPath_of_home t.start_home]
      exact first_end_saves hstart hempty hlog hrecord hfresh htakes hunsaved hends

/-- A key is pressed for one tick, and the level ends. -/
theorem take_of_one_tick_saved :
    let t : Session :=
      { engine := default, level := "stage.lvlx", config := { recordInputs := true }
        backupName := "latest.rec.bak", seed := 7 }
    let press : HostEvent :=
      .update { player := {}, pressed := .ofKeys (.ofList [.right]) }
    (t.start.2.notedLog 4 [press]).Writable ∧ t.start.2.saves 4 [press] = [] ∧
      t.start.2.takesIn 4 [press] = true ∧
      (t.start.2.run 4 [press]).2.saveOf .endLevel = [.ok ()] ∧
      ((t.start.2.run 4 [press]).2.handle 4 .endLevel).2.engine.files.Plays t.recordingPath
        [(0, [.ofList [.right]])] := by
  intro t press
  let p : LevelProgram := { seed := 8675309, legacySeed := 8675309 }
  obtain ⟨random, seeds, seed, hstart⟩ :=
    start_of_compiled (s := t) (p := p) (q := p) (t := { t.reset with program := some p })
      (by cbv) rfl rfl rfl
  have hlog : t.start.2.notedLog 4 [press] = [(0, .ofList [.right])] := by
    rw [hstart]
    cbv
  have hwritable : (t.start.2.notedLog 4 [press]).Writable := by
    rw [hlog]
    refine ⟨by decide, fun s run hrun => ?_⟩
    have hle := (Runs.standFor_ofLog _).le_length hrun
    have hone := SectionLog.length_heldIn_le [(0, .ofList [.right])] s
    have hlength : [((0 : Int), KeySet.ofList [.right])].length = 1 := rfl
    omega
  have htakes : t.start.2.takesIn 4 [press] = true := by
    rw [hstart]
    cbv
  have hunsaved : t.start.2.saves 4 [press] = [] := rfl
  have hkept : (SectionLog.visited [(0, .ofList [.right])]).map
      (fun s => (s, SectionLog.keptIn [(0, .ofList [.right])] s)) = [(0, [.ofList [.right]])] := by
    decide
  have hfresh : t.restoresBackup = false := Bool.and_false _
  have hpress : .start ∉ [press] := by simp [press]
  obtain ⟨-, -, honce⟩ := take_saved_once 4 t hpress
  obtain ⟨hsaved, -, hplays⟩ := (honce hwritable).2 rfl hfresh htakes hunsaved .endLevel rfl
  rw [hlog, hkept] at hplays
  exact ⟨hwritable, hunsaved, htakes, hsaved, hplays⟩

/-- The player takes over in a section whose number is too wide for a data file: each end of the
level tries to save the take, and nothing is saved. -/
theorem wide_take_never_saved : ∃ t : Session, t.config.recordInputs = true ∧
    t.restoresBackup = false ∧ t.start.1 = .ok () ∧
    let events : List HostEvent :=
      [.update { player := { sectionId := 2 ^ 64 }, pressed := .ofKeys (.ofList [.right]) },
        .endLevel, .endLevel]
    t.start.2.takesIn 4 events = true ∧
      t.start.2.saves 4 events = [.error .kind, .error .kind] ∧
      (t.start.2.run 4 events).2.engine.files.read? t.recordingPath = none := by
  let t : Session :=
    { engine := default, level := "stage.lvlx", config := { recordInputs := true }
      backupName := "latest.rec.bak", seed := 7 }
  let p : LevelProgram := { seed := 8675309, legacySeed := 8675309 }
  obtain ⟨random, seeds, seed, hstart⟩ :=
    start_of_compiled (s := t) (p := p) (q := p) (t := { t.reset with program := some p })
      (by cbv) rfl rfl rfl
  refine ⟨t, rfl, Bool.and_false _, ?_⟩
  rw [hstart]
  refine ⟨rfl, ?_, ?_, ?_⟩ <;> cbv

end Session

end TickScript
