import Mathlib
import TickScript.Proofs.SearchCourse

/-!
# Starts that fail

A search may fail to start because of its arguments, its bounds, or because there is no program that
could hold its candidate. Whatever the reason, the program and an open probe stay as they are, and
for almost every reason so does everything else (`Engine.failed_start_changes_nothing`). The two
exceptions come from the order in which things are done: the lower bound is taken down before the
upper one is read, and the candidate is saved before its step is inserted.
-/

namespace TickScript

namespace Engine

variable {e : Engine} {args : List Arg} {place : Option Place} {f : Fault}

/-- The upper bound of the arguments is read only if none is known. -/
theorem boundAt?_of_seedHigh {r : SearchRecord} (h : seedHigh r args = .error f) :
    r.high = none ∧ boundAt? args 6 = .error f := by
  unfold seedHigh at h
  split at h
  · cases h
  · next hhigh =>
    refine ⟨hhigh, ?_⟩
    cases hbound : boundAt? args 6 with
    | error g =>
      rw [hbound] at h
      cases h
      rfl
    | ok b =>
      rw [hbound] at h
      cases h

/-- A lower bound that is known stays, and the upper one is not affected. -/
theorem seedLow_keeps {r r' : SearchRecord} (h : seedLow r args = .ok r') :
    r'.high = r.high ∧ (r.low ≠ none → r' = r) := by
  obtain ⟨low, rfl⟩ := seedLow_ok h
  refine ⟨rfl, fun hknown => ?_⟩
  unfold seedLow at h
  split at h
  · exact (Except.ok.inj h).symm
  · next hlow => exact absurd hlow hknown

/-- A start that fails leaves the program, the open probe and all else but the store alone. The
store is left alone, too, unless both bounds are unknown and the upper one cannot be read, or all
could be read and there is no program to insert the candidate into. -/
theorem failed_start_changes_nothing (hfails : (e.startSearch args place).1 = .error f) :
    (∃ record files, (e.startSearch args place).2 = { e with record, files }) ∧
      ((e.startSearch args place).2 = e ∨
        (e.record.low = none ∧ e.record.high = none ∧ boundAt? args 6 = .error f) ∨
        ((∃ probe, readProbe args place = .ok probe) ∧
          (e.parts.program = false ∨ e.program = none))) := by
  have hcases := e.startSearch_cases args place
  generalize e.startSearch args place = result at hfails hcases ⊢
  cases hcases with
  | missing | unread | noLow => exact ⟨⟨_, _, rfl⟩, Or.inl rfl⟩
  | @noHigh g record hlow hhigh =>
    cases hfails
    obtain ⟨hnone, hbound⟩ := boundAt?_of_seedHigh hhigh
    obtain ⟨hsame, hkept⟩ := seedLow_keeps hlow
    refine ⟨⟨_, _, rfl⟩, ?_⟩
    by_cases hlow : e.record.low = none
    · exact Or.inr (Or.inl ⟨hlow, hsame.symm.trans hnone, hbound⟩)
    · exact Or.inl (by rw [hkept hlow])
  | @opened probe low high hargs hprobe hlow hhigh =>
    rcases e.openProbe_cases probe high with ⟨p, hp, hopen⟩ | ⟨hreach, g, hopen⟩
    · rw [hopen] at hfails
      cases hfails
    · rw [hopen]
      exact ⟨⟨_, _, rfl⟩, Or.inr (Or.inr ⟨⟨probe, hprobe⟩, hreach⟩)⟩

/-- A mode that does not exist, in the middle of a program and without any bounds. -/
theorem failed_start_changes_nothing_without_mode :
    let check : Arg := .condition (.call "t" [])
    let args : List Arg := [.inputs .none, .raw (.text "MID"), check, check, check]
    let e := (default : Engine).load (some [.mk .none (.call "optimize" args)])
    (e.startSearch args none).1 = .error .badValue ∧ (e.startSearch args none).2 = e := by
  intro check args e
  have hfails : (e.startSearch args none).1 = .error .badValue := by cbv
  refine ⟨hfails, ?_⟩
  rcases (failed_start_changes_nothing hfails).2 with hsame | ⟨-, -, hbound⟩ | ⟨-, hreach⟩
  · exact hsame
  · cases hbound
  · rcases hreach with hreach | hreach <;> cases hreach

/-- An upper bound that is no number leaves the lower one behind, which is not saved. Without a
program, a candidate is saved that no step will hold. -/
theorem failed_start_leaves_traces :
    let check : Arg := .condition (.call "t" [])
    let args : List Arg := [.inputs .none, .raw (.text "LO"), check, check, check]
    let bounds : List Arg := [.raw (.int 3), .raw (.text "x")]
    let e := (default : Engine).load (some [.mk .none (.call "optimize" (args ++ bounds))])
    ((e.startSearch (args ++ bounds) none).1 = .error .badValue ∧
      e.record.low = none ∧ (e.startSearch (args ++ bounds) none).2.record.low = some 3) ∧
    (((default : Engine).startSearch args none).1 = .error .noProgram ∧
      (default : Engine).record.history = [] ∧
      ((default : Engine).startSearch args none).2.record.history = [1] ∧
      (default : Engine).files.read? (default : Engine).recordPath = none ∧
      (((default : Engine).startSearch args none).2.files.read?
        (default : Engine).recordPath).isSome = true) := by
  refine ⟨⟨?_, ?_, ?_⟩, ?_, ?_, ?_, ?_, ?_⟩ <;> cbv

end Engine

end TickScript
