import TickScript.Command.Execute
import TickScript.Proofs.Calls
import TickScript.Proofs.Probing
import TickScript.Proofs.Runs

/-!
# What a recording plays

The cells of a recording are countdowns, and there are two readings of them. Listed at once they
are the ticks that a recording is shown with (`expandSteps`). Played, they are steps that the
walk through a program leaves one by one, each when its count is zero.

The two agree as long as no count is negative. A negative count is listed as no tick at all, but
it never comes to zero: its input is held from then on, and nothing behind it is ever reached.

* `Counts.tick`: what one tick does to the counts that remain.
* `Counts.course`: the inputs that counts hold, and the outcome of every tick after them.
* `Engine.run_countsDown`: the counts decide a run that nothing interferes with.
* `Engine.plays_expansion`: both readings of the cells of a recording.
-/

namespace TickScript

/-! ## Counts -/

/-- Inputs, each with the number that is counted down while it is held. -/
abbrev Counts := List (Inputs × Int)

namespace Counts

/-- The steps that count down. -/
def steps (counts : Counts) : List Step := counts.map fun c => .mk c.1 (.countdown c.2)

/-- The inputs tick by tick. -/
def toLog (counts : Counts) : List Inputs := counts.flatMap fun (i, n) => List.replicate n.toNat i

@[simp] theorem toLog_nil : toLog [] = [] := rfl

@[simp] theorem toLog_cons (i : Inputs) (n : Int) (counts : Counts) :
    toLog ((i, n) :: counts) = List.replicate n.toNat i ++ toLog counts := rfl

end Counts

theorem countdowns?_eq_some {steps : List Step} {counts : Counts}
    (h : countdowns? steps = some counts) : steps = counts.steps := by
  induction steps generalizing counts with
  | nil =>
    cases h
    rfl
  | cons s rest ih =>
    obtain ⟨i, c⟩ := s
    cases c with
    | countdown n =>
      obtain ⟨counts', hrest, rfl⟩ := Option.map_eq_some_iff.mp h
      rw [ih hrest]
      rfl
    | _ => cases h

theorem countdowns?_counts (counts : Counts) : countdowns? counts.steps = some counts := by
  induction counts with
  | nil => rfl
  | cons c counts ih =>
    have hcons : countdowns? (Counts.steps (c :: counts)) =
        (countdowns? (Counts.steps counts)).map (c :: ·) := rfl
    rw [hcons, ih, Option.map_some]

theorem expandSteps_counts (counts : Counts) : expandSteps counts.steps = counts.toLog := by
  rw [expandSteps, countdowns?_counts, Option.getD_some, Counts.toLog]

/-- The cells of a recording are read as counts. -/
theorem exists_counts {cells : Value} {steps : List Step} (h : decodeCells cells = .ok steps) :
    ∃ counts : Counts, steps = counts.steps := by
  obtain ⟨read, -, h⟩ := exists_of_bind_ok h
  split at h
  · next counts hcounts =>
    cases h
    exact ⟨counts, countdowns?_eq_some hcounts⟩
  · cases h

/-! ## Ticks -/

/-- The entries of a log are held on the first ticks, and one outcome is that of the others. -/
def outcomesOf (log : List Inputs) (last : TickOutcome) (ticks : Nat) : List TickOutcome :=
  (log.take ticks).map (⟨.committed, ·⟩) ++ List.replicate (ticks - log.length) last

theorem outcomesOf_nil (last : TickOutcome) (ticks : Nat) :
    outcomesOf [] last ticks = List.replicate ticks last := by
  simp [outcomesOf]

theorem outcomesOf_cons (i : Inputs) (log : List Inputs) (last : TickOutcome) (ticks : Nat) :
    outcomesOf (i :: log) last (ticks + 1) = ⟨.committed, i⟩ :: outcomesOf log last ticks := by
  simp [outcomesOf]

/-- The ticks on which a step is held are those of the log, once there are enough ticks. -/
theorem countP_outcomesOf {log : List Inputs} {last : TickOutcome} {ticks : Nat}
    (hlast : last.kind ≠ .committed) (hticks : log.length ≤ ticks) :
    (outcomesOf log last ticks).countP (·.kind = .committed) = log.length := by
  rw [outcomesOf, List.take_of_length_le hticks, List.countP_append, List.countP_replicate]
  simp [hlast, List.countP_map, Function.comp_def]

namespace Counts

/-- One tick. Counts at zero are left behind, and the first other one is counted down. -/
def tick : Counts → TickOutcome × Counts
  | [] => (⟨.exhausted, .none⟩, [])
  | (i, n) :: rest => if n = 0 then tick rest else (⟨.committed, i⟩, (i, n - 1) :: rest)

/-- What is held tick by tick, and the outcome of every tick after that. -/
def course : Counts → List Inputs × TickOutcome
  | [] => ([], ⟨.exhausted, .none⟩)
  | (i, n) :: rest =>
    if n < 0 then ([], ⟨.committed, i⟩)
    else (List.replicate n.toNat i ++ (course rest).1, (course rest).2)

theorem course_of_neg {i : Inputs} {n : Int} (h : n < 0) (rest : Counts) :
    course ((i, n) :: rest) = ([], ⟨.committed, i⟩) := by
  rw [course, if_pos h]

theorem course_of_nonneg {i : Inputs} {n : Int} (h : 0 ≤ n) (rest : Counts) :
    course ((i, n) :: rest) =
      (List.replicate n.toNat i ++ (course rest).1, (course rest).2) := by
  rw [course, if_neg (by omega)]

/-- Counts that are not negative hold what they are listed as, before the others. -/
theorem course_append {before : Counts} (h : ∀ c ∈ before, 0 ≤ c.2) (rest : Counts) :
    course (before ++ rest) = (before.toLog ++ (course rest).1, (course rest).2) := by
  induction before with
  | nil => rfl
  | cons c before ih =>
    obtain ⟨i, n⟩ := c
    rw [List.cons_append, course_of_nonneg (h (i, n) List.mem_cons_self),
      ih fun c hc => h c (List.mem_cons_of_mem _ hc), toLog_cons, List.append_assoc]

theorem length_tick (counts : Counts) : counts.tick.2.length ≤ counts.length := by
  induction counts with
  | nil => exact Nat.le_refl 0
  | cons c rest ih =>
    obtain ⟨i, n⟩ := c
    rw [tick]
    split
    · exact Nat.le_succ_of_le ih
    · exact Nat.le_refl _

/-- The first tick of a course, and the course from the second tick on. -/
theorem outcomesOf_tick (counts : Counts) (ticks : Nat) :
    outcomesOf counts.course.1 counts.course.2 (ticks + 1) =
      counts.tick.1 :: outcomesOf counts.tick.2.course.1 counts.tick.2.course.2 ticks := by
  induction counts with
  | nil => simp only [course, tick, outcomesOf_nil, List.replicate_succ]
  | cons c rest ih =>
    obtain ⟨i, n⟩ := c
    rcases Int.lt_trichotomy n 0 with hneg | rfl | hpos
    · -- a negative count stays negative
      have hbelow : n - 1 < 0 := by omega
      rw [tick, if_neg (Int.ne_of_lt hneg), course_of_neg hneg, course_of_neg hbelow,
        outcomesOf_nil, outcomesOf_nil, List.replicate_succ]
    · rw [tick, if_pos rfl, course_of_nonneg (Int.le_refl 0)]
      exact ih
    · have hmore : n.toNat = (n - 1).toNat + 1 := by omega
      rw [tick, if_neg (Int.ne_of_gt hpos), course_of_nonneg (Int.le_of_lt hpos),
        course_of_nonneg (by omega), hmore, List.replicate_succ, List.cons_append, outcomesOf_cons]

end Counts

/-! ## Steps without an end -/

/-- The step is never left, as it counts down from below zero. -/
def Step.IsEndless (s : Step) : Prop := ∃ n < 0, s.condition = .countdown n

namespace Counts

theorem nonneg_of_not_endless {counts : Counts} (h : ∀ s ∈ counts.steps, ¬s.IsEndless) :
    ∀ c ∈ counts, 0 ≤ c.2 := by
  intro c hc
  by_contra hneg
  exact h _ (List.mem_map_of_mem hc) ⟨c.2, by omega, rfl⟩

/-- Without such a step, the course is what the steps expand to. -/
theorem course_of_finite {counts : Counts} (h : ∀ s ∈ counts.steps, ¬s.IsEndless) :
    counts.course = (expandSteps counts.steps, ⟨.exhausted, .none⟩) := by
  rw [expandSteps_counts]
  simpa [course] using course_append (nonneg_of_not_endless h) []

/-- The course ends in the first such step. -/
theorem course_of_endless {counts : Counts} {before : List Step} {s : Step} {rest : List Step}
    (hsplit : counts.steps = before ++ s :: rest) (hs : s.IsEndless)
    (hbefore : ∀ b ∈ before, ¬b.IsEndless) :
    counts.course = (expandSteps before, ⟨.committed, s.inputs⟩) := by
  obtain ⟨first, others, rfl, rfl, hothers⟩ := List.map_eq_append_iff.mp hsplit
  obtain ⟨⟨i, n⟩, later, rfl, rfl, -⟩ := List.map_eq_cons_iff.mp hothers
  obtain ⟨n', hneg, hn⟩ := hs
  cases hn
  have hexpand : expandSteps (List.map _ first) = toLog first := expandSteps_counts first
  rw [course_append (nonneg_of_not_endless hbefore), course_of_neg hneg, List.append_nil, hexpand]
  rfl

end Counts

namespace Engine

/-! ## Playing counts -/

/-- Nothing but the program decides what is held, and its remaining steps are the counts. -/
structure CountsDown (counts : Counts) (e : Engine) : Prop where
  override : e.override.isActive = false
  probe : e.probe = none
  program : ∃ p, e.program = some p ∧ p.remaining = counts.steps

/-- The walk leaves the counts that are zero and holds the input of the next one. -/
theorem walk_countsDown {counts : Counts} {e : Engine} (h : CountsDown counts e) {budget : Nat}
    (hbudget : counts.length < budget) :
    ∃ e', e.walk budget = (.ok counts.tick.1, e') ∧ CountsDown counts.tick.2 e' ∧
      e'.simulation.written = e.simulation.written ++ [counts.tick.1.inputs] := by
  induction counts generalizing e budget with
  | nil =>
    obtain ⟨k, rfl⟩ := Nat.exists_eq_add_one_of_ne_zero (Nat.ne_zero_of_lt hbudget)
    obtain ⟨p, hp, hremaining⟩ := h.program
    exact ⟨_, walk_of_stop (pace_nil hp hremaining) k, ⟨h.override, h.probe, p, hp, hremaining⟩,
      rfl⟩
  | cons c rest ih =>
    obtain ⟨i, n⟩ := c
    obtain ⟨k, rfl⟩ := Nat.exists_eq_add_one_of_ne_zero (Nat.ne_zero_of_lt hbudget)
    obtain ⟨p, hp, hremaining⟩ := h.program
    rw [Counts.tick]
    split
    · next hzero =>
      subst hzero
      obtain ⟨p', log, hremaining', -, hpace⟩ := pace_countdown_zero hp hremaining
      have hrest : CountsDown rest { e with program := some p', log } :=
        ⟨h.override, h.probe, p', rfl, hremaining'⟩
      rw [walk_of_go hpace]
      exact ih hrest (Nat.lt_of_succ_lt_succ hbudget)
    · next hne =>
      obtain ⟨p', hremaining', -, hpace⟩ := pace_countdown_of_ne hne hp hremaining
      refine ⟨_, walk_of_stop hpace k, ?_, rfl⟩
      exact ⟨h.override, h.probe, p', rfl, hremaining'⟩

theorem tickOn_countsDown {counts : Counts} {e : Engine} (h : CountsDown counts e) {m : Moment}
    (hm : m.Quiet) {budget : Nat} (hbudget : counts.length < budget) :
    ∃ e', e.tickOn budget m = (.ok counts.tick.1, e') ∧ CountsDown counts.tick.2 e' ∧
      e'.simulation.written = e.simulation.written ++ [counts.tick.1.inputs] := by
  have hbegun : CountsDown counts (e.meet m).beginTick := by
    refine ⟨?_, h.probe, h.program⟩
    rw [show (e.meet m).beginTick.override = e.override from meet_override hm.overrides e]
    exact h.override
  rw [tickOn_quiet hm h.override, play, classify_of_none hbegun.probe]
  exact walk_countsDown hbegun hbudget

/-- A run that nothing interferes with takes the course of the counts. -/
theorem run_countsDown {budget : Nat} (ms : List Moment) (hms : ∀ m ∈ ms, m.Quiet)
    {counts : Counts} {e : Engine} (h : CountsDown counts e) (hbudget : counts.length < budget) :
    ∃ e', e.run budget ms =
        ((outcomesOf counts.course.1 counts.course.2 ms.length).map .ok, e') ∧
      e'.simulation.written = e.simulation.written ++
        (outcomesOf counts.course.1 counts.course.2 ms.length).map (·.inputs) := by
  induction ms generalizing counts e with
  | nil => exact ⟨e, by simp [run, outcomesOf], by simp [outcomesOf]⟩
  | cons m ms ih =>
    obtain ⟨e₁, htick, h₁, hwritten₁⟩ := tickOn_countsDown h (hms m List.mem_cons_self) hbudget
    obtain ⟨e', hrun, hwritten⟩ := ih (fun m hm => hms m (List.mem_cons_of_mem _ hm)) h₁
      (Nat.lt_of_le_of_lt counts.length_tick hbudget)
    refine ⟨e', ?_, ?_⟩
    · rw [run_cons, htick, hrun, List.length_cons, Counts.outcomesOf_tick, List.map_cons]
    · rw [hwritten, hwritten₁, List.length_cons, Counts.outcomesOf_tick, List.map_cons,
        List.append_assoc, List.singleton_append]

/-! ## Both readings of a recording -/

/-- The cells of a recording are played without interference. If no count is negative, the ticks
are those that the recording expands to, then nothing is held for ever, and the recording is shown
with the number of ticks on which it is played. Otherwise the input of the first negative count is
held for ever, once the steps before it are over. -/
theorem plays_expansion {cells : Value} {steps : List Step}
    (hcells : decodeCells cells = .ok steps) {e : Engine} (hoverride : e.override.isActive = false)
    (hprobe : e.probe = none) {budget : Nat} (hbudget : steps.length < budget) {ms : List Moment}
    (hms : ∀ m ∈ ms, m.Quiet) :
    ∃ played e', (e.load (some steps)).run budget ms = (played.map .ok, e') ∧
      e'.simulation.written = e.simulation.written ++ played.map (·.inputs) ∧
      ((∀ s ∈ steps, ¬s.IsEndless) →
        played = outcomesOf (expandSteps steps) ⟨.exhausted, .none⟩ ms.length ∧
        ((expandSteps steps).length ≤ ms.length → ∀ sectionId, ∃ columns rows,
          Command.recordedRuns sectionId steps =
            .table ("Section " ++ toString sectionId ++ " — " ++
              toString (played.countP (·.kind = .committed)) ++ " ticks") columns rows)) ∧
      ∀ before s rest, steps = before ++ s :: rest → s.IsEndless → (∀ b ∈ before, ¬b.IsEndless) →
        played = outcomesOf (expandSteps before) ⟨.committed, s.inputs⟩ ms.length := by
  obtain ⟨counts, rfl⟩ := exists_counts hcells
  have hloaded : CountsDown counts (e.load (some counts.steps)) :=
    ⟨hoverride, by simp [load, note, forgetSteps, hprobe], _, rfl, rfl⟩
  obtain ⟨e', hrun, hwritten⟩ :=
    run_countsDown ms hms hloaded (by simpa [Counts.steps] using hbudget)
  refine ⟨_, e', hrun, hwritten, ?_, ?_⟩
  · intro hfinite
    rw [Counts.course_of_finite hfinite]
    refine ⟨rfl, fun hlong sectionId => ?_⟩
    rw [countP_outcomesOf (by simp) hlong]
    exact ⟨_, _, rfl⟩
  · intro before s rest hsplit hendless hfinite
    rw [Counts.course_of_endless hsplit hendless hfinite]

/-- A recording that holds a key for two ticks, nothing for no tick and another key for one. -/
theorem plays_expansion_of_three_ticks :
    let cells : Value := .list [.text "r", .int 2, .text "", .int 0, .text "j", .int 1]
    let ms : List Moment := List.replicate 4 { player := {} }
    ∃ steps played e', decodeCells cells = .ok steps ∧
      ((default : Engine).load (some steps)).run 4 ms = (played.map .ok, e') ∧
      played = [⟨.committed, .ofKeys (.ofList [.right])⟩, ⟨.committed, .ofKeys (.ofList [.right])⟩,
        ⟨.committed, .ofKeys (.ofList [.jump])⟩, ⟨.exhausted, .none⟩] := by
  intro cells ms
  let steps : List Step := [.mk (.ofKeys (.ofList [.right])) (.countdown 2),
    .mk .none (.countdown 0), .mk (.ofKeys (.ofList [.jump])) (.countdown 1)]
  have hcells : decodeCells cells = .ok steps := rfl
  have hbudget : steps.length < 4 := by decide
  have hquiet : ∀ m ∈ ms, m.Quiet := by
    intro m hm
    rw [List.eq_of_mem_replicate hm]
    exact ⟨rfl, rfl⟩
  have hfinite : ∀ s ∈ steps, ¬s.IsEndless := by
    rintro s hs ⟨n, hneg, hn⟩
    simp only [steps, List.mem_cons, List.not_mem_nil, or_false] at hs
    rcases hs with rfl | rfl | rfl <;> cases hn <;> omega
  obtain ⟨played, e', hrun, -, hplayed, -⟩ :=
    plays_expansion (e := default) hcells (by decide) rfl hbudget hquiet
  refine ⟨steps, played, e', hcells, hrun, ?_⟩
  rw [(hplayed hfinite).1]
  rfl

/-- The cells of a recording with a negative count are read, and the recording is shown with no
tick at all. Played, its key is held on every tick. -/
theorem negative_count_held :
    ∃ steps, decodeCells (.list [.text "r", .int (-1)]) = .ok steps ∧ expandSteps steps = [] ∧
      (((default : Engine).load (some steps)).run 2
        (List.replicate 3 { player := {} })).2.simulation.written =
        List.replicate 3 (.ofKeys (.ofList [.right])) :=
  ⟨_, rfl, rfl, rfl⟩

end Engine

end TickScript
