import TickScript.Engine.Tick

/-!
# Opening and settling a probe

A search starts in two parts. Its arguments are read and the bounds are seeded, which may
fail; then `Engine.openProbe` writes the candidate down, saves the record, inserts the step
that holds the input and opens the probe. `Engine.startSearch_cases` says that a start is
one of these: a failure that leaves at most the lower bound behind, or the second part.

An open probe is set aside while its conditions are looked at, and `Engine.settle` then
draws the conclusion (`Engine.classify_of_probe`).
-/

namespace TickScript

namespace SearchRecord

/-- The record with its next candidate written down. -/
def probed (r : SearchRecord) (mode : Mode) : SearchRecord :=
  { r with middle := some (r.next mode), history := r.history ++ [r.next mode] }

end SearchRecord

namespace Engine

def withProbe (e : Engine) (p : Option Probe) : Engine := { e with probe := p }

/-- The second part of the start of a search, with all arguments read. -/
def openProbe (e : Engine) (probe : Probe) (record : SearchRecord) : Except Fault Int × Engine :=
  match ({ e with record := record.probed probe.mode }.saveRecord).expand
      [.mk probe.inputs (.countdown (record.next probe.mode))] with
  | (.error f, e) => (.error f, e)
  | (.ok (), e) => (.ok (record.next probe.mode), e.withProbe (some probe))

/-- How the start of a search ends, by what can be read of its arguments. -/
inductive SearchStart (e : Engine) (args : List Arg) (place : Option Place) :
    Except Fault Int × Engine → Prop
  | missing {name : String} (hargs : missingSearchArgument? args = some name) :
      SearchStart e args place (.error (.missingSearchArgument name), e)
  | unread {f : Fault} (hargs : missingSearchArgument? args = none)
      (hprobe : readProbe args place = .error f) : SearchStart e args place (.error f, e)
  | noLow {f : Fault} (hlow : seedLow e.record args = .error f) :
      SearchStart e args place (.error f, e)
  | noHigh {f : Fault} {record : SearchRecord} (hlow : seedLow e.record args = .ok record)
      (hhigh : seedHigh record args = .error f) :
      SearchStart e args place (.error f, { e with record })
  | opened {probe : Probe} {low high : SearchRecord} (hargs : missingSearchArgument? args = none)
      (hprobe : readProbe args place = .ok probe) (hlow : seedLow e.record args = .ok low)
      (hhigh : seedHigh low args = .ok high) :
      SearchStart e args place (e.openProbe probe high)

theorem startSearch_cases (e : Engine) (args : List Arg) (place : Option Place) :
    SearchStart e args place (e.startSearch args place) := by
  unfold startSearch
  split
  · next hargs => exact .missing hargs
  · next hargs =>
    split
    · next hprobe => exact .unread hargs hprobe
    · next hprobe =>
      split
      · next hlow => exact .noLow hlow
      · next hlow =>
        dsimp only
        split
        · next hhigh => exact .noHigh hlow hhigh
        · next hhigh => exact .opened hargs hprobe hlow hhigh

/-- What a start leads to, if its record is changed and saved, a step is inserted and the probe is
opened. -/
theorem startSearch_leads {P Q : Engine → Prop} {args : List Arg} {place : Option Place}
    (hrefused : ∀ {e}, P e → Q e)
    (hrecord : ∀ {e}, P e → ∀ record, P { e with record })
    (hsave : ∀ {e}, P e → P e.saveRecord)
    (hexpand : ∀ {e}, P e → ∀ i n, Q (e.expand [.mk i (.countdown n)]).2)
    (hopen : ∀ {e}, Q e → ∀ {p}, readProbe args place = .ok p → Q (e.withProbe (some p)))
    {e : Engine} (he : P e) : Q (e.startSearch args place).2 := by
  generalize hstart : e.startSearch args place = result
  have hcases := e.startSearch_cases args place
  rw [hstart] at hcases
  cases hcases with
  | missing | unread | noLow => exact hrefused he
  | noHigh => exact hrefused (hrecord he _)
  | @opened probe low high hargs hprobe hlow hhigh =>
    have hexpanded := hexpand (hsave (hrecord he (high.probed probe.mode))) probe.inputs
      (high.next probe.mode)
    unfold openProbe
    split
    · next heq => simpa only [heq] using hexpanded
    · next heq =>
      rw [heq] at hexpanded
      exact hopen hexpanded hprobe

/-- The place of a search is noted and has no part in the reading. -/
theorem readProbe_eq (args : List Arg) (place : Option Place) :
    readProbe args place = (readProbe args none).map fun p => { p with origin := place } := by
  unfold readProbe
  dsimp only
  cases (args.getD 0 (.raw .null)).toInputs with
  | error f => rfl
  | ok inputs =>
    cases Mode.read (args.getD 1 (.raw .null)).toValue with
    | error f => rfl
    | ok mode =>
      cases (args.getD 2 (.raw .null)).toCondition with
      | error f => rfl
      | ok failLow =>
        cases (args.getD 3 (.raw .null)).toCondition with
        | error f => rfl
        | ok failHigh =>
          cases (args.getD 4 (.raw .null)).toCondition with
          | error f => rfl
          | ok success => rfl

theorem readProbe_origin {args : List Arg} {place : Option Place} {p : Probe}
    (h : readProbe args place = .ok p) : p.origin = place := by
  rw [readProbe_eq] at h
  cases hread : readProbe args none with
  | error f =>
    rw [hread] at h
    cases h
  | ok q =>
    rw [hread] at h
    cases h
    rfl

/-- When the program changes, an open probe that is kept belongs to a watched condition at most. -/
theorem forgetSteps_origin (e : Engine) {probe : Probe} {place : Place}
    (hprobe : e.forgetSteps.probe = some probe) (hplace : probe.origin = some place) :
    ∃ name, place.root = .watch name := by
  obtain ⟨old, -, hnew⟩ := Option.map_eq_some_iff.mp hprobe
  subst hnew
  split at hplace
  · cases hplace
  · next hroot =>
    obtain ⟨⟨index⟩ | ⟨name⟩, path⟩ := place
    · exact absurd hplace (hroot index path)
    · exact ⟨name, rfl⟩

/-! ## Settling -/

/-- Looking at its conditions changes nothing else of a probe. -/
theorem judge_probe (e : Engine) (p : Probe) : ∃ failLow failHigh success,
    (e.judge p).2.1 = { p with failLow, failHigh, success } := by
  unfold judge
  dsimp only
  split
  · exact ⟨_, _, _, rfl⟩
  · split
    · exact ⟨_, _, _, rfl⟩
    · split
      · exact ⟨_, _, _, rfl⟩
      · split
        · exact ⟨_, _, _, rfl⟩
        · split <;> exact ⟨_, _, _, rfl⟩

theorem judge_origin (e : Engine) (p : Probe) : (e.judge p).2.1.origin = p.origin := by
  obtain ⟨_, _, _, hprobe⟩ := e.judge_probe p
  rw [hprobe]

theorem judge_terms (e : Engine) (p : Probe) :
    (e.judge p).2.1.inputs = p.inputs ∧ (e.judge p).2.1.mode = p.mode := by
  obtain ⟨_, _, _, hprobe⟩ := e.judge_probe p
  rw [hprobe]
  exact ⟨rfl, rfl⟩

/-- What follows from the outcome of a probe, whose conditions are in their new state. -/
def settle (e : Engine) (p : Probe) : Except Fault (Option Outcome) →
    Except Fault (Option Report) × Engine
  | .error f => (.error f, e.withProbe (some (e.probe.getD p)))
  | .ok none => (.ok none, e.withProbe (some (e.probe.getD p)))
  | .ok (some outcome) =>
    match e.record.apply p.mode outcome with
    | .error f => (.error f, e.withProbe (some (e.probe.getD p)))
    | .ok record =>
      let saved := { e.withProbe none with record }.saveRecord
      let report := saved.record.report outcome
      (.ok (some report), { saved with simulation := saved.simulation.endRun report })

theorem classify_of_none {e : Engine} (h : e.probe = none) : e.classify = (.ok none, e) := by
  unfold classify
  rw [h]

/-- An open probe is judged while it is set aside, and then settled. -/
theorem classify_of_probe {e : Engine} {p : Probe} (h : e.probe = some p) :
    e.classify =
      (((e.withProbe none).judge p).2.2.keepInPlace ((e.withProbe none).judge p).2.1).settle
        ((e.withProbe none).judge p).2.1 ((e.withProbe none).judge p).1 := by
  have haside : { e with probe := none } = e.withProbe none := rfl
  unfold classify
  rw [h]
  dsimp only
  rw [haside]
  rcases (e.withProbe none).judge p with ⟨_ | _ | _, p', e'⟩ <;> rfl

end Engine

end TickScript
