import Mathlib
import TickScript.Proofs.SearchCourse

/-!
# What is known of an open probe

A probe that runs was opened by a deed of the search, which wrote its candidate down and
inserted a step for it. The candidate stays on record until the probe is settled, unless the
record is cleared meanwhile: clearing forgets the candidate and leaves the probe open.

* `Engine.Traced`: a probe that runs is accounted for by what was done to the search.
* `Engine.open_probe_recalled`: every engine that a run of a program reaches is traced, and a
  probe whose candidate is on record is settled without a failure, with its number of ticks
  in the report.
-/

namespace TickScript

namespace SearchRecord

/-- What is on record of a candidate, by what was done since it was written down. -/
structure Recalls (r : SearchRecord) (candidate : Int) (since : List Deed) : Prop where
  known : .cleared ∉ since → r.middle = some candidate ∧ r.history.getLast? = some candidate
  forgotten : .cleared ∈ since → r.middle = none ∧ r.history = []

theorem Recalls.refused {r : SearchRecord} {candidate : Int} {since : List Deed}
    (h : r.Recalls candidate since) (low : Option Int) :
    { r with low }.Recalls candidate (since ++ [Deed.refused]) where
  known hclear := h.known fun hmem => hclear (List.mem_append_left _ hmem)
  forgotten hclear := by
    rcases List.mem_append.mp hclear with hmem | hmem
    · exact h.forgotten hmem
    · simp at hmem

theorem recalls_cleared (now : String) (candidate : Int) (since : List Deed) :
    (fresh now).Recalls candidate (since ++ [Deed.cleared]) where
  known hclear := absurd (List.mem_append_right _ (List.mem_singleton.mpr rfl)) hclear
  forgotten _ := ⟨rfl, rfl⟩

/-- With its candidate on record every outcome of a probe moves the bounds. -/
theorem apply_of_middle {r : SearchRecord} {candidate : Int} (h : r.middle = some candidate)
    (mode : Mode) (outcome : Outcome) :
    ∃ r', r.apply mode outcome = .ok r' ∧ r'.middle = some candidate := by
  obtain ⟨low, high, middle, history, lastSaved⟩ := r
  cases h
  cases outcome with
  | tooLow => cases high <;> exact ⟨_, rfl, rfl⟩
  | tooHigh => exact ⟨_, rfl, rfl⟩
  | withinRange => cases mode <;> exact ⟨_, rfl, rfl⟩

theorem report_of_probed {r : SearchRecord} {outcome : Outcome}
    (h : (r.report outcome).reason = .probed) :
    (r.report outcome).value = r.middle ∧
      (r.report outcome).message = outcome.text ++ " " ++ shown r.middle ++ " ticks" := by
  unfold report at h ⊢
  split at h
  · cases h
  · split at h
    · cases h
    · next hconverged hexhausted =>
      rw [if_neg hconverged, if_neg hexhausted]
      exact ⟨rfl, rfl⟩

end SearchRecord

namespace Engine

/-- A probe was opened by a deed that inserted a step for its candidate, and was neither
settled nor replaced since. -/
structure Runs (e₀ : Engine) (deeds : List Deed) (p : Probe) (candidate : Int)
    (since : List Deed) : Prop where
  opened : ∃ before args q e e', deeds = before ++ .opened args q candidate :: since ∧
    Course e₀ before e ∧ e.Opens args q candidate e' ∧ p.inputs = q.inputs ∧ p.mode = q.mode
  since : ∀ d ∈ since, d = .refused ∨ d = .cleared

theorem Runs.concat {e₀ : Engine} {deeds since : List Deed} {p : Probe} {candidate : Int}
    (h : Runs e₀ deeds p candidate since) {d : Deed} (hd : d = .refused ∨ d = .cleared) :
    Runs e₀ (deeds ++ [d]) p candidate (since ++ [d]) := by
  obtain ⟨⟨before, args, q, e, e', rfl, hcourse⟩, hsince⟩ := h
  refine ⟨⟨before, args, q, e, e', by simp, hcourse⟩, ?_⟩
  intro d' hd'
  rcases List.mem_append.mp hd' with hmem | hmem
  · exact hsince d' hmem
  · rwa [List.mem_singleton.mp hmem]

theorem Runs.of_terms {e₀ : Engine} {deeds since : List Deed} {p p' : Probe} {candidate : Int}
    (h : Runs e₀ deeds p candidate since) (hinputs : p'.inputs = p.inputs)
    (hmode : p'.mode = p.mode) : Runs e₀ deeds p' candidate since := by
  obtain ⟨⟨before, args, q, e, e', hdeeds, hcourse, hopens, hinputs', hmode'⟩, hsince⟩ := h
  exact ⟨⟨before, args, q, e, e', hdeeds, hcourse, hopens, hinputs.trans hinputs',
    hmode.trans hmode'⟩, hsince⟩

/-- The deeds, which go on from earlier ones, account for the probe that runs: the one that is
open, or else the one that is set aside. -/
structure Traced (e₀ : Engine) (base : List Deed) (aside : Option Probe) (e : Engine) : Prop where
  parts : e.parts.program = true
  program : e.program.isSome = true
  course : ∃ deeds, base <+: deeds ∧ Course e₀ deeds e ∧ ∀ p, e.probe.or aside = some p →
    ∃ candidate since, Runs e₀ deeds p candidate since ∧ e.record.Recalls candidate since

namespace Traced

variable {e₀ e : Engine} {base : List Deed} {aside : Option Probe}

theorem same {e' : Engine} (h : Traced e₀ base aside e) (hsame : SameSearch e e') :
    Traced e₀ base aside e' := by
  obtain ⟨deeds, hbase, hcourse, hprobe⟩ := h.course
  refine ⟨by rw [hsame.parts, h.parts], by rw [hsame.program, h.program], deeds, hbase,
    hcourse.kept hsame.toSameStore, ?_⟩
  rw [hsame.probe, hsame.record]
  exact hprobe

theorem startSearch (h : Traced e₀ base aside e) (args : List Arg) (place : Option Place) :
    Traced e₀ base aside (e.startSearch args place).2 := by
  obtain ⟨deeds, hbase, hcourse, hprobe⟩ := h.course
  have huntouched := e.startSearch_untouched args place
  have hstarts := e.starts_startSearch args place
  generalize hstart : e.startSearch args place = result at hstarts huntouched
  have hparts : result.2.parts.program = true := by rw [huntouched.parts, h.parts]
  have hprogram : result.2.program.isSome = true := by
    have hgrown := huntouched.program
    obtain ⟨p, hp⟩ := Option.isSome_iff_exists.mp h.program
    rw [hp] at hgrown
    cases hq : result.2.program with
    | none =>
      rw [hq] at hgrown
      cases hgrown
    | some q => rfl
  cases hstarts with
  | @opened probe candidate e' hread hopens =>
    refine ⟨hparts, hprogram, deeds ++ [.opened args probe candidate],
      hbase.trans (List.prefix_append _ _), hcourse.done (.opened hread hstart), ?_⟩
    intro p hp
    have hopen : some probe = some p := by simpa [hopens.isOpen] using hp
    cases hopen
    refine ⟨candidate, [], ⟨⟨deeds, args, probe, e, e', rfl, hcourse, hopens, rfl, rfl⟩, nofun⟩,
      fun _ => ⟨hopens.middle, ?_⟩, nofun⟩
    rw [hopens.history]
    exact List.getLast?_concat
  | refused low =>
    refine ⟨hparts, hprogram, deeds ++ [.refused], hbase.trans (List.prefix_append _ _),
      hcourse.done (.refused low), ?_⟩
    intro p hp
    obtain ⟨candidate, since, hruns, hrecalls⟩ := hprobe p hp
    exact ⟨candidate, _, hruns.concat (.inl rfl), hrecalls.refused low⟩
  | stranded _ _ hreach =>
    rcases hreach with hreach | hreach
    · rw [h.parts] at hreach
      cases hreach
    · rw [hreach] at hprogram
      cases hprogram

theorem clearRecord (h : Traced e₀ base aside e) : Traced e₀ base aside e.clearRecord := by
  obtain ⟨deeds, hbase, hcourse, hprobe⟩ := h.course
  refine ⟨h.parts, h.program, deeds ++ [.cleared], hbase.trans (List.prefix_append _ _),
    hcourse.done .cleared, ?_⟩
  intro p hp
  obtain ⟨candidate, since, hruns, -⟩ := hprobe p hp
  exact ⟨candidate, _, hruns.concat (.inr rfl), SearchRecord.recalls_cleared e.now candidate since⟩

theorem searchKept (e₀ : Engine) (base : List Deed) (aside : Option Probe) :
    SearchKept (Traced e₀ base aside) where
  same h hsame := h.same hsame
  startSearch h args place := h.startSearch args place
  clearRecord h := h.clearRecord

end Traced

/-! ## The outcome check -/

/-- The engine in which an open probe is settled: its conditions were looked at and are back in
their places. -/
def looked (e : Engine) (p : Probe) : Engine :=
  ((e.withProbe none).judge p).2.2.keepInPlace ((e.withProbe none).judge p).2.1

namespace Traced

variable {e₀ e : Engine} {base : List Deed} {p : Probe}

theorem looked (h : Traced e₀ base none e) (hp : e.probe = some p) :
    Traced e₀ base (some p) (e.looked p) := by
  have haside : Traced e₀ base (some p) (e.withProbe none) := by
    obtain ⟨deeds, hbase, hcourse, hprobe⟩ := h.course
    refine ⟨h.parts, h.program, deeds, hbase, hcourse.kept ⟨rfl, rfl, rfl⟩, ?_⟩
    intro q hq
    cases hq
    exact hprobe p (by simp [hp])
  exact ((searchKept e₀ base (some p)).kept.judge haside p).same (keepInPlace_search _ _)

/-- A probe that is not settled stays open, unless another one was opened meanwhile. -/
theorem reopened {p' : Probe} (h : Traced e₀ base (some p) e) (hinputs : p'.inputs = p.inputs)
    (hmode : p'.mode = p.mode) :
    Traced e₀ base none (e.withProbe (some (e.probe.getD p'))) := by
  obtain ⟨deeds, hbase, hcourse, hprobe⟩ := h.course
  refine ⟨h.parts, h.program, deeds, hbase, hcourse.kept ⟨rfl, rfl, rfl⟩, ?_⟩
  intro q hq
  cases hopen : e.probe with
  | none =>
    have hpq : p' = q := by simpa [withProbe, hopen] using hq
    obtain ⟨candidate, since, hruns, hrecalls⟩ := hprobe p (by simp [hopen])
    exact ⟨candidate, since, hpq ▸ hruns.of_terms hinputs hmode, hrecalls⟩
  | some q' =>
    have hpq : q' = q := by simpa [withProbe, hopen] using hq
    exact hprobe q (by simp [hopen, hpq])

theorem classify (h : Traced e₀ base none e) : Traced e₀ base none e.classify.2 := by
  cases hopen : e.probe with
  | none =>
    rw [classify_of_none hopen]
    exact h
  | some p =>
    obtain ⟨hinputs, hmode⟩ := (e.withProbe none).judge_terms p
    have hlooked := h.looked hopen
    have hreopened := hlooked.reopened hinputs hmode
    rw [classify_of_probe hopen]
    change Traced e₀ base none ((e.looked p).settle _ _).2
    have hsettles := (e.looked p).settles_settle ((e.withProbe none).judge p).2.1
      ((e.withProbe none).judge p).1
    generalize hresult : (e.looked p).settle ((e.withProbe none).judge p).2.1
      ((e.withProbe none).judge p).1 = result at hsettles
    generalize ((e.withProbe none).judge p).1 = outcome at hresult hsettles
    cases hsettles with
    | failed | goesOn | jammed => exact hreopened
    | settled =>
      obtain ⟨deeds, hbase, hcourse, -⟩ := hlooked.course
      exact ⟨hlooked.parts, hlooked.program, _, hbase.trans (List.prefix_append _ _),
        hcourse.done (.settled hresult), nofun⟩

end Traced

/-! ## Runs -/

/-- What a run has done to its search accounts for the probe that is open at its end. -/
theorem run_traced {e₀ : Engine} (hparts : e₀.parts.program = true)
    (hprogram : e₀.program.isSome = true) (hprobe : e₀.probe = none) (budget : Nat)
    (ms : List Moment) : Traced e₀ [] none (e₀.run budget ms).2 := by
  have hstart : Traced e₀ [] none e₀ :=
    ⟨hparts, hprogram, [], List.nil_prefix, .start, by simp [hprobe]⟩
  exact ((Traced.searchKept e₀ [] none).tickKept Traced.classify).run budget ms hstart

/-- The outcome check fails only where a condition of the probe does, and a report that the
search goes on has the number of ticks. -/
structure SettlesWith (e : Engine) (p : Probe) (candidate : Int) : Prop where
  fails : ∀ f, e.classify.1 = .error f → ((e.withProbe none).judge p).1 = .error f
  reports : ∀ outcome, ((e.withProbe none).judge p).1 = .ok (some outcome) →
    ∃ report, e.classify.1 = .ok (some report) ∧
      (report.reason = .probed → report.value = some candidate ∧
        report.message = outcome.text ++ " " ++ toString candidate ++ " ticks")

theorem settlesWith_of_middle {e : Engine} {p : Probe} (hp : e.probe = some p) {candidate : Int}
    (hmiddle : (e.looked p).record.middle = some candidate) : e.SettlesWith p candidate := by
  have hsettles := (e.looked p).settles_settle ((e.withProbe none).judge p).2.1
    ((e.withProbe none).judge p).1
  have hclassify : e.classify = (e.looked p).settle ((e.withProbe none).judge p).2.1
      ((e.withProbe none).judge p).1 := classify_of_probe hp
  rw [← hclassify] at hsettles
  suffices h : ∀ judged result,
      (e.looked p).Settles ((e.withProbe none).judge p).2.1 judged result →
      (∀ f, result.1 = .error f → judged = .error f) ∧
      ∀ outcome, judged = .ok (some outcome) → ∃ report, result.1 = .ok (some report) ∧
        (report.reason = .probed → report.value = some candidate ∧
          report.message = outcome.text ++ " " ++ toString candidate ++ " ticks") from
    ⟨(h _ _ hsettles).1, (h _ _ hsettles).2⟩
  intro judged result hsettles
  cases hsettles with
  | failed =>
    refine ⟨?_, nofun⟩
    intro _ hfailed
    cases hfailed
    rfl
  | goesOn => exact ⟨nofun, nofun⟩
  | @jammed outcome f happly =>
    obtain ⟨record, hok, -⟩ := SearchRecord.apply_of_middle hmiddle
      ((e.withProbe none).judge p).2.1.mode outcome
    rw [happly] at hok
    cases hok
  | @settled outcome record happly =>
    obtain ⟨record', hok, hmiddle'⟩ := SearchRecord.apply_of_middle hmiddle
      ((e.withProbe none).judge p).2.1.mode outcome
    rw [happly] at hok
    cases hok
    refine ⟨nofun, ?_⟩
    intro _ houtcome
    cases houtcome
    refine ⟨_, rfl, ?_⟩
    intro hprobed
    obtain ⟨hvalue, hmessage⟩ := SearchRecord.report_of_probed hprobed
    have hshown : ((e.looked p).concluded record outcome).record.middle = some candidate := hmiddle'
    rw [hvalue, hmessage, hshown]
    exact ⟨rfl, rfl⟩

/-- In every engine that a run of a program reaches, an open probe was opened for a candidate,
and unless the record was cleared since, the candidate is the known one and the last of the
history. Unless it is cleared before the probe is settled on the next tick, whatever the moment,
every outcome settles the probe, with the number of ticks in a report that the search goes on. -/
theorem open_probe_recalled {e₀ : Engine} (hparts : e₀.parts.program = true)
    (hprogram : e₀.program.isSome = true) (hprobe : e₀.probe = none) (budget : Nat)
    (ms : List Moment) (p : Probe) (hp : (e₀.run budget ms).2.probe = some p) :
    ∃ deeds, Course e₀ deeds (e₀.run budget ms).2 ∧
      (∃ candidate since, Runs e₀ deeds p candidate since ∧
        (e₀.run budget ms).2.record.Recalls candidate since) ∧
      ∀ m : Moment, let e := ((e₀.run budget ms).2.meet m).beginTick
        ∃ more candidate since, Course e₀ (deeds ++ more) (e.looked p) ∧
          Runs e₀ (deeds ++ more) ((e.looked p).probe.getD p) candidate since ∧
          (.cleared ∉ since → e.SettlesWith p candidate) := by
  have htraced := run_traced hparts hprogram hprobe budget ms
  obtain ⟨deeds, -, hcourse, hruns⟩ := htraced.course
  refine ⟨deeds, hcourse, hruns p (by simp [hp]), ?_⟩
  intro m e
  have hopen : e.probe = some p := hp
  have hhere : Traced e₀ deeds none e :=
    ⟨htraced.parts, htraced.program, deeds, List.prefix_refl _, hcourse.kept ⟨rfl, rfl, rfl⟩,
      hruns⟩
  obtain ⟨_, ⟨more, rfl⟩, hcourse', hruns'⟩ := (hhere.looked hopen).course
  obtain ⟨candidate, since, hruns', hrecalls⟩ :=
    hruns' ((e.looked p).probe.getD p) (by cases (e.looked p).probe <;> rfl)
  refine ⟨more, candidate, since, hcourse', hruns', ?_⟩
  intro hclear
  exact settlesWith_of_middle hopen (hrecalls.known hclear).1

/-- After the first tick of a search the probe that was opened on it is on record. -/
theorem open_probe_recalled_after_start :
    let never : Condition := .native ⟨"never", fun _ => .inl false⟩ ""
    let finished : Condition := .native ⟨"finished", .inl⟩ ""
    let e₀ := (default : Engine).load (some [.mk .none (.call "optimize"
      [.inputs (.ofKeys (.ofList [.right])), .raw (.text "LO"), .condition never,
        .condition finished, .condition never])])
    let e := (e₀.run 4 [⟨{}, none, false, false, []⟩]).2
    let p : Probe :=
      ⟨.ofKeys (.ofList [.right]), .lo, never, finished, never, some ⟨.step 0, []⟩⟩
    e.probe = some p ∧ ∃ deeds, Course e₀ deeds e ∧ ∃ candidate since,
      Runs e₀ deeds p candidate since ∧ e.record.Recalls candidate since := by
  intro never finished e₀ e p
  have hopen : e.probe = some p := by cbv
  obtain ⟨deeds, hcourse, hruns, -⟩ := open_probe_recalled rfl rfl rfl 4 _ p hopen
  exact ⟨hopen, deeds, hcourse, hruns⟩

/-- A probe whose record is cleared while it runs: its candidate is forgotten, and the outcome that it
has two ticks later cannot be applied. -/
theorem cleared_probe_jams :
    let optimize : Condition := .call "optimize"
      [.inputs (.ofKeys (.ofList [.right])), .raw (.text "LO"),
        .condition (.native ⟨"never", fun _ => .inl false⟩ ""),
        .condition (.native ⟨"finished", .inl⟩ ""),
        .condition (.native ⟨"never", fun _ => .inl false⟩ "")]
    let program : List Step := [.mk .none optimize, .mk .none (.call "clearOptimizationData" [])]
    let e := (((default : Engine).load (some program)).run 4 [⟨{}, none, false, false, []⟩,
      ⟨{}, none, false, false, []⟩]).2
    e.isSearching = true ∧ e.record.middle = none ∧ e.record.history = [] ∧
      (e.tickOn 4 ⟨{}, none, false, false, []⟩).1 = .error .kind := by
  refine ⟨?_, ?_, ?_, ?_⟩ <;> cbv

end Engine

end TickScript
