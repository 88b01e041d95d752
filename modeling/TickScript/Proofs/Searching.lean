import TickScript.Proofs.Trials

/-!
# Searching for the boundary

A search makes one trial after the other on one store, each with a fresh engine, until a
report says something else than that a candidate was probed. Neither loop has a bound
(`Engine.Ends`, `Engine.Searches`), so that they end is part of what is proved; they end in
one way only (`Engine.Ends.unique`, `Engine.Searches.unique`).

* `Engine.ends_trying`: a trial holds the input for as many ticks as its candidate says,
  reaches the end of its program on the next tick, and is ended on the one after it.
* `Engine.search_finds_boundary`: the search ends on the shortest or the longest duration.
-/

namespace TickScript

/-- The outcomes of the ticks until the run was ended, and the engine that is left. -/
structure Trial where
  results : List (Except Fault TickOutcome)
  engine : Engine

namespace Trial

def report? (trial : Trial) : Option Report := trial.engine.simulation.reports.getLast?

/-- The report says that the search is not over. -/
def isProbed (trial : Trial) : Bool := trial.report?.any (·.reason = .probed)

/-- The trial of a candidate. -/
structure Probes (i : Inputs) (mode : Mode) (r : SearchRecord) (candidate : Nat)
    (trial : Trial) : Prop where
  next : r.next mode = candidate
  middle : trial.engine.record.middle = some (candidate : Int)
  results : trial.results =
    List.replicate candidate (.ok ⟨.committed, i⟩) ++
      [.ok ⟨.exhausted, .none⟩, .ok ⟨.ended, .none⟩]
  history : trial.engine.record.history = r.history ++ [(candidate : Int)]
  saved : trial.engine.files.read? trial.engine.recordPath = some trial.engine.record.write

end Trial

/-- Trials that find a duration, one after the other on the records that they leave. -/
inductive Finds (i : Inputs) (mode : Mode) (t : Nat) : SearchRecord → List Trial → Prop
  | converged {r : SearchRecord} {trial : Trial} {candidate : Nat} {report : Report}
      (htrial : trial.Probes i mode r candidate) (hreport : trial.report? = some report)
      (hreason : report.reason = .converged) (hvalue : report.value = some (t : Int)) :
      Finds i mode t r [trial]
  | probed {r : SearchRecord} {trial : Trial} {candidate : Nat} {report : Report}
      {trials : List Trial} (htrial : trial.Probes i mode r candidate)
      (hreport : trial.report? = some report) (hreason : report.reason = .probed)
      (hrest : Finds i mode t trial.engine.record trials) : Finds i mode t r (trial :: trials)

/-- The moments of a host that leaves the program alone, and whose player shows how many
ticks were committed. -/
structure Shows (gauge : Player → Nat) (scene : Engine → Moment) : Prop where
  quiet : ∀ e, (scene e).Quiet
  commits : ∀ e, gauge (scene e).player = e.commits

namespace Engine

/-- Ticks until the run is ended. -/
inductive Ends (budget : Nat) (scene : Engine → Moment) : Engine → Trial → Prop
  | ended {e e' : Engine} {result : Except Fault TickOutcome}
      (htick : e.tickOn budget (scene e) = (result, e')) (hended : kindOf result = some .ended) :
      Ends budget scene e ⟨[result], e'⟩
  | goesOn {e e' : Engine} {result : Except Fault TickOutcome} {trial : Trial}
      (htick : e.tickOn budget (scene e) = (result, e')) (hgoes : kindOf result ≠ some .ended)
      (hrest : Ends budget scene e' trial) :
      Ends budget scene e { trial with results := result :: trial.results }

/-- The engine with the store of another one. -/
def onStore (e store : Engine) : Engine :=
  { e with record := store.record, files := store.files, recordPath := store.recordPath }

/-- Trials of a program of one step as long as candidates are probed. The engine of each
trial is fresh but for the store. -/
inductive Searches (budget : Nat) (scenes : Nat → Engine → Moment) (fresh : Nat → Engine)
    (s : Step) : Nat → Engine → List Trial → Prop
  | settled {count : Nat} {store : Engine} {trial : Trial}
      (htrial : (((fresh count).onStore store).load (some [s])).Ends budget (scenes count) trial)
      (hreport : trial.isProbed = false) : Searches budget scenes fresh s count store [trial]
  | probed {count : Nat} {store : Engine} {trial : Trial} {trials : List Trial}
      (htrial : (((fresh count).onStore store).load (some [s])).Ends budget (scenes count) trial)
      (hreport : trial.isProbed = true)
      (hrest : Searches budget scenes fresh s (count + 1) trial.engine trials) :
      Searches budget scenes fresh s count store (trial :: trials)

variable {scene : Engine → Moment} {q : Terms} {e e' : Engine} {budget : Nat}
  {scenes : Nat → Engine → Moment} {fresh : Nat → Engine}

theorem Ends.unique {trial trial' : Trial} (h : e.Ends budget scene trial)
    (h' : e.Ends budget scene trial') : trial = trial' := by
  induction h generalizing trial' with
  | ended htick hended =>
    cases h' with
    | ended htick' _ =>
      cases htick.symm.trans htick'
      rfl
    | goesOn htick' hgoes _ =>
      cases htick.symm.trans htick'
      exact absurd hended hgoes
  | goesOn htick hgoes _ ih =>
    cases h' with
    | ended htick' hended =>
      cases htick.symm.trans htick'
      exact absurd hended hgoes
    | goesOn htick' _ hrest =>
      cases htick.symm.trans htick'
      rw [ih hrest]

theorem Searches.unique {s : Step} {count : Nat} {store : Engine} {trials trials' : List Trial}
    (h : Searches budget scenes fresh s count store trials)
    (h' : Searches budget scenes fresh s count store trials') : trials = trials' := by
  induction h generalizing trials' with
  | settled htrial hreport =>
    cases h' with
    | settled htrial' _ => rw [htrial.unique htrial']
    | probed htrial' hreport' _ =>
      rw [htrial.unique htrial', hreport'] at hreport
      cases hreport
  | probed htrial hreport _ ih =>
    cases h' with
    | settled htrial' hreport' =>
      rw [htrial.unique htrial', hreport'] at hreport
      cases hreport
    | probed htrial' _ hrest =>
      cases htrial.unique htrial'
      rw [ih hrest]

/-! ## One trial -/

/-- On the tick after the end of the program the trial is ended. -/
theorem tickOn_exhausted (hscene : Shows q.gauge scene) {ticks : Nat} (h : Trying q [] ticks e)
    {record : SearchRecord}
    (hrecord : q.record.apply q.mode (.ofTicks q.shortest q.longest ticks) = .ok record) :
    ∃ e', e.tickOn budget (scene e) = (.ok ⟨.ended, .none⟩, e') ∧
      Settled q record (.ofTicks q.shortest q.longest ticks) e' := by
  have hview : q.gauge (e.meet (scene e)).beginTick.view = ticks :=
    (hscene.commits e).trans h.commits
  obtain ⟨report, e', hclassify, hsettled⟩ :=
    classify_end (h.meet (hscene.quiet e)) hview hrecord
  refine ⟨e', ?_, hsettled⟩
  rw [tickOn_quiet (hscene.quiet e) h.override, play, hclassify]

/-- While steps remain, a tick is a walk. -/
theorem tickOn_trying (hscene : Shows q.gauge scene) {rest : List Step} {ticks : Nat}
    (h : Trying q rest ticks e) (hrest : rest ≠ []) :
    ∃ e', e.tickOn budget (scene e) = e'.walk budget ∧ Trying q rest ticks e' := by
  obtain ⟨e', hclassify, htrying⟩ := classify_goesOn (h.meet (hscene.quiet e)) hrest
  refine ⟨e', ?_, htrying⟩
  rw [tickOn_quiet (hscene.quiet e) h.override, play, hclassify]

/-- The trial from the middle of a walk on. -/
theorem ends_trying (hscene : Shows q.gauge scene) (k : Nat) (i : Inputs)
    {record : SearchRecord} : ∀ (n : Nat) {ticks j : Nat} {e a : Engine},
    e.tickOn (k + 3) (scene e) = a.walk (j + 2) → Trying q [.mk i (.countdown n)] ticks a →
    q.record.apply q.mode (.ofTicks q.shortest q.longest (ticks + n)) = .ok record →
    ∃ e', e.Ends (k + 3) scene
        ⟨List.replicate n (.ok ⟨.committed, i⟩) ++
          [.ok ⟨.exhausted, .none⟩, .ok ⟨.ended, .none⟩], e'⟩ ∧
      Settled q record (.ofTicks q.shortest q.longest (ticks + n)) e'
  | 0, ticks, j, e, a, htick, h, hrecord => by
    obtain ⟨b, hreleased, hb⟩ := pace_released h
    obtain ⟨hexhausted, hend⟩ := pace_exhausted hb
    rw [walk_of_go hreleased, walk_of_stop hexhausted] at htick
    obtain ⟨e', hended, hsettled⟩ := tickOn_exhausted hscene hend hrecord
    exact ⟨e', .goesOn htick nofun (.ended hended rfl), hsettled⟩
  | n + 1, ticks, j, e, a, htick, h, hrecord => by
    obtain ⟨b, hheld, hb⟩ := pace_held h
    rw [walk_of_stop hheld] at htick
    obtain ⟨c, hwalk, hc⟩ := tickOn_trying hscene hb (List.cons_ne_nil _ _)
    have hticks : ticks + (n + 1) = ticks + 1 + n := by omega
    rw [hticks] at hrecord ⊢
    obtain ⟨e', htrial, hsettled⟩ := ends_trying hscene k i n hwalk hc hrecord
    exact ⟨e', .goesOn htick nofun htrial, hsettled⟩

/-! ## One trial after the other -/

section

variable {gauge : Player → Nat} {a b : Nat} {args : List Arg} {probe : Probe}

/-- The trial of the next candidate. -/
theorem ends_optimize (hscene : Shows gauge scene) (hfresh : e.IsFresh)
    (hlength : args.length = 5) (hgiven : missingSearchArgument? args = none)
    (hread : readProbe args none = .ok probe) (hdecides : probe.Decides gauge a b) (i : Inputs)
    (k : Nat) {n : Nat} (hn : e.record.next probe.mode = n) :
    ∃ trial, (e.load (some [.mk i (.call (Builtin.expand .optimize).name args)])).Ends (k + 3)
        scene trial ∧
      trial.Probes probe.inputs probe.mode e.record n ∧
      (∃ stamp, trial.engine.record =
        { e.record.tried probe.mode (.ofTicks a b n) with lastSaved := stamp }) ∧
      trial.report? = some (trial.engine.record.report (.ofTicks a b n)) := by
  let loaded := e.load (some [.mk i (.call (Builtin.expand .optimize).name args)])
  have hloaded : loaded.IsFresh := hfresh.load _
  obtain ⟨c, hpace, hc⟩ := pace_optimize hgiven hlength hread hdecides
    (hloaded.meet (hscene.quiet loaded)) (n := n) hn rfl
  have htick : loaded.tickOn (k + 3) (scene loaded) = c.walk (k + 2) := by
    rw [tickOn_quiet (hscene.quiet loaded) hloaded.override, play,
      classify_of_none (hloaded.meet (hscene.quiet loaded)).probe]
    exact walk_of_go hpace (k + 2)
  obtain ⟨e', htrial, hsettled⟩ := ends_trying hscene k probe.inputs n htick hc
    (SearchRecord.apply_probed _ _ _ _)
  rw [Nat.zero_add] at hsettled
  obtain ⟨stamp, hstamp⟩ := hsettled.record
  refine ⟨_, htrial, ⟨hn, ?_, rfl, ?_, hsettled.saved⟩, ⟨stamp, hstamp⟩, ?_⟩
  · change e'.record.middle = _
    rw [hstamp, ← hn]
    exact e.record.middle_tried probe.mode _
  · change e'.record.history = _
    rw [hstamp, ← hn]
    exact e.record.history_tried probe.mode _
  · change e'.simulation.reports.getLast? = _
    rw [hsettled.reports]
    exact List.getLast?_concat

/-- The search from any trial on. -/
theorem search_finds (hscenes : ∀ n, Shows gauge (scenes n)) (hfresh : ∀ n, (fresh n).IsFresh)
    (hlength : args.length = 5) (hgiven : missingSearchArgument? args = none)
    (hread : readProbe args none = .ok probe) (hdecides : probe.Decides gauge a b) (hab : a ≤ b)
    (i : Inputs) (k : Nat) : ∀ (left count : Nat) {store : Engine},
    store.record.Brackets (probe.mode.target a b) →
    store.record.probesLeft (probe.mode.target a b) ≤ left →
    ∃ trials, Searches (k + 3) scenes fresh (.mk i (.call (Builtin.expand .optimize).name args))
        count store trials ∧
      Finds probe.inputs probe.mode (probe.mode.target a b) store.record trials ∧
      trials.length ≤ left
  | 0, count, store, _, hleft => absurd hleft (Nat.not_le.mpr (store.record.probesLeft_pos _))
  | left + 1, count, store, hstore, hleft => by
    obtain ⟨n, hn⟩ := hstore.exists_next probe.mode
    have honStore : ((fresh count).onStore store).IsFresh :=
      ⟨(hfresh count).program, (hfresh count).search, (hfresh count).override,
        (hfresh count).probe, (hfresh count).commits⟩
    obtain ⟨trial, htrial, hprobes, ⟨stamp, hrecord⟩, hreport⟩ :=
      ends_optimize (hscenes count) honStore hlength hgiven hread hdecides i k hn
    have hmoved := SearchRecord.moved_tried hab hstore hn
    have hbrackets : trial.engine.record.Brackets (probe.mode.target a b) := by
      rw [hrecord]
      exact ⟨hmoved.brackets.nonneg, hmoved.brackets.le, hmoved.brackets.ge⟩
    have hlow : trial.engine.record.low = some trial.engine.record.lowest := by
      rw [hrecord]
      exact store.record.low_tried probe.mode _
    by_cases hmet : trial.engine.record.high = some trial.engine.record.lowest
    · obtain ⟨hreason, hvalue⟩ :=
        SearchRecord.report_of_met hbrackets hlow hmet (.ofTicks a b n)
      have hsettled : trial.isProbed = false := by
        rw [Trial.isProbed, hreport, Option.any_some, hreason]
        rfl
      exact ⟨[trial], .settled htrial hsettled, .converged hprobes hreport hreason hvalue,
        Nat.succ_pos left⟩
    · have hreason := SearchRecord.report_of_apart hbrackets hlow hmet (.ofTicks a b n)
      have hprobed : trial.isProbed = true := by
        rw [Trial.isProbed, hreport, Option.any_some, hreason]
        rfl
      have hfewer : trial.engine.record.probesLeft (probe.mode.target a b) ≤ left := by
        have hlt := hmoved.probesLeft_lt hstore (by rw [hrecord] at hmet; exact hmet)
        rw [hrecord]
        exact Nat.le_of_succ_le_succ (Nat.le_trans hlt hleft)
      obtain ⟨trials, hsearch, hfinds, hcount⟩ :=
        search_finds hscenes hfresh hlength hgiven hread hdecides hab i k left (count + 1)
          hbrackets hfewer
      exact ⟨trial :: trials, .probed htrial hprobed hsearch,
        .probed hprobes hreport hreason hfinds, Nat.succ_le_succ hcount⟩

/-- A search for a duration ends, whatever is known of it at the beginning. Each trial holds
the input for as many ticks as its candidate says and is ended two ticks later; all reports but
the last one say that a candidate was probed, and the last one has the shortest duration that
is long enough, or the longest one that is not too long. The trials are bounded by what is
known, and by the binary length of the duration if nothing is known. -/
theorem search_finds_boundary (hscenes : ∀ n, Shows gauge (scenes n))
    (hfresh : ∀ n, (fresh n).IsFresh) (hlength : args.length = 5)
    (hgiven : missingSearchArgument? args = none) (hread : readProbe args none = .ok probe)
    (hdecides : probe.Decides gauge a b) (hab : a ≤ b) (i : Inputs) (k : Nat) (store : Engine)
    (hstore : store.record.Brackets (probe.mode.target a b)) :
    let searches := Searches (k + 3) scenes fresh
      (.mk i (.call (Builtin.expand .optimize).name args)) 0 store
    (∃ trials, searches trials) ∧ ∀ trials, searches trials →
      Finds probe.inputs probe.mode (probe.mode.target a b) store.record trials ∧
      trials.length ≤ store.record.probesLeft (probe.mode.target a b) ∧
      (store.record.low = none → store.record.high = none →
        trials.length ≤ max 2 (2 * (probe.mode.target a b).size + 1)) := by
  obtain ⟨trials, hsearch, hfinds, hcount⟩ := search_finds hscenes hfresh hlength hgiven hread
    hdecides hab i k _ 0 hstore (Nat.le_refl _)
  refine ⟨⟨trials, hsearch⟩, ?_⟩
  intro trials' hsearch'
  cases hsearch.unique hsearch'
  refine ⟨hfinds, hcount, ?_⟩
  intro hlow hhigh
  have hempty : store.record.probesLeft (probe.mode.target a b) =
      max 2 (2 * (probe.mode.target a b).size + 1) := by
    rw [SearchRecord.probesLeft, SearchRecord.lowest, hlow, hhigh]
    rfl
  rw [← hempty]
  exact hcount

end

/-- The longest duration of at least 3 and at most 5 ticks takes up to 7 trials. -/
theorem search_finds_boundary_at_five :
    ∃ trials, Searches 3 (fun _ e => { player := { sectionId := e.commits } }) (fun _ => default)
        (.mk .none (.call (Builtin.expand .optimize).name
          [.inputs (.ofKeys .directions), .raw (.int 1),
            .condition (.atEnd (·.sectionId.toNat) fun ticks => ticks < 3),
            .condition (.atEnd (·.sectionId.toNat) fun ticks => 5 < ticks),
            .condition (.atEnd (·.sectionId.toNat) fun _ => true)])) 0 default trials ∧
      Finds (.ofKeys .directions) .hi 5 (default : Engine).record trials ∧ trials.length ≤ 7 := by
  have hscenes : ∀ _ : Nat, Shows (fun p => p.sectionId.toNat)
      (fun e => { player := { sectionId := e.commits } }) :=
    fun _ => ⟨fun _ => ⟨rfl, rfl⟩, fun e => Int.toNat_natCast e.commits⟩
  let probe : Probe :=
    { inputs := .ofKeys .directions
      mode := .hi
      failLow := .atEnd (·.sectionId.toNat) fun ticks => ticks < 3
      failHigh := .atEnd (·.sectionId.toNat) fun ticks => 5 < ticks
      success := .atEnd (·.sectionId.toNat) fun _ => true
      origin := none }
  have hdecides : probe.Decides (·.sectionId.toNat) 3 5 :=
    ⟨Condition.atEnd_tells .., Condition.atEnd_tells .., Condition.atEnd_tells ..⟩
  have hread : readProbe [.inputs probe.inputs, .raw (.int 1), .condition probe.failLow,
      .condition probe.failHigh, .condition probe.success] none = .ok probe := rfl
  have hfresh : ∀ n, ((fun _ => default : Nat → Engine) n).IsFresh :=
    fun _ => ⟨rfl, rfl, rfl, rfl, rfl⟩
  obtain ⟨⟨trials, hsearch⟩, hall⟩ := search_finds_boundary hscenes hfresh rfl rfl hread hdecides
    (by decide) .none 0 default ⟨Int.le_refl 0, by decide, nofun⟩
  obtain ⟨hfinds, _, hcount⟩ := hall trials hsearch
  have hsize : Nat.size 5 ≤ 3 := Nat.size_le.mpr (by decide)
  have hseven : trials.length ≤ max 2 (2 * Nat.size 5 + 1) := hcount rfl rfl
  exact ⟨trials, hsearch, hfinds, by omega⟩

end Engine

end TickScript
