import TickScript.Proofs.Untouched

/-!
# The course of a search

A search goes on through starts that open a probe or fail, through clearings, and through
outcomes that settle the open probe. `Engine.Course e₀ deeds e` says that the store of the
search came from `e₀` to `e` by these deeds, in this order; everything else that an engine
does leaves the store as it is.

* `Engine.Opens`: what a start that opens a probe does.
* `Engine.starts_startSearch`, `Engine.settles_settle`: what starts and outcomes can do at all.
* `Engine.SearchKept.tickKept`: what starts and clearings keep, and the outcome check too, is kept
  by every run.
-/

namespace TickScript

namespace Engine

/-! ## What an engine knows of a search -/

structure SameStore (a b : Engine) : Prop where
  record : b.record = a.record
  files : b.files = a.files
  recordPath : b.recordPath = a.recordPath

/-- Neither the store nor the open probe differs, nor what a search can reach. -/
structure SameSearch (a b : Engine) : Prop extends SameStore a b where
  probe : b.probe = a.probe
  parts : b.parts = a.parts
  program : b.program.isSome = a.program.isSome

theorem SameStore.refl (e : Engine) : SameStore e e := ⟨rfl, rfl, rfl⟩

theorem SameStore.trans {a b c : Engine} (h : SameStore a b) (g : SameStore b c) :
    SameStore a c :=
  ⟨g.record.trans h.record, g.files.trans h.files, g.recordPath.trans h.recordPath⟩

theorem SameSearch.refl (e : Engine) : SameSearch e e := ⟨.refl e, rfl, rfl, rfl⟩

theorem SameSearch.trans {a b c : Engine} (h : SameSearch a b) (g : SameSearch b c) :
    SameSearch a c :=
  ⟨h.toSameStore.trans g.toSameStore, g.probe.trans h.probe, g.parts.trans h.parts,
    g.program.trans h.program⟩

theorem look_search (e : Engine) : SameSearch e e.look.2 := by
  rw [look_snd]
  exact ⟨⟨rfl, rfl, rfl⟩, rfl, rfl, rfl⟩

theorem lookOverlay_search (e : Engine) : SameSearch e e.lookOverlay.2 := by
  obtain ⟨_, _, _, hlook⟩ := e.lookOverlay_snd
  rw [hlook]
  exact ⟨⟨rfl, rfl, rfl⟩, rfl, rfl, rfl⟩

theorem expand_search (e : Engine) (steps : List Step) : SameSearch e (e.expand steps).2 := by
  unfold expand splice
  split
  · split
    · next hp => exact ⟨⟨rfl, rfl, rfl⟩, rfl, rfl, by simp [hp]⟩
    · exact .refl e
  · exact .refl e

theorem setAt_search (e : Engine) (place : Place) (c : Condition) :
    SameSearch e (e.setAt place c) := by
  unfold setAt
  split
  · exact ⟨⟨rfl, rfl, rfl⟩, rfl, rfl, by simp⟩
  · exact ⟨⟨rfl, rfl, rfl⟩, rfl, rfl, rfl⟩

theorem keepInPlace_search (e : Engine) (p : Probe) : SameSearch e (e.keepInPlace p) := by
  unfold keepInPlace
  split
  · exact .refl e
  · exact ((setAt_search _ _ _).trans (setAt_search _ _ _)).trans (setAt_search _ _ _)

theorem leave_search (e : Engine) (p : Program) (step : Step) (v : Verdict) :
    SameSearch (e.afterTurn p step) (e.leave p step v) :=
  ⟨⟨rfl, rfl, rfl⟩, rfl, rfl, by simp [leave, advance, note]⟩

/-! ## Starts -/

theorem seedLow_ok {r r' : SearchRecord} {args : List Arg} (h : seedLow r args = .ok r') :
    ∃ low, r' = { r with low := some low } := by
  unfold seedLow at h
  split at h
  · next low hlow =>
    cases h
    exact ⟨low, by rw [← hlow]⟩
  · cases hb : boundAt? args 5 with
    | error f =>
      rw [hb] at h
      cases h
    | ok b =>
      rw [hb] at h
      cases h
      exact ⟨_, rfl⟩

theorem seedHigh_ok {r r' : SearchRecord} {args : List Arg} (h : seedHigh r args = .ok r') :
    ∃ high, r' = { r with high } := by
  unfold seedHigh at h
  split at h
  · cases h
    exact ⟨r.high, rfl⟩
  · cases hb : boundAt? args 6 with
    | error f =>
      rw [hb] at h
      cases h
    | ok b =>
      rw [hb] at h
      cases h
      exact ⟨_, rfl⟩

/-- A start that opens a probe: the candidate is chosen with the bounds seeded, written down
and saved, and the step that holds the input for so many ticks is inserted. -/
structure Opens (e : Engine) (args : List Arg) (probe : Probe) (candidate : Int)
    (e' : Engine) : Prop where
  seeded : ∃ low high, seedLow e.record args = .ok low ∧ seedHigh low args = .ok high ∧
    candidate = high.next probe.mode ∧
    e'.record = { high.probed probe.mode with lastSaved := e.now }
  saved : e'.files = e.files.write e.recordPath e'.record.write
  recordPath : e'.recordPath = e.recordPath
  isOpen : e'.probe = some probe
  inserted : ∃ p, e.program = some p ∧
    e'.program = some (p.splice [.mk probe.inputs (.countdown candidate)])

theorem Opens.middle {e e' : Engine} {args : List Arg} {probe : Probe} {candidate : Int}
    (h : e.Opens args probe candidate e') : e'.record.middle = some candidate := by
  obtain ⟨low, high, -, -, rfl, hrecord⟩ := h.seeded
  rw [hrecord]
  rfl

theorem Opens.history {e e' : Engine} {args : List Arg} {probe : Probe} {candidate : Int}
    (h : e.Opens args probe candidate e') :
    e'.record.history = e.record.history ++ [candidate] := by
  obtain ⟨low, high, hlow, hhigh, rfl, hrecord⟩ := h.seeded
  obtain ⟨_, rfl⟩ := seedLow_ok hlow
  obtain ⟨_, rfl⟩ := seedHigh_ok hhigh
  rw [hrecord]
  rfl

/-- A step is inserted, or it is not because there is no program within reach. -/
theorem expand_cases (e : Engine) (steps : List Step) :
    (∃ p, e.program = some p ∧
      e.expand steps = (.ok (), { e with program := some (p.splice steps) })) ∨
    ((e.parts.program = false ∨ e.program = none) ∧ ∃ f, e.expand steps = (.error f, e)) := by
  unfold expand splice
  cases hparts : e.parts.program with
  | false => exact .inr ⟨.inl rfl, _, rfl⟩
  | true =>
    cases hprogram : e.program with
    | none => exact .inr ⟨.inr rfl, _, rfl⟩
    | some p => exact .inl ⟨p, rfl, rfl⟩

theorem openProbe_cases (e : Engine) (probe : Probe) (record : SearchRecord) :
    (∃ p, e.program = some p ∧ e.openProbe probe record =
      (.ok (record.next probe.mode),
        ({ { e with record := record.probed probe.mode }.saveRecord with
          program :=
            some (p.splice [.mk probe.inputs (.countdown (record.next probe.mode))]) } :
          Engine).withProbe (some probe))) ∨
    ((e.parts.program = false ∨ e.program = none) ∧
      ∃ f, e.openProbe probe record =
        (.error f, { e with record := record.probed probe.mode }.saveRecord)) := by
  unfold openProbe
  rcases expand_cases { e with record := record.probed probe.mode }.saveRecord
    [.mk probe.inputs (.countdown (record.next probe.mode))] with
    ⟨p, hp, hexpand⟩ | ⟨hreach, f, hexpand⟩
  · rw [hexpand]
    exact .inl ⟨p, hp, rfl⟩
  · rw [hexpand]
    exact .inr ⟨hreach, f, rfl⟩

/-- The ways in which the start of a search may turn out, as far as the store goes. -/
inductive Starts (e : Engine) (args : List Arg) (place : Option Place) :
    Except Fault Int × Engine → Prop
  | opened {probe : Probe} {candidate : Int} {e' : Engine}
      (hread : readProbe args place = .ok probe) (hopens : e.Opens args probe candidate e') :
      Starts e args place (.ok candidate, e')
  /-- At most the lower bound was seeded, and nothing was saved. -/
  | refused {f : Fault} (low : Option Int) :
      Starts e args place (.error f, { e with record := { e.record with low } })
  | stranded {f : Fault} {probe : Probe} {low high : SearchRecord}
      (hlow : seedLow e.record args = .ok low) (hhigh : seedHigh low args = .ok high)
      (hreach : e.parts.program = false ∨ e.program = none) :
      Starts e args place (.error f, { e with record := high.probed probe.mode }.saveRecord)

theorem starts_startSearch (e : Engine) (args : List Arg) (place : Option Place) :
    Starts e args place (e.startSearch args place) := by
  generalize hstart : e.startSearch args place = result
  have hcases := e.startSearch_cases args place
  rw [hstart] at hcases
  cases hcases with
  | missing | unread | noLow => exact .refused e.record.low
  | noHigh hlow =>
    obtain ⟨low, rfl⟩ := seedLow_ok hlow
    exact .refused (some low)
  | @opened probe low high _ hread hlow hhigh =>
    rcases e.openProbe_cases probe high with ⟨p, hp, hopen⟩ | ⟨hreach, f, hopen⟩
    · rw [hopen]
      exact .opened hread
        ⟨⟨low, high, hlow, hhigh, rfl, rfl⟩, rfl, rfl, rfl, p, hp, rfl⟩
    · rw [hopen]
      exact .stranded hlow hhigh hreach

theorem opens_of_startSearch {e e' : Engine} {args : List Arg} {place : Option Place}
    {candidate : Int} (h : e.startSearch args place = (.ok candidate, e')) :
    ∃ probe, readProbe args place = .ok probe ∧ e.Opens args probe candidate e' := by
  have hstarts := e.starts_startSearch args place
  rw [h] at hstarts
  cases hstarts with
  | opened hread hopens => exact ⟨_, hread, hopens⟩

/-! ## Outcomes -/

/-- The engine after an outcome that left the bounds in this record. -/
def concluded (e : Engine) (record : SearchRecord) (outcome : Outcome) : Engine :=
  let saved := { e.withProbe none with record }.saveRecord
  { saved with simulation := saved.simulation.endRun (saved.record.report outcome) }

/-- The ways in which a probe may be settled, or not. -/
inductive Settles (e : Engine) (p : Probe) :
    Except Fault (Option Outcome) → Except Fault (Option Report) × Engine → Prop
  | failed {f : Fault} :
    Settles e p (.error f) (.error f, e.withProbe (some (e.probe.getD p)))
  | goesOn : Settles e p (.ok none) (.ok none, e.withProbe (some (e.probe.getD p)))
  | jammed {outcome : Outcome} {f : Fault} (happly : e.record.apply p.mode outcome = .error f) :
    Settles e p (.ok (some outcome)) (.error f, e.withProbe (some (e.probe.getD p)))
  | settled {outcome : Outcome} {record : SearchRecord}
      (happly : e.record.apply p.mode outcome = .ok record) :
    Settles e p (.ok (some outcome))
      (.ok (some ((e.concluded record outcome).record.report outcome)),
        e.concluded record outcome)

theorem settles_settle (e : Engine) (p : Probe) (result : Except Fault (Option Outcome)) :
    Settles e p result (e.settle p result) := by
  unfold settle
  split
  · exact .failed
  · exact .goesOn
  · split
    · next happly => exact .jammed happly
    · next happly => exact .settled happly

theorem settled_of_settle {e e' : Engine} {p : Probe} {outcome : Outcome} {report : Report}
    (h : e.settle p (.ok (some outcome)) = (.ok (some report), e')) :
    ∃ record, e.record.apply p.mode outcome = .ok record ∧ e' = e.concluded record outcome ∧
      report = e'.record.report outcome := by
  have hsettles := e.settles_settle p (.ok (some outcome))
  generalize e.settle p (.ok (some outcome)) = result at h hsettles
  cases hsettles with
  | jammed => cases congrArg Prod.fst h
  | settled happly =>
    obtain ⟨hreport, rfl⟩ := Prod.mk.inj h
    exact ⟨_, happly, rfl, (Option.some.inj (Except.ok.inj hreport)).symm⟩

end Engine

/-! ## Deeds -/

/-- What is done to a search. -/
inductive Deed where
  | opened (args : List Arg) (probe : Probe) (candidate : Int)
  /-- A start failed before a candidate was written down. -/
  | refused
  /-- A candidate was written down, but its step could not be inserted. -/
  | stranded
  /-- Everything that was known was forgotten. -/
  | cleared
  | settled (probe : Probe) (outcome : Outcome) (report : Report)

namespace Engine

/-- What a deed makes of an engine. -/
inductive Does (e : Engine) : Deed → Engine → Prop
  | opened {e' : Engine} {args : List Arg} {place : Option Place} {probe : Probe}
      {candidate : Int} (hread : readProbe args place = .ok probe)
      (hstart : e.startSearch args place = (.ok candidate, e')) :
      Does e (.opened args probe candidate) e'
  | refused (low : Option Int) : Does e .refused { e with record := { e.record with low } }
  | stranded {e' : Engine} {args : List Arg} {place : Option Place} {f : Fault}
      (hstart : e.startSearch args place = (.error f, e'))
      (hreach : e.parts.program = false ∨ e.program = none) : Does e .stranded e'
  | cleared : Does e .cleared e.clearRecord
  | settled {e' : Engine} {p : Probe} {outcome : Outcome} {report : Report}
      (hsettle : e.settle p (.ok (some outcome)) = (.ok (some report), e')) :
      Does e (.settled p outcome report) e'

/-- The store of a search comes from one engine to another by deeds. -/
inductive Course (e₀ : Engine) : List Deed → Engine → Prop
  | start : Course e₀ [] e₀
  | kept {deeds : List Deed} {e e' : Engine} (h : Course e₀ deeds e) (hstore : SameStore e e') :
      Course e₀ deeds e'
  | done {deeds : List Deed} {d : Deed} {e e' : Engine} (h : Course e₀ deeds e)
      (hdone : Does e d e') : Course e₀ (deeds ++ [d]) e'

theorem Course.trans {e₀ e e' : Engine} {deeds more : List Deed} (h : Course e₀ deeds e)
    (g : Course e more e') : Course e₀ (deeds ++ more) e' := by
  induction g with
  | start => simpa using h
  | kept _ hstore ih => exact ih.kept hstore
  | done _ hdone ih =>
    rw [← List.append_assoc]
    exact ih.done hdone

/-- Nothing but the last deed, and what leaves the store as it is, comes after the others. -/
theorem Course.last {e₀ e' : Engine} {deeds : List Deed} {d : Deed}
    (h : Course e₀ (deeds ++ [d]) e') :
    ∃ e e₁, Course e₀ deeds e ∧ Does e d e₁ ∧ SameStore e₁ e' := by
  generalize hall : deeds ++ [d] = all at h
  induction h with
  | start => simp at hall
  | kept _ hstore ih =>
    obtain ⟨e, e₁, hcourse, hdone, hsame⟩ := ih hall
    exact ⟨e, e₁, hcourse, hdone, hsame.trans hstore⟩
  | done hcourse hdone =>
    obtain ⟨rfl, rfl⟩ := List.append_singleton_inj.mp hall
    exact ⟨_, _, hcourse, hdone, .refl _⟩

theorem Course.of_nil {e₀ e : Engine} (h : Course e₀ [] e) : SameStore e₀ e := by
  generalize hall : ([] : List Deed) = all at h
  induction h with
  | start => exact .refl e₀
  | kept _ hstore ih => exact (ih hall).trans hstore
  | done => simp at hall

/-! ## What searching keeps -/

/-- A property that speaks of the search only, and that starts and clearings keep. -/
structure SearchKept (P : Engine → Prop) : Prop where
  same : ∀ {a b}, P a → SameSearch a b → P b
  startSearch : ∀ {e}, P e → ∀ args place, P (e.startSearch args place).2
  clearRecord : ∀ {e}, P e → P e.clearRecord

namespace SearchKept

variable {P : Engine → Prop} {e : Engine}

theorem kept (h : SearchKept P) : Kept P (fun _ => True) where
  nowhere := trivial
  inside _ _ := trivial
  toggle he _ := h.same he ⟨⟨rfl, rfl, rfl⟩, rfl, rfl, rfl⟩
  setRandom he _ := h.same he ⟨⟨rfl, rfl, rfl⟩, rfl, rfl, rfl⟩
  look he := h.same he (look_search _)
  lookOverlay he := h.same he (lookOverlay_search _)
  expand he steps := h.same he (expand_search _ steps)
  loadScript he _ := h.same he ⟨⟨rfl, rfl, rfl⟩, rfl, rfl, rfl⟩
  startSearch he _ args := h.startSearch he args _
  clearRecord := h.clearRecord

theorem afterTurn (h : SearchKept P) (he : P e) (p : Program) (step : Step) :
    P (e.afterTurn p step) :=
  h.same (step.condition.evaluate_kept h.kept trivial he) (setAt_search _ _ _)

/-- Runs keep what the outcome check of a probe keeps, too. -/
theorem tickKept (h : SearchKept P) (hclassify : ∀ {e}, P e → P e.classify.2) : TickKept P where
  meet he _ := h.same he ⟨⟨rfl, rfl, rfl⟩, rfl, rfl, rfl⟩
  beginTick he := h.same he ⟨⟨rfl, rfl, rfl⟩, rfl, rfl, rfl⟩
  write he _ := h.same he ⟨⟨rfl, rfl, rfl⟩, rfl, rfl, rfl⟩
  withOverride he _ := h.same he ⟨⟨rfl, rfl, rfl⟩, rfl, rfl, rfl⟩
  classify := hclassify
  afterTurn he _ _ := h.afterTurn he _ _
  commit he _ := h.same he ⟨⟨rfl, rfl, rfl⟩, rfl, rfl, rfl⟩
  leave he _ _ := h.same (h.afterTurn he _ _) (leave_search _ _ _ _)

end SearchKept

end Engine

end TickScript
