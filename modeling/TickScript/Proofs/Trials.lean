import TickScript.Proofs.SearchBounds
import TickScript.Proofs.Waiting

/-!
# Trials of a search

A trial is an attempt that a program of one step, `optimize`, makes to settle one candidate.
Its three conditions hold at the end of the program only, and there they depend on how many
ticks were committed, which the player shows (`Condition.TellsAtEnd`).

What an engine is like in the middle of a trial is said by `Engine.Trying`. The tick on which
the trial begins leads there (`Engine.pace_optimize`), every tick that holds the input keeps
it so, and at the end of the program the candidate is settled (`Engine.classify_end`).
-/

namespace TickScript

/-! ## Conditions of a trial -/

/-- A condition that does not hold before the program is at its end, and there passes a test
of what is read of the player. It may change while it does not hold. -/
def Condition.TellsAtEnd (gauge : Player → Nat) (test : Nat → Bool) (c : Condition) : Prop :=
  ∃ K : Condition → Prop, K c ∧ ∀ c, K c → ∀ e : Engine, ∃ rest e', e.Looked e' ∧
    c.evaluate none e = ⟨.ok (.ofBool (e.isExhausted && test (gauge e.view))), rest, e'⟩ ∧
    ((e.isExhausted && test (gauge e.view)) = false → K rest)

theorem Condition.TellsAtEnd.evaluate {gauge : Player → Nat} {test : Nat → Bool} {c : Condition}
    (h : c.TellsAtEnd gauge test) (e : Engine) : ∃ rest e', e.Looked e' ∧
      c.evaluate none e = ⟨.ok (.ofBool (e.isExhausted && test (gauge e.view))), rest, e'⟩ ∧
      ((e.isExhausted && test (gauge e.view)) = false → rest.TellsAtEnd gauge test) := by
  obtain ⟨K, hc, hclosed⟩ := h
  obtain ⟨rest, e', hlooked, hturn, hrest⟩ := hclosed c hc e
  exact ⟨rest, e', hlooked, hturn, fun hfails => ⟨K, hrest hfails, hclosed⟩⟩

/-- Asks for the end of the program first, and then tests what is read of the player. -/
def Condition.atEnd (gauge : Player → Nat) (test : Nat → Bool) : Condition :=
  .native ⟨"atEnd", fun exhausted => if exhausted then .inr fun p => test (gauge p) else .inl false⟩
    ""

theorem Condition.atEnd_tells (gauge : Player → Nat) (test : Nat → Bool) :
    (Condition.atEnd gauge test).TellsAtEnd gauge test := by
  refine ⟨(· = .atEnd gauge test), rfl, ?_⟩
  rintro _ rfl e
  refine ⟨.atEnd gauge test, (if e.isExhausted then e.look.2 else e), ?_, ?_, fun _ => rfl⟩
  · split
    · exact .look e
    · exact .refl e
  · rw [Condition.evaluate, Condition.atEnd, Condition.evaluateWith, Engine.ask]
    cases e.isExhausted with
    | false => rfl
    | true =>
      rw [← e.look_fst]
      rfl

/-- The conditions of a probe: less than `a` ticks are too short and more than `b` too long. -/
structure Probe.Decides (gauge : Player → Nat) (a b : Nat) (p : Probe) : Prop where
  failLow : p.failLow.TellsAtEnd gauge fun ticks => ticks < a
  failHigh : p.failHigh.TellsAtEnd gauge fun ticks => b < ticks
  success : p.success.TellsAtEnd gauge fun _ => true

/-- The first step was passed, and these steps remain. -/
def Program.Onward (rest : List Step) (p : Program) : Prop := p.remaining = rest ∧ 0 < p.cursor

theorem Program.Onward.modify {rest : List Step} {p : Program} (h : p.Onward rest)
    (f : Step → Step) : ({ p with steps := p.steps.modify 0 f } : Program).Onward rest := by
  refine ⟨?_, h.2⟩
  rw [p.remaining_modify 0 f, if_pos h.2]
  exact h.1

namespace Engine

/-! ## Looking once more -/

theorem Looked.view {e e' : Engine} (h : Looked e e') : e'.view = e.view := by
  rw [← look_fst, ← look_fst, h.player]

theorem Looked.isExhausted {e e' : Engine} (h : Looked e e') :
    e'.isExhausted = e.isExhausted := by
  obtain ⟨seen, rfl⟩ := h.exists_seen
  rfl

section

variable {gauge : Player → Nat} {a b : Nat}

/-- Conditions that tell at the end leave a probe open until then. -/
theorem judge_decides {p : Probe} (h : p.Decides gauge a b) (e : Engine) : ∃ p' e',
    e.judge p =
      (.ok (if e.isExhausted then some (.ofTicks a b (gauge e.view)) else none), p', e') ∧
    e.Looked e' ∧ p'.mode = p.mode ∧ p'.origin = p.origin ∧
    (e.isExhausted = false → p'.Decides gauge a b) := by
  obtain ⟨low, e₁, hlooked₁, hlow, hlow'⟩ := h.failLow.evaluate e
  obtain ⟨high, e₂, hlooked₂, hhigh, hhigh'⟩ := h.failHigh.evaluate e₁
  obtain ⟨within, e₃, hlooked₃, hwithin, hwithin'⟩ := h.success.evaluate e₂
  rw [hlooked₁.isExhausted, hlooked₁.view] at hhigh hhigh'
  rw [(hlooked₁.trans hlooked₂).isExhausted] at hwithin hwithin'
  unfold judge Outcome.ofTicks
  rw [hlow]
  dsimp only
  rw [hhigh]
  dsimp only
  rw [hwithin]
  dsimp only
  simp only [Verdict.holds_ofBool]
  cases hend : e.isExhausted with
  | false =>
    rw [hend] at hlow' hhigh' hwithin'
    exact ⟨_, e₃, rfl, (hlooked₁.trans hlooked₂).trans hlooked₃, rfl, rfl,
      fun _ => ⟨hlow' rfl, hhigh' rfl, hwithin' rfl⟩⟩
  | true =>
    by_cases hshort : gauge e.view < a
    · simp only [hshort, decide_true, Bool.and_self, if_true]
      exact ⟨_, e₁, rfl, hlooked₁, rfl, rfl, nofun⟩
    · by_cases hlong : b < gauge e.view
      · simp only [hshort, hlong, decide_true, decide_false, Bool.and_self, Bool.and_false, if_true]
        exact ⟨_, e₂, rfl, hlooked₁.trans hlooked₂, rfl, rfl, nofun⟩
      · simp only [hshort, hlong, decide_false, Bool.and_self, Bool.and_false, if_true]
        exact ⟨_, e₃, rfl, (hlooked₁.trans hlooked₂).trans hlooked₃, rfl, rfl, nofun⟩

end

/-! ## In the middle of a trial -/

/-- What does not change during a trial. -/
structure Terms where
  gauge : Player → Nat
  /-- The shortest and the longest duration that succeeds. -/
  shortest : Nat
  longest : Nat
  mode : Mode
  record : SearchRecord
  reports : List Report

/-- The candidate is being probed: these steps remain, and so many ticks were committed. -/
structure Trying (q : Terms) (rest : List Step) (ticks : Nat) (e : Engine) : Prop where
  override : e.override.isActive = false
  program : ∃ p, e.program = some p ∧ p.Onward rest
  probe : ∃ p, e.probe = some p ∧ p.mode = q.mode ∧ p.origin = some ⟨.step 0, []⟩ ∧
    p.Decides q.gauge q.shortest q.longest
  commits : e.commits = ticks
  record : e.record = q.record
  reports : e.simulation.reports = q.reports

theorem isExhausted_of_onward {e : Engine} {p : Program} {rest : List Step}
    (hp : e.program = some p) (h : p.Onward rest) : e.isExhausted = rest.isEmpty := by
  have hprogram : e.isExhausted = p.isExhausted := by
    rw [isExhausted, hp]
    rfl
  rw [hprogram, ← h.1, Bool.eq_iff_iff, ← p.current?_eq_none_iff, p.current?_eq_head?,
    List.head?_eq_none_iff, List.isEmpty_iff]

/-- A condition of the first step is out of the way. -/
theorem setAt_onward {e : Engine} {p : Program} {rest : List Step} (hp : e.program = some p)
    (h : p.Onward rest) (path : List Nat) (c : Condition) :
    ∃ p', e.setAt ⟨.step 0, path⟩ c = { e with program := some p' } ∧ p'.Onward rest := by
  refine ⟨_, ?_, h.modify fun s => s.withCondition (Condition.setAt c path s.condition)⟩
  unfold setAt
  dsimp only
  rw [hp]
  rfl

theorem keepInPlace_onward {e : Engine} {p : Program} {rest : List Step}
    (hp : e.program = some p) (h : p.Onward rest) {probe : Probe}
    (horigin : probe.origin = some ⟨.step 0, []⟩) :
    ∃ p', e.keepInPlace probe = { e with program := some p' } ∧ p'.Onward rest := by
  obtain ⟨p₁, he₁, h₁⟩ := setAt_onward hp h [2] probe.failLow
  obtain ⟨p₂, he₂, h₂⟩ :=
    setAt_onward (e := { e with program := some p₁ }) rfl h₁ [3] probe.failHigh
  obtain ⟨p₃, he₃, h₃⟩ :=
    setAt_onward (e := { e with program := some p₂ }) rfl h₂ [4] probe.success
  refine ⟨p₃, ?_, h₃⟩
  have hsets : e.keepInPlace probe =
      ((e.setAt ⟨.step 0, [2]⟩ probe.failLow).setAt ⟨.step 0, [3]⟩ probe.failHigh).setAt
        ⟨.step 0, [4]⟩ probe.success := by
    unfold keepInPlace
    rw [horigin]
    rfl
  rw [hsets, he₁, he₂, he₃]

variable {q : Terms} {rest : List Step} {ticks : Nat} {e : Engine}

theorem Trying.meet (h : Trying q rest ticks e) {m : Moment} (hm : m.Quiet) :
    Trying q rest ticks (e.meet m).beginTick := by
  refine ⟨?_, h.program, h.probe, h.commits, h.record, h.reports⟩
  rw [show (e.meet m).beginTick.override = e.override from meet_override hm.overrides e]
  exact h.override

/-- The outcome check sees whether the program is at its end, and then the number of ticks. -/
theorem classify_trying (h : Trying q rest ticks e) : ∃ probe seen p,
    e.classify = { e with probe := none, seen := seen, program := some p }.settle probe
      (.ok (if rest.isEmpty then some (.ofTicks q.shortest q.longest (q.gauge e.view)) else none)) ∧
    p.Onward rest ∧ probe.mode = q.mode ∧ probe.origin = some ⟨.step 0, []⟩ ∧
    (rest.isEmpty = false → probe.Decides q.gauge q.shortest q.longest) := by
  obtain ⟨p, hp, honward⟩ := h.program
  obtain ⟨probe, hprobe, hmode, horigin, hdecides⟩ := h.probe
  obtain ⟨probe', e', hjudge, hlooked, hmode', horigin', hdecides'⟩ :=
    judge_decides hdecides (e.withProbe none)
  have hend : (e.withProbe none).isExhausted = rest.isEmpty :=
    isExhausted_of_onward (e := e.withProbe none) hp honward
  rw [hend] at hjudge hdecides'
  obtain ⟨seen, rfl⟩ := hlooked.exists_seen
  obtain ⟨p', hkept, honward'⟩ :=
    keepInPlace_onward (e := { e.withProbe none with seen := seen }) hp honward
      (horigin'.trans horigin)
  refine ⟨probe', seen, p', ?_, honward', hmode'.trans hmode, horigin'.trans horigin, hdecides'⟩
  rw [classify_of_probe hprobe, hjudge]
  dsimp only
  rw [hkept]
  rfl

/-- While steps remain, the outcome check lets the program go on. -/
theorem classify_goesOn (h : Trying q rest ticks e) (hrest : rest ≠ []) :
    ∃ e', e.classify = (.ok none, e') ∧ Trying q rest ticks e' := by
  have hmore : rest.isEmpty = false := List.isEmpty_eq_false_iff.mpr hrest
  obtain ⟨probe, seen, p, hclassify, honward, hmode, horigin, hdecides⟩ := classify_trying h
  rw [hmore] at hclassify
  exact ⟨_, hclassify, h.override, ⟨p, rfl, honward⟩,
    ⟨probe, rfl, hmode, horigin, hdecides hmore⟩, h.commits, h.record, h.reports⟩

/-- The candidate was settled: its outcome is in the record, in the report and in the file. -/
structure Settled (q : Terms) (record : SearchRecord) (outcome : Outcome) (e : Engine) :
    Prop where
  record : ∃ stamp, e.record = { record with lastSaved := stamp }
  reports : e.simulation.reports = q.reports ++ [e.record.report outcome]
  saved : e.files.read? e.recordPath = some e.record.write

/-- At the end of the program the outcome check settles the candidate. -/
theorem classify_end (h : Trying q [] ticks e) (hview : q.gauge e.view = ticks)
    {record : SearchRecord}
    (hrecord : q.record.apply q.mode (.ofTicks q.shortest q.longest ticks) = .ok record) :
    ∃ report e', e.classify = (.ok (some report), e') ∧
      Settled q record (.ofTicks q.shortest q.longest ticks) e' := by
  obtain ⟨probe, seen, p, hclassify, _, hmode, _⟩ := classify_trying h
  rw [hview] at hclassify
  have happly : e.record.apply probe.mode (.ofTicks q.shortest q.longest ticks) = .ok record := by
    rw [h.record, hmode]
    exact hrecord
  simp only [List.isEmpty_nil, if_true, settle, happly] at hclassify
  exact ⟨_, _, hclassify, ⟨e.now, rfl⟩, congrArg (· ++ _) h.reports, Files.read?_write _ _ _⟩

/-! ## The walk of a trial -/

variable {i : Inputs} {n : Nat}

/-- A countdown that is not over holds its input. -/
theorem pace_held (h : Trying q (.mk i (.countdown (n + 1 : Nat)) :: rest) ticks e) :
    ∃ e', e.pace = .inl (.ok ⟨.committed, i⟩, e') ∧
      Trying q (.mk i (.countdown n) :: rest) (ticks + 1) e' := by
  obtain ⟨p, hp, honward⟩ := h.program
  have hne : ((n + 1 : Nat) : Int) ≠ 0 := by omega
  have hcount : ((n + 1 : Nat) : Int) - 1 = n := by omega
  obtain ⟨p', hremaining, hcursor, hpace⟩ := pace_countdown_of_ne hne hp honward.1
  rw [hcount] at hremaining
  exact ⟨_, hpace, h.override, ⟨p', rfl, hremaining, Nat.lt_of_lt_of_eq honward.2 hcursor.symm⟩,
    h.probe, congrArg (· + 1) h.commits, h.record, h.reports⟩

/-- A countdown that is over is left. -/
theorem pace_released (h : Trying q (.mk i (.countdown 0) :: rest) ticks e) :
    ∃ e', e.pace = .inr e' ∧ Trying q rest ticks e' := by
  obtain ⟨p, hp, honward⟩ := h.program
  obtain ⟨p', log, hremaining, hcursor, hpace⟩ := pace_countdown_zero hp honward.1
  exact ⟨_, hpace, h.override, ⟨p', rfl, hremaining, hcursor⟩, h.probe, h.commits, h.record,
    h.reports⟩

/-- At the end of the program nothing is held. -/
theorem pace_exhausted (h : Trying q [] ticks e) :
    e.pace = .inl (.ok ⟨.exhausted, .none⟩, e.write .none) ∧ Trying q [] ticks (e.write .none) := by
  obtain ⟨p, hp, honward⟩ := h.program
  exact ⟨pace_nil hp honward.1, h.override, ⟨p, hp, honward⟩, h.probe, h.commits, h.record,
    h.reports⟩

/-! ## The beginning of a trial -/

/-- Nothing happened to the engine yet. -/
structure IsFresh (e : Engine) : Prop where
  program : e.parts.program = true
  search : e.parts.search = true
  override : e.override.isActive = false
  probe : e.probe = none
  commits : e.commits = 0

theorem IsFresh.load (h : e.IsFresh) (steps : List Step) : (e.load (some steps)).IsFresh :=
  ⟨h.program, h.search, h.override, congrArg (Option.map _) h.probe, h.commits⟩

theorem IsFresh.meet (h : e.IsFresh) {m : Moment} (hm : m.Quiet) :
    (e.meet m).beginTick.IsFresh := by
  refine ⟨h.program, h.search, ?_, h.probe, h.commits⟩
  rw [show (e.meet m).beginTick.override = e.override from meet_override hm.overrides e]
  exact h.override

section

variable {args : List Arg} {probe : Probe}

/-- Without bounds among the arguments, a record whose lower bound is not known begins at 0. -/
theorem seed_of_five (hlength : args.length = 5) (r : SearchRecord) :
    seedLow r args = .ok r.seeded ∧ seedHigh r.seeded args = .ok r.seeded := by
  have hfive : args[5]? = none := List.getElem?_eq_none (by omega)
  have hsix : args[6]? = none := List.getElem?_eq_none (by omega)
  obtain ⟨low, high, middle, history, lastSaved⟩ := r
  refine ⟨?_, ?_⟩
  · cases low with
    | none =>
      unfold seedLow boundAt?
      rw [hfive]
      rfl
    | some low => rfl
  · cases high with
    | none =>
      unfold seedHigh boundAt?
      rw [hsix]
      rfl
    | some high => rfl

theorem startSearch_of_five (hgiven : missingSearchArgument? args = none)
    (hlength : args.length = 5) (hread : readProbe args none = .ok probe) (e : Engine)
    (place : Option Place) :
    e.startSearch args place = e.openProbe { probe with origin := place } e.record.seeded := by
  have hplaced : readProbe args place = .ok { probe with origin := place } := by
    rw [readProbe_eq, hread]
    rfl
  obtain ⟨hlow, hhigh⟩ := seed_of_five hlength e.record
  unfold startSearch
  rw [hgiven]
  dsimp only
  rw [hplaced]
  dsimp only
  rw [hlow]
  dsimp only
  rw [hhigh]
  rfl

theorem openProbe_of_program {p : Program} (hparts : e.parts.program = true)
    (hp : e.program = some p) (r : SearchRecord) :
    e.openProbe probe r =
      (.ok (r.next probe.mode),
        ({ e with
            record := r.probed probe.mode
            program := some (p.splice [.mk probe.inputs (.countdown (r.next probe.mode))])
          }.saveRecord).withProbe (some probe)) := by
  let saved : Engine := { e with record := r.probed probe.mode }.saveRecord
  have hexpand := expand_of_program (e := saved) hparts hp
    [.mk probe.inputs (.countdown (r.next probe.mode))]
  unfold openProbe
  rw [hexpand]
  rfl

/-- The program of a trial inserts the step that holds the input. -/
theorem pace_optimize (hgiven : missingSearchArgument? args = none) (hlength : args.length = 5)
    (hread : readProbe args none = .ok probe) {gauge : Player → Nat} {a b : Nat}
    (hdecides : probe.Decides gauge a b) (h : e.IsFresh) (hn : e.record.next probe.mode = n)
    (hprogram : e.program = some (.ofSteps [.mk i (.call (Builtin.expand .optimize).name args)])) :
    ∃ e', e.pace = .inr e' ∧
      Trying ⟨gauge, a, b, probe.mode,
          { e.record.seeded.probed probe.mode with lastSaved := e.now }, e.simulation.reports⟩
        [.mk probe.inputs (.countdown n)] 0 e' := by
  let step : Step := .mk i (.call (Builtin.expand .optimize).name args)
  let hold : Step := .mk probe.inputs (.countdown n)
  let opened : Engine :=
    ({ e with
        record := e.record.seeded.probed probe.mode
        program := some ((Program.ofSteps [step]).splice [hold])
      }.saveRecord).withProbe (some { probe with origin := some ⟨.step 0, []⟩ })
  have hstart : e.startSearch args (some ⟨.step 0, []⟩) = (.ok n, opened) := by
    rw [startSearch_of_five hgiven hlength hread, openProbe_of_program h.program hprogram,
      e.record.next_seeded, hn]
  have hturn : e.turnAt (.ofSteps [step]) step =
      ⟨.ok .expanded, .call (Builtin.expand .optimize).name args, opened⟩ := by
    have hperform : e.perform .optimize (Builtin.expand .optimize).name args (some ⟨.step 0, []⟩) =
        ⟨.ok .expanded, args, opened⟩ := by
      change e.performSearch args (some ⟨.step 0, []⟩) = _
      unfold performSearch
      rw [if_pos h.search, hstart]
      rfl
    change (Condition.call (Builtin.expand .optimize).name args).evaluateWith
      Condition.evaluateRead (some ⟨.step 0, []⟩) e = _
    rw [Condition.evaluateWith_perform (Builtin.ofName?_name (.expand .optimize)) rfl, hperform]
  have hremaining : ((Program.ofSteps [step]).splice [hold]).remaining = [step, hold] :=
    (Program.ofSteps [step]).remaining_splice rfl [hold]
  obtain ⟨p, hafter, hp, _⟩ := setAt_current (e := opened) rfl hremaining
    (.call (Builtin.expand .optimize).name args)
  have hat : e.afterTurn (.ofSteps [step]) step = { opened with program := some p } := by
    rw [afterTurn, hturn]
    exact hafter
  have hpaces := Paces.left (v := .expanded) hprogram rfl (congrArg Turn.outcome hturn) rfl
  refine ⟨_, hpaces.eq, ?_⟩
  rw [leave, hat]
  refine ⟨h.override, ⟨p.advance, rfl, ?_, Nat.succ_pos _⟩,
    ⟨_, rfl, rfl, rfl, hdecides.failLow, hdecides.failHigh, hdecides.success⟩, h.commits, rfl, rfl⟩
  rw [p.remaining_advance, hp]
  rfl

end

end Engine

end TickScript
