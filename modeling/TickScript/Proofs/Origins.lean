import TickScript.Proofs.SearchCourse
import TickScript.Proofs.Waits

/-!
# Where an open probe was opened

The conditions of an open probe are the arguments of the call that opened it, and their state is
kept there. When a probe is opened, the step with the call is left: whatever stands around the call
passes with it (`Condition.evaluate_opens`). So an open probe was not opened by the step at the
cursor (`Engine.OpenedBehind`), and keeping the state of its conditions changes none of the steps
that remain.
-/

namespace TickScript

/-- A place is at a step before the index, or a watched condition. -/
def Root.Before (n : Nat) : Root → Prop
  | .step index => index < n
  | .watch _ => True

/-- How conditions that were read on the spot are evaluated keeps what each operation of a condition
keeps. -/
def Late.Keeps (late : Late) : Prop :=
  ∀ {P : Engine → Prop} {L : Option Place → Prop}, Kept P L →
    Agreement.Covers (fun a b => a = b ∧ P a) (fun p q => p = q ∧ L p) late

namespace Engine

/-- Conditions may insert steps, and there is a program for them. -/
def Ready (e : Engine) : Prop := e.parts.program = true ∧ e.program.isSome = true

/-- An open probe belongs to no step from the index on. -/
def OpenedBefore (n : Nat) (e : Engine) : Prop :=
  ∀ probe place, e.probe = some probe → probe.origin = some place → place.root.Before n

theorem kept_openedBefore (n : Nat) :
    Kept (OpenedBefore n) fun place => ∀ x, place = some x → x.root.Before n where
  nowhere := nofun
  inside := by
    rintro (_ | p) hp i x hx
    · cases hx
    · cases hx
      exact hp p rfl
  toggle he _ := he
  setRandom he _ := he
  look he := by
    rw [look_snd]
    exact he
  lookOverlay {e} he := by
    obtain ⟨_, _, _, hlook⟩ := e.lookOverlay_snd
    rw [hlook]
    exact he
  expand {e} he steps := by
    intro probe place hprobe
    rw [(expand_search e steps).probe] at hprobe
    exact he probe place hprobe
  loadScript he _ := he
  startSearch {e place} he hplace args := by
    refine startSearch_leads (P := OpenedBefore n) (Q := OpenedBefore n) id ?_ ?_ ?_ ?_ he
    · exact fun he _ => he
    · exact fun he => he
    · intro e he i k probe x hprobe
      rw [(expand_search e _).probe] at hprobe
      exact he probe x hprobe
    · rintro e he probe hread _ x ⟨⟩ hx
      rw [readProbe_origin hread] at hx
      exact hplace x hx
  clearRecord he := he

theorem Ready.of_untouched {e e' : Engine} (h : e.Ready) (huntouched : Untouched e e') :
    e'.Ready := by
  obtain ⟨p, hp⟩ := Option.isSome_iff_exists.mp h.2
  have hgrown := huntouched.program
  rw [hp] at hgrown
  refine ⟨by rw [huntouched.parts, h.1], ?_⟩
  generalize e'.program = program at hgrown
  cases hgrown
  rfl

theorem Ready.expand {e : Engine} (h : e.Ready) (steps : List Step) :
    (e.expand steps).1 = .ok () := by
  rcases e.expand_cases steps with ⟨p, -, heq⟩ | ⟨hnot | hnot, -⟩
  · rw [heq]
  · rw [h.1] at hnot
    cases hnot
  · rw [Ready, hnot] at h
    cases h.2

/-- A guarded expander inserts some steps in the end, or none. -/
theorem finish_cases (m : Expander) (name : String) (args : List Arg)
    (bodies : List Step × List Step) (holds : Bool) (e : Engine) :
    m.finish name args bodies holds e = (.ok (), e) ∨
      ∃ steps, m.finish name args bodies holds e = e.expand steps := by
  unfold Expander.finish
  generalize (if holds = true then bodies.1 else bodies.2) = body
  dsimp only
  split
  · exact Or.inr ⟨_, rfl⟩
  · split
    · exact Or.inl rfl
    · exact Or.inr ⟨_, rfl⟩

/-- With a program within reach, what a guard asks for can be inserted. -/
theorem Ready.finish {e : Engine} (h : e.Ready) (m : Expander) (name : String) (args : List Arg)
    (bodies : List Step × List Step) (holds : Bool) :
    (m.finish name args bodies holds e).1 = .ok () := by
  rcases finish_cases m name args bodies holds e with heq | ⟨steps, heq⟩
  · rw [heq]
  · rw [heq]
    exact h.expand steps

/-- A start that fails opens no probe. -/
theorem OpenedBefore.startSearch_error {n : Nat} {e : Engine} (h : e.OpenedBefore n)
    {args : List Arg} {place : Option Place} {f : Fault}
    (hfails : (e.startSearch args place).1 = .error f) :
    (e.startSearch args place).2.OpenedBefore n := by
  have hstarts := e.starts_startSearch args place
  generalize e.startSearch args place = result at hfails hstarts ⊢
  cases hstarts with
  | opened => cases hfails
  | refused | stranded => exact h

end Engine

/-! ## Evaluation -/

/-- Either it passes, or no probe was opened at a place from the index on. -/
def Turn.Opens {σ : Type} (n : Nat) (t : Turn σ) : Prop := t.Passes ∨ t.engine.OpenedBefore n

theorem Turn.Opens.of_error {σ : Type} {n : Nat} {t : Turn σ} {f : Fault} (h : t.Opens n)
    (houtcome : t.outcome = .error f) : t.engine.OpenedBefore n :=
  h.resolve_left (t.not_passes_of_error houtcome)

theorem Turn.Opens.of_waiting {σ : Type} {n : Nat} {t : Turn σ} {v : Verdict} (h : t.Opens n)
    (houtcome : t.outcome = .ok v) (hv : ¬v.holds = true) : t.engine.OpenedBefore n :=
  h.resolve_left (t.not_passes_of_waiting houtcome hv)

section

variable {late : Late} {n : Nat} {e : Engine} {P : Engine → Prop} {L : Option Place → Prop}

theorem Condition.evaluateWith_kept (hkeeps : late.Keeps) (h : Kept P L) (c : Condition)
    {place : Option Place} (hplace : L place) (he : P e) :
    P (c.evaluateWith late place e).engine :=
  (c.evaluateWith_alike h.agreement (hkeeps h) ⟨rfl, hplace⟩ ⟨rfl, he⟩).engine.2

theorem Arg.evaluateWith_ready (hkeeps : late.Keeps) (a : Arg) (place : Option Place)
    (he : e.Ready) : (a.evaluateWith late place e).engine.Ready :=
  he.of_untouched (a.evaluateWith_alike (Engine.kept_untouched e).agreement
    (hkeeps (Engine.kept_untouched e)) ⟨rfl, trivial⟩ ⟨rfl, .refl e⟩).engine.2

/-- A condition whose place is of no account opens no probe in its own name. -/
theorem Condition.opens_of_nowhere (hkeeps : late.Keeps) {c : Condition} {place : Option Place}
    (hplace : c.evaluateWith late place e = c.evaluateWith late none e) (he : e.OpenedBefore n) :
    (c.evaluateWith late place e).Opens n := by
  rw [hplace]
  exact Or.inr (c.evaluateWith_kept hkeeps (Engine.kept_openedBefore n) nofun he)

/-- An expander with a guard passes if its guard does. -/
theorem Turn.Opens.conclude {t : Turn Arg} (h : t.Opens n) (hready : t.engine.Ready)
    (m : Expander) (name : String) (args : List Arg) (bodies : List Step × List Step) :
    (m.conclude name args bodies t).Opens n := by
  unfold Expander.conclude
  cases houtcome : t.outcome with
  | error f => exact Or.inr (h.of_error houtcome)
  | ok v =>
    dsimp only
    rw [hready.finish]
    exact Or.inl ⟨.expanded, rfl, rfl⟩

theorem Engine.OpenedBefore.performSearch (h : e.OpenedBefore n) (args : List Arg)
    (place : Option Place) : (e.performSearch args place).Opens n := by
  unfold Engine.performSearch
  split
  · dsimp only
    cases hstart : (e.startSearch args place).1 with
    | error f => exact Or.inr (h.startSearch_error hstart)
    | ok candidate => exact Or.inl ⟨.expanded, rfl, rfl⟩
  · exact Or.inr h

mutual

theorem Condition.evaluateWith_opens (hkeeps : late.Keeps)
    (hlate : ∀ place c {e : Engine}, e.Ready → e.OpenedBefore n → (late place c e).Opens n) :
    ∀ (c : Condition) (place : Option Place) {e : Engine}, e.Ready → e.OpenedBefore n →
      (c.evaluateWith late place e).Opens n
  | .countdown _, _, _, _, he | .toggle _, _, _, _, he | .native _ _, _, _, _, he => by
    refine Condition.opens_of_nowhere hkeeps ?_ he
    rw [Condition.evaluateWith, Condition.evaluateWith]
  | .call name args, place, e, hready, he => by
    cases hname : Builtin.ofName? name with
    | none =>
      refine Condition.opens_of_nowhere hkeeps ?_ he
      rw [Condition.evaluateWith, Condition.evaluateWith, hname]
    | some builtin =>
      cases builtin with
      | check | compare =>
        refine Condition.opens_of_nowhere hkeeps ?_ he
        rw [Condition.evaluateWith, Condition.evaluateWith, hname]
      | expand m =>
        rcases m.kinds with rfl | rfl | hm | hm
        · refine Condition.opens_of_nowhere hkeeps ?_ he
          rw [Condition.evaluateWith, Condition.evaluateWith, hname]
        · rw [Condition.evaluateWith, hname]
          exact evaluateAnyOf_opens hkeeps hlate args place 0 hready he
        · cases args with
          | nil =>
            rw [Condition.evaluateWith, hname]
            cases m with
            | branch | onlyIf | onlyUnless | loop => exact Or.inr he
            | _ => cases hm
          | cons guard others =>
            have hguard := Arg.evaluateWith_opens hkeeps hlate guard (place.map (·.arg 0)) hready he
            rw [Condition.evaluateWith_guarded hname hm]
            split
            · exact Or.inr he
            · split
              · exact Or.inr he
              · exact hguard.conclude (guard.evaluateWith_ready hkeeps _ hready) m name _ _
        · by_cases hoptimize : m = .optimize
          · subst hoptimize
            rw [Condition.evaluateWith_perform hname hm]
            exact he.performSearch args place
          · refine Condition.opens_of_nowhere hkeeps ?_ he
            rw [Condition.evaluateWith_perform hname hm, Condition.evaluateWith_perform hname hm]
            cases m with
            | optimize => exact absurd rfl hoptimize
            | _ => rfl

theorem Arg.evaluateWith_opens (hkeeps : late.Keeps)
    (hlate : ∀ place c {e : Engine}, e.Ready → e.OpenedBefore n → (late place c e).Opens n) :
    ∀ (a : Arg) (place : Option Place) {e : Engine}, e.Ready → e.OpenedBefore n →
      (a.evaluateWith late place e).Opens n
  | .condition c, place, e, hready, he => by
    rw [Arg.evaluateWith]
    exact Condition.evaluateWith_opens hkeeps hlate c place hready he
  | .raw v, place, e, hready, he => by
    rw [Arg.evaluateWith]
    split
    · exact Or.inr he
    · next c _ => exact hlate place c hready he
  | .steps _, _, _, _, he | .inputs _, _, _, _, he | .choices _, _, _, _, he
  | .script _, _, _, _, he => by
    simp only [Arg.evaluateWith]
    exact Or.inr he

theorem evaluateAnyOf_opens (hkeeps : late.Keeps)
    (hlate : ∀ place c {e : Engine}, e.Ready → e.OpenedBefore n → (late place c e).Opens n) :
    ∀ (args : List Arg) (place : Option Place) (index : Nat) {e : Engine}, e.Ready →
      e.OpenedBefore n → (evaluateAnyOf late place index args e).Opens n
  | [], _, _, _, _, he => by
    rw [evaluateAnyOf]
    exact Or.inr he
  | a :: rest, place, index, e, hready, he => by
    have hhead := Arg.evaluateWith_opens hkeeps hlate a (place.map (·.arg index)) hready he
    have hready' := a.evaluateWith_ready hkeeps (place.map (·.arg index)) hready
    rw [evaluateAnyOf]
    dsimp only
    cases houtcome : (a.evaluateWith late (place.map (·.arg index)) e).outcome with
    | error f => exact Or.inr (hhead.of_error houtcome)
    | ok v =>
      dsimp only
      split
      · exact Or.inl ⟨.satisfied, rfl, rfl⟩
      · next hwaits =>
        have hhead' := hhead.of_waiting houtcome hwaits
        exact evaluateAnyOf_opens hkeeps hlate rest place (index + 1) hready' hhead'

end

/-- A condition that opens a probe at its place passes. -/
theorem Condition.evaluate_opens (c : Condition) (place : Option Place) (hready : e.Ready)
    (he : e.OpenedBefore n) : (c.evaluate place e).Opens n := by
  refine c.evaluateWith_opens (fun h => h.agreement.covers_evaluateRead) ?_ place hready he
  intro place c e hready he
  refine c.evaluateWith_opens ?_ (fun _ _ _ _ he => Or.inr he) place hready he
  intro P L _ a b p q hab _ c
  obtain ⟨rfl, ha⟩ := hab
  exact ⟨rfl, rfl, rfl, ha⟩

end

namespace Engine

/-! ## Runs -/

/-- An open probe belongs to no step that remains. -/
def OpenedBehind (e : Engine) : Prop := ∀ p, e.program = some p → e.OpenedBefore p.cursor

variable {e : Engine}

theorem OpenedBefore.classify {n : Nat} (h : e.OpenedBefore n) : e.classify.2.OpenedBefore n := by
  cases hprobe : e.probe with
  | none =>
    rw [classify_of_none hprobe]
    exact h
  | some q =>
    have haside : (e.withProbe none).OpenedBefore n := nofun
    have hjudged := (kept_openedBefore n).judge haside q
    have horigin := (e.withProbe none).judge_origin q
    rw [classify_of_probe hprobe]
    rcases hjudge : (e.withProbe none).judge q with ⟨outcome, q', e'⟩
    rw [hjudge] at hjudged horigin
    have hkept : (e'.keepInPlace q').OpenedBefore n := by
      intro probe place hprobe'
      rw [(keepInPlace_search e' q').probe] at hprobe'
      exact hjudged probe place hprobe'
    dsimp only at horigin ⊢
    generalize e'.keepInPlace q' = kept at hkept
    have hopen : (kept.withProbe (some (kept.probe.getD q'))).OpenedBefore n := by
      rintro _ place ⟨⟩ hplace
      cases hkept' : kept.probe with
      | none =>
        rw [hkept', Option.getD_none, horigin] at hplace
        exact h q place hprobe hplace
      | some r =>
        rw [hkept', Option.getD_some] at hplace
        exact hkept r place hkept' hplace
    have hsettles := kept.settles_settle q' outcome
    generalize kept.settle q' outcome = result at hsettles
    cases hsettles with
    | failed | goesOn | jammed => exact hopen
    | settled => exact nofun

theorem Untouched.cursor {e' : Engine} (h : Untouched e e') {p q : Program}
    (hp : e.program = some p) (hq : e'.program = some q) : q.cursor = p.cursor := by
  have hgrown := h.program
  rw [hp, hq] at hgrown
  cases hgrown with
  | some hpq => exact hpq.1

theorem OpenedBefore.mono {m n : Nat} (h : e.OpenedBefore m) (hle : m ≤ n) : e.OpenedBefore n := by
  intro probe place hprobe hplace
  have hbefore := h probe place hprobe hplace
  obtain ⟨⟨index⟩ | ⟨name⟩, path⟩ := place
  · exact Nat.lt_of_lt_of_le hbefore hle
  · trivial

theorem OpenedBehind.of_untouched {e' : Engine} {p : Program} (hp : e.program = some p)
    (huntouched : Untouched e e') (h : e'.OpenedBefore p.cursor) : e'.OpenedBehind := by
  intro q hq
  rw [huntouched.cursor hp hq]
  exact h

namespace OpenedBehind

theorem classify (h : e.OpenedBehind) (hready : e.Ready) : e.classify.2.OpenedBehind := by
  obtain ⟨p, hp⟩ := Option.isSome_iff_exists.mp hready.2
  exact of_untouched hp e.classify_untouched (h p hp).classify

/-- A step that is not left has opened no probe. -/
theorem stop (h : e.OpenedBehind) (hready : e.Ready) {r : Except Fault TickOutcome × Engine}
    (hpace : e.pace = .inl r) : r.2.OpenedBehind := by
  have hpaces := e.paces_pace
  rw [hpace] at hpaces
  have hafter : ∀ p step, e.program = some p → (e.turnAt p step).engine.OpenedBefore p.cursor →
      (e.afterTurn p step).OpenedBehind := by
    intro p step hp hturn
    refine of_untouched hp (e.afterTurn_untouched p step) fun probe place hprobe => ?_
    rw [afterTurn, (setAt_search _ _ _).probe] at hprobe
    exact hturn probe place hprobe
  cases hpaces with
  | idle | ended => exact h
  | @failed p step f hp hcurrent hturn =>
    have hopens := step.condition.evaluate_opens (some ⟨.step p.cursor, []⟩) hready (h p hp)
    exact hafter p step hp (hopens.of_error hturn)
  | @held p step hp hcurrent hturn =>
    have hopens := step.condition.evaluate_opens (some ⟨.step p.cursor, []⟩) hready (h p hp)
    exact hafter p step hp (hopens.of_waiting hturn nofun)

/-- When a step is left, a probe that it opened is behind. -/
theorem go (h : e.OpenedBehind) {e' : Engine} (hpace : e.pace = .inr e') : e'.OpenedBehind := by
  have hpaces := e.paces_pace
  rw [hpace] at hpaces
  cases hpaces with
  | @left p step v hp =>
    have hturn : (e.turnAt p step).engine.OpenedBefore (p.cursor + 1) := by
      refine step.condition.evaluate_kept (kept_openedBefore _) ?_ ((h p hp).mono (Nat.le_succ _))
      rintro _ ⟨⟩
      exact Nat.lt_succ_self _
    intro q' hq' probe place hprobe
    obtain ⟨q, hq, rfl⟩ := Option.map_eq_some_iff.mp hq'
    have hcursor : q.cursor = p.cursor := (e.afterTurn_untouched p step).cursor hp hq
    change (e.afterTurn p step).probe = some probe at hprobe
    rw [afterTurn, (setAt_search _ _ _).probe] at hprobe
    rw [show q.advance.cursor = p.cursor + 1 from congrArg (· + 1) hcursor]
    exact hturn probe place hprobe

end OpenedBehind

/-- The second engine is the first one but for steps that were passed and watched conditions. -/
def SameAhead (p : Program) (a b : Engine) : Prop :=
  ∃ q watches, b = { a with program := some q, watches } ∧ q.cursor = p.cursor ∧
    q.steps.length = p.steps.length ∧ q.remaining = p.remaining

theorem SameAhead.setAt {p : Program} {a b : Engine} (h : SameAhead p a b) {place : Place}
    (hplace : place.root.Before p.cursor) (c : Condition) : SameAhead p a (b.setAt place c) := by
  obtain ⟨q, watches, rfl, hcursor, hlength, hremaining⟩ := h
  obtain ⟨⟨index⟩ | ⟨name⟩, path⟩ := place
  · have hlt : index < q.cursor := by
      rw [hcursor]
      exact hplace
    refine ⟨_, watches, rfl, hcursor, (List.length_modify ..).trans hlength, ?_⟩
    rw [Program.remaining_modify, if_pos hlt, hremaining]
  · exact ⟨q, _, rfl, hcursor, hlength, hremaining⟩

/-- Keeping the state of the conditions of a probe leaves the steps that remain alone. -/
theorem keepInPlace_sameAhead {e : Engine} {p : Program} (hp : e.program = some p) {probe : Probe}
    (hprobe : ∀ place, probe.origin = some place → place.root.Before p.cursor) :
    SameAhead p e (e.keepInPlace probe) := by
  have hself : SameAhead p e e := ⟨p, e.watches, by rw [← hp], rfl, rfl, rfl⟩
  unfold keepInPlace
  cases horigin : probe.origin with
  | none => exact hself
  | some place =>
    have harg : ∀ i, (place.arg i).root.Before p.cursor := fun _ => hprobe place horigin
    exact ((hself.setAt (harg 2) _).setAt (harg 3) _).setAt (harg 4) _

/-- When a program is loaded, no open probe belongs to one of its steps. -/
theorem load_openedBehind (e : Engine) (steps : List Step) :
    (e.load (some steps)).OpenedBehind := by
  intro p _ probe place hprobe hplace
  obtain ⟨name, hroot⟩ := e.forgetSteps_origin hprobe hplace
  rw [hroot]
  trivial

end Engine

end TickScript
