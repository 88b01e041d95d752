import TickScript.Engine.Tick
import TickScript.Proofs.Remaining

/-!
# Runs of ticks

A run is driven by a list of moments. A moment is what the outside brings along for one
tick: the overrides that are set before it, what the simulation shows on it, and whether it
is paused.

* `Engine.tickOn`, `Engine.run`: one moment, and one after the other.
* `Engine.tickWith_cases`: the three kinds of ticks.
* `Engine.pace`, `Engine.paces_pace`: one step of the walk, and the ways it may turn out.
* `Engine.pace_countdown_of_ne`, `Engine.pace_countdown_zero`, `Engine.pace_nil`: the steps of a
  walk through countdowns.
* `Engine.walk_mono`: a walk that does not use up its budget does not depend on it.
* `Engine.TickKept.run`: a run keeps what every part of a tick keeps.
-/

namespace TickScript

/-! ## Outcomes -/

def kindOf : Except Fault TickOutcome → Option TickKind
  | .ok outcome => some outcome.kind
  | .error _ => none

/-- The keys that the simulation is told on a tick with this outcome. -/
def writesOf : Except Fault TickOutcome → List Inputs
  | .ok ⟨.committed, i⟩ | .ok ⟨.overridden, i⟩ | .ok ⟨.exhausted, i⟩ => [i]
  | _ => []

/-- The tick belonged to the program. -/
def isPlayed (result : Except Fault TickOutcome) : Bool :=
  kindOf result ≠ some .paused ∧ kindOf result ≠ some .overridden

theorem kindOf_of_isPlayed {result : Except Fault TickOutcome} (h : isPlayed result = true) :
    kindOf result ≠ some .paused ∧ kindOf result ≠ some .overridden := of_decide_eq_true h

/-! ## Moments -/

/-- What the outside brings along for one tick. -/
structure Moment where
  player : Player
  overlay : Option Overlay := none
  messageBox : Bool := false
  paused : Bool := false
  /-- The overrides that are set before the tick, in their order. -/
  overrides : List Override := []

/-- Nothing interferes with the program. -/
structure Moment.Quiet (m : Moment) : Prop where
  paused : m.paused = false
  overrides : m.overrides = []

namespace Engine

def withOverride (e : Engine) (o : Override) : Engine := { e with override := o }

/-- The engine before the tick of a moment. The last override that was set counts. -/
def meet (e : Engine) (m : Moment) : Engine :=
  { e with
    override := m.overrides.foldl (fun _ o => o) e.override
    messageBox := m.messageBox
    simulation := { e.simulation with player := m.player, overlay := m.overlay } }

def tickOn (budget : Nat) (e : Engine) (m : Moment) : Except Fault TickOutcome × Engine :=
  (e.meet m).tickWith budget m.paused

/-- The outcomes of a run, tick by tick, and the engine that is left. A tick that fails
does not end the run. -/
def run (budget : Nat) : List Moment → Engine → List (Except Fault TickOutcome) × Engine
  | [], e => ([], e)
  | m :: rest, e =>
    let (result, e) := e.tickOn budget m
    let (results, e) := e.run budget rest
    (result :: results, e)

theorem run_cons (budget : Nat) (m : Moment) (rest : List Moment) (e : Engine) :
    e.run budget (m :: rest) =
      ((e.tickOn budget m).1 :: ((e.tickOn budget m).2.run budget rest).1,
        ((e.tickOn budget m).2.run budget rest).2) := rfl

/-! ## Kinds of ticks -/

/-- The tick counts as paused. -/
def isFrozen (e : Engine) (paused : Bool) : Bool := paused && !e.flags.ignorePause

/-- The part of a tick that belongs to the program: the outcome of an open probe, then the
walk. -/
def play (budget : Nat) (e : Engine) : Except Fault TickOutcome × Engine :=
  match e.classify with
  | (.error f, e) => (.error f, e)
  | (.ok (some _), e) => (.ok ⟨.ended, .none⟩, e)
  | (.ok none, e) => walk budget e

theorem tickWith_frozen {e : Engine} {paused : Bool} (budget : Nat)
    (h : e.isFrozen paused = true) : e.tickWith budget paused = (.ok ⟨.paused, .none⟩, e) := by
  rw [isFrozen] at h
  unfold tickWith
  rw [if_pos h]

theorem tickWith_override {e : Engine} {paused : Bool} (budget : Nat)
    (h : e.isFrozen paused = false) (hoverride : e.override.isActive = true) :
    e.tickWith budget paused =
      (.ok ⟨.overridden, e.override.content⟩,
        (e.beginTick.write e.override.content).withOverride e.override.tick.2) := by
  have hactive : e.beginTick.override.isActive = true := hoverride
  have hthawed : ¬(paused && !e.flags.ignorePause) = true := by
    rw [isFrozen] at h
    rw [h]
    exact Bool.false_ne_true
  unfold tickWith
  rw [if_neg hthawed]
  dsimp only
  rw [if_pos hactive]
  rfl

theorem tickWith_play {e : Engine} {paused : Bool} (budget : Nat)
    (h : e.isFrozen paused = false) (hoverride : e.override.isActive = false) :
    e.tickWith budget paused = e.beginTick.play budget := by
  have hactive : ¬e.beginTick.override.isActive = true := by
    rw [show e.beginTick.override = e.override from rfl, hoverride]
    exact Bool.false_ne_true
  have hthawed : ¬(paused && !e.flags.ignorePause) = true := by
    rw [isFrozen] at h
    rw [h]
    exact Bool.false_ne_true
  unfold tickWith
  rw [if_neg hthawed]
  dsimp only
  rw [if_neg hactive]
  rfl

/-- A tick is of one of three kinds. -/
theorem tickWith_cases (budget : Nat) (e : Engine) (paused : Bool) :
    (e.isFrozen paused = true ∧ e.tickWith budget paused = (.ok ⟨.paused, .none⟩, e)) ∨
    (e.isFrozen paused = false ∧ e.override.isActive = true ∧
      e.tickWith budget paused =
        (.ok ⟨.overridden, e.override.content⟩,
          (e.beginTick.write e.override.content).withOverride e.override.tick.2)) ∨
    (e.isFrozen paused = false ∧ e.override.isActive = false ∧
      e.tickWith budget paused = e.beginTick.play budget) := by
  cases hfrozen : e.isFrozen paused with
  | true => exact Or.inl ⟨rfl, tickWith_frozen budget hfrozen⟩
  | false =>
    cases hactive : e.override.isActive with
    | true => exact Or.inr (Or.inl ⟨rfl, rfl, tickWith_override budget hfrozen hactive⟩)
    | false => exact Or.inr (Or.inr ⟨rfl, rfl, tickWith_play budget hfrozen hactive⟩)

/-- The tick of a moment is of one of three kinds. -/
theorem tickOn_cases (budget : Nat) (e : Engine) (m : Moment) :
    (e.isFrozen m.paused = true ∧ e.tickOn budget m = (.ok ⟨.paused, .none⟩, e.meet m)) ∨
    (e.isFrozen m.paused = false ∧ (e.meet m).override.isActive = true ∧
      e.tickOn budget m =
        (.ok ⟨.overridden, (e.meet m).override.content⟩,
          ((e.meet m).beginTick.write (e.meet m).override.content).withOverride
            (e.meet m).override.tick.2)) ∨
    (e.isFrozen m.paused = false ∧ (e.meet m).override.isActive = false ∧
      e.tickOn budget m = (e.meet m).beginTick.play budget) :=
  tickWith_cases budget (e.meet m) m.paused

theorem meet_override {m : Moment} (h : m.overrides = []) (e : Engine) :
    (e.meet m).override = e.override := by
  unfold meet
  rw [h]
  rfl

/-- The tick of a quiet moment belongs to the program, unless an override goes on. -/
theorem tickOn_quiet {e : Engine} {m : Moment} (h : m.Quiet)
    (hoverride : e.override.isActive = false) (budget : Nat) :
    e.tickOn budget m = (e.meet m).beginTick.play budget := by
  refine tickWith_play budget ?_ ?_
  · rw [isFrozen, h.paused]
    rfl
  · rw [meet_override h.overrides]
    exact hoverride

/-- The outcome check of the tick lets the program go on. -/
def GoesOn (e : Engine) (m : Moment) : Prop := (e.meet m).beginTick.classify.1 = .ok none

theorem play_of_goesOn {e : Engine} {m : Moment} (h : e.GoesOn m) (budget : Nat) :
    (e.meet m).beginTick.play budget = (e.meet m).beginTick.classify.2.walk budget := by
  rw [GoesOn] at h
  unfold play
  split
  · next heq =>
    rw [heq] at h
    cases h
  · next heq =>
    rw [heq] at h
    cases h
  · next heq => rw [heq]

/-! ## Steps of the walk -/

/-- The evaluation of the step at the cursor. -/
def turnAt (e : Engine) (p : Program) (step : Step) : Turn Condition :=
  step.condition.evaluate (some ⟨.step p.cursor, []⟩) e

/-- The engine after the evaluation of the step at the cursor, with its condition in the
new state. -/
def afterTurn (e : Engine) (p : Program) (step : Step) : Engine :=
  (e.turnAt p step).engine.setAt ⟨.step p.cursor, []⟩ (e.turnAt p step).rest

/-- The engine at the next step, when the step at the cursor is left. -/
def leave (e : Engine) (p : Program) (step : Step) (v : Verdict) : Engine :=
  ((e.afterTurn p step).note (.left p.cursor (e.turnAt p step).rest v)).advance

/-- One step of the walk: either the walk ends there, or it comes to the next step. -/
def pace (e : Engine) : (Except Fault TickOutcome × Engine) ⊕ Engine :=
  match e.program with
  | none => .inl (.ok ⟨.idle, .none⟩, e)
  | some p =>
    match p.current? with
    | none => .inl (.ok ⟨.exhausted, .none⟩, e.write .none)
    | some step =>
      match (e.turnAt p step).outcome with
      | .error f => .inl (.error f, e.afterTurn p step)
      | .ok .waiting =>
        .inl (.ok ⟨.committed, step.inputs⟩, ((e.afterTurn p step).commit step.inputs).2)
      | .ok v => .inr (e.leave p step v)

/-- The walk takes one step after the other. -/
theorem walk_succ (budget : Nat) (e : Engine) :
    e.walk (budget + 1) =
      match e.pace with
      | .inl result => result
      | .inr e' => e'.walk budget := by
  rw [walk, pace]
  cases e.program with
  | none => rfl
  | some p =>
    dsimp only
    cases p.current? with
    | none => rfl
    | some step =>
      have hturn : step.condition.evaluate (some ⟨.step p.cursor, []⟩) e = e.turnAt p step := rfl
      dsimp only
      rw [hturn]
      cases (e.turnAt p step).outcome with
      | error f => rfl
      | ok v =>
        cases v with
        | waiting | satisfied | expanded => rfl

/-- The ways in which a step of the walk may turn out. -/
inductive Paces (e : Engine) : (Except Fault TickOutcome × Engine) ⊕ Engine → Prop
  | idle (h : e.program = none) : Paces e (.inl (.ok ⟨.idle, .none⟩, e))
  | ended {p : Program} (h : e.program = some p) (hcurrent : p.current? = none) :
      Paces e (.inl (.ok ⟨.exhausted, .none⟩, e.write .none))
  | failed {p : Program} {step : Step} {f : Fault} (h : e.program = some p)
      (hcurrent : p.current? = some step) (hturn : (e.turnAt p step).outcome = .error f) :
      Paces e (.inl (.error f, e.afterTurn p step))
  | held {p : Program} {step : Step} (h : e.program = some p) (hcurrent : p.current? = some step)
      (hturn : (e.turnAt p step).outcome = .ok .waiting) :
      Paces e
        (.inl (.ok ⟨.committed, step.inputs⟩, ((e.afterTurn p step).commit step.inputs).2))
  | left {p : Program} {step : Step} {v : Verdict} (h : e.program = some p)
      (hcurrent : p.current? = some step) (hturn : (e.turnAt p step).outcome = .ok v)
      (hv : v.holds = true) : Paces e (.inr (e.leave p step v))

theorem paces_pace (e : Engine) : Paces e e.pace := by
  rw [pace]
  split
  · next h => exact .idle h
  · next h =>
    split
    · next hcurrent => exact .ended h hcurrent
    · next hcurrent =>
      split
      · next hturn => exact .failed h hcurrent hturn
      · next hturn => exact .held h hcurrent hturn
      · next v hv hturn =>
        refine .left h hcurrent hturn ?_
        cases v with
        | waiting => exact absurd rfl hv
        | satisfied | expanded => rfl

/-- There is one way only. -/
theorem Paces.eq {e : Engine} {x : (Except Fault TickOutcome × Engine) ⊕ Engine}
    (h : Paces e x) : e.pace = x := by
  cases h with
  | idle h => rw [pace, h]
  | ended h hcurrent =>
    rw [pace, h]
    dsimp only
    rw [hcurrent]
  | failed h hcurrent hturn =>
    rw [pace, h]
    dsimp only
    rw [hcurrent]
    dsimp only
    rw [hturn]
  | held h hcurrent hturn =>
    rw [pace, h]
    dsimp only
    rw [hcurrent]
    dsimp only
    rw [hturn]
  | @left p step v h hcurrent hturn hv =>
    rw [pace, h]
    dsimp only
    rw [hcurrent]
    dsimp only
    rw [hturn]
    cases v with
    | waiting => cases hv
    | satisfied | expanded => rfl

theorem walk_of_stop {e : Engine} {result : Except Fault TickOutcome × Engine}
    (h : e.pace = .inl result) (budget : Nat) : e.walk (budget + 1) = result := by
  rw [walk_succ, h]

theorem walk_of_go {e e' : Engine} (h : e.pace = .inr e') (budget : Nat) :
    e.walk (budget + 1) = e'.walk budget := by
  rw [walk_succ, h]

/-- A walk that ends within its budget takes no notice of more. -/
theorem walk_more : ∀ (budget : Nat) (e : Engine), (e.walk budget).1 ≠ .error .overrun →
    e.walk (budget + 1) = e.walk budget
  | 0, e, h => absurd rfl h
  | budget + 1, e, h => by
    cases hpace : e.pace with
    | inl result => rw [walk_of_stop hpace, walk_of_stop hpace]
    | inr e' =>
      rw [walk_of_go hpace] at h
      rw [walk_of_go hpace, walk_of_go hpace]
      exact walk_more budget e' h

/-- A walk that ends comes out the same under every larger budget. -/
theorem walk_mono {k n : Nat} (hle : k ≤ n) {e : Engine} (h : (e.walk k).1 ≠ .error .overrun) :
    e.walk n = e.walk k := by
  induction hle with
  | refl => rfl
  | @step n _ ih => rw [walk_more n e (by rwa [ih]), ih]

/-! ## Steps that count down -/

section

variable {e : Engine} {p : Program} {i : Inputs} {rest : List Step}

/-- The condition at the cursor is kept in its new state. -/
theorem setAt_current {s : Step} (hp : e.program = some p) (h : p.remaining = s :: rest)
    (c : Condition) :
    ∃ p', e.setAt ⟨.step p.cursor, []⟩ c = { e with program := some p' } ∧
      p'.remaining = s.withCondition c :: rest ∧ p'.cursor = p.cursor := by
  refine ⟨{ p with steps := p.steps.modify p.cursor (·.withCondition c) }, ?_, ?_, rfl⟩
  · unfold setAt
    dsimp only
    rw [hp]
    rfl
  · rw [p.remaining_modify, if_neg (Nat.lt_irrefl _), h, Nat.sub_self]
    rfl

theorem afterTurn_countdown {n : Int} (hp : e.program = some p)
    (h : p.remaining = .mk i (.countdown n) :: rest) :
    ∃ p', e.afterTurn p (.mk i (.countdown n)) = { e with program := some p' } ∧
      p'.remaining = .mk i (.countdown (n - 1)) :: rest ∧ p'.cursor = p.cursor :=
  setAt_current hp h (.countdown (n - 1))

/-- A countdown that is not at zero holds its input. A negative one is never over. -/
theorem pace_countdown_of_ne {n : Int} (hn : n ≠ 0) (hp : e.program = some p)
    (h : p.remaining = .mk i (.countdown n) :: rest) :
    ∃ p', p'.remaining = .mk i (.countdown (n - 1)) :: rest ∧ p'.cursor = p.cursor ∧
      e.pace = .inl (.ok ⟨.committed, i⟩, (({ e with program := some p' } : Engine).commit i).2) := by
  have hwaits : (e.turnAt p (.mk i (.countdown n))).outcome = .ok .waiting := by
    change Except.ok (Verdict.ofBool (decide (n = 0))) = _
    rw [decide_eq_false hn]
    rfl
  obtain ⟨p', hat, hremaining, hcursor⟩ := afterTurn_countdown hp h
  have hpaces := Paces.held hp (p.current?_of_remaining h) hwaits
  rw [hat] at hpaces
  exact ⟨p', hremaining, hcursor, hpaces.eq⟩

/-- A countdown at zero is left. -/
theorem pace_countdown_zero (hp : e.program = some p)
    (h : p.remaining = .mk i (.countdown 0) :: rest) :
    ∃ p' log, p'.remaining = rest ∧ 0 < p'.cursor ∧
      e.pace = .inr { e with program := some p', log } := by
  obtain ⟨p', hat, hremaining, -⟩ := afterTurn_countdown hp h
  have hpaces := Paces.left hp (p.current?_of_remaining h) (v := .satisfied) rfl rfl
  rw [leave, hat] at hpaces
  refine ⟨p'.advance, _, ?_, Nat.succ_pos _, hpaces.eq⟩
  rw [p'.remaining_advance, hremaining]
  rfl

/-- Behind the last step nothing is held. -/
theorem pace_nil (hp : e.program = some p) (h : p.remaining = []) :
    e.pace = .inl (.ok ⟨.exhausted, .none⟩, e.write .none) := by
  have hcurrent : p.current? = none := by rw [p.current?_eq_head?, h, List.head?_nil]
  exact (Paces.ended hp hcurrent).eq

end

/-! ## Properties that runs keep -/

/-- A property that every part of a tick keeps. -/
structure TickKept (P : Engine → Prop) : Prop where
  meet : ∀ {e}, P e → ∀ m : Moment, P (e.meet m)
  beginTick : ∀ {e}, P e → P e.beginTick
  write : ∀ {e}, P e → ∀ i, P (e.write i)
  withOverride : ∀ {e}, P e → ∀ o, P (e.withOverride o)
  classify : ∀ {e}, P e → P e.classify.2
  afterTurn : ∀ {e p step}, P e → e.program = some p → p.current? = some step →
    P (e.afterTurn p step)
  commit : ∀ {e}, P e → ∀ i, P (e.commit i).2
  leave : ∀ {e p step v}, P e → e.program = some p → p.current? = some step →
    P (e.leave p step v)

namespace TickKept

variable {P : Engine → Prop}

theorem walk (h : TickKept P) : ∀ (budget : Nat) {e : Engine}, P e → P (e.walk budget).2
  | 0, _, he => he
  | budget + 1, e, he => by
    have hpaces := e.paces_pace
    rw [walk_succ]
    generalize e.pace = x at hpaces ⊢
    cases hpaces with
    | idle => exact he
    | ended => exact h.write he _
    | failed hp hcurrent => exact h.afterTurn he hp hcurrent
    | held hp hcurrent => exact h.commit (h.afterTurn he hp hcurrent) _
    | left hp hcurrent => exact h.walk budget (h.leave he hp hcurrent)

theorem tickWith (h : TickKept P) (budget : Nat) {e : Engine} (he : P e) (paused : Bool) :
    P (e.tickWith budget paused).2 := by
  have hbegin := h.beginTick he
  rcases e.tickWith_cases budget paused with ⟨-, htick⟩ | ⟨-, -, htick⟩ | ⟨-, -, htick⟩
  · rw [htick]
    exact he
  · rw [htick]
    exact h.withOverride (h.write hbegin _) _
  · have hclassified := h.classify hbegin
    rw [htick, play]
    split
    · next heq => simpa only [heq] using hclassified
    · next heq => simpa only [heq] using hclassified
    · next heq =>
      rw [heq] at hclassified
      exact h.walk budget hclassified

theorem tickOn (h : TickKept P) (budget : Nat) {e : Engine} (he : P e) (m : Moment) :
    P (e.tickOn budget m).2 :=
  h.tickWith budget (h.meet he m) m.paused

theorem run (h : TickKept P) (budget : Nat) :
    ∀ (ms : List Moment) {e : Engine}, P e → P (e.run budget ms).2
  | [], _, he => he
  | m :: rest, e, he => by
    rw [run_cons]
    exact h.run budget rest (h.tickOn budget he m)

end TickKept

end Engine

end TickScript
