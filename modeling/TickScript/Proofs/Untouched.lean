import TickScript.Proofs.Agreement
import TickScript.Proofs.Probing
import TickScript.Proofs.Remaining
import TickScript.Proofs.Runs

/-!
# What conditions leave alone

A condition writes no keys, never touches the override, does not count as a tick, does not
move the cursor and takes no step away. `Engine.Untouched a b` lists everything that `b`
shares with `a` when only conditions were evaluated in between; `Condition.evaluate_untouched`
is the frame law of evaluation, and `Engine.classify_untouched` that of the outcome checks of
a probe, which add a report at most.
-/

namespace TickScript

/-- A program kept its cursor and lost no step. -/
def Program.Grown : Option Program → Option Program → Prop :=
  Option.Rel fun p q => q.cursor = p.cursor ∧ p.steps.length ≤ q.steps.length

namespace Program.Grown

theorem refl (p : Option Program) : Grown p p := by
  cases p with
  | none => exact .none
  | some p => exact .some ⟨rfl, Nat.le_refl _⟩

theorem trans {p q r : Option Program} (h : Grown p q) (g : Grown q r) : Grown p r := by
  cases h with
  | none => exact g
  | some h =>
    cases g with
    | some g => exact .some ⟨g.1.trans h.1, Nat.le_trans h.2 g.2⟩

/-- Where a step stood at the cursor, there still is one. -/
theorem lt {p q : Program} (h : Grown (some p) (some q)) (hp : p.cursor < p.steps.length) :
    q.cursor < q.steps.length := by
  cases h with
  | some h =>
    rw [h.1]
    exact Nat.lt_of_lt_of_le hp h.2

end Program.Grown

namespace Engine

/-- The player that a look shows on this tick. -/
def view (e : Engine) : Player := e.seen.getD e.simulation.player

theorem look_fst (e : Engine) : e.look.1 = e.view := by
  unfold look view
  split
  · next hseen =>
    rw [hseen]
    rfl
  · next hseen =>
    rw [hseen]
    rfl

theorem look_snd (e : Engine) : e.look.2 = { e with seen := some e.view } := by
  unfold look view
  split
  · next hseen =>
    cases e
    cases hseen
    rfl
  · next hseen =>
    rw [hseen]
    rfl

/-- The parts of an engine that are out of the reach of conditions are the same in both. -/
structure Untouched (a b : Engine) : Prop where
  parts : b.parts = a.parts
  messageBox : b.messageBox = a.messageBox
  override : b.override = a.override
  commits : b.commits = a.commits
  written : b.simulation.written = a.simulation.written
  player : b.simulation.player = a.simulation.player
  view : b.view = a.view
  recordPath : b.recordPath = a.recordPath
  timing : (b.script.interval, b.script.initialDelay) = (a.script.interval, a.script.initialDelay)
  now : b.now = a.now
  program : Program.Grown a.program b.program

namespace Untouched

theorem refl (a : Engine) : Untouched a a :=
  ⟨rfl, rfl, rfl, rfl, rfl, rfl, rfl, rfl, rfl, rfl, .refl _⟩

theorem trans {a b c : Engine} (h : Untouched a b) (g : Untouched b c) : Untouched a c where
  parts := g.parts.trans h.parts
  messageBox := g.messageBox.trans h.messageBox
  override := g.override.trans h.override
  commits := g.commits.trans h.commits
  written := g.written.trans h.written
  player := g.player.trans h.player
  view := g.view.trans h.view
  recordPath := g.recordPath.trans h.recordPath
  timing := g.timing.trans h.timing
  now := g.now.trans h.now
  program := h.program.trans g.program

end Untouched

/-! ## Operations -/

theorem look_untouched (e : Engine) : Untouched e e.look.2 := by
  unfold look
  split
  · exact .refl e
  · next hseen =>
    refine ⟨rfl, rfl, rfl, rfl, rfl, rfl, ?_, rfl, rfl, rfl, .refl _⟩
    rw [view, view, hseen]
    rfl

theorem lookOverlay_untouched (e : Engine) : Untouched e e.lookOverlay.2 := by
  obtain ⟨_, _, _, hlook⟩ := e.lookOverlay_snd
  rw [hlook]
  exact ⟨rfl, rfl, rfl, rfl, rfl, rfl, rfl, rfl, rfl, rfl, .refl _⟩

theorem splice_untouched (e : Engine) (steps : List Step) : Untouched e (e.splice steps).2 := by
  unfold splice
  split
  · next p hp =>
    refine ⟨rfl, rfl, rfl, rfl, rfl, rfl, rfl, rfl, rfl, rfl, ?_⟩
    rw [hp]
    exact .some ⟨rfl, p.length_le_splice steps⟩
  · exact .refl e

theorem expand_untouched (e : Engine) (steps : List Step) : Untouched e (e.expand steps).2 := by
  unfold expand
  split
  · exact e.splice_untouched steps
  · exact .refl e

theorem withProbe_untouched (e : Engine) (p : Option Probe) : Untouched e (e.withProbe p) :=
  ⟨rfl, rfl, rfl, rfl, rfl, rfl, rfl, rfl, rfl, rfl, .refl _⟩

theorem startSearch_untouched (e : Engine) (args : List Arg) (place : Option Place) :
    Untouched e (e.startSearch args place).2 := by
  apply startSearch_leads (P := Untouched e) (Q := Untouched e) id
  · exact fun h _ => h.trans ⟨rfl, rfl, rfl, rfl, rfl, rfl, rfl, rfl, rfl, rfl, .refl _⟩
  · exact fun h => h.trans ⟨rfl, rfl, rfl, rfl, rfl, rfl, rfl, rfl, rfl, rfl, .refl _⟩
  · exact fun h _ _ => h.trans (expand_untouched _ _)
  · exact fun h _ _ => h.trans (withProbe_untouched _ _)
  · exact .refl e

theorem kept_untouched (e₀ : Engine) : Kept (Untouched e₀) (fun _ => True) where
  nowhere := trivial
  inside _ _ := trivial
  toggle he _ := he.trans ⟨rfl, rfl, rfl, rfl, rfl, rfl, rfl, rfl, rfl, rfl, .refl _⟩
  setRandom he _ := he.trans ⟨rfl, rfl, rfl, rfl, rfl, rfl, rfl, rfl, rfl, rfl, .refl _⟩
  look he := he.trans (look_untouched _)
  lookOverlay he := he.trans (lookOverlay_untouched _)
  expand he steps := he.trans (expand_untouched _ steps)
  loadScript he _ := he.trans ⟨rfl, rfl, rfl, rfl, rfl, rfl, rfl, rfl, rfl, rfl, .refl _⟩
  startSearch he _ args := he.trans (startSearch_untouched _ args _)
  clearRecord he := he.trans ⟨rfl, rfl, rfl, rfl, rfl, rfl, rfl, rfl, rfl, rfl, .refl _⟩

end Engine

/-- Evaluation leaves alone what is out of the reach of conditions. -/
theorem Condition.evaluate_untouched (c : Condition) (place : Option Place) (e : Engine) :
    Engine.Untouched e (c.evaluate place e).engine :=
  c.evaluate_kept (Engine.kept_untouched e) trivial (.refl e)

namespace Engine

/-! ## The program and the probe -/

theorem setAt_untouched (e : Engine) (place : Place) (c : Condition) :
    Untouched e (e.setAt place c) := by
  unfold setAt
  split
  · refine ⟨rfl, rfl, rfl, rfl, rfl, rfl, rfl, rfl, rfl, rfl, ?_⟩
    dsimp only
    cases e.program with
    | none => exact .none
    | some p => exact .some ⟨rfl, Nat.le_of_eq (List.length_modify ..).symm⟩
  · exact ⟨rfl, rfl, rfl, rfl, rfl, rfl, rfl, rfl, rfl, rfl, .refl _⟩

/-- Evaluating the step at the cursor leaves alone what any evaluation does. -/
theorem afterTurn_untouched (e : Engine) (p : Program) (step : Step) :
    Untouched e (e.afterTurn p step) :=
  (step.condition.evaluate_untouched _ e).trans (setAt_untouched _ _ _)

theorem keepInPlace_untouched (e : Engine) (p : Probe) : Untouched e (e.keepInPlace p) := by
  unfold keepInPlace
  split
  · exact .refl e
  · exact ((setAt_untouched _ _ _).trans (setAt_untouched _ _ _)).trans (setAt_untouched _ _ _)

theorem judge_untouched (e : Engine) (p : Probe) : Untouched e (e.judge p).2.2 :=
  (kept_untouched e).judge (.refl e) p

theorem settle_untouched (e : Engine) (p : Probe) (outcome : Except Fault (Option Outcome)) :
    Untouched e (e.settle p outcome).2 := by
  unfold settle
  split
  · exact withProbe_untouched e _
  · exact withProbe_untouched e _
  · split
    · exact withProbe_untouched e _
    · exact ⟨rfl, rfl, rfl, rfl, rfl, rfl, rfl, rfl, rfl, rfl, .refl _⟩

theorem classify_untouched (e : Engine) : Untouched e e.classify.2 := by
  cases hprobe : e.probe with
  | none =>
    rw [classify_of_none hprobe]
    exact .refl e
  | some p =>
    rw [classify_of_probe hprobe]
    exact (((withProbe_untouched e none).trans (judge_untouched _ p)).trans
      (keepInPlace_untouched _ _)).trans (settle_untouched _ _ _)

/-! ## The part of the program -/

/-- What the program's part of a tick does outside of the program. -/
structure Played (e : Engine) (t : Except Fault TickOutcome × Engine) : Prop where
  written : t.2.simulation.written = e.simulation.written ++ writesOf t.1
  override : t.2.override = e.override
  parts : t.2.parts = e.parts
  isPlayed : isPlayed t.1 = true

theorem Played.of_untouched {a b : Engine} {t : Except Fault TickOutcome × Engine}
    (h : Untouched a b) (ht : Played b t) : Played a t :=
  ⟨by rw [ht.written, h.written], by rw [ht.override, h.override], by rw [ht.parts, h.parts],
    ht.isPlayed⟩

theorem leave_played {e : Engine} {p : Program} {step : Step} {v : Verdict}
    {t : Except Fault TickOutcome × Engine} (h : Played (e.leave p step v) t) : Played e t := by
  have hturn := e.afterTurn_untouched p step
  refine ⟨?_, ?_, ?_, h.isPlayed⟩
  · rw [h.written]
    exact congrArg (· ++ _) hturn.written
  · rw [h.override]
    exact hturn.override
  · rw [h.parts]
    exact hturn.parts

theorem walk_played : ∀ (budget : Nat) (e : Engine), Played e (e.walk budget)
  | 0, e => ⟨(List.append_nil _).symm, rfl, rfl, rfl⟩
  | budget + 1, e => by
    have hpaces := e.paces_pace
    rw [walk_succ]
    cases hpace : e.pace with
    | inl result =>
      rw [hpace] at hpaces
      cases hpaces with
      | idle => exact ⟨(List.append_nil _).symm, rfl, rfl, rfl⟩
      | ended => exact ⟨rfl, rfl, rfl, rfl⟩
      | failed =>
        exact .of_untouched (e.afterTurn_untouched _ _) ⟨(List.append_nil _).symm, rfl, rfl, rfl⟩
      | held => exact .of_untouched (e.afterTurn_untouched _ _) ⟨rfl, rfl, rfl, rfl⟩
    | inr e' =>
      rw [hpace] at hpaces
      cases hpaces with
      | left => exact leave_played (walk_played budget _)

theorem play_played (budget : Nat) (e : Engine) : Played e (e.play budget) := by
  have hclassify := e.classify_untouched
  unfold play
  split
  · next heq =>
    rw [heq] at hclassify
    exact .of_untouched hclassify ⟨(List.append_nil _).symm, rfl, rfl, rfl⟩
  · next heq =>
    rw [heq] at hclassify
    exact .of_untouched hclassify ⟨(List.append_nil _).symm, rfl, rfl, rfl⟩
  · next heq =>
    rw [heq] at hclassify
    exact .of_untouched hclassify (walk_played budget _)

/-- The outcome of a tick tells whether it counts as paused. -/
theorem tickWith_paused_iff (budget : Nat) (e : Engine) (paused : Bool) :
    kindOf (e.tickWith budget paused).1 = some .paused ↔ e.isFrozen paused = true := by
  rcases e.tickWith_cases budget paused with ⟨hfrozen, htick⟩ | ⟨hfrozen, -, htick⟩ |
    ⟨hfrozen, -, htick⟩ <;> rw [hfrozen, htick]
  · exact iff_of_true rfl rfl
  · refine iff_of_false ?_ Bool.false_ne_true
    intro hkind
    cases hkind
  · exact iff_of_false (kindOf_of_isPlayed (e.beginTick.play_played budget).isPlayed).1
      Bool.false_ne_true

end Engine

end TickScript
