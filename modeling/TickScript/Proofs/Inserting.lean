import TickScript.Proofs.Agreement
import TickScript.Proofs.Glances
import TickScript.Proofs.Remaining

/-!
# Conditions that insert steps

`Condition.Inlines` lists the conditions that insert steps and are left at once: a block of
steps, a block that is repeated, and the branches of a condition that only glances at the
player. Each of them comes with the steps that it inserts, depending on the player.

`Condition.Inlines.evaluate` is what evaluating them does: the steps are inserted, and
nothing else happens but for the look at the player. Steps of which this is true, whatever
their conditions are, have the property `Step.Inserts`.
-/

namespace TickScript

/-- The argument at a position is steps that were read; an absent one offers no steps. -/
def Offers (args : List Arg) (index : Nat) (body : List Step) : Prop :=
  args[index]? = some (.steps body) ∨
    (body = [] ∧ ∀ a, args[index]? = some a → a.isAbsent = true)

/-- The conditions that insert steps and are left at once, and what they insert if they see
a player. -/
inductive Condition.Inlines : Condition → (Player → List Step) → Prop
  | insert (body : List Step) (others : List Arg) :
      Inlines (.call (Builtin.expand .insert).name (.steps body :: others)) fun _ => body
  | repeated {count : Arg} {n : Int} (hn : count.toValue.toInt = .ok n) (body : List Step)
      (others : List Arg) :
      Inlines (.call (Builtin.expand .repeated).name (count :: .steps body :: others))
        fun _ => (List.replicate n.toNat body).flatten
  | branch {c : Condition} {f : Player → Bool} (hc : c.Glances f) {others : List Arg}
      {yes no : List Step} (hyes : Offers others 0 yes) (hno : Offers others 1 no) :
      Inlines (.call (Builtin.expand .branch).name (.condition c :: others))
        fun p => if f p then yes else no
  | onlyIf {c : Condition} {f : Player → Bool} (hc : c.Glances f) (body : List Step)
      (others : List Arg) :
      Inlines (.call (Builtin.expand .onlyIf).name (.condition c :: .steps body :: others))
        fun p => if f p then body else []
  | onlyUnless {c : Condition} {f : Player → Bool} (hc : c.Glances f) (body : List Step)
      (others : List Arg) :
      Inlines (.call (Builtin.expand .onlyUnless).name (.condition c :: .steps body :: others))
        fun p => if f p then [] else body

theorem stepsAt_of_steps {args : List Arg} {index : Nat} {body : List Step}
    (h : args[index]? = some (.steps body)) (name : String) (required : Bool) :
    stepsAt name index required args = (.ok body, args) := by
  obtain ⟨hlt, hget⟩ := List.getElem?_eq_some_iff.mp h
  have hset : args.set index (.steps body) = args := by
    rw [← hget]
    exact List.set_getElem_self hlt
  unfold stepsAt
  rw [h]
  dsimp only [Arg.isAbsent, Arg.toSteps]
  rw [hset]
  rfl

theorem stepsAt_of_offers {args : List Arg} {index : Nat} {body : List Step}
    (h : Offers args index body) (name : String) :
    stepsAt name index false args = (.ok body, args) := by
  rcases h with h | ⟨rfl, habsent⟩
  · exact stepsAt_of_steps h name false
  · unfold stepsAt
    cases hget : args[index]? with
    | none => rfl
    | some a =>
      dsimp only
      rw [if_pos (habsent a hget)]
      rfl

namespace Engine

variable {e : Engine} {p : Program} {s : Step} {rest : List Step}

/-- The engine with steps inserted behind the step at the cursor. -/
structure Inserted (e : Engine) (s : Step) (body rest : List Step) (a : Engine) : Prop where
  engine : ∃ q, a = { e with program := some q } ∧ q.remaining = s :: (body ++ rest) ∧
    ∀ p, e.program = some p → q.cursor = p.cursor

theorem expand_inserted (hparts : e.parts.program = true) (hp : e.program = some p)
    (hremaining : p.remaining = s :: rest) (body : List Step) :
    (e.expand body).1 = .ok () ∧ Inserted e s body rest (e.expand body).2 := by
  rw [expand_of_program hparts hp]
  refine ⟨rfl, _, rfl, p.remaining_splice hremaining body, ?_⟩
  intro p' hp'
  rw [hp] at hp'
  cases hp'
  rfl

theorem finish_inserted (hparts : e.parts.program = true) (hp : e.program = some p)
    (hremaining : p.remaining = s :: rest) {m : Expander} (hm : m ≠ .loop) (name : String)
    (args : List Arg) (bodies : List Step × List Step) (holds : Bool) :
    (m.finish name args bodies holds e).1 = .ok () ∧
      Inserted e s (if holds then bodies.1 else bodies.2) rest
        (m.finish name args bodies holds e).2 := by
  unfold Expander.finish
  rw [if_neg fun h => hm h.1]
  generalize (if holds = true then bodies.1 else bodies.2) = body
  cases body with
  | nil =>
    refine ⟨rfl, p, ?_, hremaining, ?_⟩
    · rw [← hp]
      rfl
    · intro p' hp'
      rw [hp] at hp'
      cases hp'
      rfl
  | cons x body => exact expand_inserted hparts hp hremaining (x :: body)

/-- A loop inserts its body and the step that it is the condition of. -/
theorem finish_loop_inserted (hparts : e.parts.program = true) (hp : e.program = some p)
    (hremaining : p.remaining = s :: rest) {name : String} {args : List Arg}
    (hs : s.condition = .call name args) (body : List Step) (holds : Bool) :
    (Expander.loop.finish name args (body, []) holds e).1 = .ok () ∧
      Inserted e s (if holds then body ++ [s] else []) rest
        (Expander.loop.finish name args (body, []) holds e).2 := by
  have hself : Step.mk e.currentInputs (.call name args) = s := by
    rw [currentInputs, hp, Option.bind_some, p.current?_of_remaining hremaining, ← hs]
    cases s
    rfl
  unfold Expander.finish
  cases holds with
  | true =>
    rw [if_pos ⟨rfl, rfl⟩, if_pos rfl, if_pos rfl, hself]
    exact expand_inserted hparts hp hremaining (body ++ [s])
  | false =>
    refine ⟨rfl, p, ?_, hremaining, fun q hq => ?_⟩
    · rw [← hp]
      rfl
    · rw [hp] at hq
      cases hq
      rfl

end Engine

namespace Condition

variable {c : Condition} {f : Player → Bool} {choice : Player → List Step} {e : Engine}
  {p : Program} {s : Step} {rest : List Step}

theorem Glances.guard (hc : Glances c f) (late : Late) (place : Option Place) (e : Engine) :
    ∃ e', e.Looked e' ∧ (Arg.condition c).evaluateWith late place e =
      ⟨.ok (.ofBool (f e.look.1)), .condition c, e'⟩ := by
  obtain ⟨e', hlooked, heq⟩ := hc late place e
  refine ⟨e', hlooked, ?_⟩
  rw [Arg.evaluateWith, heq]

/-- A guarded expander inserts what it does when its guard has answered. -/
theorem Glances.guards (hc : Glances c f) {m : Expander} (hm : m.isGuarded = true)
    {bodies : List Step × List Step} (selected : Bool → List Step) {others : List Arg}
    (hbodies : m.bodies (Builtin.expand m).name (.condition c :: others) =
      (.ok bodies, .condition c :: others))
    (hfinish : ∀ holds seen, let e' : Engine := { e with seen }
      let result := m.finish (Builtin.expand m).name (.condition c :: others) bodies holds e'
      result.1 = .ok () ∧ e'.Inserted s (selected holds) rest result.2)
    (place : Option Place) :
    ((call (Builtin.expand m).name (.condition c :: others)).evaluate place e).outcome =
        .ok .expanded ∧
      ∃ e', e.Looked e' ∧
        e'.Inserted s (selected (f e.look.1)) rest
          ((call (Builtin.expand m).name (.condition c :: others)).evaluate place e).engine := by
  obtain ⟨e', hlooked, hguard⟩ := hc.guard evaluateRead (place.map (·.arg 0)) e
  obtain ⟨seen, rfl⟩ := hlooked.exists_seen
  obtain ⟨hok, hinserted⟩ := hfinish (f e.look.1) seen
  rw [evaluate, evaluateWith_guarded (Builtin.ofName?_name (.expand m)) hm]
  dsimp only [Arg.toCondition]
  rw [hbodies]
  dsimp only
  rw [hguard, Expander.conclude]
  dsimp only
  rw [List.drop_one, List.tail_cons, Verdict.holds_ofBool, hok]
  exact ⟨rfl, _, hlooked, hinserted⟩

/-- A guarded expander that is no loop inserts one of its bodies. -/
theorem Glances.evaluate_guarded (hc : Glances c f) (m : Expander) (bodies : List Step × List Step)
    (hm : m.isGuarded = true) (hloop : m ≠ .loop) {others : List Arg}
    (hbodies : m.bodies (Builtin.expand m).name (.condition c :: others) =
      (.ok bodies, .condition c :: others))
    (place : Option Place) (hparts : e.parts.program = true) (hp : e.program = some p)
    (hremaining : p.remaining = s :: rest) :
    ((call (Builtin.expand m).name (.condition c :: others)).evaluate place e).outcome =
        .ok .expanded ∧
      ∃ e', e.Looked e' ∧
        e'.Inserted s (if f e.look.1 then bodies.1 else bodies.2) rest
          ((call (Builtin.expand m).name (.condition c :: others)).evaluate place e).engine :=
  hc.guards hm (fun holds => if holds then bodies.1 else bodies.2) hbodies
    (fun holds seen => Engine.finish_inserted (e := { e with seen }) hparts hp hremaining hloop
      _ _ bodies holds) place

/-- Evaluating such a condition inserts its steps. -/
theorem Inlines.evaluate (h : c.Inlines choice) (place : Option Place)
    (hparts : e.parts.program = true) (hp : e.program = some p)
    (hremaining : p.remaining = s :: rest) :
    (c.evaluate place e).outcome = .ok .expanded ∧
      ∃ e', e.Looked e' ∧ e'.Inserted s (choice e.look.1) rest (c.evaluate place e).engine := by
  cases h with
  | insert body others =>
    obtain ⟨hok, hinserted⟩ := Engine.expand_inserted hparts hp hremaining body
    rw [Condition.evaluate, evaluateWith_perform (Builtin.ofName?_name (.expand .insert)) rfl,
      Engine.perform, Engine.performInsert, stepsAt_of_steps rfl]
    dsimp only [Engine.expanded]
    rw [hok]
    exact ⟨rfl, e, .refl e, hinserted⟩
  | @repeated count n hn body others =>
    obtain ⟨hok, hinserted⟩ := Engine.expand_inserted hparts hp hremaining
      (List.replicate n.toNat body).flatten
    rw [Condition.evaluate, evaluateWith_perform (Builtin.ofName?_name (.expand .repeated)) rfl,
      Engine.perform, Engine.performRepeated]
    dsimp only
    rw [hn]
    dsimp only
    rw [stepsAt_of_steps rfl]
    dsimp only [Engine.expanded]
    rw [hok]
    exact ⟨rfl, e, .refl e, hinserted⟩
  | @branch c f hc others yes no hyes hno =>
    refine hc.evaluate_guarded .branch (yes, no) rfl (by decide) ?_ place hparts hp hremaining
    have hyes' : Offers (.condition c :: others) 1 yes := hyes
    have hno' : Offers (.condition c :: others) 2 no := hno
    rw [Expander.bodies, stepsAt_of_offers hyes']
    dsimp only
    rw [stepsAt_of_offers hno']
  | onlyIf hc body others =>
    refine hc.evaluate_guarded .onlyIf (body, []) rfl (by decide) ?_ place hparts hp hremaining
    rw [Expander.bodies, stepsAt_of_steps rfl]
    · intro h
      cases h
    · intro h
      cases h
  | onlyUnless hc body others =>
    refine hc.evaluate_guarded .onlyUnless ([], body) rfl (by decide) ?_ place hparts hp hremaining
    rw [Expander.bodies, stepsAt_of_steps rfl]

end Condition

/-- When the walk stands at the step, evaluating its condition inserts the steps that the
player selects, and nothing else happens but for the look at the player. -/
def Step.Inserts (s : Step) (choice : Player → List Step) : Prop :=
  ∀ (place : Option Place) {e : Engine} {p : Program} {rest : List Step},
    e.parts.program = true → e.program = some p → p.remaining = s :: rest →
      (s.condition.evaluate place e).outcome = .ok .expanded ∧
        ∃ e', e.Looked e' ∧
          e'.Inserted s (choice e.look.1) rest (s.condition.evaluate place e).engine

theorem Condition.Inlines.inserts {s : Step} {choice : Player → List Step}
    (h : s.condition.Inlines choice) : s.Inserts choice :=
  fun place _ _ _ hparts hp hremaining => h.evaluate place hparts hp hremaining

/-- A loop whose condition glances inserts its body and itself, or nothing. -/
theorem Condition.Glances.inserts_loop {c : Condition} {f : Player → Bool} (hc : c.Glances f)
    (i : Inputs) (body : List Step) (others : List Arg) {s : Step} (hs : s =
      .mk i (.call (Builtin.expand .loop).name (.condition c :: .steps body :: others))) :
    s.Inserts fun p => if f p then body ++ [s] else [] := by
  intro place e p rest hparts hp hremaining
  have hcondition : s.condition =
      .call (Builtin.expand .loop).name (.condition c :: .steps body :: others) := by rw [hs]; rfl
  rw [hcondition]
  refine hc.guards rfl (fun holds => if holds then body ++ [s] else []) ?_
    (fun holds seen => Engine.finish_loop_inserted (e := { e with seen }) hparts hp hremaining
      hcondition body holds) place
  rw [Expander.bodies, stepsAt_of_steps rfl]
  · intro h
    cases h
  · intro h
    cases h

end TickScript
