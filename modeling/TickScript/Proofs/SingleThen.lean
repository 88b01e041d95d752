import Mathlib
import TickScript.Proofs.Calls
import TickScript.Proofs.Retelling

/-!
# A row of one condition

A condition that only reads may be put into a row of its own, in every place where a condition can
stand but the guard of a loop, and nothing changes (`Engine.single_then_is_its_element`).

A loop goes on with a copy of itself, and the copy holds what is left of the guard. When that is a
row that has dropped its only condition, the loop never ends. The conditions of a probe are asked
again after they have held only if the outcome could not be taken down.
-/

namespace TickScript

/-! ## Reading -/

theorem Condition.OnlyReads.ne_inOrder {p : Condition} (h : p.OnlyReads) (args : List Arg) :
    p ≠ .call (Builtin.expand .inOrder).name args := by
  rintro rfl
  have hname := Builtin.ofName?_name (.expand .inOrder)
  generalize (Builtin.expand .inOrder).name = name at h hname
  cases h with
  | check | compare | anyOf =>
    rw [Builtin.ofName?_name] at hname
    cases hname

namespace Catalogue

theorem isWrapped_of_onlyReads {v : Value} {p : Condition} (hp : p.OnlyReads)
    (hread : standard.readCondition v = .ok p) : isWrapped [v] = false := by
  cases hwrapped : isWrapped [v] with
  | false => rfl
  | true =>
    obtain ⟨items, rest, heq⟩ := exists_of_isWrapped hwrapped
    cases heq
    obtain ⟨args, rfl⟩ := readCondition_row hread
    exact absurd rfl (hp.ne_inOrder args)

/-- A row of one condition is written with its name, or as a list if the condition is one. -/
theorem readCondition_alone {v : Value} {p : Condition} (hp : p.OnlyReads)
    (hread : standard.readCondition v = .ok p) :
    standard.readCondition (.list [.text "then", v]) = .ok p.alone ∧
      ∀ items, v = .list items → standard.readCondition (.list [v]) = .ok p.alone := by
  have hargs : standard.readArgs (Builtin.expand .inOrder).spec 0 [v] = .ok [.condition p] := by
    rw [readArgs_cons_of_isVariadic rfl (isNull_of_readCondition hread), hread, readArgs]
    rfl
  have hcall : ∀ wrapped, standard.readCall "then" [v]
      (fun spec => standard.readArgs spec 0 [v]) wrapped = .ok p.alone := by
    intro wrapped
    have hspec : standard.spec? "then" = some (Builtin.expand .inOrder).spec := rfl
    rw [readCall, hspec]
    dsimp only
    rw [isWrapped_of_onlyReads hp hread, Bool.and_false, if_neg Bool.false_ne_true, hargs]
    rfl
  refine ⟨?_, ?_⟩
  · rw [readCondition]
    · exact hcall _
    · rintro f hflag
      cases hflag
  · rintro items rfl
    rw [readCondition]
    exact hcall _

end Catalogue

/-! ## Loops -/

/-- A row in which nothing is left is satisfied. -/
theorem evaluate_empty_row (place : Option Place) (e : Engine) :
    (Condition.call (Builtin.expand .inOrder).name []).evaluate place e =
      ⟨.ok .satisfied, .call (Builtin.expand .inOrder).name [], e⟩ := by
  rw [Condition.evaluate, Condition.evaluateWith, Builtin.ofName?_name]
  rfl

/-- A loop with a guard and a body. -/
def Condition.loop (guard : Condition) (body : List Step) : Condition :=
  .call (Builtin.expand .loop).name [.condition guard, .steps body]

/-- A loop whose guard is a row of one condition goes on with a copy that has nothing left to
ask. -/
theorem evaluate_loop_alone {p : Condition} (hp : p.OnlyReads) (body : List Step)
    (place : Option Place) {e : Engine} (hholds : (p.evaluate none e).Passes) :
    ((Condition.loop p.alone body).evaluate place e).engine =
      ((p.evaluate none e).engine.expand (body ++
        [.mk (p.evaluate none e).engine.currentInputs
          (.loop (.call (Builtin.expand .inOrder).name []) body)])).2 := by
  obtain ⟨houtcome, hengine, hrest, -⟩ := hp.alone_evaluate (place.map (·.arg 0)) e
  have hbodies : Expander.bodies .loop (Builtin.expand .loop).name
      [.condition p.alone, .steps body] =
        (.ok (body, []), [.condition p.alone, .steps body]) := rfl
  have hleft := hrest hholds
  obtain ⟨v, hv, hvholds⟩ := hholds
  have hloop : Expander.loop = .loop ∧ v.holds = true := ⟨rfl, hvholds⟩
  rw [Condition.evaluate, Condition.loop, Condition.evaluateWith_guarded
    (Builtin.ofName?_name (.expand .loop)) rfl, Arg.toCondition]
  dsimp only
  rw [hbodies, Arg.evaluateWith, ← Condition.evaluate]
  dsimp only
  rw [Expander.conclude]
  dsimp only
  rw [houtcome, hv, hleft, hengine]
  dsimp only
  rw [Expander.finish]
  dsimp only
  rw [if_pos hloop, if_pos hvholds]
  rfl

/-! ## The statement -/

namespace Engine

/-- A row of one condition is its element. Conditions that only read may be put into rows of their
own, in every place of a program but the guards of loops: every tick has the same outcome, and the
same is left behind, as long as no outcome check fails although one of its conditions held. The
row may be written with its name or as a list. The guard of a loop is no such place: once its
condition held, the loop goes on with a copy that has nothing left to ask and is always
satisfied. -/
theorem single_then_is_its_element {xs ys : List Step} (hsteps : StepsRetold xs ys) (e : Engine)
    (hparts : e.parts.program = true) (budget : Nat) (ms : List Moment)
    (hjams : (e.load (some xs)).NeverJams budget ms) :
    (((e.load (some xs)).run budget ms).1 = ((e.load (some ys)).run budget ms).1 ∧
      SameEffects ((e.load (some xs)).run budget ms).2 ((e.load (some ys)).run budget ms).2) ∧
    (∀ (v : Value) (p : Condition), p.OnlyReads → Catalogue.standard.readCondition v = .ok p →
      Catalogue.standard.readCondition (.list [.text "then", v]) = .ok p.alone ∧
        ∀ items, v = .list items →
          Catalogue.standard.readCondition (.list [v]) = .ok p.alone) ∧
    (∀ (p : Condition) (body : List Step) (place : Option Place) (x : Engine), p.OnlyReads →
      (p.evaluate none x).Passes →
      let empty := Condition.call (Builtin.expand .inOrder).name []
      ((Condition.loop p.alone body).evaluate place x).engine =
          ((p.evaluate none x).engine.expand (body ++
            [.mk (p.evaluate none x).engine.currentInputs (.loop empty body)])).2 ∧
        ∀ q y, empty.evaluate q y = ⟨.ok .satisfied, empty, y⟩) := by
  refine ⟨run_mirrored Condition.simulates_retold e hparts hsteps.forall₂ budget ms hjams, ?_, ?_⟩
  · intro v p hp hread
    exact Catalogue.readCondition_alone hp hread
  · intro p body place x hp hholds empty
    exact ⟨evaluate_loop_alone hp body place hholds, evaluate_empty_row⟩

/-- A step that inserts another one on the ground, with its guard in a row of its own. -/
theorem single_then_is_its_element_on_ground :
    let ground := Condition.call (Builtin.check .onGround).name []
    let program := fun guard : Condition => [Step.mk .none
      (.call (Builtin.expand .onlyIf).name
        [.condition guard, .steps [.mk (.ofKeys .directions) (.countdown 1)]])]
    let ms : List Moment := [{ player := { onGround := true } }, { player := {} }]
    (((default : Engine).load (some (program ground))).run 3 ms).1 =
      (((default : Engine).load (some (program ground.alone))).run 3 ms).1 := by
  intro ground program ms
  have hguard : ArgsRetold false
      [.condition ground, .steps [.mk (.ofKeys .directions) (.countdown 1)]]
      [.condition ground.alone, .steps [.mk (.ofKeys .directions) (.countdown 1)]] :=
    .cons (.condition (.alone (.check .onGround []))) (.cons (.same _) .nil)
  have hsteps : StepsRetold (program ground) (program ground.alone) :=
    .cons rfl (.inside .onlyIf hguard) .nil
  refine (single_then_is_its_element hsteps default rfl 3 ms ⟨?_, ?_, trivial⟩).1.1
  · rintro ⟨_, _, p, _, _, hp, _⟩
    cases hp
  · rintro ⟨_, _, p, _, _, hp, _⟩
    cases hp

/-- A search that fails too high on a condition, and a step that forgets the candidate while the
search is under way. -/
def forgetfulSearch (failHigh : Condition) : List Step :=
  let never := Arg.condition (.call (Builtin.check .climbing).name [])
  [.mk .none (.call (Builtin.expand .optimize).name
      [.inputs .none, .raw (.text "LO"), never, .condition failHigh, never]),
    .mk .none (.call (Builtin.expand .clearSearch).name [])]

/-- The guard of a loop makes a difference: in a row of its own it is asked once. So does a condition
of a probe that held when the candidate was not on record. -/
theorem single_then_asks_once :
    (¬∀ (p : Condition) (body : List Step) (ms : List Moment), p.OnlyReads →
      (((default : Engine).load (some [.mk .none (.loop p body)])).run 4 ms).1 =
        (((default : Engine).load (some [.mk .none (.loop p.alone body)])).run 4 ms).1) ∧
    ¬∀ (p : Condition) (ms : List Moment), p.OnlyReads →
      (((default : Engine).load (some (forgetfulSearch p))).run 4 ms).1 =
        (((default : Engine).load (some (forgetfulSearch p.alone))).run 4 ms).1 := by
  have hground := Condition.OnlyReads.check .onGround []
  constructor
  · intro h
    have hkinds := congrArg (List.map kindOf) (h _ [.mk (.ofKeys .directions) (.countdown 1)]
      [{ player := { onGround := true } }, { player := {} }] hground)
    have hleft : ((((default : Engine).load (some [.mk .none
        (.loop (.call (Builtin.check .onGround).name [])
          [.mk (.ofKeys .directions) (.countdown 1)])])).run 4
        [{ player := { onGround := true } }, { player := {} }]).1).map kindOf =
      [some .committed, some .exhausted] := by cbv
    have hright : ((((default : Engine).load (some [.mk .none
        (.loop (Condition.call (Builtin.check .onGround).name []).alone
          [.mk (.ofKeys .directions) (.countdown 1)])])).run 4
        [{ player := { onGround := true } }, { player := {} }]).1).map kindOf =
      [some .committed, some .committed] := by cbv
    rw [hleft, hright] at hkinds
    cases hkinds
  · intro h
    have hkinds := congrArg (List.map kindOf) (h _ [{ player := {} }, { player := {} },
      { player := { onGround := true } }, { player := {} }] hground)
    have hleft : ((((default : Engine).load (some (forgetfulSearch
        (.call (Builtin.check .onGround).name [])))).run 4 [{ player := {} }, { player := {} },
        { player := { onGround := true } }, { player := {} }]).1).map kindOf =
      [some .committed, some .exhausted, none, some .exhausted] := by cbv
    have hright : ((((default : Engine).load (some (forgetfulSearch
        (Condition.call (Builtin.check .onGround).name []).alone))).run 4 [{ player := {} },
        { player := {} }, { player := { onGround := true } }, { player := {} }]).1).map kindOf =
      [some .committed, some .exhausted, none, none] := by cbv
    rw [hleft, hright] at hkinds
    cases hkinds

end Engine

end TickScript
