import TickScript.Proofs.Retold

/-!
# Retold conditions are answered alike

Whether a condition is retold makes no difference to its evaluation
(`Condition.evaluate_retold`): the verdict is the same, what the expanders insert is retold in
turn, and so is what is left of the condition, unless it passes and is not asked again. Conditions
that are retold therefore simulate each other (`Condition.simulates_retold`).
-/

namespace TickScript

/-! ## Carrying out expanders -/

/-- What becomes of what is retold. If it is asked again, what is left of it is related even when it
passes. -/
structure Turn.Retold {σ : Type} (R : σ → σ → Prop) (again : Bool) (s t : Turn σ) : Prop
    extends Turn.Mirrored (Condition.Retold false) R s t where
  kept : again = true → R s.rest t.rest

theorem Turn.Retold.of_rest {σ : Type} {R : σ → σ → Prop} {again : Bool} {s t : Turn σ}
    (houtcome : s.outcome = t.outcome) (hengine : s.engine.Retold t.engine)
    (hrest : R s.rest t.rest) : Turn.Retold R again s t :=
  ⟨⟨houtcome, hengine, fun _ => hrest⟩, fun _ => hrest⟩

namespace Engine.Retold

variable {a b : Engine} (h : a.Retold b) {again again' : Bool} {xs ys : List Arg}

include h

theorem failed (f : Fault) (hargs : ArgsRetold again xs ys) :
    Turn.Retold (ArgsRetold again) again' (failed f xs a) (Engine.failed f ys b) :=
  .of_rest rfl h hargs

theorem expanded {body body' : List Step} (hbody : StepsRetold body body')
    (hargs : ArgsRetold again xs ys) :
    Turn.Retold (ArgsRetold again) again' (expanded (a.expand body) xs)
      (Engine.expanded (b.expand body') ys) := by
  obtain ⟨hresult, hexpand⟩ := Mirrored.expand h hbody.forall₂
  exact .of_rest (congrArg (Except.map fun _ => Verdict.expanded) hresult) hexpand hargs

theorem performInsert (name : String) (hargs : ArgsRetold again xs ys) :
    Turn.Retold (ArgsRetold again) again' (a.performInsert name xs) (b.performInsert name ys) := by
  have hread := hargs.stepsAt name 0 true
  unfold Engine.performInsert
  generalize stepsAt name 0 true xs = c at hread ⊢
  generalize stepsAt name 0 true ys = d at hread ⊢
  cases hread with
  | failed f hargs => exact failed h f hargs
  | read hbody hargs => exact expanded h hbody hargs

theorem performRepeated (name : String) (hargs : ArgsRetold again xs ys) :
    Turn.Retold (ArgsRetold again) again' (a.performRepeated name xs)
      (b.performRepeated name ys) := by
  have hread := hargs.stepsAt name 1 true
  unfold Engine.performRepeated
  generalize stepsAt name 1 true xs = c at hread ⊢
  generalize stepsAt name 1 true ys = d at hread ⊢
  cases hargs with
  | nil => exact failed h _ .nil
  | cons hcount hrest =>
    dsimp only
    rw [hcount.toValue]
    split
    · exact failed h _ (.cons hcount hrest)
    · next n _ =>
      cases hread with
      | failed f hargs => exact failed h f hargs
      | read hbody hargs => exact expanded h (hbody.repeated n.toNat) hargs

theorem performRandom (hargs : ArgsRetold again xs ys) :
    Turn.Retold (ArgsRetold again) again' (a.performRandom xs) (b.performRandom ys) := by
  have hdurations := hargs.durations
  have hrandom : a.random = b.random := (Mirrored.sameEffects h).random
  have hset : ∀ random : Twister, Engine.Retold { a with random } { b with random } :=
    (Mirrored.agreement .same).setRandom h
  unfold Engine.performRandom
  cases hargs with
  | nil => exact failed h _ .nil
  | cons hfirst hrest =>
    have hall := ArgsRetold.cons hfirst hrest
    cases hrest with
    | nil => exact failed h _ hall
    | cons =>
      dsimp only
      rw [hfirst.toChoices, hdurations, hrandom]
      split
      · exact failed h _ hall
      · exact failed h _ hall
      · split
        · exact failed h _ hall
        · split
          · exact failed (hset _) _ hall
          · split
            · exact failed (hset _) _ hall
            · split
              · exact failed (hset _) _ hall
              · exact expanded (hset _) (.refl _) hall

theorem performScript (name : String) (hargs : ArgsRetold again xs ys) :
    Turn.Retold (ArgsRetold again) again' (a.performScript name xs) (b.performScript name ys) := by
  unfold Engine.performScript
  rw [(Mirrored.agreement .same).script h]
  split
  · cases hargs with
    | nil => exact failed h _ .nil
    | cons hfirst hrest =>
      dsimp only
      rw [hfirst.toScript]
      split
      · exact failed h _ (.cons hfirst hrest)
      · exact .of_rest rfl ((Mirrored.agreement .same).loadScript h _) (.cons hfirst hrest)
  · exact failed h _ hargs

theorem performSearch (p q : Option Place) (hargs : ArgsRetold false xs ys) :
    Turn.Retold (ArgsRetold false) again' (a.performSearch xs p) (b.performSearch ys q) := by
  obtain ⟨hresult, hstart⟩ :=
    Mirrored.startSearch .same h hargs.missing (hargs.readProbe p q) hargs.boundAt?
  unfold Engine.performSearch
  rw [(Mirrored.agreement .same).search h]
  split
  · exact .of_rest (congrArg (Except.map fun _ => Verdict.expanded) hresult) hstart hargs
  · exact failed h _ hargs

theorem performClear (hargs : ArgsRetold again xs ys) :
    Turn.Retold (ArgsRetold again) again' (a.performClear xs) (b.performClear ys) := by
  unfold Engine.performClear
  rw [(Mirrored.agreement .same).search h]
  split
  · exact .of_rest rfl ((Mirrored.agreement .same).clearRecord h) hargs
  · exact failed h _ hargs

/-- Expanders that evaluate no condition treat arguments alike that are retold. -/
theorem perform {m : Expander} (hm : m.isPlain = true) (name : String) (p q : Option Place)
    (hargs : ArgsRetold (m.asksAgain again) xs ys) :
    Turn.Retold (ArgsRetold (m.asksAgain again)) again' (a.perform m name xs p)
      (b.perform m name ys q) := by
  cases m with
  | insert => exact performInsert h name hargs
  | repeated => exact performRepeated h name hargs
  | randomInput => exact performRandom h hargs
  | scriptedInput => exact performScript h name hargs
  | optimize => exact performSearch h p q hargs
  | clearSearch => exact performClear h hargs
  | _ => cases hm

/-- What a guard asks for is inserted alike. The copy of a loop asks its guard again. -/
theorem finish (m : Expander) (hargs : m = .loop → ArgsRetold true xs ys)
    {bodies bodies' : List Step × List Step} (hyes : StepsRetold bodies.1 bodies'.1)
    (hno : StepsRetold bodies.2 bodies'.2) (holds : Bool) :
    Alike Engine.Retold (m.finish (Builtin.expand m).name xs bodies holds a)
      (m.finish (Builtin.expand m).name ys bodies' holds b) := by
  have hbody : StepsRetold (if holds = true then bodies.1 else bodies.2)
      (if holds = true then bodies'.1 else bodies'.2) := by
    split
    · exact hyes
    · exact hno
  unfold Expander.finish
  generalize (if holds = true then bodies.1 else bodies.2) = body at hbody ⊢
  generalize (if holds = true then bodies'.1 else bodies'.2) = body' at hbody ⊢
  have hempty : body.isEmpty = body'.isEmpty := by
    cases hbody <;> rfl
  dsimp only
  split
  · next hloop =>
    obtain ⟨rfl, -⟩ := hloop
    have hcopy : StepsRetold [.mk a.currentInputs (.call (Builtin.expand .loop).name xs)]
        [.mk b.currentInputs (.call (Builtin.expand .loop).name ys)] :=
      .cons (Mirrored.inputs h) (.inside .loop (hargs rfl)) .nil
    exact Mirrored.expand h (hbody.append hcopy).forall₂
  · rw [hempty]
    split
    · exact ⟨rfl, h⟩
    · exact Mirrored.expand h hbody.forall₂

end Engine.Retold

/-! ## Evaluation -/

namespace Turn.Retold

variable {again : Bool}

/-- What cannot be told apart is retold. -/
theorem of_alike {σ : Type} {R : σ → σ → Prop} (hR : ∀ x, R x x) {s t : Turn σ}
    (h : Turn.Alike Engine.Retold s t) : Turn.Retold R again s t :=
  .of_rest h.outcome h.engine (h.rest ▸ hR _)

/-- The call of an expander is what becomes of its arguments. -/
theorem call {m : Expander} {s t : Turn (List Arg)}
    (h : Turn.Retold (ArgsRetold (m.asksAgain again)) again s t) :
    Turn.Retold (Condition.Retold again) again
      ⟨s.outcome, .call (Builtin.expand m).name s.rest, s.engine⟩
      ⟨t.outcome, .call (Builtin.expand m).name t.rest, t.engine⟩ :=
  ⟨⟨h.outcome, h.engine, fun hwaits => .inside m (h.rest hwaits)⟩,
    fun hagain => .inside m (h.kept hagain)⟩

/-- Either the guard fails, or the expander passes. Then its guard matters only if it is asked
again, and if it is copied by a loop. -/
theorem conclude {m : Expander} (hm : m.isGuarded = true) {s t : Turn Arg}
    (h : Turn.Retold (Arg.Retold (m.asksAgain again)) (m.asksAgain again) s t) {xs ys : List Arg}
    (hargs : ArgsRetold (m.asksAgain again) xs ys) {bodies bodies' : List Step × List Step}
    (hyes : StepsRetold bodies.1 bodies'.1) (hno : StepsRetold bodies.2 bodies'.2) :
    Turn.Retold (Condition.Retold again) again
      (m.conclude (Builtin.expand m).name xs bodies s)
      (m.conclude (Builtin.expand m).name ys bodies' t) := by
  unfold Expander.conclude
  rw [← h.outcome]
  cases houtcome : s.outcome with
  | error f =>
    exact .of_rest rfl h.engine (.inside m (.cons (h.rest_of_error houtcome) hargs.tail))
  | ok v =>
    have hloop : m = .loop → ArgsRetold true (s.rest :: xs.drop 1) (t.rest :: ys.drop 1) := by
      rintro rfl
      exact .cons (h.kept rfl) hargs.tail
    obtain ⟨hresult, hfinish⟩ := Engine.Retold.finish h.engine m hloop hyes hno v.holds
    refine ⟨⟨congrArg (Except.map fun _ => Verdict.expanded) hresult, hfinish, ?_⟩, ?_⟩
    · intro hwaits
      refine absurd ⟨.expanded, ?_, rfl⟩ hwaits
      dsimp only
      rw [h.engine.ready.1.finish]
      rfl
    · rintro rfl
      have hagain : m.asksAgain true = true := by
        cases m with
        | branch | onlyIf | onlyUnless | loop => rfl
        | _ => cases hm
      exact .inside m (.cons (h.kept hagain) hargs.tail)

end Turn.Retold

/-- The row answers what its condition answers. Once the condition holds it is dropped, and what is
left is satisfied whatever it is asked. -/
theorem Condition.OnlyReads.alone_evaluate {p : Condition} (h : p.OnlyReads)
    (place : Option Place) (e : Engine) :
    (p.alone.evaluate place e).outcome = (p.evaluate none e).outcome ∧
      (p.alone.evaluate place e).engine = (p.evaluate none e).engine ∧
      ((p.evaluate none e).Passes →
        (p.alone.evaluate place e).rest = .call (Builtin.expand .inOrder).name []) ∧
      (¬(p.evaluate none e).Passes → (p.alone.evaluate place e).rest = p.alone) := by
  obtain ⟨hrest, hanswers⟩ := h.still Condition.evaluateRead none e
  rw [Condition.evaluate, Condition.evaluate, Condition.alone, Condition.evaluateWith,
    Builtin.ofName?_name]
  dsimp only
  rw [evaluateInOrder, Arg.evaluateWith]
  dsimp only
  rw [hrest]
  generalize p.evaluateWith Condition.evaluateRead none e = t at hanswers ⊢
  cases hturn : t.outcome with
  | error f => exact ⟨rfl, rfl, fun h => absurd h (t.not_passes_of_error hturn), fun _ => rfl⟩
  | ok v =>
    obtain ⟨holds, rfl⟩ := hanswers v hturn
    cases holds with
    | true => exact ⟨rfl, rfl, fun _ => rfl, fun hwaits => absurd ⟨_, hturn, rfl⟩ hwaits⟩
    | false =>
      have hwaits := t.not_passes_of_waiting hturn Bool.false_ne_true
      exact ⟨rfl, rfl, fun h => absurd h hwaits, fun _ => rfl⟩

section

variable {a b : Engine} {again : Bool}

theorem Condition.evaluate_same (c : Condition) (p q : Option Place) (h : a.Retold b) :
    Turn.Retold (Condition.Retold again) again (c.evaluate p a) (c.evaluate q b) :=
  .of_alike .same (c.evaluate_alike (Engine.Mirrored.agreement .same) trivial h)

theorem Arg.evaluate_same (x : Arg) (p q : Option Place) (h : a.Retold b) :
    Turn.Retold (Arg.Retold again) again (x.evaluateWith Condition.evaluateRead p a)
      (x.evaluateWith Condition.evaluateRead q b) :=
  .of_alike .same (x.evaluateWith_alike (Engine.Mirrored.agreement .same)
    (Engine.Mirrored.agreement .same).covers_evaluateRead trivial h)

theorem Condition.OnlyReads.evaluate_alone {c : Condition} (hc : c.OnlyReads)
    (p q : Option Place) (h : a.Retold b) :
    Turn.Retold (Condition.Retold false) false (c.evaluate p a) (c.alone.evaluate q b) := by
  obtain ⟨houtcome, hengine, -, hwaits⟩ := hc.alone_evaluate q b
  have halike := c.evaluate_alike (Engine.Mirrored.agreement (C := Condition.Retold false) .same)
    (p := p) (q := none) trivial h
  refine ⟨⟨halike.outcome.trans houtcome.symm, ?_, fun hnot => ?_⟩, nofun⟩
  · rw [hengine]
    exact halike.engine
  · have hrest : (c.evaluate p a).rest = c := (hc.still Condition.evaluateRead p a).rest
    have hnot' : ¬(c.evaluate none b).Passes := by
      rwa [Turn.Passes, ← halike.outcome]
    rw [hrest, hwaits hnot']
    exact .alone hc

mutual

/-- Whether a condition is retold makes no difference to its evaluation. -/
theorem Condition.evaluate_retold : ∀ (c : Condition) {again : Bool} {c' : Condition},
    c.Retold again c' → ∀ (p q : Option Place) {a b : Engine}, a.Retold b →
      Turn.Retold (Condition.Retold again) again (c.evaluate p a) (c'.evaluate q b)
  | .countdown _, _, _, h, p, q, a, b, hab | .toggle _, _, _, h, p, q, a, b, hab
  | .native _ _, _, _, h, p, q, a, b, hab => by
    cases h with
    | same => exact Condition.evaluate_same _ p q hab
    | alone h => exact h.evaluate_alone p q hab
  | .call name args, _, _, h, p, q, a, b, hab => by
    cases h with
    | same => exact Condition.evaluate_same _ p q hab
    | alone h => exact h.evaluate_alone p q hab
    | @inside _ m _ ys hargs =>
      rw [Condition.evaluate, Condition.evaluate]
      rcases m.kinds with rfl | rfl | hm | hm
      · rw [Condition.evaluateWith, Condition.evaluateWith, Builtin.ofName?_name]
        exact .call (evaluateInOrder_retold args hargs hab)
      · rw [Condition.evaluateWith, Condition.evaluateWith, Builtin.ofName?_name]
        exact .call (evaluateAnyOf_retold args hargs p q 0 hab)
      · cases hargs with
        | nil =>
          rw [Condition.evaluateWith, Condition.evaluateWith, Builtin.ofName?_name]
          cases m with
          | branch | onlyIf | onlyUnless | loop => exact .of_rest rfl hab (.inside _ .nil)
          | _ => cases hm
        | @cons _ guard guard' others others' hguard hothers =>
          have hturn := Arg.evaluate_retold guard hguard (p.map (·.arg 0)) (q.map (·.arg 0)) hab
          have hread := hguard.toCondition
          rw [Condition.evaluateWith_guarded (Builtin.ofName?_name _) hm,
            Condition.evaluateWith_guarded (Builtin.ofName?_name _) hm]
          generalize guard.toCondition = c at hread ⊢
          generalize guard'.toCondition = d at hread ⊢
          cases hread with
          | failed f => exact .of_rest rfl hab (.inside m (.cons hguard hothers))
          | @read c d hcd =>
            have hbodies := (ArgsRetold.cons (.condition hcd) hothers).bodies m
              (Builtin.expand m).name
            dsimp only
            generalize m.bodies (Builtin.expand m).name (.condition c :: others) = x at hbodies ⊢
            generalize m.bodies (Builtin.expand m).name (.condition d :: others') = y at hbodies ⊢
            cases hbodies with
            | failed f hargs => exact .of_rest rfl hab (.inside m hargs)
            | read hbodies hargs => exact hturn.conclude hm hargs hbodies.1 hbodies.2
      · rw [Condition.evaluateWith_perform (Builtin.ofName?_name _) hm,
          Condition.evaluateWith_perform (Builtin.ofName?_name _) hm]
        exact .call (Engine.Retold.perform hab hm _ p q hargs)

theorem Arg.evaluate_retold : ∀ (x : Arg) {again : Bool} {y : Arg}, x.Retold again y →
    ∀ (p q : Option Place) {a b : Engine}, a.Retold b →
      Turn.Retold (Arg.Retold again) again (x.evaluateWith Condition.evaluateRead p a)
        (y.evaluateWith Condition.evaluateRead q b)
  | .condition c, _, _, h, p, q, a, b, hab => by
    cases h with
    | same => exact Arg.evaluate_same _ p q hab
    | condition h =>
      have hturn := Condition.evaluate_retold c h p q hab
      rw [Arg.evaluateWith, Arg.evaluateWith]
      exact ⟨⟨hturn.outcome, hturn.engine, fun hwaits => .condition (hturn.rest hwaits)⟩,
        fun hagain => .condition (hturn.kept hagain)⟩
  | .steps body, _, _, h, p, q, a, b, hab => by
    cases h with
    | same => exact Arg.evaluate_same _ p q hab
    | steps h =>
      simp only [Arg.evaluateWith, Arg.display, Arg.describe, h.forall₂.length_eq]
      exact .of_rest rfl hab (.steps h)
  | .raw _, _, _, h, p, q, a, b, hab | .inputs _, _, _, h, p, q, a, b, hab
  | .choices _, _, _, h, p, q, a, b, hab | .script _, _, _, h, p, q, a, b, hab => by
    cases h with
    | same => exact Arg.evaluate_same _ p q hab

theorem evaluateInOrder_retold : ∀ (xs : List Arg) {again : Bool} {ys : List Arg},
    ArgsRetold false xs ys → ∀ {a b : Engine}, a.Retold b →
      Turn.Retold (ArgsRetold false) again (evaluateInOrder Condition.evaluateRead xs a)
        (evaluateInOrder Condition.evaluateRead ys b)
  | [], _, _, h, a, b, hab => by
    cases h with
    | nil =>
      rw [evaluateInOrder, evaluateInOrder]
      exact .of_rest rfl hab .nil
  | x :: rest, _, _, h, a, b, hab => by
    cases h with
    | @cons _ _ y _ rest' hxy hrest =>
      have hturn := Arg.evaluate_retold x hxy none none hab
      have hempty : rest.isEmpty = rest'.isEmpty := by
        cases hrest <;> rfl
      rw [evaluateInOrder, evaluateInOrder]
      rw [← hturn.outcome]
      cases houtcome : (x.evaluateWith Condition.evaluateRead none a).outcome with
      | error f =>
        exact .of_rest rfl hturn.engine (.cons (hturn.rest_of_error houtcome) hrest)
      | ok v =>
        dsimp only
        split
        · rw [hempty]
          exact .of_rest rfl hturn.engine hrest
        · next hv =>
          exact .of_rest rfl hturn.engine (.cons (hturn.rest_of_waiting houtcome hv) hrest)

theorem evaluateAnyOf_retold : ∀ (xs : List Arg) {again : Bool} {ys : List Arg},
    ArgsRetold again xs ys → ∀ (p q : Option Place) (index : Nat) {a b : Engine}, a.Retold b →
      Turn.Retold (ArgsRetold again) again
        (evaluateAnyOf Condition.evaluateRead p index xs a)
        (evaluateAnyOf Condition.evaluateRead q index ys b)
  | [], _, _, h, p, q, index, a, b, hab => by
    cases h with
    | nil =>
      rw [evaluateAnyOf, evaluateAnyOf]
      exact .of_rest rfl hab .nil
  | x :: rest, _, _, h, p, q, index, a, b, hab => by
    cases h with
    | @cons _ _ y _ rest' hxy hrest =>
      have hturn := Arg.evaluate_retold x hxy (p.map (·.arg index)) (q.map (·.arg index)) hab
      rw [evaluateAnyOf, evaluateAnyOf]
      dsimp only
      rw [← hturn.outcome]
      cases houtcome : (x.evaluateWith Condition.evaluateRead (p.map (·.arg index)) a).outcome with
      | error f =>
        exact .of_rest rfl hturn.engine (.cons (hturn.rest_of_error houtcome) hrest)
      | ok v =>
        dsimp only
        split
        · exact ⟨⟨rfl, hturn.engine, fun hwaits => absurd ⟨_, rfl, rfl⟩ hwaits⟩,
            fun hagain => .cons (hturn.kept hagain) hrest⟩
        · next hv =>
          have hothers := evaluateAnyOf_retold rest hrest p q (index + 1) hturn.engine
          have hhead := hturn.rest_of_waiting houtcome hv
          exact ⟨⟨hothers.outcome, hothers.engine, fun hwaits => .cons hhead (hothers.rest hwaits)⟩,
            fun hagain => .cons hhead (hothers.kept hagain)⟩

end

end

/-- Conditions that are retold go on to be retold. -/
theorem Condition.simulates_retold : Simulates (Condition.Retold false) where
  refl := .same
  evaluate {c _} h p q _ _ hab := (c.evaluate_retold h p q hab).toMirrored

end TickScript
