import TickScript.Proofs.Mirrored

/-!
# Conditions in rows of their own

A condition that only reads (`Condition.OnlyReads`) may be put into a row of one condition, in which
it is dropped once it holds (`Condition.alone`). A condition is retold if this is done in some of
its places (`Condition.Retold`), at any depth and in the steps it holds as well.

A row that has dropped its only condition is satisfied whatever it is asked, so the two differ as
soon as a condition is asked again that has held. Only a loop does that with its guard. A truth
value keeps account of the places that are out of the question for this reason.

The same can be read of arguments that are retold (`ArgsRetold.stepsAt`, `ArgsRetold.bodies`,
`ArgsRetold.readProbe`).
-/

namespace TickScript

/-! ## Conditions that only read -/

/-- Predicates, comparisons, tests, and alternatives of such. -/
inductive Condition.OnlyReads : Condition → Prop
  | check (c : Check) (args : List Arg) : OnlyReads (.call (Builtin.check c).name args)
  | compare (r : Reading) (args : List Arg) : OnlyReads (.call (Builtin.compare r).name args)
  | native (test : Native) (label : String) : OnlyReads (.native test label)
  | anyOf {cs : List Condition} (h : ∀ c ∈ cs, OnlyReads c) :
      OnlyReads (.call (Builtin.expand .anyOf).name (cs.map .condition))

/-- What it leaves is what was there, and it fails or gives an answer, but inserts no steps. -/
structure Turn.Still {σ : Type} (x : σ) (t : Turn σ) : Prop where
  rest : t.rest = x
  answers : ∀ v, t.outcome = .ok v → ∃ b, v = .ofBool b

theorem evaluateAnyOf_still {late : Late} (place : Option Place) : ∀ (cs : List Condition),
    (∀ c ∈ cs, ∀ (place : Option Place) (e : Engine), (c.evaluateWith late place e).Still c) →
    ∀ (index : Nat) (e : Engine),
      (evaluateAnyOf late place index (cs.map .condition) e).Still (cs.map .condition)
  | [], _, _, e => ⟨rfl, fun _ heq => ⟨false, (Except.ok.inj heq).symm⟩⟩
  | c :: cs, h, index, e => by
    have hrest := fun e => evaluateAnyOf_still place cs
      (fun c hc => h c (List.mem_cons_of_mem _ hc)) (index + 1) e
    obtain ⟨hc, -⟩ := h c List.mem_cons_self (place.map (·.arg index)) e
    rw [List.map_cons, evaluateAnyOf, Arg.evaluateWith]
    dsimp only
    rw [hc]
    split
    · refine ⟨rfl, fun _ heq => ?_⟩
      cases heq
    · split
      · exact ⟨rfl, fun _ heq => ⟨true, (Except.ok.inj heq).symm⟩⟩
      · exact ⟨congrArg (List.cons _) (hrest _).rest, (hrest _).answers⟩

/-- A condition that only reads stays as it is and inserts nothing. -/
theorem Condition.OnlyReads.still {c : Condition} (h : c.OnlyReads) (late : Late) :
    ∀ (place : Option Place) (e : Engine), (c.evaluateWith late place e).Still c := by
  induction h with
  | check c args =>
    intro place e
    rw [Condition.evaluateWith, Builtin.ofName?_name]
    exact ⟨rfl, fun _ heq => ⟨_, (Except.ok.inj heq).symm⟩⟩
  | compare r args =>
    intro place e
    rw [Condition.evaluateWith, Builtin.ofName?_name]
    refine ⟨rfl, fun v heq => ?_⟩
    dsimp only at heq
    cases hanswer : (e.compare r args).1 with
    | error f =>
      rw [hanswer] at heq
      cases heq
    | ok b =>
      rw [hanswer] at heq
      exact ⟨b, (Except.ok.inj heq).symm⟩
  | native test label =>
    intro place e
    rw [Condition.evaluateWith]
    exact ⟨rfl, fun _ heq => ⟨_, (Except.ok.inj heq).symm⟩⟩
  | @anyOf cs _ ih =>
    intro place e
    have hstill := evaluateAnyOf_still place cs (fun c hc => ih c hc) 0 e
    rw [Condition.evaluateWith, Builtin.ofName?_name]
    exact ⟨congrArg (Condition.call _) hstill.rest, hstill.answers⟩

/-! ## The relation -/

/-- A row of one condition. -/
def Condition.alone (p : Condition) : Condition :=
  .call (Builtin.expand .inOrder).name [.condition p]

/-- Whether the conditions in a call are asked again after they have held, given that this is so
of the call. -/
def Expander.asksAgain (again : Bool) : Expander → Bool
  | .loop => true
  | .anyOf | .branch | .onlyIf | .onlyUnless => again
  | _ => false

mutual

/-- The second condition is the first one with some conditions retold, none of which is asked again
after it has held. The truth value says whether the condition itself is. -/
inductive Condition.Retold : Bool → Condition → Condition → Prop
  | same {again : Bool} (c : Condition) : Condition.Retold again c c
  | alone {p : Condition} (h : p.OnlyReads) : Condition.Retold false p p.alone
  | inside {again : Bool} (m : Expander) {xs ys : List Arg}
      (h : ArgsRetold (m.asksAgain again) xs ys) :
      Condition.Retold again (.call (Builtin.expand m).name xs) (.call (Builtin.expand m).name ys)

inductive ArgsRetold : Bool → List Arg → List Arg → Prop
  | nil {again : Bool} : ArgsRetold again [] []
  | cons {again : Bool} {x y : Arg} {xs ys : List Arg} (h : Arg.Retold again x y)
      (hrest : ArgsRetold again xs ys) : ArgsRetold again (x :: xs) (y :: ys)

inductive Arg.Retold : Bool → Arg → Arg → Prop
  | same {again : Bool} (a : Arg) : Arg.Retold again a a
  | condition {again : Bool} {c d : Condition} (h : Condition.Retold again c d) :
      Arg.Retold again (.condition c) (.condition d)
  | steps {again : Bool} {xs ys : List Step} (h : StepsRetold xs ys) :
      Arg.Retold again (.steps xs) (.steps ys)

inductive StepsRetold : List Step → List Step → Prop
  | nil : StepsRetold [] []
  | cons {s t : Step} {xs ys : List Step} (hinputs : s.inputs = t.inputs)
      (h : Condition.Retold false s.condition t.condition) (hrest : StepsRetold xs ys) :
      StepsRetold (s :: xs) (t :: ys)

end

/-- Engines whose programs and probes differ in conditions that are retold. -/
abbrev Engine.Retold : Engine → Engine → Prop := Engine.Mirrored (Condition.Retold false)

theorem StepsRetold.forall₂ : ∀ {xs ys : List Step}, StepsRetold xs ys →
    List.Forall₂ (Step.Mirrored (Condition.Retold false)) xs ys
  | [], _, .nil => .nil
  | _ :: _, _, .cons hinputs h hrest => .cons ⟨hinputs, h⟩ hrest.forall₂

theorem StepsRetold.refl : ∀ steps : List Step, StepsRetold steps steps
  | [] => .nil
  | s :: rest => .cons rfl (.same s.condition) (.refl rest)

theorem StepsRetold.append : ∀ {xs ys xs' ys' : List Step}, StepsRetold xs ys →
    StepsRetold xs' ys' → StepsRetold (xs ++ xs') (ys ++ ys')
  | [], _, _, _, .nil, h => h
  | _ :: _, _, _, _, .cons hinputs h hrest, h' => .cons hinputs h (hrest.append h')

theorem StepsRetold.repeated {xs ys : List Step} (h : StepsRetold xs ys) : ∀ n : Nat,
    StepsRetold (List.replicate n xs).flatten (List.replicate n ys).flatten
  | 0 => .nil
  | n + 1 => h.append (h.repeated n)

/-! ## Reading retold arguments -/

section

variable {again : Bool} {x y : Arg} {xs ys : List Arg}

theorem Arg.Retold.toInputs (h : x.Retold again y) : x.toInputs = y.toInputs := by
  cases h <;> rfl

theorem Arg.Retold.toChoices (h : x.Retold again y) : x.toChoices = y.toChoices := by
  cases h <;> rfl

theorem Arg.Retold.toScript (h : x.Retold again y) : x.toScript = y.toScript := by
  cases h <;> rfl

theorem Arg.Retold.toValue (h : x.Retold again y) : x.toValue = y.toValue := by
  cases h <;> rfl

theorem Arg.Retold.isAbsent (h : x.Retold again y) : x.isAbsent = y.isAbsent := by
  cases h <;> rfl

theorem Arg.Retold.toCondition (h : x.Retold again y) :
    ReadAlike (Condition.Retold again) x.toCondition y.toCondition := by
  cases h with
  | same =>
    cases x.toCondition with
    | error f => exact .failed f
    | ok c => exact .read (.same c)
  | condition h => exact .read h
  | @steps _ xs ys h =>
    have hdisplay : (Arg.steps xs).display = (Arg.steps ys).display := by
      simp only [Arg.display, Arg.describe, h.forall₂.length_eq]
    change ReadAlike _ (.error (.invalidInstruction (Arg.steps xs).display))
      (.error (.invalidInstruction (Arg.steps ys).display))
    rw [hdisplay]
    exact .failed _

theorem Arg.Retold.toSteps (h : x.Retold again y) :
    ReadAlike StepsRetold x.toSteps y.toSteps := by
  cases h with
  | same =>
    cases x.toSteps with
    | error f => exact .failed f
    | ok b => exact .read (.refl b)
  | condition => exact .failed .kind
  | steps h => exact .read h

namespace ArgsRetold

theorem getElem? : ∀ {xs ys : List Arg}, ArgsRetold again xs ys → ∀ i : Nat,
    Option.Rel (Arg.Retold again) xs[i]? ys[i]?
  | [], _, .nil, _ => .none
  | _ :: _, _, .cons h _, 0 => .some h
  | _ :: _, _, .cons _ hrest, i + 1 => hrest.getElem? i

theorem set : ∀ {xs ys : List Arg}, ArgsRetold again xs ys → x.Retold again y → ∀ i : Nat,
    ArgsRetold again (xs.set i x) (ys.set i y)
  | [], _, .nil, _, _ => .nil
  | _ :: _, _, .cons _ hrest, hxy, 0 => .cons hxy hrest
  | _ :: _, _, .cons h hrest, hxy, i + 1 => .cons h (hrest.set hxy i)

theorem tail (h : ArgsRetold again xs ys) : ArgsRetold again (xs.drop 1) (ys.drop 1) := by
  cases h with
  | nil => exact .nil
  | cons _ hrest => exact hrest

theorem getD (h : ArgsRetold again xs ys) (i : Nat) :
    Arg.Retold again (xs.getD i (.raw .null)) (ys.getD i (.raw .null)) := by
  have hi := h.getElem? i
  rw [List.getD_eq_getElem?_getD, List.getD_eq_getElem?_getD]
  generalize xs[i]? = x at hi ⊢
  generalize ys[i]? = y at hi ⊢
  cases hi with
  | none => exact .same _
  | some hxy => exact hxy

theorem boundAt? (h : ArgsRetold again xs ys) (i : Nat) :
    Engine.boundAt? xs i = Engine.boundAt? ys i := by
  have hi := h.getElem? i
  unfold Engine.boundAt?
  generalize xs[i]? = x at hi ⊢
  generalize ys[i]? = y at hi ⊢
  cases hi with
  | none => rfl
  | some hxy =>
    dsimp only
    rw [hxy.isAbsent, hxy.toValue]

theorem durations (h : ArgsRetold again xs ys) : Engine.durations xs = Engine.durations ys := by
  unfold Engine.durations
  rw [(h.getD 1).toValue, h.boundAt? 2]

theorem missing (h : ArgsRetold again xs ys) :
    Engine.missingSearchArgument? xs = Engine.missingSearchArgument? ys := by
  have hi : ∀ i : Nat, xs[i]?.all Arg.isAbsent = ys[i]?.all Arg.isAbsent := by
    intro i
    have hi := h.getElem? i
    generalize xs[i]? = x at hi ⊢
    generalize ys[i]? = y at hi ⊢
    cases hi with
    | none => rfl
    | some hxy => exact hxy.isAbsent
  unfold Engine.missingSearchArgument?
  simp only [hi]

/-- What is read together with the arguments that are left, in which it stays read: the same fault,
or related values, and arguments that are retold. -/
inductive Read {α : Type} (R : α → α → Prop) (again : Bool) :
    Except Fault α × List Arg → Except Fault α × List Arg → Prop
  | failed (f : Fault) {xs ys : List Arg} (hargs : ArgsRetold again xs ys) :
      Read R again (.error f, xs) (.error f, ys)
  | read {b c : α} {xs ys : List Arg} (h : R b c) (hargs : ArgsRetold again xs ys) :
      Read R again (.ok b, xs) (.ok c, ys)

theorem stepsAt (h : ArgsRetold again xs ys) (name : String) (index : Nat) (required : Bool) :
    Read StepsRetold again (stepsAt name index required xs)
      (TickScript.stepsAt name index required ys) := by
  have hi := h.getElem? index
  have habsent : Read StepsRetold again
      (if required then .error (.missingArgument name index) else .ok [], xs)
      (if required then .error (.missingArgument name index) else .ok [], ys) := by
    split
    · exact .failed _ h
    · exact .read .nil h
  unfold TickScript.stepsAt
  generalize xs[index]? = x at hi ⊢
  generalize ys[index]? = y at hi ⊢
  cases hi with
  | none => exact habsent
  | @some x y hxy =>
    have hread := hxy.toSteps
    dsimp only
    rw [hxy.isAbsent]
    split
    · exact habsent
    · generalize x.toSteps = b at hread ⊢
      generalize y.toSteps = c at hread ⊢
      cases hread with
      | failed f => exact .failed f h
      | read hbc => exact .read hbc (h.set (.steps hbc) index)

/-- What a guarded expander reads: the steps for either answer. -/
theorem bodies (h : ArgsRetold again xs ys) (m : Expander) (name : String) :
    Read (fun b c => StepsRetold b.1 c.1 ∧ StepsRetold b.2 c.2) again (m.bodies name xs)
      (m.bodies name ys) := by
  have hyes := h.stepsAt name 1 false
  have hbody := h.stepsAt name 1 true
  unfold Expander.bodies
  generalize TickScript.stepsAt name 1 false xs = b at hyes ⊢
  generalize TickScript.stepsAt name 1 false ys = c at hyes ⊢
  generalize TickScript.stepsAt name 1 true xs = b at hbody ⊢
  generalize TickScript.stepsAt name 1 true ys = c at hbody ⊢
  cases m with
  | branch =>
    cases hyes with
    | failed f hargs => exact .failed f hargs
    | @read _ _ xs ys hyes hargs =>
      have hno := ArgsRetold.stepsAt hargs name 2 false
      dsimp only
      generalize TickScript.stepsAt name 2 false xs = b at hno ⊢
      generalize TickScript.stepsAt name 2 false ys = c at hno ⊢
      cases hno with
      | failed f hargs => exact .failed f hargs
      | read hno hargs => exact .read ⟨hyes, hno⟩ hargs
  | onlyUnless =>
    cases hbody with
    | failed f hargs => exact .failed f hargs
    | read hbody hargs => exact .read ⟨.nil, hbody⟩ hargs
  | _ =>
    cases hbody with
    | failed f hargs => exact .failed f hargs
    | read hbody hargs => exact .read ⟨hbody, .nil⟩ hargs

theorem readProbe (h : ArgsRetold false xs ys) (p q : Option Place) :
    ReadAlike (Probe.Mirrored (Condition.Retold false)) (Engine.readProbe xs p)
      (Engine.readProbe ys q) := by
  have hlow := (h.getD 2).toCondition
  have hhigh := (h.getD 3).toCondition
  have hwithin := (h.getD 4).toCondition
  unfold Engine.readProbe
  dsimp only
  rw [(h.getD 0).toInputs, (h.getD 1).toValue]
  generalize (xs.getD 2 (.raw .null)).toCondition = low at hlow ⊢
  generalize (ys.getD 2 (.raw .null)).toCondition = low' at hlow ⊢
  generalize (xs.getD 3 (.raw .null)).toCondition = high at hhigh ⊢
  generalize (ys.getD 3 (.raw .null)).toCondition = high' at hhigh ⊢
  generalize (xs.getD 4 (.raw .null)).toCondition = within at hwithin ⊢
  generalize (ys.getD 4 (.raw .null)).toCondition = within' at hwithin ⊢
  cases (ys.getD 0 (.raw .null)).toInputs with
  | error f => exact .failed f
  | ok inputs =>
    cases Mode.read (ys.getD 1 (.raw .null)).toValue with
    | error f => exact .failed f
    | ok mode =>
      cases hlow with
      | failed f => exact .failed f
      | read hlow =>
        cases hhigh with
        | failed f => exact .failed f
        | read hhigh =>
          cases hwithin with
          | failed f => exact .failed f
          | read hwithin => exact .read ⟨rfl, rfl, hlow, hhigh, hwithin⟩

end ArgsRetold

end

end TickScript
