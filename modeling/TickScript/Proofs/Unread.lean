import TickScript.Proofs.Calls
import TickScript.Proofs.Retold

/-!
# Arguments that are not read yet

An argument of a call is read ahead, or when the call needs it. Where it is a condition, steps,
inputs or a script, this makes no difference: a call whose arguments are unread gives the same
answer and leaves the same engine as the call whose arguments were read (`ArgsLate.evaluate`).

A row of conditions may stand in a row of its own, as it does when it is read late. The two
differences are one relation (`Condition.SameReading`). Evaluation respects it
(`Condition.SameReading.simulates`), also in what is left of a condition that held
(`Condition.SameReading.keepsRests`).

* `Condition.evaluateWith_of_read`: conditions with nothing unread.
* `Arg.Late`, `ArgsLate`: a value, and what is read from it.
* `ArgsLate.bodies`, `ArgsLate.perform`: what the expanders read.
-/

namespace TickScript

/-! ## Conditions that were read -/

section

variable {late late' : Late}

mutual

/-- What was read is evaluated without reading anything on the spot. -/
theorem Condition.evaluateWith_of_read : ∀ (c : Condition), c.everyCall isReadCall = true →
    ∀ (place : Option Place) (e : Engine),
      c.evaluateWith late place e = c.evaluateWith late' place e
  | .countdown _, _, _, _ | .toggle _, _, _, _ | .native _ _, _, _, _ => by
    rw [Condition.evaluateWith, Condition.evaluateWith]
  | .call name args, h, place, e => by
    obtain ⟨hcall, hargs⟩ := (Condition.everyCall_call name args).mp h
    cases hname : Builtin.ofName? name with
    | none => rw [Condition.evaluateWith, Condition.evaluateWith, hname]
    | some b =>
      cases b with
      | check | compare => rw [Condition.evaluateWith, Condition.evaluateWith, hname]
      | expand m =>
        rcases m.kinds with rfl | rfl | hm | hm
        · have hread := isUnread_of_isVariadic rfl hname hcall
          rw [Condition.evaluateWith, Condition.evaluateWith, hname]
          dsimp only
          rw [evaluateInOrder_of_read args hread hargs]
        · have hread := isUnread_of_isVariadic rfl hname hcall
          rw [Condition.evaluateWith, Condition.evaluateWith, hname]
          dsimp only
          rw [evaluateAnyOf_of_read args hread hargs]
        · cases args with
          | nil =>
            rw [Condition.evaluateWith, Condition.evaluateWith, hname]
            cases m with
            | branch | onlyIf | onlyUnless | loop => rfl
            | _ => cases hm
          | cons guard others =>
            have hkind : (Builtin.expand m).spec.kindFor 0 = .condition := by
              cases m with
              | branch | onlyIf | onlyUnless | loop => rfl
              | _ => cases hm
            have hread : guard.isUnread = false :=
              isUnread_of_isReadCall hname hcall (List.getElem?_cons_zero ..) (by rw [hkind]; rfl)
            rw [Condition.evaluateWith_guarded hname hm, Condition.evaluateWith_guarded hname hm,
              Arg.evaluateWith_of_read guard hread (hargs guard List.mem_cons_self)]
        · rw [Condition.evaluateWith_perform hname hm, Condition.evaluateWith_perform hname hm]

theorem Arg.evaluateWith_of_read : ∀ (a : Arg), a.isUnread = false →
    a.everyCall isReadCall = true → ∀ (place : Option Place) (e : Engine),
      a.evaluateWith late place e = a.evaluateWith late' place e
  | .condition c, _, h, place, e => by
    rw [Arg.evaluateWith, Arg.evaluateWith, Condition.evaluateWith_of_read c h]
  | .raw v, hread, _, _, _ => by
    cases v with
    | null => rfl
    | _ => cases hread
  | .steps _, _, _, _, _ | .inputs _, _, _, _, _ | .choices _, _, _, _, _
  | .script _, _, _, _, _ => by
    simp only [Arg.evaluateWith]

theorem evaluateInOrder_of_read : ∀ (args : List Arg), (∀ a ∈ args, a.isUnread = false) →
    (∀ a ∈ args, a.everyCall isReadCall = true) → ∀ e : Engine,
      evaluateInOrder late args e = evaluateInOrder late' args e
  | [], _, _, _ => by rw [evaluateInOrder, evaluateInOrder]
  | a :: rest, hread, hargs, e => by
    rw [evaluateInOrder, evaluateInOrder,
      Arg.evaluateWith_of_read a (hread a List.mem_cons_self) (hargs a List.mem_cons_self)]

theorem evaluateAnyOf_of_read : ∀ (args : List Arg), (∀ a ∈ args, a.isUnread = false) →
    (∀ a ∈ args, a.everyCall isReadCall = true) →
    ∀ (place : Option Place) (index : Nat) (e : Engine),
      evaluateAnyOf late place index args e = evaluateAnyOf late' place index args e
  | [], _, _, _, _, _ => by rw [evaluateAnyOf, evaluateAnyOf]
  | a :: rest, hread, hargs, place, index, e => by
    obtain ⟨hfirst, hrest⟩ := List.forall_mem_cons.mp hread
    obtain ⟨hfirst', hrest'⟩ := List.forall_mem_cons.mp hargs
    rw [evaluateAnyOf, evaluateAnyOf, Arg.evaluateWith_of_read a hfirst hfirst']
    dsimp only
    rw [evaluateAnyOf_of_read rest hrest hrest']

end

end

/-! ## Arguments that are read when they are needed -/

/-- Whether an argument of this kind is read when it is needed, unless it was read before. -/
def ParamKind.isReread : ParamKind → Bool
  | .condition | .steps | .inputs | .script => true
  | .value | .comparator | .inputChoices => false

/-- The same argument, or a value and what it is read as where the kind is expected. -/
inductive Arg.Late : ParamKind → Arg → Arg → Prop
  | same (kind : ParamKind) (a : Arg) : Late kind a a
  | condition {v : Value} {c : Condition} (h : Catalogue.standard.readCondition v = .ok c) :
      Late .condition (.raw v) (.condition c)
  | steps {v : Value} {body : List Step} (h : Catalogue.standard.readSteps v = .ok body) :
      Late .steps (.raw v) (.steps body)
  | inputs {v : Value} {i : Inputs} (h : Inputs.read v = .ok i) :
      Late .inputs (.raw v) (.inputs i)
  | script {v : Value} {entries : List (Inputs × Int)} (h : readScript v = .ok entries) :
      Late .script (.raw v) (.script entries)

/-- Arguments from a position on, each of which is the same or unread. -/
inductive ArgsLate (spec : Spec) : Nat → List Arg → List Arg → Prop
  | nil {index : Nat} : ArgsLate spec index [] []
  | cons {index : Nat} {x y : Arg} {xs ys : List Arg} (h : x.Late (spec.kindFor index) y)
      (hrest : ArgsLate spec (index + 1) xs ys) : ArgsLate spec index (x :: xs) (y :: ys)

namespace Arg.Late

variable {kind : ParamKind} {x y : Arg}

/-- A value that can be read is there. -/
theorem isAbsent (h : x.Late kind y) : x.isAbsent = y.isAbsent := by
  cases h with
  | same => rfl
  | @condition v _ h | @steps v _ h | @inputs v _ h | @script v _ h =>
    cases v with
    | null => cases h
    | _ => rfl

theorem toCondition (h : x.Late .condition y) : x.toCondition = y.toCondition := by
  cases h with
  | same => rfl
  | condition h => exact h

theorem toInputs (h : x.Late .inputs y) : x.toInputs = y.toInputs := by
  cases h with
  | same => rfl
  | inputs h => exact h

theorem toScript (h : x.Late .script y) : x.toScript = y.toScript := by
  cases h with
  | same => rfl
  | script h => exact h

theorem eq (h : x.Late kind y) (hkind : kind.isReread = false) : x = y := by
  cases h with
  | same => rfl
  | condition | steps | inputs | script => cases hkind

/-- A condition that is read on the spot is evaluated like one that was read. -/
theorem evaluate (h : x.Late .condition y) (place : Option Place) (e : Engine) :
    x.evaluateWith Condition.evaluateRead place e =
      y.evaluateWith Condition.evaluateRead place e := by
  cases h with
  | same => rfl
  | @condition v c h =>
    have hread := Catalogue.readCondition_isRead v h
    have hspot : Condition.evaluateRead place c e =
        c.evaluateWith Condition.evaluateRead place e :=
      Condition.evaluateWith_of_read c hread place e
    rw [Arg.evaluateWith, Arg.evaluateWith, h]
    dsimp only
    rw [hspot]

end Arg.Late

namespace ArgsLate

variable {spec : Spec} {index : Nat} {xs ys : List Arg}

theorem refl (index : Nat) : ∀ xs : List Arg, ArgsLate spec index xs xs
  | [] => .nil
  | x :: xs => .cons (.same _ x) (refl (index + 1) xs)

/-- Where everything is taken as it is, nothing differs. -/
theorem eq_of_not_isReread (h : ArgsLate spec index xs ys)
    (hkind : ∀ i, index ≤ i → (spec.kindFor i).isReread = false) : xs = ys := by
  induction h with
  | nil => rfl
  | @cons index x y _ _ h _ ih =>
    rw [h.eq (hkind index (Nat.le_refl _)), ih fun i hi => hkind i (Nat.le_of_succ_le hi)]

theorem getElem? (h : ArgsLate spec index xs ys) (i : Nat) :
    Option.Rel (Arg.Late (spec.kindFor (index + i))) xs[i]? ys[i]? := by
  induction h generalizing i with
  | nil => exact .none
  | cons h _ ih =>
    cases i with
    | zero => exact .some h
    | succ i =>
      have hrest := ih i
      rwa [Nat.add_right_comm, Nat.add_assoc] at hrest

theorem getD (h : ArgsLate spec index xs ys) (i : Nat) (default : Arg) :
    Arg.Late (spec.kindFor (index + i)) (xs.getD i default) (ys.getD i default) := by
  have hi := h.getElem? i
  rw [List.getD_eq_getElem?_getD, List.getD_eq_getElem?_getD]
  cases hx : xs[i]? <;> cases hy : ys[i]? <;> rw [hx, hy] at hi <;> cases hi
  · exact .same _ default
  · next hxy => exact hxy

theorem getElem?_eq (h : ArgsLate spec index xs ys) (i : Nat)
    (hkind : (spec.kindFor (index + i)).isReread = false) : xs[i]? = ys[i]? := by
  have hi := h.getElem? i
  cases hx : xs[i]? <;> cases hy : ys[i]? <;> rw [hx, hy] at hi <;> cases hi
  next hxy => exact congrArg some (hxy.eq hkind)

/-- Behind the last parameter of an expander, everything is taken as it is. -/
theorem eq_of_behind {m : Expander} (h : ArgsLate (Builtin.expand m).spec index xs ys)
    (hm : m.isVariadic = false) (hindex : m.parameters.length ≤ index) : xs = ys := by
  refine h.eq_of_not_isReread fun i hi => ?_
  have hparam : (Builtin.expand m).spec.paramFor? i = none := by
    rw [Spec.paramFor?, Builtin.spec, hm, List.getElem?_eq_none (Nat.le_trans hindex hi)]
    rfl
  rw [Spec.kindFor, hparam]
  rfl

/-- Where any number of conditions is taken, positions do not matter. -/
theorem variadic_iff {m : Expander} (hm : m.isVariadic = true) :
    ArgsLate (Builtin.expand m).spec index xs ys ↔
      List.Forall₂ (Arg.Late .condition) xs ys := by
  constructor
  · intro h
    induction h with
    | nil => exact .nil
    | cons h _ ih =>
      rw [Expander.kindFor_of_isVariadic hm] at h
      exact .cons h ih
  · intro h
    induction h generalizing index with
    | nil => exact .nil
    | cons h _ ih =>
      rw [← Expander.kindFor_of_isVariadic hm index] at h
      exact .cons h ih

end ArgsLate

/-! ## Steps that are read when they are needed -/

/-- What is read from an argument where steps are expected, and the argument in its new state. -/
def Arg.takeSteps (name : String) (index : Nat) (required : Bool) (a : Arg) :
    Except Fault (List Step × Arg) :=
  if a.isAbsent then
    if required then .error (.missingArgument name index) else .ok ([], .raw .null)
  else a.toSteps.map fun body => (body, .steps body)

theorem Arg.eq_of_isAbsent {a : Arg} (h : a.isAbsent = true) : a = .raw .null := by
  unfold isAbsent at h
  split at h
  · rfl
  · cases h

theorem stepsAt_eq {index : Nat} {args : List Arg} {a : Arg} (h : args[index]? = some a)
    (name : String) (required : Bool) :
    stepsAt name index required args = match a.takeSteps name index required with
      | .error f => (.error f, args)
      | .ok (body, a') => (.ok body, args.set index a') := by
  have hself : args.set index a = args := by
    obtain ⟨hlt, rfl⟩ := List.getElem?_eq_some_iff.mp h
    exact List.set_getElem_self hlt
  unfold stepsAt Arg.takeSteps
  rw [h]
  dsimp only
  split
  · next habsent =>
    cases required with
    | true => rfl
    | false =>
      rw [a.eq_of_isAbsent habsent] at hself
      exact Prod.ext rfl hself.symm
  · cases a.toSteps <;> rfl

theorem Arg.Late.takeSteps {x y : Arg} (h : x.Late .steps y) (name : String) (index : Nat)
    (required : Bool) : x.takeSteps name index required = y.takeSteps name index required := by
  have hsteps : x.toSteps = y.toSteps := by
    cases h with
    | same => rfl
    | steps h => exact h
  rw [Arg.takeSteps, Arg.takeSteps, h.isAbsent, hsteps]

/-- Either the steps at a position cannot be read and nothing changes, or they stay read. -/
theorem Arg.Late.stepsAt {x y : Arg} (h : x.Late .steps y) (before xs ys : List Arg)
    (name : String) (required : Bool) :
    let left := before ++ x :: xs
    let right := before ++ y :: ys
    (∃ f, stepsAt name before.length required left = (.error f, left) ∧
      stepsAt name before.length required right = (.error f, right)) ∨
    ∃ body a, stepsAt name before.length required left = (.ok body, before ++ a :: xs) ∧
      stepsAt name before.length required right = (.ok body, before ++ a :: ys) := by
  have hget : ∀ (a : Arg) (behind : List Arg),
      (before ++ a :: behind)[before.length]? = some a := fun a behind => by
    rw [List.getElem?_append_right (Nat.le_refl _), Nat.sub_self, List.getElem?_cons_zero]
  have hset : ∀ (a b : Arg) (behind : List Arg),
      (before ++ a :: behind).set before.length b = before ++ b :: behind := fun a b behind => by
    rw [List.set_append_right _ _ (Nat.le_refl _), Nat.sub_self, List.set_cons_zero]
  dsimp only
  rw [stepsAt_eq (hget x xs), stepsAt_eq (hget y ys), h.takeSteps]
  cases y.takeSteps name before.length required with
  | error f => exact Or.inl ⟨f, rfl, rfl⟩
  | ok taken =>
    obtain ⟨body, a⟩ := taken
    exact Or.inr ⟨body, a, Prod.ext rfl (hset x a xs), Prod.ext rfl (hset y a ys)⟩

/-- The same is read from arguments of which some are unread. If all of it can be read, the
arguments are the same from then on. -/
structure ReadsSame {α : Type} (spec : Spec) (s t : Except Fault α × List Arg) : Prop where
  result : s.1 = t.1
  args : ArgsLate spec 0 s.2 t.2
  settled : ∀ x, s.1 = .ok x → s.2 = t.2

namespace ReadsSame

variable {α : Type} {spec : Spec}

theorem refl (s : Except Fault α × List Arg) : ReadsSame spec s s :=
  ⟨rfl, .refl 0 s.2, fun _ _ => rfl⟩

theorem failed {xs ys : List Arg} (h : ArgsLate spec 0 xs ys) (f : Fault) :
    ReadsSame spec ((.error f, xs) : Except Fault α × List Arg) (.error f, ys) :=
  ⟨rfl, h, nofun⟩

end ReadsSame

/-- An expander with a guard reads the steps that it may insert before it asks the guard. -/
theorem ArgsLate.bodies {m : Expander} (hm : m.isGuarded = true) (name : String) (guard : Arg)
    {xs ys : List Arg} (h : ArgsLate (Builtin.expand m).spec 1 xs ys) :
    ReadsSame (Builtin.expand m).spec (m.bodies name (guard :: xs))
      (m.bodies name (guard :: ys)) := by
  cases h with
  | nil => exact .refl _
  | @cons _ x y xs ys hxy hrest =>
    have hargs : ArgsLate (Builtin.expand m).spec 0 (guard :: x :: xs) (guard :: y :: ys) :=
      .cons (.same _ guard) (.cons hxy hrest)
    unfold Expander.bodies
    cases m with
    | onlyIf | onlyUnless | loop =>
      obtain rfl := hrest.eq_of_behind rfl (Nat.le_refl _)
      rcases Arg.Late.stepsAt hxy [guard] xs xs name true with ⟨f, hx, hy⟩ | ⟨body, a, hx, hy⟩ <;>
        simp only [List.singleton_append, List.length_singleton] at hx hy <;> rw [hx, hy]
      · exact .failed hargs f
      · exact .refl _
    | branch =>
      rcases Arg.Late.stepsAt hxy [guard] xs ys name false with ⟨f, hx, hy⟩ | ⟨yes, a, hx, hy⟩ <;>
        simp only [List.singleton_append, List.length_singleton] at hx hy <;> rw [hx, hy]
      · exact .failed hargs f
      · cases hrest with
        | nil => exact .refl _
        | @cons _ x y xs ys hxy hrest =>
          obtain rfl := hrest.eq_of_behind rfl (Nat.le_refl _)
          dsimp only
          rcases Arg.Late.stepsAt hxy [guard, a] xs xs name false with
            ⟨f, hx, hy⟩ | ⟨no, b, hx, hy⟩ <;>
            simp only [List.cons_append, List.nil_append, List.length_cons, List.length_nil]
              at hx hy <;> rw [hx, hy]
          · exact .failed (.cons (.same _ guard) (.cons (.same _ a) (.cons hxy (.refl _ xs)))) f
          · exact .refl _
    | _ => cases hm

/-! ## Evaluation -/

/-- The same verdict and the same engine, and related rests. -/
structure Turn.Matches {σ : Type} (R : σ → σ → Prop) (s t : Turn σ) : Prop where
  outcome : s.outcome = t.outcome
  engine : s.engine = t.engine
  rest : R s.rest t.rest

namespace ArgsLate

variable {xs ys : List Arg}

theorem performInsert (h : ArgsLate (Builtin.expand .insert).spec 0 xs ys) (name : String)
    (e : Engine) :
    Turn.Matches (ArgsLate (Builtin.expand .insert).spec 0) (e.performInsert name xs)
      (e.performInsert name ys) := by
  cases h with
  | nil => exact ⟨rfl, rfl, .nil⟩
  | @cons _ x y xs ys hxy hrest =>
    obtain rfl := hrest.eq_of_behind rfl (Nat.le_refl _)
    unfold Engine.performInsert
    rcases Arg.Late.stepsAt hxy [] xs xs name true with ⟨f, hx, hy⟩ | ⟨body, a, hx, hy⟩ <;>
      simp only [List.nil_append, List.length_nil] at hx hy <;> rw [hx, hy]
    · exact ⟨rfl, rfl, .cons hxy hrest⟩
    · exact ⟨rfl, rfl, .refl 0 _⟩

theorem performRepeated (h : ArgsLate (Builtin.expand .repeated).spec 0 xs ys) (name : String)
    (e : Engine) :
    Turn.Matches (ArgsLate (Builtin.expand .repeated).spec 0) (e.performRepeated name xs)
      (e.performRepeated name ys) := by
  cases h with
  | nil => exact ⟨rfl, rfl, .nil⟩
  | @cons _ count _ xs ys hcount hrest =>
    cases hcount.eq rfl
    unfold Engine.performRepeated
    dsimp only
    cases count.toValue.toInt with
    | error f => exact ⟨rfl, rfl, .cons hcount hrest⟩
    | ok n =>
      cases hrest with
      | nil => exact ⟨rfl, rfl, .refl 0 _⟩
      | @cons _ x y xs ys hxy hrest =>
        obtain rfl := hrest.eq_of_behind rfl (Nat.le_refl _)
        dsimp only
        rcases Arg.Late.stepsAt hxy [count] xs xs name true with ⟨f, hx, hy⟩ | ⟨body, a, hx, hy⟩ <;>
          simp only [List.singleton_append, List.length_singleton] at hx hy <;> rw [hx, hy]
        · exact ⟨rfl, rfl, .cons hcount (.cons hxy hrest)⟩
        · exact ⟨rfl, rfl, .refl 0 _⟩

theorem performScript (h : ArgsLate (Builtin.expand .scriptedInput).spec 0 xs ys) (name : String)
    (e : Engine) :
    Turn.Matches (ArgsLate (Builtin.expand .scriptedInput).spec 0) (e.performScript name xs)
      (e.performScript name ys) := by
  have hargs := h
  unfold Engine.performScript
  split
  · cases h with
    | nil => exact ⟨rfl, rfl, hargs⟩
    | @cons _ x y _ _ hxy _ =>
      dsimp only
      rw [Arg.Late.toScript hxy]
      cases y.toScript <;> exact ⟨rfl, rfl, hargs⟩
  · exact ⟨rfl, rfl, hargs⟩

/-- A search starts the same, whether or not its arguments were read. -/
theorem startSearch (h : ArgsLate (Builtin.expand .optimize).spec 0 xs ys) (place : Option Place)
    (e : Engine) : e.startSearch xs place = e.startSearch ys place := by
  have hmissing : Engine.missingSearchArgument? xs = Engine.missingSearchArgument? ys := by
    have habsent : ∀ i, xs[i]?.all Arg.isAbsent = ys[i]?.all Arg.isAbsent := fun i => by
      have hi := h.getElem? i
      cases hx : xs[i]? <;> cases hy : ys[i]? <;> rw [hx, hy] at hi <;> cases hi
      next hxy => exact hxy.isAbsent
    simp only [Engine.missingSearchArgument?, habsent]
  have hread : Engine.readProbe xs place = Engine.readProbe ys place := by
    unfold Engine.readProbe
    dsimp only
    rw [Arg.Late.toInputs (h.getD 0 _), Arg.Late.eq (h.getD 1 (.raw .null)) rfl,
      Arg.Late.toCondition (h.getD 2 _), Arg.Late.toCondition (h.getD 3 _),
      Arg.Late.toCondition (h.getD 4 _)]
  have hlow : Engine.boundAt? xs 5 = Engine.boundAt? ys 5 := by
    unfold Engine.boundAt?
    rw [h.getElem?_eq 5 rfl]
  have hhigh : Engine.boundAt? xs 6 = Engine.boundAt? ys 6 := by
    unfold Engine.boundAt?
    rw [h.getElem?_eq 6 rfl]
  unfold Engine.startSearch Engine.seedLow Engine.seedHigh
  rw [hmissing, hread, hlow, hhigh]

theorem performSearch (h : ArgsLate (Builtin.expand .optimize).spec 0 xs ys)
    (place : Option Place) (e : Engine) :
    Turn.Matches (ArgsLate (Builtin.expand .optimize).spec 0) (e.performSearch xs place)
      (e.performSearch ys place) := by
  unfold Engine.performSearch
  rw [h.startSearch]
  split <;> exact ⟨rfl, rfl, h⟩

theorem perform {m : Expander} (hm : m.isPlain = true)
    (h : ArgsLate (Builtin.expand m).spec 0 xs ys) (name : String) (place : Option Place)
    (e : Engine) :
    Turn.Matches (ArgsLate (Builtin.expand m).spec 0) (e.perform m name xs place)
      (e.perform m name ys place) := by
  cases m with
  | insert => exact h.performInsert name e
  | repeated => exact h.performRepeated name e
  | randomInput =>
    obtain rfl := h.eq_of_not_isReread fun i _ => by
      rcases i with _ | _ | _ | i <;> rfl
    exact ⟨rfl, rfl, .refl 0 _⟩
  | scriptedInput => exact h.performScript name e
  | optimize => exact h.performSearch place e
  | clearSearch =>
    obtain rfl := h.eq_of_not_isReread fun _ _ => rfl
    exact ⟨rfl, rfl, .refl 0 _⟩
  | _ => cases hm

end ArgsLate

theorem evaluateInOrder_late {xs ys : List Arg} (h : List.Forall₂ (Arg.Late .condition) xs ys)
    (e : Engine) :
    Turn.Matches (List.Forall₂ (Arg.Late .condition))
      (evaluateInOrder Condition.evaluateRead xs e)
      (evaluateInOrder Condition.evaluateRead ys e) := by
  cases h with
  | nil => exact ⟨rfl, rfl, .nil⟩
  | cons hxy hrest =>
    rw [evaluateInOrder, evaluateInOrder, hxy.evaluate]
    split
    · exact ⟨rfl, rfl, .cons (.same _ _) hrest⟩
    · split
      · have hempty := hrest
        cases hempty with
        | nil | cons => exact ⟨rfl, rfl, hrest⟩
      · exact ⟨rfl, rfl, .cons (.same _ _) hrest⟩

theorem evaluateAnyOf_late (place : Option Place) {xs ys : List Arg}
    (h : List.Forall₂ (Arg.Late .condition) xs ys) : ∀ (index : Nat) (e : Engine),
    Turn.Matches (List.Forall₂ (Arg.Late .condition))
      (evaluateAnyOf Condition.evaluateRead place index xs e)
      (evaluateAnyOf Condition.evaluateRead place index ys e) := by
  induction h with
  | nil => exact fun _ _ => ⟨rfl, rfl, .nil⟩
  | cons hxy hrest ih =>
    intro index e
    rw [evaluateAnyOf, evaluateAnyOf, hxy.evaluate]
    dsimp only
    split
    · exact ⟨rfl, rfl, .cons (.same _ _) hrest⟩
    · split
      · exact ⟨rfl, rfl, .cons (.same _ _) hrest⟩
      · obtain ⟨houtcome, hengine, hrest'⟩ := ih (index + 1) _
        exact ⟨houtcome, hengine, .cons (.same _ _) hrest'⟩

/-! ## Conditions that are read at different times -/

/-- One condition is the other one as it is written or when some of its arguments are read. A row
may stand in a row of its own. -/
inductive Condition.SameReading : Condition → Condition → Prop
  | refl (c : Condition) : SameReading c c
  | read (b : Builtin) {xs ys : List Arg} (h : ArgsLate b.spec 0 xs ys) :
      SameReading (.call b.name xs) (.call b.name ys)
  | alone (xs : List Arg) :
      SameReading (Condition.call (Builtin.expand .inOrder).name xs).alone
        (.call (Builtin.expand .inOrder).name xs)
  | symm {c d : Condition} (h : SameReading c d) : SameReading d c
  | trans {c d f : Condition} (h : SameReading c d) (h' : SameReading d f) : SameReading c f

namespace ArgsLate

variable {xs ys : List Arg}

theorem evaluate_guarded {m : Expander} (hm : m.isGuarded = true)
    (h : ArgsLate (Builtin.expand m).spec 0 xs ys) (place : Option Place) (e : Engine) :
    Turn.Matches Condition.SameReading
      ((Condition.call (Builtin.expand m).name xs).evaluate place e)
      ((Condition.call (Builtin.expand m).name ys).evaluate place e) := by
  have hargs := h
  have hname := Builtin.ofName?_name (.expand m)
  have hkind : (Builtin.expand m).spec.kindFor 0 = .condition := by
    cases m with
    | branch | onlyIf | onlyUnless | loop => rfl
    | _ => cases hm
  cases h with
  | nil => exact ⟨rfl, rfl, .refl _⟩
  | @cons _ x y xs ys hxy hrest =>
    rw [hkind] at hxy
    unfold Condition.evaluate
    rw [Condition.evaluateWith_guarded hname hm, Condition.evaluateWith_guarded hname hm,
      hxy.toCondition, hxy.evaluate]
    cases y.toCondition with
    | error f => exact ⟨rfl, rfl, .read _ hargs⟩
    | ok c =>
      obtain ⟨hresult, hread, hsettled⟩ :=
        hrest.bodies hm (Builtin.expand m).name (.condition c)
      dsimp only
      rcases hx : m.bodies (Builtin.expand m).name (.condition c :: xs) with ⟨f | bodies, args⟩ <;>
      rcases hy : m.bodies (Builtin.expand m).name (.condition c :: ys) with ⟨g | others, args'⟩ <;>
      rw [hx, hy] at hresult hread hsettled <;> cases hresult
      · exact ⟨rfl, rfl, .read _ hread⟩
      · cases hsettled bodies rfl
        exact ⟨rfl, rfl, .refl _⟩

theorem evaluate {b : Builtin} (h : ArgsLate b.spec 0 xs ys) (place : Option Place) (e : Engine) :
    Turn.Matches Condition.SameReading ((Condition.call b.name xs).evaluate place e)
      ((Condition.call b.name ys).evaluate place e) := by
  have hname := Builtin.ofName?_name b
  cases b with
  | check c =>
    obtain rfl := h.eq_of_not_isReread fun _ _ => rfl
    exact ⟨rfl, rfl, .refl _⟩
  | compare r =>
    obtain rfl := h.eq_of_not_isReread fun i _ => by
      rcases i with _ | _ | i <;> rfl
    exact ⟨rfl, rfl, .refl _⟩
  | expand m =>
    rcases m.kinds with rfl | rfl | hm | hm
    · obtain ⟨houtcome, hengine, hrest⟩ := evaluateInOrder_late ((variadic_iff rfl).mp h) e
      rw [Condition.evaluate, Condition.evaluate, Condition.evaluateWith, Condition.evaluateWith,
        hname]
      exact ⟨houtcome, hengine, .read _ ((variadic_iff rfl).mpr hrest)⟩
    · obtain ⟨houtcome, hengine, hrest⟩ :=
        evaluateAnyOf_late place ((variadic_iff rfl).mp h) 0 e
      rw [Condition.evaluate, Condition.evaluate, Condition.evaluateWith, Condition.evaluateWith,
        hname]
      exact ⟨houtcome, hengine, .read _ ((variadic_iff rfl).mpr hrest)⟩
    · exact h.evaluate_guarded hm place e
    · obtain ⟨houtcome, hengine, hrest⟩ :=
        h.perform hm (Builtin.expand m).name place e
      rw [Condition.evaluate, Condition.evaluate, Condition.evaluateWith_perform hname hm,
        Condition.evaluateWith_perform hname hm]
      exact ⟨houtcome, hengine, .read _ hrest⟩

end ArgsLate

/-- A row inserts nothing, and nothing is left of it once it holds. -/
theorem evaluateInOrder_ends (late : Late) (xs : List Arg) (e : Engine) {v : Verdict}
    (h : (evaluateInOrder late xs e).outcome = .ok v) :
    v = .waiting ∨ v = .satisfied ∧ (evaluateInOrder late xs e).rest = [] := by
  cases xs with
  | nil =>
    cases h
    exact Or.inr ⟨rfl, by rw [evaluateInOrder]⟩
  | cons x xs =>
    rw [evaluateInOrder] at h ⊢
    split at h
    · cases h
    · split at h
      · next hholds =>
        cases h
        rw [if_pos hholds]
        cases xs with
        | nil => exact Or.inr ⟨rfl, rfl⟩
        | cons => exact Or.inl rfl
      · cases h
        exact Or.inl rfl

/-- A row in a row of its own answers what it answers without it, and what is left of it is in a
row of its own again, or nothing is left. -/
theorem Condition.evaluate_alone_row (xs : List Arg) (place : Option Place) (e : Engine) :
    Turn.Matches Condition.SameReading
      ((Condition.call (Builtin.expand .inOrder).name xs).alone.evaluate place e)
      ((Condition.call (Builtin.expand .inOrder).name xs).evaluate place e) := by
  have hrow : ∀ place, (Condition.call (Builtin.expand .inOrder).name xs).evaluateWith
      Condition.evaluateRead place e =
        let t := evaluateInOrder Condition.evaluateRead xs e
        ⟨t.outcome, .call (Builtin.expand .inOrder).name t.rest, t.engine⟩ := fun place => by
    rw [Condition.evaluateWith, Builtin.ofName?_name]
  have hends := fun v => evaluateInOrder_ends Condition.evaluateRead xs e (v := v)
  rw [Condition.evaluate, Condition.evaluate, hrow, Condition.alone, Condition.evaluateWith,
    Builtin.ofName?_name]
  dsimp only
  rw [evaluateInOrder, Arg.evaluateWith, hrow]
  generalize evaluateInOrder Condition.evaluateRead xs e = t at hends ⊢
  obtain ⟨outcome, rest, engine⟩ := t
  cases outcome with
  | error f => exact ⟨rfl, rfl, .alone rest⟩
  | ok v =>
    rcases hends v rfl with rfl | ⟨rfl, hrest⟩
    · exact ⟨rfl, rfl, .alone rest⟩
    · dsimp only at hrest
      subst hrest
      exact ⟨rfl, rfl, .refl _⟩

namespace Condition.SameReading

variable {c d : Condition}

/-- Conditions that are read at different times answer the same on the same engine. -/
theorem evaluate (h : c.SameReading d) (place : Option Place) (e : Engine) :
    Turn.Matches SameReading (c.evaluate place e) (d.evaluate place e) := by
  induction h with
  | refl c => exact ⟨rfl, rfl, .refl _⟩
  | read b h => exact h.evaluate place e
  | alone xs => exact Condition.evaluate_alone_row xs place e
  | symm _ ih => exact ⟨ih.outcome.symm, ih.engine.symm, ih.rest.symm⟩
  | trans _ _ ih ih' =>
    exact ⟨ih.outcome.trans ih'.outcome, ih.engine.trans ih'.engine, ih.rest.trans ih'.rest⟩

/-- They answer the same wherever they stand, on engines whose programs are read at different
times. -/
theorem evaluate_mirrored (h : c.SameReading d) (p q : Option Place) {a b : Engine}
    (hab : a.Mirrored SameReading b) :
    Alike (Engine.Mirrored SameReading) ((c.evaluate p a).outcome, (c.evaluate p a).engine)
      ((d.evaluate q b).outcome, (d.evaluate q b).engine) ∧
        (c.evaluate p a).rest.SameReading (d.evaluate q b).rest := by
  obtain ⟨houtcome, hengine, hrest⟩ := h.evaluate p a
  obtain ⟨houtcome', hrest', hengine'⟩ := d.evaluate_alike
    (Engine.Mirrored.agreement .refl) (q := q) trivial hab
  refine ⟨⟨houtcome.trans houtcome', ?_⟩, hrest' ▸ hrest⟩
  dsimp only
  rw [hengine]
  exact hengine'

theorem simulates : Simulates SameReading where
  refl := .refl
  evaluate h p q _ _ hab :=
    have hturn := h.evaluate_mirrored p q hab
    ⟨hturn.1.1, hturn.1.2, fun _ => hturn.2⟩

theorem keepsRests : KeepsRests SameReading :=
  fun h p q _ _ hab => (h.evaluate_mirrored p q hab).2

end Condition.SameReading

end TickScript
