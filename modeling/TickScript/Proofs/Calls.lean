import Mathlib.Data.List.Forall2
import TickScript.Engine.Evaluate
import TickScript.Proofs.Rows

/-!
# Calls inside conditions

Conditions hold conditions and steps in their arguments, and these hold conditions again.
`Condition.everyCall` asks something of every call in a condition, at whatever depth.

In a program that was read with all builtins known, no condition and no body is left unread:
an argument where one is expected was read, or is absent.

* `Condition.everyCall`, `stepsEveryCall`: a property of every call.
* `Condition.everyCall_setAt`: it stays when a condition inside is replaced.
* `Catalogue.readSteps_isRead`: what a program that was read looks like.
-/

namespace TickScript

mutual

/-- Every call in a condition has a property, at any depth. -/
def Condition.everyCall (P : String → List Arg → Bool) : Condition → Bool
  | .call name args => P name args && argsEveryCall P args
  | _ => true

def argsEveryCall (P : String → List Arg → Bool) : List Arg → Bool
  | [] => true
  | a :: rest => a.everyCall P && argsEveryCall P rest

def Arg.everyCall (P : String → List Arg → Bool) : Arg → Bool
  | .condition c => c.everyCall P
  | .steps body => stepsEveryCall P body
  | _ => true

def stepsEveryCall (P : String → List Arg → Bool) : List Step → Bool
  | [] => true
  | s :: rest => s.everyCall P && stepsEveryCall P rest

def Step.everyCall (P : String → List Arg → Bool) : Step → Bool
  | .mk _ c => c.everyCall P

end

section

variable {P Q : String → List Arg → Bool}

theorem Step.everyCall_eq (s : Step) : s.everyCall P = s.condition.everyCall P := by
  cases s
  rw [Step.everyCall]
  rfl

theorem argsEveryCall_iff (args : List Arg) :
    argsEveryCall P args = true ↔ ∀ a ∈ args, a.everyCall P = true := by
  induction args with
  | nil => simp [argsEveryCall]
  | cons a rest ih => simp [argsEveryCall, ih]

theorem stepsEveryCall_iff (steps : List Step) :
    stepsEveryCall P steps = true ↔ ∀ s ∈ steps, s.condition.everyCall P = true := by
  induction steps with
  | nil => simp [stepsEveryCall]
  | cons s rest ih => simp [stepsEveryCall, ih, s.everyCall_eq]

theorem stepsEveryCall_cons (i : Inputs) (c : Condition) (rest : List Step) :
    stepsEveryCall P (.mk i c :: rest) = true ↔
      c.everyCall P = true ∧ stepsEveryCall P rest = true := by
  rw [stepsEveryCall, Step.everyCall, Bool.and_eq_true]

theorem Condition.everyCall_call (name : String) (args : List Arg) :
    (Condition.call name args).everyCall P = true ↔
      P name args = true ∧ ∀ a ∈ args, a.everyCall P = true := by
  rw [Condition.everyCall, Bool.and_eq_true, argsEveryCall_iff]

mutual

/-- Two properties of every call are one. -/
theorem Condition.everyCall_and : ∀ c : Condition, c.everyCall P = true → c.everyCall Q = true →
    c.everyCall (fun name args => P name args && Q name args) = true
  | .countdown n, _, _ => rfl
  | .toggle f, _, _ => rfl
  | .native test label, _, _ => rfl
  | .call name args, hp, hq => by
    rw [Condition.everyCall, Bool.and_eq_true] at hp hq ⊢
    exact ⟨Bool.and_eq_true_iff.mpr ⟨hp.1, hq.1⟩, argsEveryCall_and args hp.2 hq.2⟩

theorem argsEveryCall_and : ∀ args : List Arg, argsEveryCall P args = true →
    argsEveryCall Q args = true →
    argsEveryCall (fun name args => P name args && Q name args) args = true
  | [], _, _ => rfl
  | a :: rest, hp, hq => by
    rw [argsEveryCall, Bool.and_eq_true] at hp hq ⊢
    exact ⟨a.everyCall_and hp.1 hq.1, argsEveryCall_and rest hp.2 hq.2⟩

theorem Arg.everyCall_and : ∀ a : Arg, a.everyCall P = true → a.everyCall Q = true →
    a.everyCall (fun name args => P name args && Q name args) = true
  | .condition c, hp, hq => by
    rw [Arg.everyCall] at hp hq ⊢
    exact c.everyCall_and hp hq
  | .steps body, hp, hq => by
    rw [Arg.everyCall] at hp hq ⊢
    exact stepsEveryCall_and body hp hq
  | .raw v, _, _ => rfl
  | .inputs i, _, _ => rfl
  | .choices list, _, _ => rfl
  | .script entries, _, _ => rfl

theorem stepsEveryCall_and : ∀ steps : List Step, stepsEveryCall P steps = true →
    stepsEveryCall Q steps = true →
    stepsEveryCall (fun name args => P name args && Q name args) steps = true
  | [], _, _ => rfl
  | .mk i c :: rest, hp, hq => by
    rw [stepsEveryCall_cons] at hp hq ⊢
    exact ⟨c.everyCall_and hp.1 hq.1, stepsEveryCall_and rest hp.2 hq.2⟩

end

end

/-! ## Conditions inside -/

/-- Two arguments are the same, or both are conditions. -/
inductive Arg.Swapped : Arg → Arg → Prop
  | same (a : Arg) : Swapped a a
  | condition (c d : Condition) : Swapped (.condition c) (.condition d)

/-- The argument at a position with one of its conditions replaced. -/
def Arg.setAt (new : Condition) (path : List Nat) : Arg → Arg
  | .condition c => .condition (Condition.setAt new path c)
  | a => a

theorem Condition.setAt_call (new : Condition) (i : Nat) (path : List Nat) (name : String)
    (args : List Arg) : Condition.setAt new (i :: path) (.call name args) =
      .call name (args.modify i (Arg.setAt new path)) := by
  rw [Condition.setAt]
  congr 2

theorem Arg.setAt_swapped (new : Condition) (path : List Nat) (a : Arg) :
    Swapped a (a.setAt new path) := by
  cases a with
  | condition c => exact .condition _ _
  | _ => exact .same _

/-- What is asked of a call has nothing to do with the conditions among its arguments. -/
def Unswayed (P : String → List Arg → Bool) : Prop :=
  ∀ name {args args' : List Arg}, List.Forall₂ Arg.Swapped args args' →
    P name args = true → P name args' = true

theorem swapped_modify (args : List Arg) (i : Nat) (new : Condition) (path : List Nat) :
    List.Forall₂ Arg.Swapped args (args.modify i (Arg.setAt new path)) := by
  induction args generalizing i with
  | nil => cases i <;> exact .nil
  | cons a rest ih =>
    cases i with
    | zero => exact .cons (a.setAt_swapped new path) (List.forall₂_same.mpr fun _ _ => .same _)
    | succ i => exact .cons (.same a) (ih i)

theorem Condition.everyCall_setAt {P : String → List Arg → Bool} (hP : Unswayed P)
    {new : Condition} (hnew : new.everyCall P = true) : ∀ (path : List Nat) (c : Condition),
    c.everyCall P = true → (Condition.setAt new path c).everyCall P = true
  | [], c, _ => by rwa [Condition.setAt]
  | i :: path, .call name args, hc => by
    rw [Condition.everyCall_call] at hc
    rw [Condition.setAt_call, Condition.everyCall_call]
    refine ⟨hP name (swapped_modify args i new path) hc.1, ?_⟩
    intro a ha
    obtain ⟨j, hj⟩ := List.getElem?_of_mem ha
    rw [List.getElem?_modify] at hj
    obtain ⟨b, hb, hab⟩ := Option.map_eq_some_iff.mp hj
    have hold := hc.2 b (List.mem_of_getElem? hb)
    split at hab
    · subst hab
      cases b with
      | condition d =>
        rw [Arg.everyCall] at hold
        rw [Arg.setAt, Arg.everyCall]
        exact everyCall_setAt hP hnew path d hold
      | _ => exact hold
    · subst hab
      exact hold
  | _ :: _, .countdown n, hc => hc
  | _ :: _, .toggle f, hc => hc
  | _ :: _, .native test label, hc => hc

/-! ## Programs that were read -/

/-- Conditions and steps, which are evaluated or inserted later on. -/
def ParamKind.isCode : ParamKind → Bool
  | .condition | .steps => true
  | _ => false

/-- Every argument of an expander that takes any number of them is a condition. -/
theorem Expander.kindFor_of_isVariadic {m : Expander} (hm : m.isVariadic = true) (index : Nat) :
    (Builtin.expand m).spec.kindFor index = .condition := by
  cases m with
  | inOrder | anyOf => cases index <;> rfl
  | _ => cases hm

/-- A value that is there and was not read. -/
def Arg.isUnread : Arg → Bool
  | .raw v => !v.isNull
  | _ => false

/-- From a position on, conditions and steps were read. -/
def isCodeRead (spec : Spec) : Nat → List Arg → Bool
  | _, [] => true
  | index, a :: rest =>
    (!(spec.kindFor index).isCode || !a.isUnread) && isCodeRead spec (index + 1) rest

/-- The conditions and steps among the arguments of a call were read. -/
def isReadCall (name : String) (args : List Arg) : Bool :=
  match Catalogue.standard.spec? name with
  | none => true
  | some spec => isCodeRead spec 0 args

theorem Arg.Swapped.isUnread {a b : Arg} (h : Swapped a b) : b.isUnread = a.isUnread := by
  cases h <;> rfl

theorem isCodeRead_swapped {args args' : List Arg} (h : List.Forall₂ Arg.Swapped args args')
    (spec : Spec) (index : Nat) :
    isCodeRead spec index args' = isCodeRead spec index args := by
  induction h generalizing index with
  | nil => rfl
  | cons hab _ ih => rw [isCodeRead, isCodeRead, hab.isUnread, ih]

theorem unswayed_isReadCall : Unswayed isReadCall := by
  intro name args args' hswapped h
  unfold isReadCall at h ⊢
  split at h
  · rfl
  · rwa [isCodeRead_swapped hswapped]

theorem isUnread_of_isCodeRead {spec : Spec} {index i : Nat} {args : List Arg} {a : Arg}
    (h : isCodeRead spec index args = true) (ha : args[i]? = some a)
    (hcode : (spec.kindFor (index + i)).isCode = true) : a.isUnread = false := by
  induction args generalizing index i with
  | nil => cases ha
  | cons b rest ih =>
    rw [isCodeRead, Bool.and_eq_true] at h
    cases i with
    | zero =>
      cases ha
      rw [Nat.add_zero] at hcode
      simpa [hcode] using h.1
    | succ i => exact ih h.2 ha (by rwa [Nat.add_right_comm, Nat.add_assoc])

/-- Nothing is left unread where a builtin takes conditions or steps. -/
theorem isUnread_of_isReadCall {m : Expander} {name : String} {args : List Arg} {i : Nat} {a : Arg}
    (hname : Builtin.ofName? name = some (.expand m)) (h : isReadCall name args = true)
    (ha : args[i]? = some a) (hcode : ((Builtin.expand m).spec.kindFor i).isCode = true) :
    a.isUnread = false := by
  have hspec : Catalogue.standard.spec? name = some (Builtin.expand m).spec :=
    congrArg (Option.map Builtin.spec) hname
  rw [isReadCall, hspec] at h
  exact isUnread_of_isCodeRead h ha (by rwa [Nat.zero_add])

/-- Where any number of conditions is taken, all of them were read. -/
theorem isUnread_of_isVariadic {m : Expander} (hm : m.isVariadic = true) {name : String}
    {args : List Arg} (hname : Builtin.ofName? name = some (.expand m))
    (h : isReadCall name args = true) : ∀ a ∈ args, a.isUnread = false := by
  intro a ha
  obtain ⟨i, hi⟩ := List.mem_iff_getElem?.mp ha
  refine isUnread_of_isReadCall hname h hi ?_
  rw [Expander.kindFor_of_isVariadic hm]
  rfl

theorem isCodeRead_of_read {args : List Arg} (h : ∀ a ∈ args, a.isUnread = false) (spec : Spec)
    (index : Nat) : isCodeRead spec index args = true := by
  induction args generalizing index with
  | nil => rfl
  | cons a rest ih =>
    rw [isCodeRead, h a List.mem_cons_self, ih fun b hb => h b (List.mem_cons_of_mem a hb)]
    exact Bool.and_true _ |>.trans (Bool.or_true _)

/-- What is read from the arguments of a call. -/
def AreRead (spec : Spec) (index : Nat) (args : List Arg) : Prop :=
  isCodeRead spec index args = true ∧ argsEveryCall isReadCall args = true

theorem ofWord_isRead (s : String) : (Condition.ofWord s).everyCall isReadCall = true := by
  unfold Condition.ofWord
  split
  · rfl
  · rw [Condition.everyCall_call]
    refine ⟨?_, nofun⟩
    unfold isReadCall
    split <;> rfl

theorem readWords_isRead : ∀ (words : List String) {steps : List Step},
    readWords words = .ok steps → stepsEveryCall isReadCall steps = true
  | [], _, h => by
    cases h
    rfl
  | s :: rest, steps, h => by
    unfold readWords at h
    split at h
    · obtain ⟨read, hread, h⟩ := exists_of_bind_ok h
      cases h
      exact (stepsEveryCall_cons _ _ _).mpr ⟨rfl, readWords_isRead rest hread⟩
    · split at h
      · cases h
      · next word rest' =>
        obtain ⟨inputs, -, h⟩ := exists_of_bind_ok h
        obtain ⟨read, hread, h⟩ := exists_of_bind_ok h
        cases h
        exact (stepsEveryCall_cons _ _ _).mpr ⟨ofWord_isRead word, readWords_isRead rest' hread⟩

namespace Catalogue

theorem isNull_of_readCondition {known : Catalogue} {v : Value} {c : Condition}
    (h : known.readCondition v = .ok c) : v.isNull = false := by
  cases v with
  | null => exact absurd h (by rintro ⟨⟩)
  | _ => rfl

/-- Where any number of conditions is taken, they are read one by one. -/
theorem readArgs_cons_of_isVariadic {m : Expander} (hm : m.isVariadic = true) {v : Value}
    (hnull : v.isNull = false) (index : Nat) (rest : List Value) :
    standard.readArgs (Builtin.expand m).spec index (v :: rest) =
      (standard.readCondition v).bind fun c =>
        (standard.readArgs (Builtin.expand m).spec (index + 1) rest).map (.condition c :: ·) := by
  rw [readArgs, hnull, if_neg Bool.false_ne_true, Expander.kindFor_of_isVariadic hm]
  dsimp only
  cases standard.readCondition v with
  | error f => rfl
  | ok c => cases standard.readArgs (Builtin.expand m).spec (index + 1) rest <;> rfl

theorem exists_of_isWrapped {args : List Value} (h : isWrapped args = true) :
    ∃ items rest, args = [.list (.list items :: rest)] := by
  unfold isWrapped at h
  split at h
  · next items rest => exact ⟨items, rest, rfl⟩
  · cases h

/-- A list that starts with a list is a row of conditions. -/
theorem readCondition_row {items rest : List Value} {c : Condition}
    (h : standard.readCondition (.list (.list items :: rest)) = .ok c) :
    ∃ args, c = .call (Builtin.expand .inOrder).name args := by
  rw [readCondition] at h
  obtain ⟨args, -, rfl⟩ := exists_of_map_ok h
  exact ⟨args, rfl⟩

theorem readCall_isRead {name : String} {values : List Value}
    {plain wrapped : Spec → Except Fault (List Arg)}
    (hplain : ∀ spec args, plain spec = .ok args → AreRead spec 0 args)
    (hwrapped : ∀ spec args, wrapped spec = .ok args → AreRead spec 0 args) {c : Condition}
    (h : standard.readCall name values plain wrapped = .ok c) :
    c.everyCall isReadCall = true := by
  unfold readCall at h
  split at h
  · next hspec =>
    cases h
    rw [Condition.everyCall_call, isReadCall, hspec]
    refine ⟨rfl, ?_⟩
    rintro a ha
    obtain ⟨v, -, rfl⟩ := List.mem_map.mp ha
    rfl
  · next spec hspec =>
    obtain ⟨args, hargs, rfl⟩ := exists_of_map_ok h
    have hread : AreRead spec 0 args := by
      split at hargs
      · exact hwrapped spec args hargs
      · exact hplain spec args hargs
    rw [Condition.everyCall, isReadCall, hspec, Bool.and_eq_true]
    exact hread

mutual

theorem readCondition_isRead (v : Value) {c : Condition} (h : standard.readCondition v = .ok c) :
    c.everyCall isReadCall = true := by
  unfold readCondition at h
  split at h
  · cases h
    rfl
  · cases h
    exact ofWord_isRead _
  · cases h
    rfl
  · cases h
  · next items rest =>
    exact readCall_isRead (fun spec _ => readArgs_isRead spec 0 (.list items :: rest))
      (fun spec _ => readArgs_isRead spec 0 items) h
  · cases h
    rfl
  · cases h
  · split at h
    · cases h
      rfl
    · next name args _ _ _ =>
      exact readCall_isRead (fun spec _ => readArgs_isRead spec 0 args)
        (fun spec _ => readWrapped_isRead spec args) h
  · cases h
    rfl
  · cases h
    rfl
  · cases h
termination_by sizeOf v

theorem readArgs_isRead (spec : Spec) (index : Nat) (vs : List Value) {args : List Arg}
    (h : standard.readArgs spec index vs = .ok args) : AreRead spec index args := by
  cases vs with
  | nil =>
    rw [readArgs] at h
    cases h
    exact ⟨rfl, rfl⟩
  | cons v rest =>
    rw [readArgs] at h
    obtain ⟨a, hfirst, h⟩ : ∃ a, ((!(spec.kindFor index).isCode || !a.isUnread) = true ∧
        a.everyCall isReadCall = true) ∧
        (standard.readArgs spec (index + 1) rest >>= fun read => .ok (a :: read)) = .ok args := by
      split at h
      · next hnull =>
        refine ⟨.raw v, ⟨?_, rfl⟩, h⟩
        rw [Arg.isUnread, hnull]
        exact Bool.or_true _
      · split at h
        · obtain ⟨a, ha, h⟩ := exists_of_bind_ok h
          obtain ⟨c, hc, rfl⟩ := exists_of_map_ok ha
          exact ⟨.condition c, ⟨Bool.or_true _, readCondition_isRead v hc⟩, h⟩
        · obtain ⟨a, ha, h⟩ := exists_of_bind_ok h
          obtain ⟨body, hbody, rfl⟩ := exists_of_map_ok ha
          exact ⟨.steps body, ⟨Bool.or_true _, readSteps_isRead v hbody⟩, h⟩
        · obtain ⟨a, ha, h⟩ := exists_of_bind_ok h
          obtain ⟨i, -, rfl⟩ := exists_of_map_ok ha
          exact ⟨_, ⟨Bool.or_true _, rfl⟩, h⟩
        · obtain ⟨a, ha, h⟩ := exists_of_bind_ok h
          obtain ⟨list, -, rfl⟩ := exists_of_map_ok ha
          exact ⟨_, ⟨Bool.or_true _, rfl⟩, h⟩
        · obtain ⟨a, ha, h⟩ := exists_of_bind_ok h
          obtain ⟨entries, -, rfl⟩ := exists_of_map_ok ha
          exact ⟨_, ⟨Bool.or_true _, rfl⟩, h⟩
        · next hkind =>
          rw [hkind]
          exact ⟨.raw v, ⟨rfl, rfl⟩, h⟩
        · next hkind =>
          rw [hkind]
          exact ⟨.raw v, ⟨rfl, rfl⟩, h⟩
    obtain ⟨read, hread, h⟩ := exists_of_bind_ok h
    cases h
    obtain ⟨hcode, hcalls⟩ := readArgs_isRead spec (index + 1) rest hread
    rw [AreRead, isCodeRead, argsEveryCall, Bool.and_eq_true, Bool.and_eq_true]
    exact ⟨⟨hfirst.1, hcode⟩, hfirst.2, hcalls⟩
termination_by sizeOf vs

theorem readWrapped_isRead (spec : Spec) (vs : List Value) {args : List Arg}
    (h : standard.readWrapped spec vs = .ok args) : AreRead spec 0 args := by
  unfold readWrapped at h
  split at h
  · next items _ => exact readArgs_isRead spec 0 items h
  · cases h
    exact ⟨rfl, rfl⟩
termination_by sizeOf vs

/-- In a program that was read, every condition and every body was. -/
theorem readSteps_isRead (v : Value) {steps : List Step} (h : standard.readSteps v = .ok steps) :
    stepsEveryCall isReadCall steps = true := by
  unfold readSteps at h
  split at h
  · next cells => exact readCells_isRead cells h
  · exact readWords_isRead _ h
  · exact readWords_isRead _ h
  · cases h
termination_by sizeOf v

theorem readCells_isRead (vs : List Value) {steps : List Step}
    (h : standard.readCells vs = .ok steps) : stepsEveryCall isReadCall steps = true := by
  cases firstRow h with
  | none => rfl
  | held _ _ hc hrest =>
    exact (stepsEveryCall_cons _ _ _).mpr ⟨readCondition_isRead _ hc, readCells_isRead _ hrest⟩
  | alone _ hc hrest =>
    exact (stepsEveryCall_cons _ _ _).mpr ⟨readCondition_isRead _ hc, readCells_isRead _ hrest⟩
termination_by sizeOf vs

end

end Catalogue

end TickScript
