import TickScript.Proofs.Calls
import TickScript.Proofs.Inserting
import TickScript.Proofs.Probing
import TickScript.Proofs.Untouched

/-!
# Programs that yield

A program is guarded if every loop in it, at whatever depth, has a step in its body that waits
for sure: a countdown that has not come to zero. A walk through such a program comes to an
end, although conditions insert steps in front of the ones that are left, blocks are repeated
and loops insert themselves.

The measure counts the steps up to the first one that waits for sure, each with all that it
may insert on the way (`Condition.weight`, `untilHold`). What a loop inserts counts up to the
step in its body that waits, and so without the loop itself.

* `Condition.evaluateWith_spends`: an evaluation adds no more than the weight of the condition.
* `Engine.IsSound.leave_falls`: leaving a step lowers the measure.
* `Engine.guarded_tick_ends`: every tick of a guarded program comes to an end.
-/

namespace TickScript

/-! ## Guarded programs -/

/-- Waits for sure when its turn comes. -/
def Step.isHold : Step → Bool
  | .mk _ (.countdown n) => n ≠ 0
  | _ => false

/-- Steps of which one waits for sure. -/
def Arg.isHolding : Arg → Bool
  | .steps body => body.any Step.isHold
  | _ => false

/-- If it is a loop, its body has a step that waits for sure. -/
def isGuardedCall (name : String) (args : List Arg) : Bool :=
  Builtin.ofName? name ≠ some (.expand .loop) || (args[1]?).any Arg.isHolding

/-- Read, and guarded. -/
def isSoundCall (name : String) (args : List Arg) : Bool :=
  isReadCall name args && isGuardedCall name args

def Condition.IsSound (c : Condition) : Prop := c.everyCall isSoundCall = true

def Arg.IsSound (a : Arg) : Prop := a.everyCall isSoundCall = true

theorem Arg.Swapped.isHolding {a b : Arg} (h : Swapped a b) : b.isHolding = a.isHolding := by
  cases h <;> rfl

theorem unswayed_isSoundCall : Unswayed isSoundCall := by
  intro name args args' hswapped h
  rw [isSoundCall, Bool.and_eq_true] at h ⊢
  have hbody : (args'[1]?).any Arg.isHolding = (args[1]?).any Arg.isHolding := by
    cases hswapped with
    | nil => rfl
    | cons _ hrest =>
      cases hrest with
      | nil => rfl
      | cons hab _ => exact hab.isHolding
  refine ⟨unswayed_isReadCall name hswapped h.1, ?_⟩
  rw [isGuardedCall, hbody]
  exact h.2

/-! ## Weights -/

/-- How often a call may repeat a block. -/
def repetitions : List Arg → Nat
  | [] => 0
  | count :: _ =>
    match count.toValue.toInt with
    | .ok n => n.toNat
    | .error _ => 0

mutual

/-- How many steps an evaluation may insert, with all that these may insert in their turn. The
arguments are evaluated, and inserted once or as often as the call says. -/
def Condition.weight : Condition → Nat
  | .call _ args => (2 + repetitions args) * argsWeight args + 1
  | _ => 0

def argsWeight : List Arg → Nat
  | [] => 0
  | a :: rest => a.weight + argsWeight rest

def Arg.weight : Arg → Nat
  | .condition c => c.weight
  | .steps body => stepsWeight body
  | _ => 0

def stepsWeight : List Step → Nat
  | [] => 0
  | s :: rest => s.weight + stepsWeight rest

def Step.weight : Step → Nat
  | .mk _ c => c.weight + 1

end

theorem Condition.weight_call (name : String) (args : List Arg) :
    (Condition.call name args).weight =
      argsWeight args + argsWeight args + repetitions args * argsWeight args + 1 := by
  rw [Condition.weight, Nat.add_mul, Nat.two_mul]

/-- The weight of all steps in front of the first one that waits for sure. -/
def untilHold : List Step → Nat
  | [] => 0
  | s :: rest => if s.isHold then 0 else s.weight + untilHold rest

theorem weight_le_argsWeight {args : List Arg} {i : Nat} {a : Arg} (h : args[i]? = some a) :
    a.weight ≤ argsWeight args := by
  induction args generalizing i with
  | nil => cases h
  | cons b rest ih =>
    rw [argsWeight]
    cases i with
    | zero =>
      cases h
      omega
    | succ i =>
      have hrest := ih h
      omega

theorem untilHold_le (steps : List Step) : untilHold steps ≤ stepsWeight steps := by
  induction steps with
  | nil => exact Nat.le_refl _
  | cons s rest ih =>
    rw [untilHold, stepsWeight]
    split <;> omega

theorem stepsWeight_append (xs ys : List Step) :
    stepsWeight (xs ++ ys) = stepsWeight xs + stepsWeight ys := by
  induction xs with
  | nil => simp [stepsWeight]
  | cons s rest ih => simp [stepsWeight, ih, Nat.add_assoc]

theorem stepsWeight_replicate (n : Nat) (body : List Step) :
    stepsWeight (List.replicate n body).flatten = n * stepsWeight body := by
  induction n with
  | zero => simp [stepsWeight]
  | succ n ih => simp [List.replicate_succ, stepsWeight_append, ih, Nat.succ_mul, Nat.add_comm]

theorem untilHold_append_le (xs ys : List Step) :
    untilHold (xs ++ ys) ≤ untilHold xs + untilHold ys := by
  induction xs with
  | nil => simp [untilHold]
  | cons s rest ih =>
    rw [List.cons_append, untilHold, untilHold]
    split
    · exact Nat.zero_le _
    · omega

/-- Behind a step that waits for sure, nothing counts. -/
theorem untilHold_append_of_hold {xs : List Step} (h : xs.any Step.isHold = true)
    (ys : List Step) : untilHold (xs ++ ys) = untilHold xs := by
  induction xs with
  | nil => cases h
  | cons s rest ih =>
    rw [List.cons_append, untilHold, untilHold]
    split
    · rfl
    · next hs => rw [ih (by simpa [hs] using h)]

/-! ## Arguments of sound calls -/

theorem Condition.isSound_call {name : String} {args : List Arg} :
    (Condition.call name args).IsSound ↔
      isReadCall name args = true ∧ isGuardedCall name args = true ∧ ∀ a ∈ args, a.IsSound := by
  rw [IsSound, everyCall_call, isSoundCall, Bool.and_eq_true, and_assoc]
  rfl

theorem Condition.isSound_countdown (n : Int) : (Condition.countdown n).IsSound := rfl

/-- The steps at a position are those that were read, or none. -/
theorem stepsAt_cases {args : List Arg} {index : Nat}
    (h : ∀ a, args[index]? = some a → a.isUnread = false) (name : String) (required : Bool) :
    (stepsAt name index required args).2 = args ∧
      ∀ body, (stepsAt name index required args).1 = .ok body →
        body = [] ∨ args[index]? = some (.steps body) := by
  have hnone : ∀ body : List Step, (if required then Except.error (Fault.missingArgument name index)
      else .ok []) = .ok body → body = [] := by
    intro body hbody
    split at hbody
    · cases hbody
    · cases hbody
      rfl
  cases ha : args[index]? with
  | none =>
    rw [stepsAt, ha]
    exact ⟨rfl, fun body hbody => .inl (hnone body hbody)⟩
  | some a =>
    have hread := h a ha
    cases a with
    | steps body =>
      rw [stepsAt_of_steps ha]
      refine ⟨rfl, fun body' hbody => ?_⟩
      cases hbody
      exact .inr rfl
    | raw v =>
      cases v with
      | null =>
        rw [stepsAt, ha]
        exact ⟨rfl, fun body hbody => .inl (hnone body hbody)⟩
      | _ => cases hread
    | _ =>
      rw [stepsAt, ha]
      exact ⟨rfl, nofun⟩

/-- Steps that a call may insert: all are sound, and they weigh no more than the arguments. -/
structure Inserts (args : List Arg) (body : List Step) : Prop where
  sound : ∀ s ∈ body, s.condition.IsSound
  weight : stepsWeight body ≤ argsWeight args

theorem Inserts.nil (args : List Arg) : Inserts args [] := ⟨nofun, Nat.zero_le _⟩

theorem Inserts.of_steps {args : List Arg} {i : Nat} {body : List Step}
    (hsound : ∀ a ∈ args, a.IsSound) (h : args[i]? = some (.steps body)) : Inserts args body := by
  refine ⟨?_, weight_le_argsWeight h⟩
  exact (stepsEveryCall_iff body).mp (hsound _ (List.mem_of_getElem? h))

/-! ## What a condition may do -/

/-- The three conditions of a probe are sound. -/
structure Probe.IsSound (q : Probe) : Prop where
  failLow : q.failLow.IsSound
  failHigh : q.failHigh.IsSound
  success : q.success.IsSound

namespace Engine

/-- The program and an open probe hold sound conditions only. -/
structure IsSound (e : Engine) : Prop where
  steps : ∀ p, e.program = some p → ∀ s ∈ p.steps, s.condition.IsSound
  probe : ∀ q, e.probe = some q → q.IsSound

/-- A step of the program stands at the cursor. -/
def HasCurrent (e : Engine) : Prop := ∃ p, e.program = some p ∧ p.cursor < p.steps.length

/-- The weight of the steps behind the step at the cursor, up to one that waits for sure. -/
def ahead (e : Engine) : Nat :=
  match e.program with
  | none => 0
  | some p => untilHold p.pending

/-- Sound steps are inserted, of so much weight at most. -/
structure Spends (n : Nat) (a b : Engine) : Prop where
  sound : a.IsSound → b.IsSound
  bound : a.HasCurrent → b.HasCurrent ∧ b.ahead ≤ a.ahead + n

namespace Spends

variable {m n : Nat} {a b c : Engine}

theorem refl (a : Engine) : Spends n a a := ⟨id, fun h => ⟨h, Nat.le_add_right _ _⟩⟩

theorem trans (h : Spends m a b) (g : Spends n b c) : Spends (m + n) a c := by
  refine ⟨fun ha => g.sound (h.sound ha), fun ha => ?_⟩
  obtain ⟨hb, hab⟩ := h.bound ha
  obtain ⟨hc, hbc⟩ := g.bound hb
  exact ⟨hc, by omega⟩

theorem mono (h : Spends m a b) (hle : m ≤ n) : Spends n a b := by
  refine ⟨h.sound, fun ha => ?_⟩
  obtain ⟨hb, hab⟩ := h.bound ha
  exact ⟨hb, by omega⟩

theorem same (h : Spends n a b) (hprogram : c.program = b.program) (hprobe : c.probe = b.probe) :
    Spends n a c := by
  refine ⟨fun ha => ⟨?_, ?_⟩, fun ha => ?_⟩
  · rw [hprogram]
    exact (h.sound ha).steps
  · rw [hprobe]
    exact (h.sound ha).probe
  · obtain ⟨hb, hab⟩ := h.bound ha
    rw [HasCurrent, ahead, hprogram]
    exact ⟨hb, hab⟩

theorem lookOverlay (h : Spends n a b) : Spends n a b.lookOverlay.2 := by
  obtain ⟨_, _, _, hlook⟩ := b.lookOverlay_snd
  rw [hlook]
  exact h.same rfl rfl

end Spends

theorem expand_spends {n : Nat} {body : List Step} (hbody : ∀ s ∈ body, s.condition.IsSound)
    (hle : untilHold body ≤ n) (e : Engine) : Spends n e (e.expand body).2 := by
  unfold expand splice
  split
  · cases hp : e.program with
    | none => exact .refl e
    | some p =>
      refine ⟨fun he => ⟨?_, he.probe⟩, ?_⟩
      · rintro _ ⟨⟩ s hs
        have hold := he.steps p hp
        rw [Program.splice, List.mem_append, List.mem_append] at hs
        obtain (hs | hs) | hs := hs
        · exact hold s (List.mem_of_mem_take hs)
        · exact hbody s hs
        · exact hold s (List.mem_of_mem_drop hs)
      · rintro ⟨p', hp', hcursor⟩
        cases hp.symm.trans hp'
        refine ⟨⟨_, rfl, Nat.lt_of_lt_of_le hcursor (p.length_le_splice body)⟩, ?_⟩
        have hinserted := untilHold_append_le body p.pending
        rw [ahead, ahead, hp]
        dsimp only
        rw [p.pending_splice hcursor]
        omega
  · exact .refl e

theorem inserts_spends {n : Nat} {args : List Arg} {body : List Step} (hbody : Inserts args body)
    (hle : argsWeight args ≤ n) (e : Engine) : Spends n e (e.expand body).2 :=
  expand_spends hbody.sound (Nat.le_trans (untilHold_le body) (Nat.le_trans hbody.weight hle)) e

/-- Holding an input for some ticks. -/
theorem hold_spends (i : Inputs) (ticks : Int) (e : Engine) :
    Spends 1 e (e.expand [.mk i (.countdown ticks)]).2 := by
  have hweight : stepsWeight [.mk i (.countdown ticks)] = 1 := rfl
  refine expand_spends ?_ (Nat.le_trans (untilHold_le _) (Nat.le_of_eq hweight)) e
  intro s hs
  cases List.mem_singleton.mp hs
  exact Condition.isSound_countdown ticks

theorem withProbe_spends {n : Nat} {a b : Engine} (h : Spends n a b) {q : Probe} (hq : q.IsSound) :
    Spends n a (b.withProbe (some q)) := by
  refine ⟨fun ha => ⟨(h.sound ha).steps, ?_⟩, h.bound⟩
  rintro _ ⟨⟩
  exact hq

/-! ## Plain expanders -/

/-- An argument that is read as a condition was one. -/
theorem isSound_toCondition {args : List Arg} {i : Nat} {c : Condition}
    (hsound : ∀ a ∈ args, a.IsSound) (hread : ∀ a, args[i]? = some a → a.isUnread = false)
    (h : (args.getD i (.raw .null)).toCondition = .ok c) : c.IsSound := by
  cases ha : args[i]? with
  | none =>
    rw [List.getD_eq_getElem?_getD, ha] at h
    cases h
  | some a =>
    rw [List.getD_eq_getElem?_getD, ha, Option.getD_some] at h
    have hsound := hsound a (List.mem_of_getElem? ha)
    have hread := hread a ha
    cases a with
    | condition d =>
      cases h
      exact hsound
    | raw v =>
      cases v with
      | null => cases h
      | _ => cases hread
    | _ => cases h

theorem isSound_readProbe {name : String} {args : List Arg} {place : Option Place} {q : Probe}
    (hname : Builtin.ofName? name = some (.expand .optimize))
    (hcall : (Condition.call name args).IsSound) (h : readProbe args place = .ok q) :
    q.IsSound := by
  obtain ⟨hread, -, hsound⟩ := Condition.isSound_call.mp hcall
  have hcode : ∀ i, ((Builtin.expand .optimize).spec.kindFor i).isCode = true →
      ∀ a, args[i]? = some a → a.isUnread = false :=
    fun i hi a ha => isUnread_of_isReadCall hname hread ha hi
  unfold readProbe at h
  obtain ⟨inputs, -, h⟩ := exists_of_bind_ok h
  obtain ⟨mode, -, h⟩ := exists_of_bind_ok h
  obtain ⟨failLow, hlow, h⟩ := exists_of_bind_ok h
  obtain ⟨failHigh, hhigh, h⟩ := exists_of_bind_ok h
  obtain ⟨success, hsuccess, h⟩ := exists_of_bind_ok h
  cases h
  exact ⟨isSound_toCondition hsound (hcode 2 rfl) hlow,
    isSound_toCondition hsound (hcode 3 rfl) hhigh,
    isSound_toCondition hsound (hcode 4 rfl) hsuccess⟩

section

variable {m : Expander} {name : String} {args : List Arg}

/-- The steps at a position are sound and weigh no more than the arguments. -/
theorem stepsAt_inserts (hname : Builtin.ofName? name = some (.expand m))
    (hcall : (Condition.call name args).IsSound) (index : Nat)
    (hcode : ((Builtin.expand m).spec.kindFor index).isCode = true) (required : Bool) :
    (stepsAt name index required args).2 = args ∧
      ∀ body, (stepsAt name index required args).1 = .ok body → Inserts args body := by
  obtain ⟨hread, -, hsound⟩ := Condition.isSound_call.mp hcall
  obtain ⟨hargs, hsteps⟩ := stepsAt_cases
    (fun a ha => isUnread_of_isReadCall hname hread ha hcode) name required
  refine ⟨hargs, fun body hbody => ?_⟩
  obtain rfl | hbody := hsteps body hbody
  · exact .nil args
  · exact .of_steps hsound hbody

theorem performInsert_spends (hname : Builtin.ofName? name = some (.expand .insert))
    (hcall : (Condition.call name args).IsSound) (e : Engine) :
    (e.performInsert name args).rest = args ∧
      Spends (argsWeight args) e (e.performInsert name args).engine := by
  obtain ⟨hargs, hsteps⟩ := stepsAt_inserts hname hcall 0 rfl true
  unfold performInsert
  split
  · next heq =>
    rw [heq] at hargs
    exact ⟨hargs, .refl e⟩
  · next heq =>
    rw [heq] at hargs hsteps
    exact ⟨hargs, inserts_spends (hsteps _ rfl) (Nat.le_refl _) e⟩

theorem performRepeated_spends (hname : Builtin.ofName? name = some (.expand .repeated))
    (hcall : (Condition.call name args).IsSound) (e : Engine) :
    (e.performRepeated name args).rest = args ∧
      Spends (repetitions args * argsWeight args) e (e.performRepeated name args).engine := by
  obtain ⟨hargs, hsteps⟩ := stepsAt_inserts hname hcall 1 rfl true
  unfold performRepeated
  split
  · exact ⟨rfl, .refl e⟩
  · next count rest =>
    split
    · exact ⟨rfl, .refl e⟩
    · next n hn =>
      split
      · next heq =>
        rw [heq] at hargs
        exact ⟨hargs, .refl e⟩
      · next body _ heq =>
        rw [heq] at hargs hsteps
        have hrepeats : repetitions (count :: rest) = n.toNat := by rw [repetitions, hn]
        have hbody := Nat.mul_le_mul_left n.toNat (hsteps body rfl).weight
        have huntil := untilHold_le (List.replicate n.toNat body).flatten
        rw [stepsWeight_replicate] at huntil
        refine ⟨hargs, expand_spends ?_ ?_ e⟩
        · intro s hs
          obtain ⟨block, hblock, hs⟩ := List.mem_flatten.mp hs
          cases List.eq_of_mem_replicate hblock
          exact (hsteps _ rfl).sound s hs
        · rw [hrepeats]
          exact Nat.le_trans huntil hbody

theorem performRandom_spends (args : List Arg) (e : Engine) :
    (e.performRandom args).rest = args ∧ Spends 1 e (e.performRandom args).engine := by
  have hrandom : ∀ random, Spends 0 e { e with random } := fun _ => (Spends.refl e).same rfl rfl
  unfold performRandom
  split
  · split
    · exact ⟨rfl, .refl e⟩
    · exact ⟨rfl, .refl e⟩
    · split
      · exact ⟨rfl, .refl e⟩
      · dsimp only
        split
        · exact ⟨rfl, (hrandom _).mono (Nat.zero_le 1)⟩
        · split
          · exact ⟨rfl, (hrandom _).mono (Nat.zero_le 1)⟩
          · split
            · exact ⟨rfl, (hrandom _).mono (Nat.zero_le 1)⟩
            · exact ⟨rfl, (hrandom _).trans (hold_spends _ _ _)⟩
  · exact ⟨rfl, .refl e⟩

theorem performScript_spends (name : String) (args : List Arg) (e : Engine) :
    (e.performScript name args).rest = args ∧ Spends 0 e (e.performScript name args).engine := by
  unfold performScript
  split
  · split
    · exact ⟨rfl, .refl e⟩
    · split
      · exact ⟨rfl, .refl e⟩
      · exact ⟨rfl, (Spends.refl e).same rfl rfl⟩
  · exact ⟨rfl, .refl e⟩

theorem performSearch_spends (hname : Builtin.ofName? name = some (.expand .optimize))
    (hcall : (Condition.call name args).IsSound) (place : Option Place) (e : Engine) :
    (e.performSearch args place).rest = args ∧
      Spends 1 e (e.performSearch args place).engine := by
  unfold performSearch
  split
  · refine ⟨rfl, ?_⟩
    apply startSearch_leads (P := Spends 0 e) (Q := Spends 1 e)
    · exact fun h => h.mono (Nat.zero_le 1)
    · exact fun h _ => h.same rfl rfl
    · exact fun h => h.same rfl rfl
    · exact fun h i n => h.trans (hold_spends i n _)
    · exact fun h _ hq => withProbe_spends h (isSound_readProbe hname hcall hq)
    · exact .refl e
  · exact ⟨rfl, .refl e⟩

/-- An expander without a condition keeps its arguments and inserts what they allow. -/
theorem perform_spends (hname : Builtin.ofName? name = some (.expand m)) (hm : m.isPlain = true)
    (hcall : (Condition.call name args).IsSound) (place : Option Place) (e : Engine) :
    (e.perform m name args place).rest = args ∧
      Spends (Condition.call name args).weight e (e.perform m name args place).engine := by
  have hweight := Condition.weight_call name args
  cases m with
  | insert => exact (performInsert_spends hname hcall e).imp_right fun h => h.mono (by omega)
  | repeated => exact (performRepeated_spends hname hcall e).imp_right fun h => h.mono (by omega)
  | randomInput => exact (performRandom_spends args e).imp_right fun h => h.mono (by omega)
  | scriptedInput => exact (performScript_spends name args e).imp_right fun h => h.mono (by omega)
  | optimize =>
    exact (performSearch_spends hname hcall place e).imp_right fun h => h.mono (by omega)
  | clearSearch =>
    unfold perform performClear
    dsimp only
    split
    · exact ⟨rfl, (Spends.refl e).same rfl rfl⟩
    · exact ⟨rfl, .refl e⟩
  | _ => cases hm

/-! ## Guarded expanders -/

/-- A loop with a body of which one step waits for sure. -/
theorem exists_body_of_loop (hname : Builtin.ofName? name = some (.expand .loop))
    (hcall : (Condition.call name args).IsSound) :
    ∃ body, args[1]? = some (.steps body) ∧ body.any Step.isHold = true := by
  have hguarded := (Condition.isSound_call.mp hcall).2.1
  rw [isGuardedCall, hname] at hguarded
  cases hget : args[1]? with
  | none =>
    rw [hget] at hguarded
    cases hguarded
  | some a =>
    rw [hget] at hguarded
    cases a with
    | steps body => exact ⟨body, rfl, by simpa [Arg.isHolding] using hguarded⟩
    | _ => simp [Arg.isHolding] at hguarded

/-- The bodies of a guarded expander are what its arguments allow. -/
structure Bodies (m : Expander) (args : List Arg) (bodies : List Step × List Step) : Prop where
  yes : Inserts args bodies.1
  no : Inserts args bodies.2
  loop : m = .loop → bodies.1.any Step.isHold = true

theorem bodies_of_call (hname : Builtin.ofName? name = some (.expand m)) (hm : m.isGuarded = true)
    (hcall : (Condition.call name args).IsSound) :
    (m.bodies name args).2 = args ∧
      ∀ bodies, (m.bodies name args).1 = .ok bodies → Bodies m args bodies := by
  cases m with
  | branch =>
    obtain ⟨hargs, hyes⟩ := stepsAt_inserts hname hcall 1 rfl false
    obtain ⟨hargs', hno⟩ := stepsAt_inserts hname hcall 2 rfl false
    unfold Expander.bodies
    dsimp only
    split
    · next heq =>
      rw [heq] at hargs
      exact ⟨hargs, fun _ hbodies => by cases hbodies⟩
    · next heq =>
      rw [heq] at hargs hyes
      cases hargs
      split
      · next heq =>
        rw [heq] at hargs'
        exact ⟨hargs', fun _ hbodies => by cases hbodies⟩
      · next heq =>
        rw [heq] at hargs' hno
        refine ⟨hargs', ?_⟩
        rintro _ ⟨⟩
        exact ⟨hyes _ rfl, hno _ rfl, fun hloop => by cases hloop⟩
  | onlyUnless =>
    obtain ⟨hargs, hno⟩ := stepsAt_inserts hname hcall 1 rfl true
    unfold Expander.bodies
    dsimp only
    split
    · next heq =>
      rw [heq] at hargs
      exact ⟨hargs, fun _ hbodies => by cases hbodies⟩
    · next heq =>
      rw [heq] at hargs hno
      refine ⟨hargs, ?_⟩
      rintro _ ⟨⟩
      exact ⟨.nil args, hno _ rfl, fun hloop => by cases hloop⟩
  | onlyIf =>
    obtain ⟨hargs, hyes⟩ := stepsAt_inserts hname hcall 1 rfl true
    unfold Expander.bodies
    dsimp only
    split
    · next heq =>
      rw [heq] at hargs
      exact ⟨hargs, fun _ hbodies => by cases hbodies⟩
    · next heq =>
      rw [heq] at hargs hyes
      refine ⟨hargs, ?_⟩
      rintro _ ⟨⟩
      exact ⟨hyes _ rfl, .nil args, fun hloop => by cases hloop⟩
  | loop =>
    obtain ⟨body, hbody, hhold⟩ := exists_body_of_loop hname hcall
    obtain ⟨-, -, hsound⟩ := Condition.isSound_call.mp hcall
    unfold Expander.bodies
    dsimp only
    rw [stepsAt_of_steps hbody]
    refine ⟨rfl, ?_⟩
    rintro _ ⟨⟩
    exact ⟨.of_steps hsound hbody, .nil args, fun _ => hhold⟩
  | _ => cases hm

/-- A loop that inserts its body and itself counts up to the step in its body that waits. -/
theorem finish_spends {args' : List Arg} {bodies : List Step × List Step}
    (hbodies : Bodies m args bodies) (hcall : (Condition.call name args').IsSound) (holds : Bool)
    (e : Engine) : Spends (argsWeight args) e (m.finish name args' bodies holds e).2 := by
  unfold Expander.finish
  dsimp only
  split
  · next hloop =>
    rw [if_pos hloop.2]
    refine expand_spends ?_ ?_ e
    · intro s hs
      rw [List.mem_append, List.mem_singleton] at hs
      obtain hs | rfl := hs
      · exact hbodies.yes.sound s hs
      · exact hcall
    · rw [untilHold_append_of_hold (hbodies.loop hloop.1)]
      exact Nat.le_trans (untilHold_le _) hbodies.yes.weight
  · have hbody : Inserts args (if holds = true then bodies.1 else bodies.2) := by
      split
      · exact hbodies.yes
      · exact hbodies.no
    generalize (if holds = true then bodies.1 else bodies.2) = body at hbody
    split
    · exact .refl e
    · exact inserts_spends hbody (Nat.le_refl _) e

/-- A guarded expander concludes from its guard, whose turn is counted as well. -/
theorem conclude_spends {guard : Arg} {others : List Arg} {bodies : List Step × List Step}
    {t : Turn Arg} {e : Engine} (hbodies : Bodies m (guard :: others) bodies)
    (hcall : (Condition.call name (guard :: others)).IsSound)
    (hguard : t.rest.IsSound ∧ guard.Swapped t.rest ∧ Spends guard.weight e t.engine) :
    (m.conclude name (guard :: others) bodies t).rest.IsSound ∧
      Spends (Condition.call name (guard :: others)).weight e
        (m.conclude name (guard :: others) bodies t).engine := by
  obtain ⟨hsound, hswapped, hspends⟩ := hguard
  have hrest : (Condition.call name (t.rest :: others)).IsSound := by
    rw [Condition.IsSound, Condition.everyCall_call, List.forall_mem_cons] at hcall ⊢
    refine ⟨unswayed_isSoundCall name ?_ hcall.1, hsound, hcall.2.2⟩
    exact .cons hswapped (List.forall₂_same.mpr fun _ _ => .same _)
  have hguardWeight : guard.weight ≤ argsWeight (guard :: others) :=
    weight_le_argsWeight (i := 0) rfl
  have hweight := Condition.weight_call name (guard :: others)
  unfold Expander.conclude
  split
  · exact ⟨hrest, hspends.mono (by omega)⟩
  · next v _ =>
    exact ⟨hrest, (hspends.trans (finish_spends hbodies hrest v.holds t.engine)).mono (by omega)⟩

end

theorem Looked.spends {n : Nat} {a b : Engine} (h : Looked a b) : Spends n a b := by
  obtain ⟨seen, rfl⟩ := h.exists_seen
  exact (Spends.refl a).same rfl rfl

theorem compare_spends {n : Nat} (r : Reading) (args : List Arg) (e : Engine) :
    Spends n e (e.compare r args).2 := by
  have hread : Spends n e (e.read r).2 := by
    cases r with
    | x | y | speedX | speedY => exact (Looked.look e).spends
    | overlayX | overlayY | overlayState => exact (Spends.refl e).lookOverlay
  obtain hcompare | hcompare := e.compare_snd r args
  · rw [hcompare]
    exact .refl e
  · rw [hcompare]
    exact hread

end Engine

/-! ## Evaluation -/

theorem Arg.eq_condition_of_read {a : Arg} (h : a.isUnread = false) {c : Condition}
    (hc : a.toCondition = .ok c) : a = .condition c := by
  cases a with
  | condition d =>
    cases hc
    rfl
  | raw v =>
    cases v with
    | null => cases hc
    | _ => cases h
  | _ => cases hc

section

open Engine

variable {late : Late}

/-- The conditions that a call evaluates one by one are sound, and none is unread. -/
def Evaluable (args : List Arg) : Prop := ∀ a ∈ args, a.IsSound ∧ a.isUnread = false

theorem Evaluable.of_call {m : Expander} {name : String} {args : List Arg}
    (hname : Builtin.ofName? name = some (.expand m)) (hm : m = .inOrder ∨ m = .anyOf)
    (hcall : (Condition.call name args).IsSound) : Evaluable args := by
  obtain ⟨hread, -, hsound⟩ := Condition.isSound_call.mp hcall
  have hvariadic : m.isVariadic = true := by obtain rfl | rfl := hm <;> rfl
  exact fun a ha => ⟨hsound a ha, isUnread_of_isVariadic hvariadic hname hread a ha⟩

/-- Such a call may lose its conditions and have them in a new state. -/
theorem Evaluable.call {m : Expander} {name : String} {args : List Arg}
    (hname : Builtin.ofName? name = some (.expand m)) (hm : m = .inOrder ∨ m = .anyOf)
    (h : Evaluable args) : (Condition.call name args).IsSound := by
  rw [Condition.isSound_call]
  refine ⟨?_, ?_, fun a ha => (h a ha).1⟩
  · have hspec : Catalogue.standard.spec? name = some (Builtin.expand m).spec :=
      congrArg (Option.map Builtin.spec) hname
    rw [isReadCall, hspec]
    exact isCodeRead_of_read (fun a ha => (h a ha).2) _ 0
  · rw [isGuardedCall, hname]
    obtain rfl | rfl := hm <;> rfl

mutual

/-- An evaluation of a sound condition leaves a sound one, and inserts no more than its
weight. -/
theorem Condition.evaluateWith_spends (late : Late) : ∀ (c : Condition), c.IsSound →
    ∀ (place : Option Place) (e : Engine), (c.evaluateWith late place e).rest.IsSound ∧
      Spends c.weight e (c.evaluateWith late place e).engine
  | .countdown n, _, place, e => by
    rw [Condition.evaluateWith]
    exact ⟨rfl, .refl e⟩
  | .toggle f, _, place, e => by
    rw [Condition.evaluateWith]
    exact ⟨rfl, (Spends.refl e).same rfl rfl⟩
  | .native test label, _, place, e => by
    rw [Condition.evaluateWith]
    exact ⟨rfl, (e.ask_looked test).spends⟩
  | .call name args, hcall, place, e => by
    have hweight := Condition.weight_call name args
    cases hname : Builtin.ofName? name with
    | none =>
      rw [Condition.evaluateWith, hname]
      exact ⟨hcall, .refl e⟩
    | some builtin =>
      cases builtin with
      | check c =>
        rw [Condition.evaluateWith, hname]
        exact ⟨hcall, (e.check_looked c).spends⟩
      | compare r =>
        rw [Condition.evaluateWith, hname]
        exact ⟨hcall, compare_spends r args e⟩
      | expand m =>
        rcases m.kinds with rfl | rfl | hm | hm
        · obtain ⟨hrest, hspends⟩ := evaluateInOrder_spends late args
            (.of_call hname (.inl rfl) hcall) e
          rw [Condition.evaluateWith, hname]
          exact ⟨hrest.call hname (.inl rfl), hspends.mono (by omega)⟩
        · obtain ⟨hrest, hspends⟩ := evaluateAnyOf_spends late args
            (.of_call hname (.inr rfl) hcall) place 0 e
          rw [Condition.evaluateWith, hname]
          exact ⟨hrest.call hname (.inr rfl), hspends.mono (by omega)⟩
        · cases args with
          | nil =>
            rw [Condition.evaluateWith, hname]
            cases m with
            | branch | onlyIf | onlyUnless | loop => exact ⟨hcall, .refl e⟩
            | _ => cases hm
          | cons guard others =>
            obtain ⟨hread, -, hsound⟩ := Condition.isSound_call.mp hcall
            have hcode : ((Builtin.expand m).spec.kindFor 0).isCode = true := by
              cases m with
              | branch | onlyIf | onlyUnless | loop => rfl
              | _ => cases hm
            have hunread : guard.isUnread = false := isUnread_of_isReadCall hname hread rfl hcode
            have hguard := Arg.evaluateWith_spends late guard (hsound guard List.mem_cons_self)
              hunread (place.map (·.arg 0)) e
            rw [Condition.evaluateWith_guarded hname hm]
            split
            · exact ⟨hcall, .refl e⟩
            · next c hc =>
              cases guard.eq_condition_of_read hunread hc
              obtain ⟨hargs, hbodies⟩ := bodies_of_call hname hm hcall
              split
              · next heq =>
                rw [heq] at hargs
                cases hargs
                exact ⟨hcall, .refl e⟩
              · next heq =>
                rw [heq] at hargs hbodies
                cases hargs
                exact conclude_spends (hbodies _ rfl) hcall hguard
        · obtain ⟨hargs, hspends⟩ := perform_spends hname hm hcall place e
          rw [Condition.evaluateWith_perform hname hm, hargs]
          exact ⟨hcall, hspends⟩

theorem Arg.evaluateWith_spends (late : Late) : ∀ (a : Arg), a.IsSound → a.isUnread = false →
    ∀ (place : Option Place) (e : Engine), (a.evaluateWith late place e).rest.IsSound ∧
      a.Swapped (a.evaluateWith late place e).rest ∧
      Spends a.weight e (a.evaluateWith late place e).engine
  | .condition c, hc, _, place, e => by
    obtain ⟨hrest, hspends⟩ := Condition.evaluateWith_spends late c hc place e
    rw [Arg.evaluateWith]
    exact ⟨hrest, .condition _ _, hspends⟩
  | .raw v, _, hread, place, e => by
    cases v with
    | null =>
      rw [Arg.evaluateWith]
      exact ⟨rfl, .same _, .refl e⟩
    | _ => cases hread
  | .steps body, hbody, _, place, e => by
    simp only [Arg.evaluateWith]
    exact ⟨hbody, .same _, .refl e⟩
  | .inputs i, _, _, place, e => by
    simp only [Arg.evaluateWith]
    exact ⟨rfl, .same _, .refl e⟩
  | .choices list, _, _, place, e => by
    simp only [Arg.evaluateWith]
    exact ⟨rfl, .same _, .refl e⟩
  | .script entries, _, _, place, e => by
    simp only [Arg.evaluateWith]
    exact ⟨rfl, .same _, .refl e⟩

theorem evaluateInOrder_spends (late : Late) : ∀ (args : List Arg), Evaluable args →
    ∀ (e : Engine), Evaluable (evaluateInOrder late args e).rest ∧
      Spends (argsWeight args) e (evaluateInOrder late args e).engine
  | [], hargs, e => by
    rw [evaluateInOrder]
    exact ⟨hargs, .refl e⟩
  | a :: rest, hargs, e => by
    obtain ⟨hfirst, hrest⟩ := List.forall_mem_cons.mp hargs
    obtain ⟨hsound, hswapped, hspends⟩ := a.evaluateWith_spends late hfirst.1 hfirst.2 none e
    have hkept : Evaluable ((a.evaluateWith late none e).rest :: rest) :=
      List.forall_mem_cons.mpr ⟨⟨hsound, hswapped.isUnread.trans hfirst.2⟩, hrest⟩
    have hweight : Spends (argsWeight (a :: rest)) e (a.evaluateWith late none e).engine :=
      hspends.mono (by rw [argsWeight]; omega)
    rw [evaluateInOrder]
    split
    · exact ⟨hkept, hweight⟩
    · split
      · exact ⟨hrest, hweight⟩
      · exact ⟨hkept, hweight⟩

theorem evaluateAnyOf_spends (late : Late) : ∀ (args : List Arg), Evaluable args →
    ∀ (place : Option Place) (index : Nat) (e : Engine),
      Evaluable (evaluateAnyOf late place index args e).rest ∧
        Spends (argsWeight args) e (evaluateAnyOf late place index args e).engine
  | [], hargs, place, index, e => by
    rw [evaluateAnyOf]
    exact ⟨hargs, .refl e⟩
  | a :: rest, hargs, place, index, e => by
    obtain ⟨hfirst, hrest⟩ := List.forall_mem_cons.mp hargs
    obtain ⟨hsound, hswapped, hspends⟩ :=
      a.evaluateWith_spends late hfirst.1 hfirst.2 (place.map (·.arg index)) e
    have hkept : ∀ {others}, Evaluable others →
        Evaluable ((a.evaluateWith late (place.map (·.arg index)) e).rest :: others) :=
      fun h => List.forall_mem_cons.mpr ⟨⟨hsound, hswapped.isUnread.trans hfirst.2⟩, h⟩
    rw [evaluateAnyOf, argsWeight]
    dsimp only
    split
    · exact ⟨hkept hrest, hspends.mono (Nat.le_add_right _ _)⟩
    · split
      · exact ⟨hkept hrest, hspends.mono (Nat.le_add_right _ _)⟩
      · obtain ⟨hothers, hmore⟩ := evaluateAnyOf_spends late rest hrest place (index + 1) _
        exact ⟨hkept hothers, hspends.trans hmore⟩

end

end

/-! ## Ticks -/

namespace Engine

variable {e e' : Engine}

theorem IsSound.same (h : e.IsSound) (hprogram : e'.program = e.program)
    (hprobe : e'.probe = e.probe) : e'.IsSound :=
  ((Spends.refl (n := 0) e).same hprogram hprobe).sound h

theorem IsSound.withProbe (h : e.IsSound) {probe : Option Probe}
    (hprobe : ∀ q, probe = some q → q.IsSound) : (e.withProbe probe).IsSound := ⟨h.steps, hprobe⟩

theorem IsSound.setAt (h : e.IsSound) {c : Condition} (hc : c.IsSound) (place : Place) :
    (e.setAt place c).IsSound := by
  unfold Engine.setAt
  split
  · refine ⟨?_, h.probe⟩
    intro q hq s hs
    obtain ⟨p, hp, rfl⟩ := Option.map_eq_some_iff.mp hq
    obtain ⟨i, hi⟩ := List.getElem?_of_mem hs
    rw [List.getElem?_modify] at hi
    obtain ⟨s', hs', rfl⟩ := Option.map_eq_some_iff.mp hi
    have hold := h.steps p hp s' (List.mem_of_getElem? hs')
    split
    · exact Condition.everyCall_setAt unswayed_isSoundCall hc place.path _ hold
    · exact hold
  · exact h.same rfl rfl

theorem IsSound.turn (h : e.IsSound) {c : Condition} (hc : c.IsSound) (place : Option Place) :
    (c.evaluate place e).rest.IsSound ∧ (c.evaluate place e).engine.IsSound := by
  obtain ⟨hrest, hspends⟩ := c.evaluateWith_spends Condition.evaluateRead hc place e
  exact ⟨hrest, hspends.sound h⟩

/-- The conditions of a probe stay sound while they are looked at. -/
theorem IsSound.judge (h : e.IsSound) {q : Probe} (hq : q.IsSound) :
    (e.judge q).2.1.IsSound ∧ (e.judge q).2.2.IsSound := by
  obtain ⟨hlow, hlowEngine⟩ := h.turn hq.failLow none
  obtain ⟨hhigh, hhighEngine⟩ := hlowEngine.turn hq.failHigh none
  obtain ⟨hsuccess, hsuccessEngine⟩ := hhighEngine.turn hq.success none
  unfold Engine.judge
  dsimp only
  split
  · exact ⟨⟨hlow, hq.failHigh, hq.success⟩, hlowEngine⟩
  · split
    · exact ⟨⟨hlow, hq.failHigh, hq.success⟩, hlowEngine⟩
    · split
      · exact ⟨⟨hlow, hhigh, hq.success⟩, hhighEngine⟩
      · split
        · exact ⟨⟨hlow, hhigh, hq.success⟩, hhighEngine⟩
        · split
          · exact ⟨⟨hlow, hhigh, hsuccess⟩, hsuccessEngine⟩
          · exact ⟨⟨hlow, hhigh, hsuccess⟩, hsuccessEngine⟩

theorem IsSound.keepInPlace (h : e.IsSound) {q : Probe} (hq : q.IsSound) :
    (e.keepInPlace q).IsSound := by
  unfold Engine.keepInPlace
  split
  · exact h
  · exact ((h.setAt hq.failLow _).setAt hq.failHigh _).setAt hq.success _

theorem IsSound.settle (h : e.IsSound) {q : Probe} (hq : q.IsSound)
    (outcome : Except Fault (Option Outcome)) : (e.settle q outcome).2.IsSound := by
  have hopen : (e.withProbe (some (e.probe.getD q))).IsSound := by
    apply h.withProbe
    rintro _ ⟨⟩
    cases hprobe : e.probe with
    | none => exact hq
    | some q' => exact h.probe q' hprobe
  have hclosed : (e.withProbe none).IsSound := h.withProbe nofun
  unfold Engine.settle
  split
  · exact hopen
  · exact hopen
  · split
    · exact hopen
    · exact hclosed.same rfl rfl

theorem IsSound.classify (h : e.IsSound) : e.classify.2.IsSound := by
  cases hprobe : e.probe with
  | none =>
    rw [classify_of_none hprobe]
    exact h
  | some q =>
    have haside : (e.withProbe none).IsSound := h.withProbe nofun
    obtain ⟨hjudged, hengine⟩ := haside.judge (h.probe q hprobe)
    rw [classify_of_probe hprobe]
    exact (hengine.keepInPlace hjudged).settle hjudged _

theorem IsSound.afterTurn (h : e.IsSound) {p : Program} {step : Step} (hp : e.program = some p)
    (hcurrent : p.current? = some step) : (e.afterTurn p step).IsSound := by
  have hstep := h.steps p hp step (List.mem_of_getElem? hcurrent)
  obtain ⟨hrest, hengine⟩ := h.turn hstep (some ⟨.step p.cursor, []⟩)
  exact hengine.setAt hrest _

theorem IsSound.leave (h : e.IsSound) {p : Program} {step : Step} (hp : e.program = some p)
    (hcurrent : p.current? = some step) (v : Verdict) : (e.leave p step v).IsSound := by
  have hafter := h.afterTurn hp hcurrent
  refine ⟨?_, hafter.probe⟩
  intro q hq
  obtain ⟨q', hq', rfl⟩ := Option.map_eq_some_iff.mp hq
  exact hafter.steps q' hq'

/-- On every tick of a run, sound conditions stay sound and insert sound steps only. -/
theorem tickKept_isSound : TickKept IsSound where
  meet h _ := h.same rfl rfl
  beginTick h := h.same rfl rfl
  write h _ := h.same rfl rfl
  withOverride h _ := h.same rfl rfl
  classify h := h.classify
  afterTurn h := h.afterTurn
  commit h _ := h.same rfl rfl
  leave h hp hcurrent := h.leave hp hcurrent _

/-! ## The walk -/

/-- The weight of all steps from the cursor on, up to one that waits for sure. -/
def toGo (e : Engine) : Nat :=
  match e.program with
  | none => 0
  | some p => untilHold p.remaining

/-- A step that is left was not one that waits for sure. -/
theorem isHold_of_left {p : Program} {step : Step} {v : Verdict}
    (hturn : (e.turnAt p step).outcome = .ok v) (hv : v.holds = true) : step.isHold = false := by
  obtain ⟨i, c⟩ := step
  cases c with
  | countdown n =>
    rw [turnAt, Condition.evaluate, Step.condition, Condition.evaluateWith] at hturn
    cases hturn
    rw [Verdict.holds_ofBool] at hv
    simpa [Step.isHold] using hv
  | _ => rfl

/-- Behind a step that is left, what the walk has to come by weighs less than before. -/
theorem IsSound.leave_falls (h : e.IsSound) {p : Program} {step : Step} (hp : e.program = some p)
    (hcurrent : p.current? = some step) {v : Verdict} (hturn : (e.turnAt p step).outcome = .ok v)
    (hv : v.holds = true) : (e.leave p step v).toGo < e.toGo := by
  have hstep := h.steps p hp step (List.mem_of_getElem? hcurrent)
  have hlt : p.cursor < p.steps.length := (List.getElem?_eq_some_iff.mp hcurrent).1
  have hspends := (step.condition.evaluateWith_spends Condition.evaluateRead hstep
    (some ⟨.step p.cursor, []⟩) e).2.bound ⟨p, hp, hlt⟩
  obtain ⟨⟨q, hq, -⟩, hahead⟩ := hspends
  -- The cursor is where it was, and the condition at the cursor is put back in its new state.
  have hcursor : q.cursor = p.cursor := by
    have hgrown := (step.condition.evaluate_untouched (some ⟨.step p.cursor, []⟩) e).program
    rw [hp, Condition.evaluate, hq] at hgrown
    cases hgrown with
    | some hgrown => exact hgrown.1
  have hleft : (e.leave p step v).toGo = untilHold q.pending := by
    have hprogram : (e.leave p step v).program =
        ((e.turnAt p step).engine.program.map fun r => { r with
          steps := r.steps.modify p.cursor fun s => s.withCondition
            (Condition.setAt (e.turnAt p step).rest [] s.condition) }).map Program.advance := rfl
    rw [turnAt, Condition.evaluate, hq] at hprogram
    rw [toGo, hprogram]
    dsimp only [Option.map_some]
    rw [Program.remaining_advance, Program.remaining, List.tail_drop]
    exact congrArg untilHold (List.drop_modify_of_lt _ _ _ _ (by rw [hcursor]; omega))
  have htoGo : e.toGo = step.weight + untilHold p.pending := by
    rw [toGo, hp]
    dsimp only
    rw [Program.remaining_of_current? hcurrent, untilHold, isHold_of_left hturn hv]
    rfl
  have hweight : step.weight = step.condition.weight + 1 := by
    cases step
    rw [Step.weight, Step.condition]
  rw [ahead, ahead, hp, hq] at hahead
  dsimp only at hahead
  omega

/-- The walk comes to an end of its own after so many steps. -/
inductive WalkEnds : Engine → Nat → Except Fault TickOutcome × Engine → Prop
  | here {e : Engine} {result : Except Fault TickOutcome × Engine} (h : e.pace = .inl result) :
      WalkEnds e 0 result
  | next {e e' : Engine} {steps : Nat} {result : Except Fault TickOutcome × Engine}
      (h : e.pace = .inr e') (hrest : WalkEnds e' steps result) : WalkEnds e (steps + 1) result

theorem WalkEnds.walk {steps : Nat} {result : Except Fault TickOutcome × Engine}
    (h : WalkEnds e steps result) {budget : Nat} (hbudget : steps < budget) :
    e.walk budget = result := by
  obtain ⟨budget, rfl⟩ : ∃ n, budget = n + 1 := ⟨budget - 1, by omega⟩
  induction h generalizing budget with
  | here h => exact walk_of_stop h budget
  | next h _ ih =>
    rw [walk_of_go h]
    obtain ⟨budget, rfl⟩ : ∃ n, budget = n + 1 := ⟨budget - 1, by omega⟩
    exact ih budget (by omega)

/-- A walk through sound steps comes to an end. -/
theorem IsSound.walk_ends (h : e.IsSound) : ∃ steps result, WalkEnds e steps result := by
  generalize hsize : e.toGo = size
  induction size using Nat.strongRecOn generalizing e with
  | ind size ih =>
    have hpaces := e.paces_pace
    cases hpace : e.pace with
    | inl result => exact ⟨0, result, .here hpace⟩
    | inr e' =>
      rw [hpace] at hpaces
      cases hpaces with
      | @left p step v hp hcurrent hturn hv =>
        have hfalls := h.leave_falls hp hcurrent hturn hv
        obtain ⟨steps, result, hends⟩ := ih _ (by omega) (h.leave hp hcurrent v) rfl
        exact ⟨steps + 1, result, .next hpace hends⟩

/-- The tick comes to an end of its own: it is over before the walk, or the walk ends after so
many steps. -/
inductive TickEnds (e : Engine) (m : Moment) : Nat → Except Fault TickOutcome × Engine → Prop
  | still {result : Except Fault TickOutcome × Engine}
      (h : ∀ budget, e.tickOn budget m = result) : TickEnds e m 0 result
  | walks {steps : Nat} {result : Except Fault TickOutcome × Engine}
      (h : ∀ budget, e.tickOn budget m = (e.meet m).beginTick.classify.2.walk budget)
      (hwalk : WalkEnds (e.meet m).beginTick.classify.2 steps result) : TickEnds e m steps result

theorem TickEnds.tickOn {m : Moment} {steps : Nat} {result : Except Fault TickOutcome × Engine}
    (h : TickEnds e m steps result) {budget : Nat} (hbudget : steps < budget) :
    e.tickOn budget m = result := by
  cases h with
  | still h => exact h budget
  | walks h hwalk => rw [h, hwalk.walk hbudget]

theorem IsSound.tick_ends (h : e.IsSound) (m : Moment) :
    ∃ steps result, TickEnds e m steps result := by
  cases hfrozen : e.isFrozen m.paused with
  | true => exact ⟨0, _, .still fun budget => tickWith_frozen budget hfrozen⟩
  | false =>
    cases hactive : (e.meet m).override.isActive with
    | true => exact ⟨0, _, .still fun budget => tickWith_override budget hfrozen hactive⟩
    | false =>
      have hplay : ∀ budget, e.tickOn budget m = (e.meet m).beginTick.play budget :=
        fun budget => tickWith_play budget hfrozen hactive
      have hbegin : (e.meet m).beginTick.IsSound := h.same rfl rfl
      rcases hclassify : (e.meet m).beginTick.classify with ⟨f | _ | report, e'⟩
      · refine ⟨0, (.error f, e'), .still fun budget => ?_⟩
        rw [hplay, play, hclassify]
      · obtain ⟨steps, result, hends⟩ := hbegin.classify.walk_ends
        refine ⟨steps, result, .walks (fun budget => ?_) hends⟩
        rw [hplay, play, hclassify]
      · refine ⟨0, (.ok ⟨.ended, .none⟩, e'), .still fun budget => ?_⟩
        rw [hplay, play, hclassify]

theorem isSound_load (e₀ : Engine) {loaded : List Step} (h : ∀ s ∈ loaded, s.condition.IsSound)
    (hprobe : ∀ q, e₀.probe = some q → q.IsSound) : (e₀.load (some loaded)).IsSound := by
  refine ⟨?_, fun q hq => ?_⟩
  · rintro _ ⟨⟩
    exact h
  · obtain ⟨q', hq', rfl⟩ := Option.map_eq_some_iff.mp hq
    obtain ⟨hlow, hhigh, hsuccess⟩ := hprobe q' hq'
    split
    · exact ⟨hlow, hhigh, hsuccess⟩
    · exact ⟨hlow, hhigh, hsuccess⟩

/-- Every tick of a guarded program comes to an end, whatever happened on the ticks before: it
walks through finitely many steps and has an outcome or fails, and it does so with every
budget that is large enough. -/
theorem guarded_tick_ends {cells : Value} {loaded : List Step}
    (hread : Catalogue.standard.readSteps cells = .ok loaded)
    (hguarded : stepsEveryCall isGuardedCall loaded = true) (e₀ : Engine)
    (hprobe : ∀ q, e₀.probe = some q → q.IsSound) (budget : Nat) (ms : List Moment) (m : Moment) :
    let e := ((e₀.load (some loaded)).run budget ms).2
    ∃ steps result, TickEnds e m steps result ∧
      ∀ budget, steps < budget → e.tickOn budget m = result := by
  intro e
  have hloaded : ∀ s ∈ loaded, s.condition.IsSound :=
    (stepsEveryCall_iff loaded).mp
      (stepsEveryCall_and loaded (Catalogue.readSteps_isRead cells hread) hguarded)
  have hsound : e.IsSound := tickKept_isSound.run budget ms (e₀.isSound_load hloaded hprobe)
  obtain ⟨steps, result, hends⟩ := hsound.tick_ends m
  exact ⟨steps, result, hends, fun _ => hends.tickOn⟩

/-- A loop that never ends and holds an input for three ticks each time, around a block that is
left at once. -/
theorem guarded_tick_ends_in_loop :
    let cells : Value := .list [.list [.text "while", .text "t",
      .list [.list [.text "dotimes", .int 2, .list [.text "ignorePause"]], .text "r", .int 3]]]
    ∃ loaded, Catalogue.standard.readSteps cells = .ok loaded ∧
      stepsEveryCall isGuardedCall loaded = true ∧
      ∀ budget ms m, ∃ steps result,
        TickEnds (((default : Engine).load (some loaded)).run budget ms).2 m steps result := by
  intro cells
  have hread : Catalogue.standard.readSteps cells = .ok [.mk .none (.call "while"
      [.condition (.call "t" []), .steps [.mk .none (.call "dotimes"
        [.raw (.int 2), .steps [.mk .none (.toggle .ignorePause)]]),
        .mk (.ofKeys (.ofList [.right])) (.countdown 3)]])] := by rfl
  refine ⟨_, hread, by rfl, fun budget ms m => ?_⟩
  obtain ⟨steps, result, hends, -⟩ := guarded_tick_ends hread rfl default nofun budget ms m
  exact ⟨steps, result, hends⟩

end Engine

end TickScript
