import TickScript.Proofs.Untouched

/-!
# Engines in lockstep

Two engines may run side by side although their programs have different histories: the
steps that were passed differ, and so do the positions of those that are still to come. A
family of relations between engines is a `Lockstep` if the engines stand at equal steps and
everything that the engine does between two steps of the walk keeps the relation;
`Lockstep.agreement` then covers evaluation, `Lockstep.classify` the outcome check of a probe
and `Lockstep.pace` one step of the walk. If the engines also go on to equal steps
(`Lockstep.Walking`), they walk alike (`Lockstep.Walking.walk`).

The index of the family stands for what is fixed while one step is evaluated, such as the
two cursors.
-/

namespace TickScript

variable {ι : Type} {R : ι → Engine → Engine → Prop} {K O : ι → Place → Place → Prop}

/-- Probes that differ in the places only that their conditions come from. -/
structure Probe.Alike (O : Place → Place → Prop) (p q : Probe) : Prop where
  inputs : p.inputs = q.inputs
  mode : p.mode = q.mode
  failLow : p.failLow = q.failLow
  failHigh : p.failHigh = q.failHigh
  success : p.success = q.success
  origin : Option.Rel O p.origin q.origin

theorem option_rel_mono {α : Type} {S S' : α → α → Prop} (h : ∀ x y, S x y → S' x y)
    {p q : Option α} (hpq : Option.Rel S p q) : Option.Rel S' p q := by
  cases hpq with
  | none => exact .none
  | some hpq => exact .some (h _ _ hpq)

theorem Probe.Alike.mono {O O' : Place → Place → Prop} (h : ∀ x y, O x y → O' x y) {p q : Probe}
    (hpq : p.Alike O q) : p.Alike O' q := { hpq with origin := option_rel_mono h hpq.origin }

theorem probe_alike_refl (p : Option Probe) : Option.Rel (Probe.Alike (· = ·)) p p := by
  cases p with
  | none => exact .none
  | some p =>
    refine .some ⟨rfl, rfl, rfl, rfl, rfl, ?_⟩
    cases p.origin with
    | none => exact .none
    | some place => exact .some rfl

theorem eq_of_probe_alike {p q : Option Probe} (h : Option.Rel (Probe.Alike (· = ·)) p q) :
    p = q := by
  cases h with
  | none => rfl
  | @some p q h =>
    obtain ⟨inputs, mode, failLow, failHigh, success, origin⟩ := p
    obtain ⟨inputs', mode', failLow', failHigh', success', origin'⟩ := q
    obtain ⟨rfl, rfl, rfl, rfl, rfl, horigin⟩ := h
    have heq : origin = origin' := by
      cases horigin with
      | none => rfl
      | some hplace => exact congrArg some hplace
    rw [heq]

/-! ## Opening probes -/

namespace Engine

variable {S : Engine → Engine → Prop} {a b : Engine}

theorem readProbe_alike {O : Place → Place → Prop} (args : List Arg) {p q : Option Place}
    (hpq : Option.Rel O p q) :
    (∃ f, readProbe args p = .error f ∧ readProbe args q = .error f) ∨
      ∃ x y, readProbe args p = .ok x ∧ readProbe args q = .ok y ∧ x.Alike O y := by
  rw [readProbe_eq args p, readProbe_eq args q]
  cases readProbe args none with
  | error f => exact Or.inl ⟨f, rfl, rfl⟩
  | ok x => exact Or.inr ⟨_, _, rfl, rfl, ⟨rfl, rfl, rfl, rfl, rfl, hpq⟩⟩

/-- Probes open alike if the steps that hold their inputs are inserted alike. -/
theorem openProbe_alike {x y : Probe} (hinputs : x.inputs = y.inputs) (hmode : x.mode = y.mode)
    (record : SearchRecord)
    (hexpand : ∀ steps, Alike S
      (Engine.expand (saveRecord { a with record := record.probed x.mode }) steps)
      (Engine.expand (saveRecord { b with record := record.probed x.mode }) steps))
    (hopen : ∀ {a b}, S a b → S (a.withProbe (some x)) (b.withProbe (some y))) :
    Alike S (a.openProbe x record) (b.openProbe y record) := by
  obtain ⟨hresult, hexpanded⟩ := hexpand [.mk x.inputs (.countdown (record.next x.mode))]
  unfold openProbe
  rw [← hmode, ← hinputs]
  rcases ha : Engine.expand (saveRecord { a with record := record.probed x.mode })
    [.mk x.inputs (.countdown (record.next x.mode))] with ⟨f | u, a'⟩ <;>
  rcases hb : Engine.expand (saveRecord { b with record := record.probed x.mode })
    [.mk x.inputs (.countdown (record.next x.mode))] with ⟨g | v, b'⟩ <;>
  rw [ha, hb] at hresult hexpanded <;> cases hresult
  · exact ⟨rfl, hexpanded⟩
  · exact ⟨rfl, hopen hexpanded⟩

/-- Searches start alike if the same can be read of their arguments but for related probes, and
these open alike. -/
theorem startSearch_alike {T : Probe → Probe → Prop} (hab : S a b) (hrecord : a.record = b.record)
    {args args' : List Arg} {p q : Option Place}
    (hmissing : missingSearchArgument? args = missingSearchArgument? args')
    (hread : (∃ f, readProbe args p = .error f ∧ readProbe args' q = .error f) ∨
      ∃ x y, readProbe args p = .ok x ∧ readProbe args' q = .ok y ∧ T x y)
    (hbounds : ∀ i, boundAt? args i = boundAt? args' i)
    (hset : ∀ r, S { a with record := r } { b with record := r })
    (hopen : ∀ {x y}, T x y → ∀ record, Alike S (a.openProbe x record) (b.openProbe y record)) :
    Alike S (a.startSearch args p) (b.startSearch args' q) := by
  have hlow : ∀ r, seedLow r args' = seedLow r args := fun r => by
    rw [seedLow, seedLow, hbounds]
  have hhigh : ∀ r, seedHigh r args' = seedHigh r args := fun r => by
    rw [seedHigh, seedHigh, hbounds]
  unfold startSearch
  rw [← hmissing, ← hrecord, hlow]
  split
  · exact ⟨rfl, hab⟩
  · rcases hread with ⟨f, hp, hq⟩ | ⟨x, y, hp, hq, hxy⟩
    · rw [hp, hq]
      exact ⟨rfl, hab⟩
    · rw [hp, hq]
      dsimp only
      split
      · exact ⟨rfl, hab⟩
      · next record _ =>
        rw [hhigh]
        split
        · exact ⟨rfl, hset record⟩
        · exact hopen hxy _

end Engine

/-! ## Lockstep -/

/-- Relations between engines that run side by side. The step at the cursor stands at
places that are related by `K`, and the conditions of an open probe come from places that
are related by `O`. -/
structure Lockstep (R : ι → Engine → Engine → Prop) (K O : ι → Place → Place → Prop) : Prop where
  inside : ∀ {i x y}, K i x y → ∀ n, K i (x.arg n) (y.arg n)
  origin : ∀ {i x y}, K i x y → O i x y
  originInside : ∀ {i x y}, O i x y → ∀ n, O i (x.arg n) (y.arg n)
  parts : ∀ {i a b}, R i a b → a.parts = b.parts
  messageBox : ∀ {i a b}, R i a b → a.messageBox = b.messageBox
  program : ∀ {i a b}, R i a b → Option.Rel
    (fun p q => p.current? = q.current? ∧ K i ⟨.step p.cursor, []⟩ ⟨.step q.cursor, []⟩)
    a.program b.program
  random : ∀ {i a b}, R i a b → a.random = b.random
  record : ∀ {i a b}, R i a b → a.record = b.record
  now : ∀ {i a b}, R i a b → a.now = b.now
  probe : ∀ {i a b}, R i a b → Option.Rel (Probe.Alike (O i)) a.probe b.probe
  toggle : ∀ {i a b}, R i a b → ∀ f,
    R i { a with flags := a.flags.toggle f } { b with flags := b.flags.toggle f }
  setRandom : ∀ {i a b}, R i a b → ∀ r, R i { a with random := r } { b with random := r }
  look : ∀ {i a b}, R i a b → Alike (R i) a.look b.look
  lookOverlay : ∀ {i a b}, R i a b → Alike (R i) a.lookOverlay b.lookOverlay
  splice : ∀ {i a b}, R i a b → ∀ steps, Alike (R i) (a.splice steps) (b.splice steps)
  loadScript : ∀ {i a b}, R i a b → ∀ entries, R i (a.loadScript entries) (b.loadScript entries)
  setRecord : ∀ {i a b}, R i a b → ∀ r, R i { a with record := r } { b with record := r }
  saveRecord : ∀ {i a b}, R i a b → R i a.saveRecord b.saveRecord
  setProbe : ∀ {i a b}, R i a b → ∀ {p q}, Option.Rel (Probe.Alike (O i)) p q →
    R i (a.withProbe p) (b.withProbe q)
  setAt : ∀ {i a b}, R i a b → ∀ {x y}, O i x y → ∀ c, R i (a.setAt x c) (b.setAt y c)
  endRun : ∀ {i a b}, R i a b → ∀ report,
    R i { a with simulation := a.simulation.endRun report }
      { b with simulation := b.simulation.endRun report }
  write : ∀ {i a b}, R i a b → ∀ inputs, R i (a.write inputs) (b.write inputs)
  commit : ∀ {i a b}, R i a b → ∀ inputs, R i (a.commit inputs).2 (b.commit inputs).2

namespace Lockstep

/-! ## Evaluation -/

theorem exhausted (h : Lockstep R K O) {i : ι} {a b : Engine} (hab : R i a b) :
    a.isExhausted = b.isExhausted := by
  have hprogram := h.program hab
  unfold Engine.isExhausted
  cases ha : a.program <;> cases hb : b.program <;> rw [ha, hb] at hprogram <;> cases hprogram
  next p q hpq =>
  have hp := p.current?_eq_none_iff
  rw [hpq.1, q.current?_eq_none_iff] at hp
  exact (Bool.eq_iff_iff.mpr hp).symm

theorem inputs (h : Lockstep R K O) {i : ι} {a b : Engine} (hab : R i a b) :
    a.currentInputs = b.currentInputs := by
  have hprogram := h.program hab
  unfold Engine.currentInputs
  cases ha : a.program <;> cases hb : b.program <;> rw [ha, hb] at hprogram <;> cases hprogram
  next p q hpq => rw [Option.bind_some, Option.bind_some, hpq.1]

theorem expand (h : Lockstep R K O) {i : ι} {a b : Engine} (hab : R i a b) (steps : List Step) :
    Alike (R i) (a.expand steps) (b.expand steps) := by
  unfold Engine.expand
  rw [h.parts hab]
  split
  · exact h.splice hab steps
  · exact ⟨rfl, hab⟩

theorem startSearch (h : Lockstep R K O) {i : ι} {a b : Engine} (hab : R i a b)
    {p q : Option Place} (hpq : Option.Rel (K i) p q) (args : List Arg) :
    Alike (R i) (a.startSearch args p) (b.startSearch args q) := by
  have hO : Option.Rel (O i) p q := by
    cases hpq with
    | some hxy => exact .some (h.origin hxy)
    | none => exact .none
  refine Engine.startSearch_alike hab (h.record hab) rfl (Engine.readProbe_alike args hO)
    (fun _ => rfl) (h.setRecord hab) fun hxy record => ?_
  exact Engine.openProbe_alike hxy.inputs hxy.mode record
    (h.expand (h.saveRecord (h.setRecord hab _))) fun hexpanded => h.setProbe hexpanded (.some hxy)

/-- What is in lockstep answers conditions alike. -/
theorem agreement (h : Lockstep R K O) (i : ι) : Agreement (R i) (Option.Rel (K i)) where
  nowhere := .none
  inside hpq n := by
    cases hpq with
    | some hxy => exact .some (h.inside hxy n)
    | none => exact .none
  script hab := congrArg Parts.script (h.parts hab)
  search hab := congrArg Parts.search (h.parts hab)
  messageBox := h.messageBox
  exhausted := h.exhausted
  inputs := h.inputs
  random := h.random
  toggle := h.toggle
  setRandom := h.setRandom
  look := h.look
  lookOverlay := h.lookOverlay
  expand := h.expand
  loadScript := h.loadScript
  startSearch hab hpq args := h.startSearch hab hpq args
  clearRecord hab := by
    have hfresh := congrArg SearchRecord.fresh (h.now hab)
    unfold Engine.clearRecord
    rw [hfresh]
    exact h.saveRecord (h.setRecord hab _)

/-! ## The outcome check -/

theorem keepInPlace (h : Lockstep R K O) {i : ι} {a b : Engine} (hab : R i a b) {p q : Probe}
    (hpq : p.Alike (O i) q) : R i (a.keepInPlace p) (b.keepInPlace q) := by
  unfold Engine.keepInPlace
  rw [← hpq.failLow, ← hpq.failHigh, ← hpq.success]
  cases hp : p.origin with
  | none =>
    have horigin := hpq.origin
    rw [hp] at horigin
    cases horigin' : q.origin with
    | none => exact hab
    | some y =>
      rw [horigin'] at horigin
      cases horigin
  | some x =>
    have horigin := hpq.origin
    rw [hp] at horigin
    cases horigin' : q.origin with
    | none =>
      rw [horigin'] at horigin
      cases horigin
    | some y =>
      rw [horigin'] at horigin
      cases horigin with
      | some hxy =>
        exact h.setAt (h.setAt (h.setAt hab (h.originInside hxy 2) _) (h.originInside hxy 3) _)
          (h.originInside hxy 4) _

theorem judge (h : Lockstep R K O) {i : ι} {a b : Engine} (hab : R i a b) {p q : Probe}
    (hpq : p.Alike (O i) q) :
    (a.judge p).1 = (b.judge q).1 ∧ (a.judge p).2.1.Alike (O i) (b.judge q).2.1 ∧
      R i (a.judge p).2.2 (b.judge q).2.2 := by
  obtain ⟨hinputs, hmode, hfailLow, hfailHigh, hsuccess, horigin⟩ := hpq
  obtain ⟨hlow, hlow', hengine⟩ := p.failLow.evaluate_alike (h.agreement i) .none hab
  obtain ⟨hhigh, hhigh', hengine'⟩ := p.failHigh.evaluate_alike (h.agreement i) .none hengine
  obtain ⟨hwithin, hwithin', hengine''⟩ := p.success.evaluate_alike (h.agreement i) .none hengine'
  unfold Engine.judge
  dsimp only
  rw [← hfailLow, ← hfailHigh, ← hsuccess, hlow, hlow']
  split
  · exact ⟨rfl, ⟨hinputs, hmode, rfl, rfl, rfl, horigin⟩, hengine⟩
  · split
    · exact ⟨rfl, ⟨hinputs, hmode, rfl, rfl, rfl, horigin⟩, hengine⟩
    · rw [hhigh, hhigh']
      split
      · exact ⟨rfl, ⟨hinputs, hmode, rfl, rfl, rfl, horigin⟩, hengine'⟩
      · split
        · exact ⟨rfl, ⟨hinputs, hmode, rfl, rfl, rfl, horigin⟩, hengine'⟩
        · rw [hwithin, hwithin']
          split
          · exact ⟨rfl, ⟨hinputs, hmode, rfl, rfl, rfl, horigin⟩, hengine''⟩
          · exact ⟨rfl, ⟨hinputs, hmode, rfl, rfl, rfl, horigin⟩, hengine''⟩

theorem settle (h : Lockstep R K O) {i : ι} {a b : Engine} (hab : R i a b) {p q : Probe}
    (hpq : p.Alike (O i) q) (outcome : Except Fault (Option Outcome)) :
    Alike (R i) (a.settle p outcome) (b.settle q outcome) := by
  have hopen : R i (a.withProbe (some (a.probe.getD p))) (b.withProbe (some (b.probe.getD q))) := by
    apply h.setProbe hab
    have hprobe := h.probe hab
    cases ha : a.probe <;> cases hb : b.probe <;> rw [ha, hb] at hprobe <;> cases hprobe
    · exact .some hpq
    · next hopened => exact .some hopened
  unfold Engine.settle
  split
  · exact ⟨rfl, hopen⟩
  · exact ⟨rfl, hopen⟩
  · rw [h.record hab, hpq.mode]
    split
    · exact ⟨rfl, hopen⟩
    · next record _ =>
      have hsaved := h.saveRecord (h.setRecord (h.setProbe hab .none) record)
      exact ⟨rfl, h.endRun hsaved _⟩

/-- What is in lockstep classifies an open probe alike. -/
theorem classify (h : Lockstep R K O) {i : ι} {a b : Engine} (hab : R i a b) :
    Alike (R i) a.classify b.classify := by
  have hprobe := h.probe hab
  cases ha : a.probe <;> cases hb : b.probe <;> rw [ha, hb] at hprobe <;> cases hprobe
  · rw [Engine.classify_of_none ha, Engine.classify_of_none hb]
    exact ⟨rfl, hab⟩
  · next p q hpq =>
    obtain ⟨houtcome, hpq', hjudge⟩ := h.judge (h.setProbe hab .none) hpq
    rw [Engine.classify_of_probe ha, Engine.classify_of_probe hb, ← houtcome]
    exact h.settle (h.keepInPlace hjudge hpq') hpq' _

end Lockstep

/-! ## The walk -/

/-- Two steps of the walk that end it with the same outcome, or both come to the next step. -/
inductive Engine.PaceAlike (R : Engine → Engine → Prop) (N : Engine → Engine → Prop) :
    (Except Fault TickOutcome × Engine) ⊕ Engine →
      (Except Fault TickOutcome × Engine) ⊕ Engine → Prop
  | stop {r s : Except Fault TickOutcome × Engine} (h : Alike R r s) :
    PaceAlike R N (.inl r) (.inl s)
  | go {a b : Engine} (h : N a b) : PaceAlike R N (.inr a) (.inr b)

/-- What is in lockstep takes one step of the walk alike, whatever becomes of the engines when
the step is left. -/
theorem Lockstep.pace (h : Lockstep R K O) {N : Engine → Engine → Prop} {i : ι} {a b : Engine}
    (hab : R i a b)
    (hleave : ∀ {a b}, R i a b → (∀ p, a.program = some p → p.cursor < p.steps.length) →
      ∀ x y, N (a.note x).advance (b.note y).advance) :
    Engine.PaceAlike (R i) N a.pace b.pace := by
  have hprogram := h.program hab
  unfold Engine.pace
  cases ha : a.program <;> cases hb : b.program <;> rw [ha, hb] at hprogram <;> cases hprogram
  · exact .stop ⟨rfl, hab⟩
  · next p q hpq =>
    obtain ⟨hcurrent, hplace⟩ := hpq
    dsimp only
    rw [← hcurrent]
    cases hp : p.current? with
    | none => exact .stop ⟨rfl, h.write hab .none⟩
    | some step =>
      have hturn : Turn.Alike (R i) (a.turnAt p step) (b.turnAt q step) :=
        step.condition.evaluate_alike (h.agreement i) (.some hplace) hab
      have hafter : R i (a.afterTurn p step) (b.afterTurn q step) := by
        rw [Engine.afterTurn, Engine.afterTurn, hturn.rest]
        exact h.setAt hturn.engine (h.origin hplace) _
      have hlt : ∀ p', (a.afterTurn p step).program = some p' → p'.cursor < p'.steps.length := by
        intro p' hp'
        have hgrown := (a.afterTurn_untouched p step).program
        rw [ha, hp'] at hgrown
        exact hgrown.lt (List.getElem?_eq_some_iff.mp hp).1
      dsimp only
      rw [hturn.outcome]
      cases (b.turnAt q step).outcome with
      | error f => exact .stop ⟨rfl, hafter⟩
      | ok v =>
        cases v with
        | waiting => exact .stop ⟨rfl, h.commit hafter step.inputs⟩
        | satisfied | expanded => exact .go (hleave hafter hlt _ _)

/-- Engines in lockstep that go on in lockstep when they leave a step. -/
structure Lockstep.Walking (R : ι → Engine → Engine → Prop) (K O : ι → Place → Place → Prop) : Prop
    extends Lockstep R K O where
  leave : ∀ {i a b}, R i a b → (∀ p, a.program = some p → p.cursor < p.steps.length) →
    ∀ x y, ∃ j, R j (a.note x).advance (b.note y).advance

namespace Lockstep.Walking

/-- What goes on in lockstep walks alike. -/
theorem walk (h : Walking R K O) : ∀ (budget : Nat) {i : ι} {a b : Engine}, R i a b →
    (a.walk budget).1 = (b.walk budget).1 ∧ ∃ j, R j (a.walk budget).2 (b.walk budget).2
  | 0, i, a, b, hab => ⟨rfl, i, hab⟩
  | budget + 1, i, a, b, hab => by
    have hpace := h.pace (N := fun a b => ∃ j, R j a b) hab h.leave
    rw [Engine.walk_succ, Engine.walk_succ]
    generalize a.pace = x at hpace ⊢
    generalize b.pace = y at hpace ⊢
    cases hpace with
    | stop hstop => exact ⟨hstop.1, i, hstop.2⟩
    | go hgo =>
      obtain ⟨j, hgo⟩ := hgo
      exact walk h budget hgo

/-- What goes on in lockstep plays alike. -/
theorem play (h : Walking R K O) (budget : Nat) {i : ι} {a b : Engine} (hab : R i a b) :
    (a.play budget).1 = (b.play budget).1 ∧ ∃ j, R j (a.play budget).2 (b.play budget).2 := by
  obtain ⟨hresult, hclassify⟩ := h.classify hab
  unfold Engine.play
  rcases ha : a.classify with ⟨f | _ | r, a'⟩ <;> rcases hb : b.classify with ⟨g | _ | s, b'⟩ <;>
    rw [ha, hb] at hresult hclassify <;> cases hresult
  · exact ⟨rfl, i, hclassify⟩
  · exact h.walk budget hclassify
  · exact ⟨rfl, i, hclassify⟩

end Lockstep.Walking

end TickScript
