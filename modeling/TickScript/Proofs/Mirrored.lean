import Mathlib.Data.List.Forall2
import TickScript.Proofs.Inlining
import TickScript.Proofs.Origins

/-!
# Programs that mirror each other

Two programs mirror each other if their steps are the same but for the conditions, which are
related. What is run is described here once for all relations: a relation has to say what becomes
of two related conditions that are evaluated (`Simulates`), and runs of programs that mirror each
other come out the same (`Engine.run_mirrored`).

Related conditions need not leave related rests when they pass. The step is left then, and its
condition is of no account any more; the same is true of the conditions of a probe, unless the
outcome cannot be taken down (`Engine.Jams`).
-/

namespace TickScript

variable {C : Condition → Condition → Prop}

/-- The same fault, or related values. -/
inductive ReadAlike {α : Type} (R : α → α → Prop) : Except Fault α → Except Fault α → Prop
  | failed (f : Fault) : ReadAlike R (.error f) (.error f)
  | read {x y : α} (h : R x y) : ReadAlike R (.ok x) (.ok y)

/-! ## Related steps, probes and engines -/

/-- The same inputs, and related conditions. -/
structure Step.Mirrored (C : Condition → Condition → Prop) (s t : Step) : Prop where
  inputs : s.inputs = t.inputs
  condition : C s.condition t.condition

/-- Probes that differ in their conditions and in where they were opened. -/
structure Probe.Mirrored (C : Condition → Condition → Prop) (p q : Probe) : Prop where
  inputs : p.inputs = q.inputs
  mode : p.mode = q.mode
  failLow : C p.failLow q.failLow
  failHigh : C p.failHigh q.failHigh
  success : C p.success q.success

/-- The same cursor, and related steps from there on. -/
structure Program.Mirrored (C : Condition → Condition → Prop) (p q : Program) : Prop where
  cursor : p.cursor = q.cursor
  leftLe : p.cursor ≤ p.steps.length
  rightLe : q.cursor ≤ q.steps.length
  remaining : List.Forall₂ (Step.Mirrored C) p.remaining q.remaining

/-- Two engines that agree in everything that matters but their programs and open probes, which
mirror each other. One of them may have looked at the player already when the other one has
not. -/
inductive Engine.Mirrored (C : Condition → Condition → Prop) (a : Engine) : Engine → Prop
  | mk {p q : Program} {probe : Option Probe} {log : List Event}
      {watches : List (String × Condition)} {seen : Option Player}
      (hparts : a.parts.program = true) (hp : a.program = some p) (hprogram : p.Mirrored C q)
      (hprobe : Option.Rel (Probe.Mirrored C) a.probe probe)
      (hseen : seen.getD a.simulation.player = a.view) :
      Mirrored C a { a with program := some q, probe, log, watches, seen }

/-- What becomes of what is related on engines that mirror each other: the same verdict, engines
that mirror each other again, and related rests unless it passes. -/
structure Turn.Mirrored {σ : Type} (C : Condition → Condition → Prop) (R : σ → σ → Prop)
    (s t : Turn σ) : Prop where
  outcome : s.outcome = t.outcome
  engine : s.engine.Mirrored C t.engine
  rest : ¬s.Passes → R s.rest t.rest

namespace Turn.Mirrored

variable {σ : Type} {R : σ → σ → Prop} {s t : Turn σ}

theorem rest_of_error (h : s.Mirrored C R t) {f : Fault} (houtcome : s.outcome = .error f) :
    R s.rest t.rest :=
  h.rest (s.not_passes_of_error houtcome)

theorem rest_of_waiting (h : s.Mirrored C R t) {v : Verdict} (houtcome : s.outcome = .ok v)
    (hv : ¬v.holds = true) : R s.rest t.rest :=
  h.rest (s.not_passes_of_waiting houtcome hv)

end Turn.Mirrored

/-- Related conditions that are evaluated at any places go on to be related. -/
structure Simulates (C : Condition → Condition → Prop) : Prop where
  refl : ∀ c, C c c
  evaluate : ∀ {c c'}, C c c' → ∀ (p q : Option Place) {a b : Engine}, a.Mirrored C b →
    Turn.Mirrored C C (c.evaluate p a) (c'.evaluate q b)

/-- Related conditions leave related rests even when they pass. -/
def KeepsRests (C : Condition → Condition → Prop) : Prop :=
  ∀ {c c'}, C c c' → ∀ (p q : Option Place) {a b : Engine}, a.Mirrored C b →
    C (c.evaluate p a).rest (c'.evaluate q b).rest

/-! ## Programs -/

theorem forall₂_mirrored_refl (hC : ∀ c, C c c) (steps : List Step) :
    List.Forall₂ (Step.Mirrored C) steps steps :=
  List.forall₂_same.mpr fun _ _ => ⟨rfl, hC _⟩

namespace Program.Mirrored

variable {p q : Program}

/-- Either both programs are at their end, or both stand at related steps. -/
theorem current? (h : p.Mirrored C q) :
    (p.current? = none ∧ q.current? = none) ∨
      ∃ s t, p.current? = some s ∧ q.current? = some t ∧ s.Mirrored C t := by
  have hremaining := h.remaining
  rw [p.current?_eq_head?, q.current?_eq_head?]
  generalize p.remaining = xs at hremaining
  generalize q.remaining = ys at hremaining
  cases hremaining with
  | nil => exact Or.inl ⟨rfl, rfl⟩
  | cons hst => exact Or.inr ⟨_, _, rfl, rfl, hst⟩

theorem splice (h : p.Mirrored C q) {xs ys : List Step}
    (hsteps : List.Forall₂ (Step.Mirrored C) xs ys) : (p.splice xs).Mirrored C (q.splice ys) := by
  refine ⟨h.cursor, ?_, ?_, ?_⟩
  · exact Nat.le_trans h.leftLe (p.length_le_splice xs)
  · exact Nat.le_trans h.rightLe (q.length_le_splice ys)
  · rw [splice_remaining h.leftLe, splice_remaining h.rightLe, ← List.drop_one, ← List.drop_one]
    exact List.rel_append (List.forall₂_take 1 h.remaining)
      (List.rel_append hsteps (List.forall₂_drop 1 h.remaining))

/-- The conditions at the cursor are replaced by related ones. -/
theorem setCurrent (h : p.Mirrored C q) {c c' : Condition} (hc : C c c') :
    ({ p with steps := p.steps.modify p.cursor (·.withCondition c) } : Program).Mirrored C
      { q with steps := q.steps.modify q.cursor (·.withCondition c') } := by
  refine ⟨h.cursor, ?_, ?_, ?_⟩
  · exact Nat.le_trans h.leftLe (Nat.le_of_eq (List.length_modify ..).symm)
  · exact Nat.le_trans h.rightLe (Nat.le_of_eq (List.length_modify ..).symm)
  · have hremaining := h.remaining
    rw [remaining_modify, remaining_modify, if_neg (Nat.lt_irrefl _), if_neg (Nat.lt_irrefl _),
      Nat.sub_self, Nat.sub_self]
    generalize p.remaining = xs at hremaining ⊢
    generalize q.remaining = ys at hremaining ⊢
    cases hremaining with
    | nil => exact .nil
    | cons hst hrest => exact .cons ⟨hst.inputs, hc⟩ hrest

/-- Steps that were passed are of no account. -/
theorem setPassed (h : p.Mirrored C q) {m n : Nat} (hm : m < p.cursor) (hn : n < q.cursor)
    (f g : Step → Step) :
    ({ p with steps := p.steps.modify m f } : Program).Mirrored C
      { q with steps := q.steps.modify n g } := by
  refine ⟨h.cursor, ?_, ?_, ?_⟩
  · exact Nat.le_trans h.leftLe (Nat.le_of_eq (List.length_modify ..).symm)
  · exact Nat.le_trans h.rightLe (Nat.le_of_eq (List.length_modify ..).symm)
  · rw [remaining_modify, remaining_modify, if_pos hm, if_pos hn]
    exact h.remaining

theorem advance (h : p.Mirrored C q) (hlt : p.cursor < p.steps.length) :
    p.advance.Mirrored C q.advance := by
  have hlength := h.remaining.length_eq
  rw [Program.remaining, Program.remaining, List.length_drop, List.length_drop] at hlength
  have hcursor := h.cursor
  refine ⟨congrArg (· + 1) h.cursor, hlt, ?_, ?_⟩
  · change q.cursor + 1 ≤ q.steps.length
    omega
  · rw [remaining_advance, remaining_advance, ← List.drop_one, ← List.drop_one]
    exact List.forall₂_drop 1 h.remaining

end Program.Mirrored

/-- The program, if there is one, stands at the step with the index. -/
def Engine.StandsAt (e : Engine) (n : Nat) : Prop :=
  ∀ p, e.program = some p → p.cursor = n ∧ p.cursor < p.steps.length

/-- Evaluating the step at the cursor moves no cursor. -/
theorem Engine.turnAt_standsAt {e : Engine} {p : Program} {step : Step} (hp : e.program = some p)
    (hcurrent : p.current? = some step) : (e.turnAt p step).engine.StandsAt p.cursor := by
  intro q hq
  have huntouched := step.condition.evaluate_untouched (some ⟨.step p.cursor, []⟩) e
  have hgrown := huntouched.program
  rw [hp] at hgrown
  rw [turnAt] at hq
  rw [hq] at hgrown
  exact ⟨huntouched.cursor hp hq, hgrown.lt (List.getElem?_eq_some_iff.mp hcurrent).1⟩

namespace Engine.Mirrored

variable {a b : Engine}

/-! ## Operations -/

theorem ready (h : a.Mirrored C b) : a.Ready ∧ b.Ready := by
  obtain ⟨hparts, hp, _, _, _⟩ := h
  exact ⟨⟨hparts, by rw [hp]; rfl⟩, hparts, rfl⟩

theorem exhausted (h : a.Mirrored C b) : a.isExhausted = b.isExhausted := by
  obtain @⟨p, q, _, _, _, _, hparts, hp, hprogram, _, _⟩ := h
  have hcurrent : p.current? = none ↔ q.current? = none := by
    rcases hprogram.current? with ⟨hpn, hqn⟩ | ⟨s, t, hs, ht, -⟩
    · rw [hpn, hqn]
    · rw [hs, ht]
      simp
  unfold isExhausted
  rw [hp]
  exact Bool.eq_iff_iff.mpr
    (p.current?_eq_none_iff.symm.trans (hcurrent.trans q.current?_eq_none_iff))

theorem inputs (h : a.Mirrored C b) : a.currentInputs = b.currentInputs := by
  obtain @⟨p, q, _, _, _, _, hparts, hp, hprogram, _, _⟩ := h
  unfold currentInputs
  rw [hp, Option.bind_some, Option.bind_some]
  rcases hprogram.current? with ⟨hpn, hqn⟩ | ⟨s, t, hs, ht, hst⟩
  · rw [hpn, hqn]
  · rw [hs, ht]
    exact hst.inputs

/-- It does not matter whether the player was looked at, as long as the same player is seen. -/
theorem seen (h : a.Mirrored C b) {a' b' : Engine} (ha : a.Looked a') (hb : b.Looked b') :
    a'.Mirrored C b' := by
  have hview : b'.view = a'.view := by
    rw [← look_fst, ← look_fst, ha.player, hb.player, look_fst, look_fst]
    obtain ⟨_, _, _, _, hseen⟩ := h
    exact hseen
  obtain ⟨s, rfl⟩ := ha.exists_seen
  obtain ⟨s', rfl⟩ := hb.exists_seen
  obtain ⟨hparts, hp, hprogram, hprobe, _⟩ := h
  exact .mk hparts hp hprogram hprobe hview

theorem expand (h : a.Mirrored C b) {xs ys : List Step}
    (hsteps : List.Forall₂ (Step.Mirrored C) xs ys) :
    Alike (Mirrored C) (a.expand xs) (b.expand ys) := by
  obtain @⟨p, q, probe, log, watches, seen, hparts, hp, hprogram, hprobe, hseen⟩ := h
  rw [expand_of_program hparts hp,
    expand_of_program (e := { a with program := some q, probe, log, watches, seen }) hparts rfl]
  exact ⟨rfl, .mk hparts rfl (hprogram.splice hsteps) hprobe hseen⟩

theorem withProbe (h : a.Mirrored C b) {p q : Option Probe}
    (hpq : Option.Rel (Probe.Mirrored C) p q) : (a.withProbe p).Mirrored C (b.withProbe q) := by
  obtain ⟨hparts, hp, hprogram, _, hseen⟩ := h
  exact .mk hparts hp hprogram hpq hseen

theorem probe (h : a.Mirrored C b) : Option.Rel (Probe.Mirrored C) a.probe b.probe := by
  obtain ⟨_, _, _, hprobe, _⟩ := h
  exact hprobe

theorem setRecord (h : a.Mirrored C b) (record : SearchRecord) :
    ({ a with record } : Engine).Mirrored C { b with record } := by
  obtain ⟨hparts, hp, hprogram, hprobe, hseen⟩ := h
  exact .mk hparts hp hprogram hprobe hseen

theorem saveRecord (h : a.Mirrored C b) : a.saveRecord.Mirrored C b.saveRecord := by
  obtain ⟨hparts, hp, hprogram, hprobe, hseen⟩ := h
  exact .mk hparts hp hprogram hprobe hseen

theorem concluded (h : a.Mirrored C b) (record : SearchRecord) (o : Outcome) :
    (a.concluded record o).Mirrored C (b.concluded record o) := by
  obtain ⟨hparts, hp, hprogram, _, hseen⟩ := h
  exact .mk hparts hp hprogram .none hseen

theorem write (h : a.Mirrored C b) (i : Inputs) : (a.write i).Mirrored C (b.write i) := by
  obtain ⟨hparts, hp, hprogram, hprobe, hseen⟩ := h
  exact .mk hparts hp hprogram hprobe hseen

theorem commit (h : a.Mirrored C b) (i : Inputs) : (a.commit i).2.Mirrored C (b.commit i).2 := by
  obtain ⟨hparts, hp, hprogram, hprobe, hseen⟩ := h
  exact .mk hparts hp hprogram hprobe hseen

theorem beginTick (h : a.Mirrored C b) : a.beginTick.Mirrored C b.beginTick := by
  obtain ⟨hparts, hp, hprogram, hprobe, _⟩ := h
  exact .mk hparts hp hprogram hprobe rfl

theorem meet (h : a.Mirrored C b) (m : Moment) :
    (a.meet m).beginTick.Mirrored C (b.meet m).beginTick := by
  obtain ⟨hparts, hp, hprogram, hprobe, _⟩ := h
  exact .mk hparts hp hprogram hprobe rfl

theorem withOverride (h : a.Mirrored C b) (o : Override) :
    (a.withOverride o).Mirrored C (b.withOverride o) := by
  obtain ⟨hparts, hp, hprogram, hprobe, hseen⟩ := h
  exact .mk hparts hp hprogram hprobe hseen

theorem program (h : a.Mirrored C b) {p q : Program} (hp : a.program = some p)
    (hq : b.program = some q) : p.Mirrored C q := by
  obtain ⟨_, hp', hprogram, _, _⟩ := h
  cases hp'.symm.trans hp
  cases hq
  exact hprogram

/-- The conditions at the cursors are replaced by related ones. -/
theorem setCurrent (h : a.Mirrored C b) {m n : Nat} (hm : a.StandsAt m) (hn : b.StandsAt n)
    {c c' : Condition} (hc : C c c') :
    (a.setAt ⟨.step m, []⟩ c).Mirrored C (b.setAt ⟨.step n, []⟩ c') := by
  obtain ⟨hparts, hp, hprogram, hprobe, hseen⟩ := h
  cases (hm _ hp).1
  cases (hn _ rfl).1
  exact .mk hparts (congrArg (Option.map _) hp) (hprogram.setCurrent hc) hprobe hseen

/-- When a step is left, it does not matter what becomes of its condition. -/
theorem leave (h : a.Mirrored C b) {m n : Nat} (hm : a.StandsAt m) (hn : b.StandsAt n)
    (c c' : Condition) (x y : Event) :
    (((a.setAt ⟨.step m, []⟩ c).note x).advance).Mirrored C
      (((b.setAt ⟨.step n, []⟩ c').note y).advance) := by
  obtain @⟨p, q, _, _, _, _, hparts, hp, hprogram, hprobe, hseen⟩ := h
  obtain ⟨hcursor, hlt⟩ := hm _ hp
  cases hcursor
  cases (hn _ rfl).1
  have hadvance := (hprogram.advance hlt).setPassed (Nat.lt_succ_self p.cursor)
    (Nat.lt_succ_self q.cursor) (·.withCondition c) (·.withCondition c')
  exact .mk hparts (congrArg (Option.map _) (congrArg (Option.map _) hp)) hadvance hprobe hseen

theorem sameEffects (h : a.Mirrored C b) : SameEffects a b := by
  obtain ⟨_, _, _, _, _⟩ := h
  exact ⟨rfl, rfl, rfl, rfl, rfl, rfl, rfl, rfl⟩

/-! ## Searches -/

theorem openProbe (hC : ∀ c, C c c) (h : a.Mirrored C b) {p q : Probe} (hpq : p.Mirrored C q)
    (record : SearchRecord) :
    Alike (Mirrored C) (a.openProbe p record) (b.openProbe q record) :=
  openProbe_alike hpq.inputs hpq.mode record
    (fun _ => (h.setRecord _).saveRecord.expand (forall₂_mirrored_refl hC _))
    fun hexpanded => hexpanded.withProbe (.some hpq)

/-- Searches start alike if the same can be read of their arguments but for the conditions, which
are related. -/
theorem startSearch (hC : ∀ c, C c c) (h : a.Mirrored C b) {args args' : List Arg}
    {p q : Option Place} (hmissing : missingSearchArgument? args = missingSearchArgument? args')
    (hread : ReadAlike (Probe.Mirrored C) (readProbe args p) (readProbe args' q))
    (hbounds : ∀ i, boundAt? args i = boundAt? args' i) :
    Alike (Mirrored C) (a.startSearch args p) (b.startSearch args' q) := by
  refine startSearch_alike h h.sameEffects.record hmissing ?_ hbounds h.setRecord
    (h.openProbe hC)
  generalize readProbe args p = x at hread ⊢
  generalize readProbe args' q = y at hread ⊢
  cases hread with
  | failed f => exact Or.inl ⟨f, rfl, rfl⟩
  | @read x y hxy => exact Or.inr ⟨x, y, rfl, rfl, hxy⟩

/-- Engines that mirror each other answer every condition alike, wherever it stands. -/
theorem agreement (hC : ∀ c, C c c) : Agreement (Mirrored C) fun _ _ => True where
  nowhere := trivial
  inside _ _ := trivial
  script h := by
    obtain ⟨_, _, _, _, _⟩ := h
    rfl
  search h := by
    obtain ⟨_, _, _, _, _⟩ := h
    rfl
  messageBox h := by
    obtain ⟨_, _, _, _, _⟩ := h
    rfl
  exhausted := exhausted
  inputs := inputs
  random h := h.sameEffects.random
  toggle h _ := by
    obtain ⟨hparts, hp, hprogram, hprobe, hseen⟩ := h
    exact .mk hparts hp hprogram hprobe hseen
  setRandom h _ := by
    obtain ⟨hparts, hp, hprogram, hprobe, hseen⟩ := h
    exact .mk hparts hp hprogram hprobe hseen
  look {a b} h := by
    refine ⟨?_, h.seen (.look a) (.look b)⟩
    rw [look_fst, look_fst]
    obtain ⟨_, _, _, _, hseen⟩ := h
    exact hseen.symm
  lookOverlay h := by
    obtain ⟨hparts, hp, hprogram, hprobe, hseen⟩ := h
    exact lookOverlay_alike (.mk hparts hp hprogram hprobe hseen) rfl rfl rfl rfl
      (.mk hparts hp hprogram hprobe hseen) (fun _ => .mk hparts hp hprogram hprobe hseen)
      fun _ => .mk hparts hp hprogram hprobe hseen
  expand h steps := h.expand (forall₂_mirrored_refl hC steps)
  loadScript h _ := by
    obtain ⟨hparts, hp, hprogram, hprobe, hseen⟩ := h
    exact .mk hparts hp hprogram hprobe hseen
  startSearch {a b p q} h _ args := by
    refine h.startSearch hC rfl ?_ fun _ => rfl
    rw [readProbe_eq args p, readProbe_eq args q]
    cases readProbe args none with
    | error f => exact .failed f
    | ok x => exact .read ⟨rfl, rfl, hC _, hC _, hC _⟩
  clearRecord h := by
    obtain ⟨hparts, hp, hprogram, hprobe, hseen⟩ := h
    exact .mk hparts hp hprogram hprobe hseen

/-! ## The outcome check -/

/-- Changes to what was passed are of no account. -/
theorem sameAhead (h : a.Mirrored C b) {p q : Program} {a' b' : Engine} (hp : a.program = some p)
    (hq : b.program = some q) (ha : SameAhead p a a') (hb : SameAhead q b b') :
    a'.Mirrored C b' := by
  obtain ⟨hparts, hp', hprogram, hprobe, hseen⟩ := h
  cases hp'.symm.trans hp
  cases hq
  obtain ⟨p', watches, rfl, hcursor, hlength, hremaining⟩ := ha
  obtain ⟨q', watches', rfl, hcursor', hlength', hremaining'⟩ := hb
  refine .mk hparts rfl ⟨?_, ?_, ?_, ?_⟩ hprobe hseen
  · rw [hcursor, hcursor', hprogram.cursor]
  · rw [hcursor, hlength]
    exact hprogram.leftLe
  · rw [hcursor', hlength']
    exact hprogram.rightLe
  · rw [hremaining, hremaining']
    exact hprogram.remaining

/-- The answer is the same, and the conditions go on to be related unless one of them held. -/
theorem judge (hC : Simulates C) (h : a.Mirrored C b) {p q : Probe} (hpq : p.Mirrored C q) :
    (a.judge p).1 = (b.judge q).1 ∧ (a.judge p).2.2.Mirrored C (b.judge q).2.2 ∧
      ((∀ o, (a.judge p).1 ≠ .ok (some o)) → (a.judge p).2.1.Mirrored C (b.judge q).2.1) := by
  have hlow := hC.evaluate hpq.failLow none none h
  have hhigh := hC.evaluate hpq.failHigh none none hlow.engine
  have hwithin := hC.evaluate hpq.success none none hhigh.engine
  unfold Engine.judge
  dsimp only
  rw [← hlow.outcome]
  split
  · next houtcome =>
    exact ⟨rfl, hlow.engine, fun _ => { hpq with failLow := hlow.rest_of_error houtcome }⟩
  · next houtcome =>
    have hlow' := hlow.rest_of_waiting houtcome
    split
    · exact ⟨rfl, hlow.engine, fun hnone => absurd rfl (hnone _)⟩
    · next hwaits =>
      rw [← hhigh.outcome]
      split
      · next houtcome =>
        exact ⟨rfl, hhigh.engine, fun _ =>
          { hpq with failLow := hlow' hwaits, failHigh := hhigh.rest_of_error houtcome }⟩
      · next houtcome =>
        have hhigh' := hhigh.rest_of_waiting houtcome
        split
        · exact ⟨rfl, hhigh.engine, fun hnone => absurd rfl (hnone _)⟩
        · next hwaits' =>
          rw [← hwithin.outcome]
          split
          · next houtcome =>
            exact ⟨rfl, hwithin.engine, fun _ =>
              ⟨hpq.inputs, hpq.mode, hlow' hwaits, hhigh' hwaits',
                hwithin.rest_of_error houtcome⟩⟩
          · next houtcome =>
            have hwithin' := hwithin.rest_of_waiting houtcome
            split
            · exact ⟨rfl, hwithin.engine, fun hnone => absurd rfl (hnone _)⟩
            · next hwaits'' =>
              exact ⟨rfl, hwithin.engine, fun _ =>
                ⟨hpq.inputs, hpq.mode, hlow' hwaits, hhigh' hwaits', hwithin' hwaits''⟩⟩

/-- Conditions that keep their rests related go on to be related whatever the answer is. -/
theorem judge_of_keepsRests (hC : Simulates C) (hkeeps : KeepsRests C) (h : a.Mirrored C b)
    {p q : Probe} (hpq : p.Mirrored C q) : (a.judge p).2.1.Mirrored C (b.judge q).2.1 := by
  have hlow := hC.evaluate hpq.failLow none none h
  have hhigh := hC.evaluate hpq.failHigh none none hlow.engine
  have hwithin := hC.evaluate hpq.success none none hhigh.engine
  have hlow' := hkeeps hpq.failLow none none h
  have hhigh' := hkeeps hpq.failHigh none none hlow.engine
  have hwithin' := hkeeps hpq.success none none hhigh.engine
  unfold Engine.judge
  dsimp only
  rw [← hlow.outcome]
  split
  · exact { hpq with failLow := hlow' }
  · split
    · exact { hpq with failLow := hlow' }
    · rw [← hhigh.outcome]
      split
      · exact { hpq with failLow := hlow', failHigh := hhigh' }
      · split
        · exact { hpq with failLow := hlow', failHigh := hhigh' }
        · rw [← hwithin.outcome]
          split <;> exact ⟨hpq.inputs, hpq.mode, hlow', hhigh', hwithin'⟩

end Engine.Mirrored

namespace Engine

/-- The outcome check fails although one of its conditions held. -/
def Jams (e : Engine) : Prop :=
  ∃ p o f, e.probe = some p ∧ ((e.withProbe none).judge p).1 = .ok (some o) ∧
    e.classify.1 = .error f

/-- The tick of a moment has an outcome check that fails although one of its conditions held. -/
def JamsOn (e : Engine) (m : Moment) : Prop :=
  e.isFrozen m.paused = false ∧ (e.meet m).override.isActive = false ∧ (e.meet m).beginTick.Jams

/-- No tick of the run has such an outcome check. -/
def NeverJams (budget : Nat) : List Moment → Engine → Prop
  | [], _ => True
  | m :: rest, e => ¬e.JamsOn m ∧ NeverJams budget rest (e.tickOn budget m).2

/-- Keeping the state of the conditions of the open probe changes no step that remains. -/
theorem OpenedBehind.keepInPlace {e : Engine} (h : e.OpenedBehind) {probe : Probe}
    (hprobe : e.probe = some probe) {q : Program}
    (hq : ((e.withProbe none).judge probe).2.2.program = some q) :
    SameAhead q ((e.withProbe none).judge probe).2.2
      (((e.withProbe none).judge probe).2.2.keepInPlace ((e.withProbe none).judge probe).2.1) := by
  have huntouched := (e.withProbe_untouched none).trans (judge_untouched _ probe)
  have hgrown := huntouched.program
  cases hp : e.program with
  | none =>
    rw [hp, hq] at hgrown
    cases hgrown
  | some p =>
    refine keepInPlace_sameAhead hq fun place hplace => ?_
    rw [judge_origin] at hplace
    rw [huntouched.cursor hp hq]
    exact h p hp probe place hprobe hplace

/-- Unless an outcome is taken down, the probe stays open, and its conditions have to be related. -/
theorem Mirrored.settle {a b : Engine} (h : a.Mirrored C b) {p q : Probe}
    {outcome : Except Fault (Option Outcome)} (hmode : p.mode = q.mode)
    (hpq : (∀ o record, outcome = .ok (some o) → a.record.apply p.mode o ≠ .ok record) →
      p.Mirrored C q) :
    Alike (Mirrored C) (a.settle p outcome) (b.settle q outcome) := by
  have hopen : p.Mirrored C q → (a.withProbe (some (a.probe.getD p))).Mirrored C
      (b.withProbe (some (b.probe.getD q))) := by
    intro hpq
    apply h.withProbe
    have hprobe := h.probe
    cases ha : a.probe <;> cases hb : b.probe <;> rw [ha, hb] at hprobe <;> cases hprobe
    · exact .some hpq
    · next hopened => exact .some hopened
  unfold Engine.settle
  cases outcome with
  | error f => exact ⟨rfl, hopen (hpq nofun)⟩
  | ok found =>
    cases found with
    | none => exact ⟨rfl, hopen (hpq nofun)⟩
    | some o =>
      dsimp only
      rw [← h.sameEffects.record, ← hmode]
      split
      · next f happly =>
        refine ⟨rfl, hopen (hpq fun o' record ho => ?_)⟩
        cases ho
        rw [happly]
        exact nofun
      · next record _ =>
        have hconcluded := h.concluded record o
        exact ⟨congrArg (fun r => Except.ok (some (SearchRecord.report r o)))
          hconcluded.sameEffects.record, hconcluded⟩

/-! ## Runs -/

/-- Engines that mirror each other, where no open probe belongs to a step that remains. -/
structure Paired (C : Condition → Condition → Prop) (a b : Engine) : Prop where
  mirrored : a.Mirrored C b
  left : a.OpenedBehind
  right : b.OpenedBehind

namespace Paired

variable {a b : Engine}

theorem classify (hC : Simulates C) (h : a.Paired C b) (hjams : KeepsRests C ∨ ¬a.Jams) :
    Alike (Paired C) a.classify b.classify := by
  obtain ⟨hready, hready'⟩ := h.mirrored.ready
  have hmirrored : Alike (Mirrored C) a.classify b.classify := by
    have hprobe := h.mirrored.probe
    cases hp : a.probe <;> cases hq : b.probe <;> rw [hp, hq] at hprobe <;> cases hprobe
    · rw [classify_of_none hp, classify_of_none hq]
      exact ⟨rfl, h.mirrored⟩
    · next p q hpq =>
      obtain ⟨houtcome, hjudge, hconditions⟩ := (h.mirrored.withProbe .none).judge hC hpq
      obtain ⟨p', hp'⟩ := Option.isSome_iff_exists.mp hjudge.ready.1.2
      obtain ⟨q', hq'⟩ := Option.isSome_iff_exists.mp hjudge.ready.2.2
      have hlooked := hjudge.sameAhead hp' hq' (h.left.keepInPlace hp hp')
        (h.right.keepInPlace hq hq')
      rw [classify_of_probe hp, classify_of_probe hq, ← houtcome]
      refine hlooked.settle ?_ fun hnot => ?_
      · rw [(judge_terms _ p).2, (judge_terms _ q).2, hpq.mode]
      · rcases hjams with hkeeps | hjams
        · exact (h.mirrored.withProbe .none).judge_of_keepsRests hC hkeeps hpq
        · refine hconditions fun o ho => hjams ?_
          cases happly : SearchRecord.apply _ _ o with
          | ok record => exact absurd happly (hnot o record ho)
          | error f =>
            refine ⟨p, o, f, hp, ho, ?_⟩
            rw [classify_of_probe hp, ho, Engine.settle]
            dsimp only
            rw [happly]
  exact ⟨hmirrored.1, hmirrored.2, h.left.classify hready, h.right.classify hready'⟩

/-- A step of the walk ends it with the same outcome, or comes to related steps. -/
theorem pace (hC : Simulates C) (h : a.Paired C b) :
    PaceAlike (Paired C) (Paired C) a.pace b.pace := by
  obtain ⟨hready, hready'⟩ := h.mirrored.ready
  have hmirrored : PaceAlike (Mirrored C) (Mirrored C) a.pace b.pace := by
    obtain ⟨p, hp⟩ := Option.isSome_iff_exists.mp hready.2
    obtain ⟨q, hq⟩ := Option.isSome_iff_exists.mp hready'.2
    rcases (h.mirrored.program hp hq).current? with ⟨hpn, hqn⟩ | ⟨s, t, hs, ht, hst⟩
    · rw [(Paces.ended hp hpn).eq, (Paces.ended hq hqn).eq]
      exact .stop ⟨rfl, h.mirrored.write .none⟩
    · have hturn : Turn.Mirrored C C (a.turnAt p s) (b.turnAt q t) :=
        hC.evaluate hst.condition _ _ h.mirrored
      have hafter : C (a.turnAt p s).rest (b.turnAt q t).rest →
          (a.afterTurn p s).Mirrored C (b.afterTurn q t) :=
        hturn.engine.setCurrent (turnAt_standsAt hp hs) (turnAt_standsAt hq ht)
      cases houtcome : (a.turnAt p s).outcome with
      | error f =>
        have houtcome' := hturn.outcome.symm.trans houtcome
        rw [(Paces.failed hp hs houtcome).eq, (Paces.failed hq ht houtcome').eq]
        exact .stop ⟨rfl, hafter (hturn.rest_of_error houtcome)⟩
      | ok v =>
        have houtcome' := hturn.outcome.symm.trans houtcome
        by_cases hv : v.holds = true
        · rw [(Paces.left hp hs houtcome hv).eq, (Paces.left hq ht houtcome' hv).eq]
          exact .go (hturn.engine.leave (turnAt_standsAt hp hs) (turnAt_standsAt hq ht) _ _ _ _)
        · have hrest := hturn.rest_of_waiting houtcome hv
          cases v with
          | satisfied | expanded => exact absurd rfl hv
          | waiting =>
            rw [(Paces.held hp hs houtcome).eq, (Paces.held hq ht houtcome').eq, hst.inputs]
            exact .stop ⟨rfl, (hafter hrest).commit t.inputs⟩
  cases ha : a.pace <;> cases hb : b.pace <;> rw [ha, hb] at hmirrored <;> cases hmirrored
  · next hstop =>
    exact .stop ⟨hstop.1, hstop.2, h.left.stop hready ha, h.right.stop hready' hb⟩
  · next hgo => exact .go ⟨hgo, h.left.go ha, h.right.go hb⟩

theorem walk (hC : Simulates C) : ∀ (budget : Nat) {a b : Engine}, a.Paired C b →
    Alike (Paired C) (a.walk budget) (b.walk budget)
  | 0, a, b, h => ⟨rfl, h⟩
  | budget + 1, a, b, h => by
    have hpace := h.pace hC
    rw [Engine.walk_succ, Engine.walk_succ]
    generalize a.pace = x at hpace ⊢
    generalize b.pace = y at hpace ⊢
    cases hpace with
    | stop hstop => exact hstop
    | go hgo => exact walk hC budget hgo

theorem play (hC : Simulates C) (h : a.Paired C b) (hjams : KeepsRests C ∨ ¬a.Jams)
    (budget : Nat) :
    Alike (Paired C) (a.play budget) (b.play budget) := by
  obtain ⟨hresult, hclassify⟩ := h.classify hC hjams
  unfold Engine.play
  rcases ha : a.classify with ⟨f | _ | r, a'⟩ <;> rcases hb : b.classify with ⟨g | _ | s, b'⟩ <;>
    rw [ha, hb] at hresult hclassify <;> cases hresult
  · exact ⟨rfl, hclassify⟩
  · exact walk hC budget hclassify
  · exact ⟨rfl, hclassify⟩

/-- A tick comes out the same. -/
theorem tickOn (hC : Simulates C) (h : Paired C a.beginTick b.beginTick) (m : Moment)
    (hjams : KeepsRests C ∨ ¬a.JamsOn m) (budget : Nat) :
    (a.tickOn budget m).1 = (b.tickOn budget m).1 ∧
      Paired C (a.tickOn budget m).2.beginTick (b.tickOn budget m).2.beginTick := by
  have hmeet : Paired C (a.meet m).beginTick (b.meet m).beginTick :=
    ⟨h.mirrored.meet m, h.left, h.right⟩
  have hfrozen : b.isFrozen m.paused = a.isFrozen m.paused := by
    rw [isFrozen, isFrozen, show b.flags = a.flags from h.mirrored.sameEffects.flags.symm]
  have hoverride : (b.meet m).override = (a.meet m).override :=
    hmeet.mirrored.sameEffects.override.symm
  rcases a.tickOn_cases budget m with ⟨ha, htick⟩ | ⟨ha, hactive, htick⟩ | ⟨ha, hinactive, htick⟩
  · have htick' : b.tickOn budget m = (.ok ⟨.paused, .none⟩, b.meet m) :=
      tickWith_frozen budget (hfrozen.trans ha)
    rw [htick, htick']
    exact ⟨rfl, hmeet⟩
  · have htick' := tickWith_override (e := b.meet m) budget (hfrozen.trans ha)
      (by rw [hoverride, hactive])
    rw [hoverride] at htick'
    rw [htick, Engine.tickOn, htick']
    exact ⟨rfl, ((hmeet.mirrored.write _).withOverride _).beginTick, hmeet.left, hmeet.right⟩
  · have htick' : b.tickOn budget m = (b.meet m).beginTick.play budget :=
      tickWith_play budget (hfrozen.trans ha) (by rw [hoverride, hinactive])
    obtain ⟨hresult, hplay⟩ := hmeet.play hC
      (hjams.imp_right fun hnot hj => hnot ⟨ha, hinactive, hj⟩) budget
    rw [htick, htick']
    exact ⟨hresult, hplay.mirrored.beginTick, hplay.left, hplay.right⟩

theorem run (hC : Simulates C) (budget : Nat) : ∀ (ms : List Moment) {a b : Engine},
    Paired C a.beginTick b.beginTick → KeepsRests C ∨ a.NeverJams budget ms →
    (a.run budget ms).1 = (b.run budget ms).1 ∧
      Paired C (a.run budget ms).2.beginTick (b.run budget ms).2.beginTick
  | [], _, _, h, _ => ⟨rfl, h⟩
  | m :: rest, a, b, h, hjams => by
    obtain ⟨hresult, hnext⟩ := tickOn hC h m (hjams.imp_right And.left) budget
    obtain ⟨hresults, hend⟩ := run hC budget rest hnext (hjams.imp_right And.right)
    rw [run_cons, run_cons]
    exact ⟨List.cons_eq_cons.mpr ⟨hresult, hresults⟩, hend⟩

end Paired

theorem load_paired (hC : ∀ c, C c c) (e : Engine) (hparts : e.parts.program = true)
    {xs ys : List Step} (hsteps : List.Forall₂ (Step.Mirrored C) xs ys) :
    Paired C (e.load (some xs)).beginTick (e.load (some ys)).beginTick := by
  refine ⟨.mk hparts rfl ⟨rfl, Nat.zero_le _, Nat.zero_le _, hsteps⟩ ?_ rfl,
    e.load_openedBehind xs, e.load_openedBehind ys⟩
  change Option.Rel _ e.forgetSteps.probe e.forgetSteps.probe
  cases e.forgetSteps.probe with
  | none => exact .none
  | some p => exact .some ⟨rfl, rfl, hC _, hC _, hC _⟩

/-- Programs that mirror each other run alike, if their conditions keep their rests related or no
outcome check jams. -/
theorem run_alike (hC : Simulates C) (e : Engine) (hparts : e.parts.program = true)
    {xs ys : List Step} (hsteps : List.Forall₂ (Step.Mirrored C) xs ys) (budget : Nat)
    (ms : List Moment) (hjams : KeepsRests C ∨ (e.load (some xs)).NeverJams budget ms) :
    ((e.load (some xs)).run budget ms).1 = ((e.load (some ys)).run budget ms).1 ∧
      SameEffects ((e.load (some xs)).run budget ms).2 ((e.load (some ys)).run budget ms).2 := by
  obtain ⟨hresults, hend⟩ := Paired.run hC budget ms (load_paired hC.refl e hparts hsteps) hjams
  have heffects := hend.mirrored.sameEffects
  exact ⟨hresults, heffects.flags, heffects.random, heffects.simulation, heffects.commits,
    heffects.override, heffects.script, heffects.record, heffects.files⟩

/-- Programs that mirror each other run alike: the same outcomes and errors tick by tick, and the
same left behind. -/
theorem run_mirrored (hC : Simulates C) (e : Engine) (hparts : e.parts.program = true)
    {xs ys : List Step} (hsteps : List.Forall₂ (Step.Mirrored C) xs ys) (budget : Nat)
    (ms : List Moment) (hjams : (e.load (some xs)).NeverJams budget ms) :
    ((e.load (some xs)).run budget ms).1 = ((e.load (some ys)).run budget ms).1 ∧
      SameEffects ((e.load (some xs)).run budget ms).2 ((e.load (some ys)).run budget ms).2 :=
  run_alike hC e hparts hsteps budget ms (.inr hjams)

end Engine

end TickScript
