import Mathlib.Data.ENat.Lattice
import TickScript.Proofs.Glances

/-!
# Waiting conditions

A wait is a tree of countdowns and conditions that glance at the player, joined by
`Wait.inOrder` and `Wait.anyOf`. Two descriptions of it are compared here.

* `Wait.due`: the tick on which a wait that starts on a given tick is over. It is defined
  on the whole stream of players and keeps no state.
* `Wait.step`: one evaluation, which answers whether the wait is over and leaves the wait in
  its next state. It is what evaluating the condition does (`Wait.evaluateWith_eq`).

`Wait.due_of_over` and `Wait.due_step` say that they agree: a wait is over on the tick on
which an evaluation says so, and what an evaluation leaves is over on the same tick as the
wait itself.
-/

namespace TickScript

inductive Wait where
  | countdown (n : Int)
  | glance (c : Condition) (f : Player → Bool) (h : c.Glances f)
  | inOrder (ws : List Wait)
  | anyOf (ws : List Wait)

namespace Wait

variable (players : Nat → Player)

/-! ## Without state -/

/-- The first tick from `t` on whose player passes. -/
noncomputable def firstFrom (f : Player → Bool) (t : Nat) : ℕ∞ :=
  ⨅ (s : Nat) (_ : t ≤ s ∧ f (players s) = true), (s : ℕ∞)

/-- The end of what begins on the tick after a wait, if the wait ends. -/
noncomputable def afterwards (first : ℕ∞) (next : Nat → ℕ∞) : ℕ∞ :=
  if first = ⊤ then ⊤ else next (first.toNat + 1)

mutual

/-- The tick on which a wait is over that is evaluated on tick `t` for the first time. -/
noncomputable def due : Wait → Nat → ℕ∞
  | .countdown n, t => if 0 ≤ n then ((t + n.toNat : Nat) : ℕ∞) else ⊤
  | .glance _ f _, t => firstFrom players f t
  | .inOrder ws, t => dueAll ws t
  | .anyOf ws, t => dueAny ws t

noncomputable def dueAll : List Wait → Nat → ℕ∞
  | [], t => t
  | [w], t => w.due t
  | w :: v :: rest, t => afterwards (w.due t) fun s => dueAll (v :: rest) s

noncomputable def dueAny : List Wait → Nat → ℕ∞
  | [], _ => ⊤
  | w :: rest, t => min (w.due t) (dueAny rest t)

end

/-! ## With state -/

mutual

/-- One evaluation, on a tick that shows the given player: whether the wait is over, and
what is left of it. -/
def step (player : Player) : Wait → Bool × Wait
  | .countdown n => (decide (n = 0), .countdown (n - 1))
  | .glance c f h => (f player, .glance c f h)
  | .inOrder ws => ((stepAll player ws).1, .inOrder (stepAll player ws).2)
  | .anyOf ws => ((stepAny player ws).1, .anyOf (stepAny player ws).2)

def stepAll (player : Player) : List Wait → Bool × List Wait
  | [] => (true, [])
  | w :: rest =>
    if (w.step player).1 then (rest.isEmpty, rest) else (false, (w.step player).2 :: rest)

def stepAny (player : Player) : List Wait → Bool × List Wait
  | [] => (false, [])
  | w :: rest =>
    if (w.step player).1 then (true, (w.step player).2 :: rest)
    else ((stepAny player rest).1, (w.step player).2 :: (stepAny player rest).2)

end

mutual

def toCondition : Wait → Condition
  | .countdown n => .countdown n
  | .glance c _ _ => c
  | .inOrder ws => .call (Builtin.expand .inOrder).name (toArgs ws)
  | .anyOf ws => .call (Builtin.expand .anyOf).name (toArgs ws)

def toArgs : List Wait → List Arg
  | [] => []
  | w :: rest => .condition w.toCondition :: toArgs rest

end

/-! ## The two descriptions agree -/

theorem le_firstFrom (f : Player → Bool) (t : Nat) : (t : ℕ∞) ≤ firstFrom players f t :=
  le_iInf₂ fun _ hs => Nat.cast_le.mpr hs.1

theorem firstFrom_of_pass {f : Player → Bool} {t : Nat} (h : f (players t) = true) :
    firstFrom players f t = t :=
  le_antisymm (iInf₂_le t ⟨le_refl t, h⟩) (le_firstFrom players f t)

theorem firstFrom_of_fail {f : Player → Bool} {t : Nat} (h : f (players t) = false) :
    firstFrom players f (t + 1) = firstFrom players f t := by
  apply le_antisymm
  · refine le_iInf₂ fun s hs => ?_
    have hne : t ≠ s := by
      rintro rfl
      rw [h] at hs
      exact Bool.false_ne_true hs.2
    exact iInf₂_le s ⟨by omega, hs.2⟩
  · exact le_iInf₂ fun s hs => iInf₂_le s ⟨by omega, hs.2⟩

mutual

/-- A wait is not over before it begins. -/
theorem le_due : ∀ (w : Wait) (t : Nat), (t : ℕ∞) ≤ w.due players t
  | .countdown n, t => by
    rw [due]
    split
    · exact Nat.cast_le.mpr (Nat.le_add_right t n.toNat)
    · exact le_top
  | .glance _ f _, t => by
    rw [due]
    exact le_firstFrom players f t
  | .inOrder ws, t => by
    rw [due]
    exact le_dueAll ws t
  | .anyOf ws, t => by
    rw [due]
    exact le_dueAny ws t

theorem le_dueAll : ∀ (ws : List Wait) (t : Nat), (t : ℕ∞) ≤ dueAll players ws t
  | [], t => by rw [dueAll]
  | [w], t => by
    rw [dueAll]
    exact le_due w t
  | w :: v :: rest, t => by
    rw [dueAll, afterwards]
    split
    · exact le_top
    · next hfinite =>
      have hfirst := le_due w t
      rw [← ENat.natCast_toNat hfinite, Nat.cast_le] at hfirst
      refine le_trans ?_ (le_dueAll (v :: rest) ((w.due players t).toNat + 1))
      exact Nat.cast_le.mpr (by omega)

theorem le_dueAny : ∀ (ws : List Wait) (t : Nat), (t : ℕ∞) ≤ dueAny players ws t
  | [], t => by
    rw [dueAny]
    exact le_top
  | w :: rest, t => by
    rw [dueAny]
    exact le_min (le_due w t) (le_dueAny rest t)

end

mutual

/-- A wait is over on the tick on which an evaluation says so. -/
theorem due_of_over : ∀ (w : Wait) (t : Nat), (w.step (players t)).1 = true →
    w.due players t = t
  | .countdown n, t, h => by
    have hn : n = 0 := of_decide_eq_true h
    rw [due, hn]
    rfl
  | .glance _ f _, t, h => by
    rw [due]
    exact firstFrom_of_pass players h
  | .inOrder ws, t, h => by
    rw [due]
    exact dueAll_of_over ws t h
  | .anyOf ws, t, h => by
    rw [due]
    exact dueAny_of_over ws t h

theorem dueAll_of_over : ∀ (ws : List Wait) (t : Nat), (stepAll (players t) ws).1 = true →
    dueAll players ws t = t
  | [], t, _ => by rw [dueAll]
  | [w], t, h => by
    rw [stepAll] at h
    split at h
    · next hw =>
      rw [dueAll]
      exact due_of_over w t hw
    · cases h
  | w :: v :: rest, t, h => by
    rw [stepAll] at h
    split at h <;> cases h

theorem dueAny_of_over : ∀ (ws : List Wait) (t : Nat), (stepAny (players t) ws).1 = true →
    dueAny players ws t = t
  | [], t, h => by
    rw [stepAny] at h
    cases h
  | w :: rest, t, h => by
    rw [stepAny] at h
    rw [dueAny]
    split at h
    · next hw =>
      rw [due_of_over w t hw]
      exact min_eq_left (le_dueAny players rest t)
    · rw [dueAny_of_over rest t h]
      exact min_eq_right (le_due players w t)

end

mutual

/-- What an evaluation leaves of a wait is over on the same tick as the wait. -/
theorem due_step : ∀ (w : Wait) (t : Nat), (w.step (players t)).1 = false →
    (w.step (players t)).2.due players (t + 1) = w.due players t
  | .countdown n, t, h => by
    have hn : n ≠ 0 := of_decide_eq_false h
    rw [step, due, due]
    by_cases hpos : 0 ≤ n
    · have hticks : t + 1 + (n - 1).toNat = t + n.toNat := by omega
      rw [if_pos hpos, if_pos (by omega), hticks]
    · rw [if_neg hpos, if_neg (by omega)]
  | .glance _ f _, t, h => by
    rw [step, due, due]
    exact firstFrom_of_fail players h
  | .inOrder ws, t, h => by
    rw [step, due, due]
    exact dueAll_step ws t h
  | .anyOf ws, t, h => by
    rw [step, due, due]
    exact dueAny_step ws t h

theorem dueAll_step : ∀ (ws : List Wait) (t : Nat), (stepAll (players t) ws).1 = false →
    dueAll players (stepAll (players t) ws).2 (t + 1) = dueAll players ws t
  | [], t, h => by
    rw [stepAll] at h
    cases h
  | [w], t, h => by
    rw [stepAll] at h ⊢
    split at h
    · cases h
    · next hw =>
      rw [if_neg hw, dueAll, dueAll]
      exact due_step w t (Bool.eq_false_iff.mpr hw)
  | w :: v :: rest, t, _ => by
    rw [stepAll]
    split
    · -- The first wait is dropped, and the next one begins on the next tick.
      next hw =>
      rw [dueAll, due_of_over players w t hw, afterwards, if_neg (ENat.natCast_ne_top t)]
      rfl
    · next hw =>
      rw [dueAll, dueAll, due_step w t (Bool.eq_false_iff.mpr hw)]

theorem dueAny_step : ∀ (ws : List Wait) (t : Nat), (stepAny (players t) ws).1 = false →
    dueAny players (stepAny (players t) ws).2 (t + 1) = dueAny players ws t
  | [], t, _ => by
    rw [stepAny, dueAny, dueAny]
  | w :: rest, t, h => by
    rw [stepAny] at h ⊢
    split at h
    · cases h
    · next hw =>
      rw [if_neg hw, dueAny, dueAny, due_step w t (Bool.eq_false_iff.mpr hw),
        dueAny_step rest t h]

end

/-- An evaluation says that a wait is over on no other tick than the one it is due. -/
theorem over_iff_due (w : Wait) (t : Nat) :
    (w.step (players t)).1 = true ↔ w.due players t = t := by
  constructor
  · exact due_of_over players w t
  · intro hdue
    by_contra hwaits
    have hnext := le_due players (w.step (players t)).2 (t + 1)
    rw [due_step players w t (Bool.eq_false_iff.mpr hwaits), hdue, Nat.cast_le] at hnext
    omega

/-- What is left of a wait after its evaluations on so many ticks from tick `t` on. -/
def after (w : Wait) (t : Nat) : Nat → Wait
  | 0 => w
  | n + 1 => ((after w t n).step (players (t + n))).2

variable {w : Wait} {t n : Nat}

theorem due_after : ∀ n : Nat, ((t + n : Nat) : ℕ∞) ≤ w.due players t →
    (w.after players t n).due players (t + n) = w.due players t
  | 0, _ => rfl
  | n + 1, hn => by
    have hlt : ((t + n : Nat) : ℕ∞) < w.due players t :=
      lt_of_lt_of_le (Nat.cast_lt.mpr (by omega)) hn
    have ih := due_after n (le_of_lt hlt)
    have hwaits : ((w.after players t n).step (players (t + n))).1 = false := by
      rw [Bool.eq_false_iff]
      intro hover
      rw [over_iff_due, ih] at hover
      exact hlt.ne hover.symm
    rw [after, ← Nat.add_assoc, due_step players _ _ hwaits, ih]

theorem after_waits (h : ((t + n : Nat) : ℕ∞) < w.due players t) :
    ((w.after players t n).step (players (t + n))).1 = false := by
  rw [Bool.eq_false_iff]
  intro hover
  rw [over_iff_due, due_after players n (le_of_lt h)] at hover
  exact h.ne hover.symm

theorem after_over (h : w.due players t = (t + n : Nat)) :
    ((w.after players t n).step (players (t + n))).1 = true := by
  rw [over_iff_due, due_after players n (le_of_eq h.symm), h]

/-! ## Evaluation -/

variable (late : Late)

mutual

/-- Evaluating the condition of a wait is one step of the wait. -/
theorem evaluateWith_eq : ∀ (w : Wait) (place : Option Place) (e : Engine), ∃ e', e.Looked e' ∧
    w.toCondition.evaluateWith late place e =
      ⟨.ok (.ofBool (w.step e.look.1).1), (w.step e.look.1).2.toCondition, e'⟩
  | .countdown n, place, e => by
    refine ⟨e, .refl e, ?_⟩
    rw [toCondition, Condition.evaluateWith]
    rfl
  | .glance c f h, place, e => by
    rw [toCondition]
    exact h late place e
  | .inOrder ws, place, e => by
    obtain ⟨e', hlooked, heq⟩ := evaluateInOrder_eq ws e
    refine ⟨e', hlooked, ?_⟩
    rw [toCondition, Condition.evaluateWith, Builtin.ofName?_name]
    dsimp only
    rw [heq]
    rfl
  | .anyOf ws, place, e => by
    obtain ⟨e', hlooked, heq⟩ := evaluateAnyOf_eq ws place 0 e
    refine ⟨e', hlooked, ?_⟩
    rw [toCondition, Condition.evaluateWith, Builtin.ofName?_name]
    dsimp only
    rw [heq]
    rfl

theorem evaluateInOrder_eq : ∀ (ws : List Wait) (e : Engine), ∃ e', e.Looked e' ∧
    evaluateInOrder late (toArgs ws) e =
      ⟨.ok (.ofBool (stepAll e.look.1 ws).1), toArgs (stepAll e.look.1 ws).2, e'⟩
  | [], e => by
    refine ⟨e, .refl e, ?_⟩
    rw [toArgs, evaluateInOrder]
    rfl
  | w :: rest, e => by
    obtain ⟨e', hlooked, heq⟩ := evaluateWith_eq w none e
    refine ⟨e', hlooked, ?_⟩
    rw [toArgs, evaluateInOrder, Arg.evaluateWith, stepAll]
    dsimp only
    rw [heq]
    dsimp only
    rw [Verdict.holds_ofBool]
    split
    · cases rest with
      | nil => rfl
      | cons v rest => rfl
    · rfl

theorem evaluateAnyOf_eq : ∀ (ws : List Wait) (place : Option Place) (index : Nat) (e : Engine),
    ∃ e', e.Looked e' ∧ evaluateAnyOf late place index (toArgs ws) e =
      ⟨.ok (.ofBool (stepAny e.look.1 ws).1), toArgs (stepAny e.look.1 ws).2, e'⟩
  | [], place, index, e => by
    refine ⟨e, .refl e, ?_⟩
    rw [toArgs, evaluateAnyOf]
    rfl
  | w :: rest, place, index, e => by
    obtain ⟨e', hlooked, heq⟩ := evaluateWith_eq w (place.map (·.arg index)) e
    obtain ⟨e'', hlooked', heq'⟩ := evaluateAnyOf_eq rest place (index + 1) e'
    rw [toArgs, evaluateAnyOf, Arg.evaluateWith, stepAny]
    dsimp only
    rw [heq]
    dsimp only
    rw [Verdict.holds_ofBool]
    split
    · exact ⟨e', hlooked, rfl⟩
    · rw [heq', hlooked.player]
      exact ⟨e'', hlooked.trans hlooked', rfl⟩

end

end Wait

/-- The evaluation says that the condition is satisfied, or that it inserted steps. -/
def Turn.Passes {σ : Type} (t : Turn σ) : Prop := ∃ v, t.outcome = .ok v ∧ v.holds = true

theorem Turn.not_passes_of_error {σ : Type} {t : Turn σ} {f : Fault} (h : t.outcome = .error f) :
    ¬t.Passes := by
  rintro ⟨v, hv, -⟩
  rw [h] at hv
  cases hv

theorem Turn.not_passes_of_waiting {σ : Type} {t : Turn σ} {v : Verdict} (h : t.outcome = .ok v)
    (hv : ¬v.holds = true) : ¬t.Passes := by
  rintro ⟨w, hw, hholds⟩
  rw [h] at hw
  cases hw
  exact hv hholds

/-- In a row of conditions, an evaluation reaches the first one only, and drops it once it
holds. -/
theorem evaluateInOrder_cons (late : Late) (a : Arg) (rest : List Arg) (e : Engine) :
    (evaluateInOrder late (a :: rest) e).engine = (a.evaluateWith late none e).engine ∧
      ((a.evaluateWith late none e).Passes →
        (evaluateInOrder late (a :: rest) e).rest = rest) ∧
      (¬(a.evaluateWith late none e).Passes →
        (evaluateInOrder late (a :: rest) e).rest = (a.evaluateWith late none e).rest :: rest) := by
  rw [evaluateInOrder]
  split
  · next heq =>
    exact ⟨rfl, fun hpasses => absurd hpasses (Turn.not_passes_of_error heq), fun _ => rfl⟩
  · next v heq =>
    split
    · next hholds => exact ⟨rfl, fun _ => rfl, fun hpasses => absurd ⟨v, heq, hholds⟩ hpasses⟩
    · next hwaits =>
      exact ⟨rfl, fun hpasses => absurd hpasses (Turn.not_passes_of_waiting heq hwaits),
        fun _ => rfl⟩

end TickScript
