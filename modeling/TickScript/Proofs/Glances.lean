import TickScript.Engine.Evaluate

/-!
# Conditions that only glance at the player

A condition glances if its answer is a function of the player as seen on this tick, and it
neither changes nor changes anything else. Predicates about the player do
(`Check.glances`, `Reading.glances`), and so do tests that do not ask whether the program
is exhausted (`Native.glances`) and alternatives of such conditions
(`Condition.Glances.anyOf`).

What evaluating such conditions leaves is the engine as it was, but for the look at the
player that it may have taken (`Engine.Looked`).
-/

namespace TickScript

namespace Engine

/-! ## Looking at the player -/

/-- The second engine is the first one, or the first one after a look at the player. -/
def Looked (a b : Engine) : Prop := b = a ∨ b = a.look.2

theorem look_look (e : Engine) : e.look.2.look = (e.look.1, e.look.2) := by
  unfold look
  cases hseen : e.seen with
  | none => rfl
  | some p => simp [hseen]

namespace Looked

theorem refl (e : Engine) : Looked e e := Or.inl rfl

theorem look (e : Engine) : Looked e e.look.2 := Or.inr rfl

/-- Looking again on the same tick shows the same player. -/
theorem player {a b : Engine} (h : Looked a b) : b.look.1 = a.look.1 := by
  rcases h with rfl | rfl
  · rfl
  · rw [look_look]

theorem trans {a b c : Engine} (h : Looked a b) (g : Looked b c) : Looked a c := by
  rcases h with rfl | rfl
  · exact g
  · rcases g with rfl | rfl
    · exact .look a
    · rw [look_look]
      exact .look a

/-- Nothing but what was seen may differ. -/
theorem exists_seen {a b : Engine} (h : Looked a b) : ∃ seen, b = { a with seen } := by
  rcases h with rfl | rfl
  · exact ⟨_, rfl⟩
  · unfold Engine.look
    split
    · exact ⟨_, rfl⟩
    · exact ⟨_, rfl⟩

end Looked

theorem check_looked (e : Engine) (c : Check) : e.Looked (e.check c).2 := by
  cases c with
  | always | messageBox => exact .refl e
  | _ => exact .look e

theorem ask_looked (e : Engine) (t : Native) : e.Looked (e.ask t).2 := by
  unfold ask
  split
  · exact .refl e
  · exact .look e

/-- A comparison does no more than its reading. -/
theorem compare_snd (e : Engine) (r : Reading) (args : List Arg) :
    (e.compare r args).2 = e ∨ (e.compare r args).2 = (e.read r).2 := by
  unfold compare
  split
  · split
    · exact .inl rfl
    · split
      · next heq => exact .inr (by rw [heq])
      · next heq => exact .inr (by rw [heq])
  · exact .inl rfl

/-- The engine with a player seen on this tick. -/
def seeing (e : Engine) (p : Player) : Engine := { e with seen := some p }

end Engine

/-! ## Glancing -/

/-- A condition whose truth is a function of the player, and that leaves itself and the
engine alone. -/
def Condition.Glances (c : Condition) (f : Player → Bool) : Prop :=
  ∀ (late : Late) (place : Option Place) (e : Engine), ∃ e', e.Looked e' ∧
    c.evaluateWith late place e = ⟨.ok (.ofBool (f e.look.1)), c, e'⟩

/-- What a predicate answers when it sees a player. -/
def Check.sees (c : Check) (p : Player) : Bool := ((default : Engine).seeing p |>.check c).1

theorem Check.glances (c : Check) (hc : c ≠ .messageBox) (args : List Arg) :
    (Condition.call (Builtin.check c).name args).Glances c.sees := by
  intro late place e
  have hcheck : ∃ e', e.Looked e' ∧ e.check c = (c.sees e.look.1, e') := by
    cases c with
    | messageBox => exact absurd rfl hc
    | always => exact ⟨e, .refl e, rfl⟩
    | _ => exact ⟨e.look.2, .look e, rfl⟩
  obtain ⟨e', hlooked, hanswer⟩ := hcheck
  refine ⟨e', hlooked, ?_⟩
  rw [Condition.evaluateWith, Builtin.ofName?_name]
  dsimp only
  rw [hanswer]

/-- The number that a reading takes from the player, if it does not need the overlay. -/
def Reading.ofPlayer? : Reading → Option (Player → Float)
  | .x => some Player.x
  | .y => some Player.y
  | .speedX => some Player.speedX
  | .speedY => some Player.speedY
  | .overlayX | .overlayY | .overlayState => none

theorem Reading.glances {r : Reading} {g : Player → Float} (hr : r.ofPlayer? = some g)
    {token value : Arg} {c : Comparator} (hc : Comparator.ofToken token.toValue = .ok c)
    {bound : Exact} (hvalue : value.toValue.numeric? = some bound) (rest : List Arg) :
    (Condition.call (Builtin.compare r).name (token :: value :: rest)).Glances
      fun p => c.accepts ((Exact.ofFloat (g p)).compare bound) := by
  intro late place e
  have hread : e.read r = (.ok (.ofFloat (g e.look.1)), e.look.2) := by
    cases r <;> cases hr <;> rfl
  have hholds : c.holds (.ofFloat (g e.look.1)) value.toValue =
      .ok (c.accepts ((Exact.ofFloat (g e.look.1)).compare bound)) := by
    unfold Comparator.holds
    rw [hvalue]
  have hcompare : e.compare r (token :: value :: rest) =
      (.ok (c.accepts ((Exact.ofFloat (g e.look.1)).compare bound)), e.look.2) := by
    unfold Engine.compare
    dsimp only
    rw [hc]
    dsimp only
    rw [hread]
    dsimp only
    rw [hholds]
  refine ⟨e.look.2, .look e, ?_⟩
  rw [Condition.evaluateWith, Builtin.ofName?_name]
  dsimp only
  rw [hcompare]
  rfl

/-- What a test answers when it sees a player. -/
def Native.sees (t : Native) (exhausted : Bool) (p : Player) : Bool :=
  match t.test exhausted with
  | .inl answer => answer
  | .inr question => question p

theorem Native.glances {t : Native} {f : Player → Bool}
    (h : ∀ exhausted p, t.sees exhausted p = f p) (label : String) :
    (Condition.native t label).Glances f := by
  intro late place e
  have hask : ∃ e', e.Looked e' ∧ e.ask t = (f e.look.1, e') := by
    have hsees := h e.isExhausted e.look.1
    rw [Native.sees] at hsees
    rw [Engine.ask]
    cases htest : t.test e.isExhausted with
    | inl answer =>
      rw [htest] at hsees
      exact ⟨e, .refl e, congrArg (·, e) hsees⟩
    | inr question =>
      rw [htest] at hsees
      exact ⟨e.look.2, .look e, congrArg (·, e.look.2) hsees⟩
  obtain ⟨e', hlooked, hanswer⟩ := hask
  refine ⟨e', hlooked, ?_⟩
  rw [Condition.evaluateWith, hanswer]

/-- Conditions with what they answer, as alternatives. -/
def alternatives (cs : List (Condition × (Player → Bool))) : List Arg :=
  cs.map fun c => .condition c.1

theorem evaluateAnyOf_glances (late : Late) (place : Option Place) :
    ∀ (cs : List (Condition × (Player → Bool))), (∀ c ∈ cs, c.1.Glances c.2) →
      ∀ (index : Nat) (e : Engine), ∃ e', e.Looked e' ∧
        evaluateAnyOf late place index (alternatives cs) e =
          ⟨.ok (.ofBool (cs.any fun c => c.2 e.look.1)), alternatives cs, e'⟩
  | [], _, _, e => ⟨e, .refl e, rfl⟩
  | (c, f) :: rest, h, index, e => by
    obtain ⟨e', hlooked, hc⟩ := h _ List.mem_cons_self late (place.map (·.arg index)) e
    obtain ⟨e'', hlooked', hrest⟩ := evaluateAnyOf_glances late place rest
      (fun c hmem => h c (List.mem_cons_of_mem _ hmem)) (index + 1) e'
    rw [alternatives, List.map_cons, evaluateAnyOf, Arg.evaluateWith, List.any_cons]
    dsimp only
    rw [hc]
    dsimp only
    rw [Verdict.holds_ofBool]
    by_cases hf : f e.look.1 = true
    · rw [if_pos hf, hf, Bool.true_or]
      exact ⟨e', hlooked, rfl⟩
    · rw [if_neg hf, Bool.eq_false_iff.mpr hf, Bool.false_or, ← alternatives, hrest,
        hlooked.player]
      exact ⟨e'', hlooked.trans hlooked', rfl⟩

/-- Alternatives that all glance make up a condition that glances. -/
theorem Condition.Glances.anyOf {cs : List (Condition × (Player → Bool))}
    (h : ∀ c ∈ cs, c.1.Glances c.2) :
    (Condition.call (Builtin.expand .anyOf).name (alternatives cs)).Glances
      fun p => cs.any fun c => c.2 p := by
  intro late place e
  obtain ⟨e', hlooked, hany⟩ := evaluateAnyOf_glances late place cs h 0 e
  refine ⟨e', hlooked, ?_⟩
  rw [Condition.evaluateWith, Builtin.ofName?_name]
  dsimp only
  rw [hany]

end TickScript
