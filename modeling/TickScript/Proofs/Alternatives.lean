import Mathlib
import TickScript.Proofs.Calls
import TickScript.Proofs.Lockstep

/-!
# Alternatives that never hold

A countdown below zero never holds. Beside any number of those, a condition answers moment by
moment what it answers alone, until it holds for the first time
(`Condition.alternatives_independent`).

That is about the alternatives that are read. One list with nothing beside it, whose first item is
a list, is not read as an alternative: its items are. With anything beside it, it is a row of
conditions.

* `Condition.answers`: what a condition answers until it holds.
* `Condition.among_evaluate`: one evaluation.
-/

namespace TickScript

/-! ## The place of a probe -/

/-- Engines that differ at most in where their open probe comes from. -/
def Engine.SameButOrigin (a b : Engine) : Prop :=
  ∃ probe, b = a.withProbe probe ∧ Option.Rel (Probe.Alike fun _ _ => True) a.probe probe

namespace Engine.SameButOrigin

theorem refl (e : Engine) : e.SameButOrigin e :=
  ⟨e.probe, rfl, option_rel_mono (fun _ _ h => h.mono fun _ _ _ => trivial)
    (probe_alike_refl e.probe)⟩

theorem expand {a b : Engine} (h : a.SameButOrigin b) (steps : List Step) :
    Alike SameButOrigin (a.expand steps) (b.expand steps) := by
  obtain ⟨probe, rfl, hprobe⟩ := h
  have hab : a.SameButOrigin (a.withProbe probe) := ⟨probe, rfl, hprobe⟩
  have hsplice : Alike SameButOrigin (a.splice steps) ((a.withProbe probe).splice steps) := by
    refine Engine.splice_alike hab rfl (fun p q hp hq steps => ?_) steps
    cases hp.symm.trans hq
    exact ⟨probe, rfl, hprobe⟩
  unfold Engine.expand
  rw [show (a.withProbe probe).parts = a.parts from rfl]
  split
  · exact hsplice
  · exact ⟨rfl, hab⟩

theorem setRecord {a b : Engine} (h : a.SameButOrigin b) (record : SearchRecord) :
    ({ a with record } : Engine).SameButOrigin { b with record } := by
  obtain ⟨probe, rfl, hprobe⟩ := h
  exact ⟨probe, rfl, hprobe⟩

theorem saveRecord {a b : Engine} (h : a.SameButOrigin b) :
    a.saveRecord.SameButOrigin b.saveRecord := by
  obtain ⟨probe, rfl, hprobe⟩ := h
  exact ⟨probe, rfl, hprobe⟩

theorem withProbe {a b : Engine} (h : a.SameButOrigin b) {x y : Probe}
    (hxy : x.Alike (fun _ _ => True) y) :
    (a.withProbe (some x)).SameButOrigin (b.withProbe (some y)) := by
  obtain ⟨probe, rfl, _⟩ := h
  exact ⟨some y, rfl, .some hxy⟩

theorem startSearch {a b : Engine} (h : a.SameButOrigin b) {p q : Option Place}
    (hpq : Option.Rel (fun _ _ => True) p q) (args : List Arg) :
    Alike SameButOrigin (a.startSearch args p) (b.startSearch args q) := by
  have hrecord : a.record = b.record := by
    obtain ⟨_, rfl, _⟩ := h
    rfl
  refine Engine.startSearch_alike h hrecord rfl (Engine.readProbe_alike args hpq) (fun _ => rfl)
    h.setRecord fun hxy record => ?_
  exact Engine.openProbe_alike hxy.inputs hxy.mode record (h.setRecord _).saveRecord.expand
    fun hexpanded => hexpanded.withProbe hxy

/-- What the outside brings along is the same for both. -/
theorem meet {a b : Engine} (h : a.SameButOrigin b) (m : Moment) :
    (a.meet m).beginTick.SameButOrigin (b.meet m).beginTick := by
  obtain ⟨probe, rfl, hprobe⟩ := h
  exact ⟨probe, rfl, hprobe⟩

end Engine.SameButOrigin

theorem agreement_sameButOrigin :
    Agreement Engine.SameButOrigin (Option.Rel fun _ _ => True) where
  nowhere := .none
  inside hpq i := by
    cases hpq with
    | none => exact .none
    | some => exact .some trivial
  script h := by
    obtain ⟨_, rfl, _⟩ := h
    rfl
  search h := by
    obtain ⟨_, rfl, _⟩ := h
    rfl
  messageBox h := by
    obtain ⟨_, rfl, _⟩ := h
    rfl
  exhausted h := by
    obtain ⟨_, rfl, _⟩ := h
    rfl
  inputs h := by
    obtain ⟨_, rfl, _⟩ := h
    rfl
  random h := by
    obtain ⟨_, rfl, _⟩ := h
    rfl
  toggle h _ := by
    obtain ⟨probe, rfl, hprobe⟩ := h
    exact ⟨probe, rfl, hprobe⟩
  setRandom h _ := by
    obtain ⟨probe, rfl, hprobe⟩ := h
    exact ⟨probe, rfl, hprobe⟩
  look h := by
    obtain ⟨probe, rfl, hprobe⟩ := h
    exact Engine.look_alike ⟨probe, rfl, hprobe⟩ rfl rfl ⟨probe, rfl, hprobe⟩
  lookOverlay h := by
    obtain ⟨probe, rfl, hprobe⟩ := h
    exact Engine.lookOverlay_alike ⟨probe, rfl, hprobe⟩ rfl rfl rfl rfl ⟨probe, rfl, hprobe⟩
      (fun _ => ⟨probe, rfl, hprobe⟩) fun _ => ⟨probe, rfl, hprobe⟩
  expand h := h.expand
  loadScript h _ := by
    obtain ⟨probe, rfl, hprobe⟩ := h
    exact ⟨probe, rfl, hprobe⟩
  startSearch h hpq := h.startSearch hpq
  clearRecord h := by
    obtain ⟨probe, rfl, hprobe⟩ := h
    exact ⟨probe, rfl, hprobe⟩

/-! ## Answers -/

/-- What a condition answers moment by moment, until it holds for the first time, and the engine
that is left. An expansion counts as an answer that it holds. -/
def Condition.answers (place : Option Place) :
    List Moment → Condition → Engine → List (Except Fault Bool) × Engine
  | [], _, e => ([], e)
  | m :: rest, c, e =>
    let t := c.evaluate place (e.meet m).beginTick
    match t.outcome.map Verdict.holds with
    | .ok true => ([.ok true], t.engine)
    | answer =>
      let later := answers place rest t.rest t.engine
      (answer :: later.1, later.2)

/-! ## Countdowns that never end -/

/-- Countdowns as alternatives. -/
def countdownArgs (ns : List Int) : List Arg := ns.map fun n => .condition (.countdown n)

/-- A condition with countdowns before and behind it, as alternatives. -/
def Condition.among (before : List Int) (c : Condition) (behind : List Int) : Condition :=
  .call (Builtin.expand .anyOf).name (countdownArgs before ++ .condition c :: countdownArgs behind)

/-- Countdowns below zero are waited for, and stay below zero. -/
theorem evaluateAnyOf_countdownArgs (late : Late) (place : Option Place) {ns : List Int}
    (h : ∀ n ∈ ns, n < 0) (index : Nat) (args : List Arg) (e : Engine) :
    evaluateAnyOf late place index (countdownArgs ns ++ args) e =
      let t := evaluateAnyOf late place (index + ns.length) args e
      ⟨t.outcome, countdownArgs (ns.map (· - 1)) ++ t.rest, t.engine⟩ := by
  induction ns generalizing index with
  | nil => rfl
  | cons n ns ih =>
    obtain ⟨hn, hns⟩ := List.forall_mem_cons.mp h
    have hzero : decide (n = 0) = false := decide_eq_false (Int.ne_of_lt hn)
    have hcons : countdownArgs (n :: ns) = .condition (.countdown n) :: countdownArgs ns := rfl
    have hindex : index + (n :: ns).length = index + 1 + ns.length := by
      rw [List.length_cons]
      omega
    rw [hcons, List.cons_append, evaluateAnyOf, Arg.evaluateWith, Condition.evaluateWith, hzero,
      hindex]
    dsimp only [Verdict.holds, Verdict.ofBool]
    rw [ih hns (index + 1)]
    rfl

/-- A condition answers among countdowns below zero what it answers alone, wherever it stands. -/
theorem Condition.among_evaluate {before behind : List Int} (hbefore : ∀ n ∈ before, n < 0)
    (hbehind : ∀ n ∈ behind, n < 0) (c : Condition) (place : Option Place) {a b : Engine}
    (hab : a.SameButOrigin b) :
    let s := c.evaluate place a
    let t := (c.among before behind).evaluate place b
    t.outcome.map Verdict.holds = s.outcome.map Verdict.holds ∧ s.engine.SameButOrigin t.engine ∧
      ∃ before' behind', (∀ n ∈ before', n < 0) ∧ (∀ n ∈ behind', n < 0) ∧
        t.rest = s.rest.among before' behind' := by
  have hlower : ∀ ns : List Int, (∀ n ∈ ns, n < 0) → ∀ n ∈ ns.map (· - 1), n < 0 := by
    intro ns hns n hn
    obtain ⟨m, hm, rfl⟩ := List.mem_map.mp hn
    have hm := hns m hm
    omega
  have hplace : Option.Rel (fun _ _ => True) place (place.map (·.arg (0 + before.length))) := by
    cases place with
    | none => exact .none
    | some => exact .some trivial
  obtain ⟨houtcome, hrest, hengine⟩ := c.evaluate_alike agreement_sameButOrigin hplace hab
  dsimp only
  rw [Condition.evaluate, Condition.evaluate, among, Condition.evaluateWith, Builtin.ofName?_name]
  dsimp only
  rw [evaluateAnyOf_countdownArgs _ _ hbefore, evaluateAnyOf, Arg.evaluateWith]
  dsimp only
  rw [← Condition.evaluate, ← Condition.evaluate, ← houtcome, ← hrest]
  cases hturn : (c.evaluate place a).outcome with
  | error f => exact ⟨rfl, hengine, _, behind, hlower before hbefore, hbehind, rfl⟩
  | ok v =>
    dsimp only
    split
    · next hv =>
      exact ⟨congrArg Except.ok hv.symm, hengine, _, behind, hlower before hbefore, hbehind, rfl⟩
    · next hv =>
      have hwaits := evaluateAnyOf_countdownArgs Condition.evaluateRead place hbehind
        (0 + before.length + 1) [] (c.evaluate (place.map (·.arg (0 + before.length))) b).engine
      rw [List.append_nil] at hwaits
      rw [hwaits, evaluateAnyOf]
      dsimp only
      rw [List.append_nil]
      exact ⟨congrArg Except.ok (eq_false_of_ne_true hv).symm, hengine, _, _,
        hlower before hbefore, hlower behind hbehind, rfl⟩

/-- Beside countdowns below zero, the answers up to the first success are the same. -/
theorem Condition.answers_among (place : Option Place) (ms : List Moment) :
    ∀ {before behind : List Int}, (∀ n ∈ before, n < 0) → (∀ n ∈ behind, n < 0) →
    ∀ (c : Condition) {a b : Engine}, a.SameButOrigin b →
      Alike Engine.SameButOrigin (c.answers place ms a)
        ((c.among before behind).answers place ms b) := by
  induction ms with
  | nil => exact fun _ _ _ _ _ hab => ⟨rfl, hab⟩
  | cons m rest ih =>
    intro before behind hbefore hbehind c a b hab
    obtain ⟨houtcome, hengine, before', behind', hbefore', hbehind', hrest⟩ :=
      c.among_evaluate hbefore hbehind place (hab.meet m)
    obtain ⟨hlater, hend⟩ :=
      ih hbefore' hbehind' (c.evaluate place (a.meet m).beginTick).rest hengine
    rw [answers, answers, hrest]
    dsimp only
    rw [houtcome]
    split
    · exact ⟨rfl, hengine⟩
    · exact ⟨congrArg (List.cons _) hlater, hend⟩

/-! ## Reading alternatives -/

namespace Catalogue

/-- Alternatives are read as conditions, one by one. -/
theorem readArgs_anyOf_cons {v : Value} {c : Condition} (hread : standard.readCondition v = .ok c)
    {rest : List Value} {args : List Arg}
    (hrest : ∀ index, standard.readArgs (Builtin.expand .anyOf).spec index rest = .ok args)
    (index : Nat) :
    standard.readArgs (Builtin.expand .anyOf).spec index (v :: rest) =
      .ok (.condition c :: args) := by
  rw [readArgs_cons_of_isVariadic rfl (isNull_of_readCondition hread), hread, hrest]
  rfl

theorem readArgs_anyOf_ints {rest : List Value} {args : List Arg}
    (hrest : ∀ index, standard.readArgs (Builtin.expand .anyOf).spec index rest = .ok args)
    (ns : List Int) : ∀ index, standard.readArgs (Builtin.expand .anyOf).spec index
      (ns.map .int ++ rest) = .ok (countdownArgs ns ++ args) := by
  induction ns with
  | nil => exact hrest
  | cons n ns ih => exact readArgs_anyOf_cons (v := .int n) rfl ih

/-- An alternative that is no list which starts with a list, or that has others beside it, is read
as a condition. -/
theorem readCondition_among {v : Value} {c : Condition} (hread : standard.readCondition v = .ok c)
    {before behind : List Int} (halone : before = [] → behind = [] → isWrapped [v] = false) :
    standard.readCondition (.list (.text "or" :: (before.map .int ++ v :: behind.map .int))) =
      .ok (c.among before behind) := by
  have hargs : standard.readArgs (Builtin.expand .anyOf).spec 0
      (before.map .int ++ v :: behind.map .int) =
        .ok (countdownArgs before ++ .condition c :: countdownArgs behind) := by
    refine readArgs_anyOf_ints (readArgs_anyOf_cons hread fun index => ?_) before 0
    have hnil : ∀ index, standard.readArgs (Builtin.expand .anyOf).spec index [] = .ok [] :=
      fun _ => by rw [readArgs]
    have hbehind := readArgs_anyOf_ints hnil behind index
    rwa [List.append_nil, List.append_nil] at hbehind
  have hplain : isWrapped (before.map .int ++ v :: behind.map .int) = false := by
    cases hwrapped : isWrapped (before.map .int ++ v :: behind.map .int) with
    | false => rfl
    | true =>
      obtain ⟨_, _, heq⟩ := exists_of_isWrapped hwrapped
      have hlength := congrArg List.length heq
      rw [List.length_append, List.length_map, List.length_cons, List.length_map,
        List.length_singleton] at hlength
      obtain rfl := List.eq_nil_of_length_eq_zero (l := before) (by omega)
      obtain rfl := List.eq_nil_of_length_eq_zero (l := behind) (by omega)
      exact hwrapped.symm.trans (halone rfl rfl)
  have hspec : standard.spec? "or" = some (Builtin.expand .anyOf).spec := rfl
  rw [readCondition]
  · rw [readCall, hspec]
    dsimp only
    rw [hplain, Bool.and_false, if_neg Bool.false_ne_true, hargs]
    rfl
  · rintro f hflag
    cases hflag

/-- One list that starts with a list is not read as an alternative: its items are the
alternatives. -/
theorem readCondition_anyOf_wrapped {items : List Value} (h : isWrapped [.list items] = true) :
    standard.readCondition (.list [.text "or", .list items]) =
      (standard.readArgs (Builtin.expand .anyOf).spec 0 items).map
        (.call (Builtin.expand .anyOf).name) := by
  have hspec : standard.spec? "or" = some (Builtin.expand .anyOf).spec := rfl
  have hvariadic : ((Builtin.expand .anyOf).spec.variadic && true) = true := rfl
  rw [readCondition]
  · rw [readCall, hspec]
    dsimp only
    rw [h, if_pos hvariadic, readWrapped]
    rfl
  · rintro f hflag
    cases hflag

end Catalogue

/-! ## The statement -/

/-- Alternatives that never hold make no difference. Whatever cell is read as a condition, and
however many countdowns below zero are written before and behind it, the alternatives answer what
the condition answers alone, moment by moment up to the first success, and leave the same behind.
The one exception is a list that starts with a list and has nothing beside it: alone it is a row of
conditions, but its items are taken as alternatives. -/
theorem Condition.alternatives_independent {v : Value} {c : Condition}
    (hread : Catalogue.standard.readCondition v = .ok c) :
    (∀ before behind : List Int, (∀ n ∈ before, n < 0) → (∀ n ∈ behind, n < 0) →
      (before = [] → behind = [] → isWrapped [v] = false) →
      ∃ d, Catalogue.standard.readCondition
          (.list (.text "or" :: (before.map .int ++ v :: behind.map .int))) = .ok d ∧
        ∀ (place : Option Place) (ms : List Moment) (e : Engine),
          (d.answers place ms e).1 = (c.answers place ms e).1 ∧
          (c.answers place ms e).2.SameButOrigin (d.answers place ms e).2) ∧
    ∀ items, v = .list items → isWrapped [v] = true →
      Catalogue.standard.readCondition (.list [.text "or", v]) =
        (Catalogue.standard.readArgs (Builtin.expand .anyOf).spec 0 items).map (.call "or") := by
  refine ⟨fun before behind hbefore hbehind halone => ?_, ?_⟩
  · refine ⟨c.among before behind, Catalogue.readCondition_among hread halone, ?_⟩
    intro place ms e
    obtain ⟨hanswers, hend⟩ := c.answers_among place ms hbefore hbehind (.refl e)
    exact ⟨hanswers.symm, hend⟩
  · rintro items rfl hwrapped
    exact Catalogue.readCondition_anyOf_wrapped hwrapped

/-- A row of two conditions, of which the first one holds. -/
def groundThenAir : Value := .list [.list [.text "tg"], .list [.text "ntg"]]

/-- With a countdown behind it, the row is waited for. -/
theorem Condition.alternatives_independent_of_row :
    let ms : List Moment := [{ player := { onGround := true } }, { player := {} }]
    ∃ d, Catalogue.standard.readCondition (.list [.text "or", groundThenAir, .int (-1)]) = .ok d ∧
      (d.answers none ms default).1 = [.ok false, .ok true] := by
  intro ms
  obtain ⟨c, hread⟩ : ∃ c, Catalogue.standard.readCondition groundThenAir = .ok c := ⟨_, rfl⟩
  obtain ⟨d, hd, hanswers⟩ := (alternatives_independent hread).1 [] [-1] nofun (by decide) nofun
  refine ⟨d, hd, ((hanswers none ms default).1).trans ?_⟩
  cases hread
  cbv

/-- Alone, its conditions are alternatives. -/
theorem Condition.alternatives_unwrapped :
    ¬∀ (v : Value) (c : Condition), Catalogue.standard.readCondition v = .ok c →
      ∃ d, Catalogue.standard.readCondition (.list [.text "or", v]) = .ok d ∧
        ∀ (place : Option Place) (ms : List Moment) (e : Engine),
          (d.answers place ms e).1 = (c.answers place ms e).1 := by
  intro h
  obtain ⟨d, hd, hanswers⟩ := h groundThenAir _ rfl
  have hground := hanswers none [{ player := { onGround := true } }] default
  cases hd
  have halone : ((Condition.call "or" [.condition (.call "tg" []),
      .condition (.call "ntg" [])]).answers none [{ player := { onGround := true } }] default).1 =
        [.ok true] := by cbv
  have hrow : ((Condition.call "then" [.condition (.call "tg" []),
      .condition (.call "ntg" [])]).answers none [{ player := { onGround := true } }] default).1 =
        [.ok false] := by cbv
  cases (halone.symm.trans hground).trans hrow

end TickScript
