import TickScript.Proofs.Inlining
import TickScript.Proofs.PendingSteps

/-!
# Loops and their unrolling

A loop whose condition only glances at the player inserts its body and itself as long as the
condition holds. A program with a loop runs like the program in which the body is in place as
often as the condition came out true (`Engine.loop_is_unrolling`).

Each iteration has a seam of its own. At every check the first program inserts what the second
one has in place, and the seam moves on to behind it, until a check fails and the rest is the
same. What the checks answered is read off the engines from which the walks took their steps
(`Engine.visited`, `Engine.checks`). How many iterations have to be in place is settled by them
(`Tallies`).
-/

namespace TickScript

/-- Where steps were inserted behind the cursor only, the others still follow. -/
theorem Program.Follows.remaining {p q : Program} {s : Step} {rest : List Step} (h : p.Follows q)
    (hp : p.remaining = s :: rest) : ∃ s' fresh, q.remaining = s' :: (fresh ++ rest) := by
  have hlt : q.cursor < q.steps.length := by
    rw [h.cursor]
    exact Nat.lt_of_lt_of_le (cursor_lt hp) h.size
  have hbehind : q.steps.drop (q.cursor + 1 + (q.size - p.size)) = rest := by
    rw [h.cursor, h.behind]
    exact (List.cons.inj ((remaining_of_current? (current?_of_remaining hp)).symm.trans hp)).2
  refine ⟨q.steps[q.cursor], (q.steps.drop (q.cursor + 1)).take (q.size - p.size), ?_⟩
  rw [Program.remaining, List.drop_eq_getElem_cons hlt, ← hbehind,
    ← List.drop_drop (i := q.size - p.size), List.take_append_drop]

/-! ## Iterations -/

/-- So many iterations in place, and what follows them. -/
def iterations (n : Nat) (body rest : List Step) : List Step :=
  (List.replicate n body).flatten ++ rest

theorem iterations_succ (n : Nat) (body rest : List Step) :
    iterations (n + 1) body rest = body ++ iterations n body rest := by
  simp [iterations, List.replicate_succ]

/-- The checks of a loop come out as the number of iterations in place asks for: either they
succeed, not more often than that, or the last one fails behind all iterations, and what follows
them is what follows the loop. -/
def Tallies (Q R : List Step) (n : Nat) (answers : List Bool) : Prop :=
  (∃ j ≤ n, answers = List.replicate j true) ∨
    (R = Q ∧ List.replicate n true ++ [false] <+: answers)

section

variable {Q R : List Step} {n : Nat} {answers : List Bool}

theorem Tallies.again (h : Tallies Q R n (true :: answers)) :
    ∃ k, n = k + 1 ∧ Tallies Q R k answers := by
  rcases h with ⟨j, hj, heq⟩ | ⟨hR, hprefix⟩
  · cases j with
    | zero => cases heq
    | succ j =>
      refine ⟨n - 1, by omega, Or.inl ⟨j, by omega, ?_⟩⟩
      exact (List.cons.inj heq).2
  · cases n with
    | zero =>
      have hhead := (List.cons_prefix_cons.mp hprefix).1
      cases hhead
    | succ n => exact ⟨n, rfl, Or.inr ⟨hR, (List.cons_prefix_cons.mp hprefix).2⟩⟩

theorem Tallies.over (h : Tallies Q R n (false :: answers)) : n = 0 ∧ R = Q := by
  rcases h with ⟨j, -, heq⟩ | ⟨hR, hprefix⟩
  · cases j <;> cases heq
  · cases n with
    | zero => exact ⟨rfl, hR⟩
    | succ n =>
      have hhead := (List.cons_prefix_cons.mp hprefix).1
      cases hhead

end

namespace Engine

/-! ## Checks -/

/-- The engines from which a walk takes its steps. -/
def stops : Nat → Engine → List Engine
  | 0, _ => []
  | budget + 1, e =>
    e :: match e.pace with
      | .inl _ => []
      | .inr e' => e'.stops budget

/-- The same for the tick of a moment, if it is a walk. -/
def stopsOn (budget : Nat) (e : Engine) (m : Moment) : List Engine :=
  if e.isFrozen m.paused || (e.meet m).override.isActive then []
  else
    match (e.meet m).beginTick.classify with
    | (.ok none, e') => e'.stops budget
    | _ => []

/-- The same for all ticks of a run. -/
def visited (budget : Nat) : List Moment → Engine → List Engine
  | [], _ => []
  | m :: rest, e => e.stopsOn budget m ++ (e.tickOn budget m).2.visited budget rest

open Classical in
/-- The answers about the player, each time that these steps remain. -/
noncomputable def checks (f : Player → Bool) (l : List Step) (engines : List Engine) : List Bool :=
  engines.filterMap fun e => if e.remaining? = some l then some (f e.view) else none

section

variable {f : Player → Bool} {l : List Step} {e e' : Engine}

theorem checks_append (xs ys : List Engine) :
    checks f l (xs ++ ys) = checks f l xs ++ checks f l ys := List.filterMap_append

theorem checks_cons_of_eq (h : e.remaining? = some l) (es : List Engine) :
    checks f l (e :: es) = f e.view :: checks f l es := by
  rw [checks, checks, List.filterMap_cons, if_pos h]

theorem checks_cons_of_ne (h : e.remaining? ≠ some l) (es : List Engine) :
    checks f l (e :: es) = checks f l es := by
  rw [checks, checks, List.filterMap_cons, if_neg h]

theorem stops_of_stop {r : Except Fault TickOutcome × Engine} (h : e.pace = .inl r) (k : Nat) :
    e.stops (k + 1) = [e] := by rw [stops, h]

theorem stops_of_go (h : e.pace = .inr e') (k : Nat) : e.stops (k + 1) = e :: e'.stops k := by
  rw [stops, h]

theorem stopsOn_of_walks {m : Moment} (h : e.Walks m) (k : Nat) :
    e.stopsOn k m = (e.meet m).beginTick.classify.2.stops k := by
  have hgoes : (e.meet m).beginTick.classify.1 = .ok none := h.goesOn
  rw [stopsOn, h.going, h.inactive, Bool.or_false, if_neg Bool.false_ne_true]
  split
  · next heq => rw [heq]
  · next hne => exact (hne _ (Prod.ext hgoes rfl)).elim

theorem stopsOn_of_not_walks {m : Moment} (h : ¬e.Walks m) (k : Nat) : e.stopsOn k m = [] := by
  rw [stopsOn]
  split
  · rfl
  · next hgoing =>
    rw [Bool.or_eq_true, not_or, Bool.not_eq_true, Bool.not_eq_true] at hgoing
    split
    · next heq => exact absurd ⟨hgoing.1, hgoing.2, congrArg Prod.fst heq⟩ h
    · rfl

end

/-! ## The simulation -/

section

variable {f : Player → Bool} {body Q R : List Step} {s : Step} {n : Nat}
  (hs : s.Inserts fun p => if f p then body ++ [s] else [])

include hs

/-- Walks near the seam of an iteration come out the same, whatever checks there are on the
way. Each check moves the seam on by an iteration, or is the last one. -/
theorem walk_loop : ∀ (k : Nat) {n iters : Nat} {later : List Bool} {a b : Engine},
    Near (Tallies Q R iters (checks f (s :: Q) (a.stops k) ++ later)) (s :: Q)
      (iterations iters body R) a b →
    a.parts.program = true → Fits (iters + 1) k n (a.walk k).1 (b.walk n).1 →
    (a.walk k).1 = (b.walk n).1 ∧
      ∃ left ≤ iters, ∃ cursors, Abreast (Headed (Joined (Tallies Q R left later) (s :: Q)
        (iterations left body R))) cursors (a.walk k).2 (b.walk n).2
  | 0, _, _, _, _, _, _, _, hfits => by
    obtain ⟨k, -, hk, -⟩ := fits_pos hfits
    cases hk
  | k + 1, n, iters, later, a, b, .headed h, hparts, hfits => by
    rcases headed_cases h with hsame | ⟨hA, hahead⟩
    · obtain ⟨houtcome, cursors, hwalk⟩ := walk_same hsame hfits
      exact ⟨houtcome, iters, Nat.le_refl _, cursors, hwalk.mono headed_joined_of_eq⟩
    · obtain ⟨_, n, -, rfl⟩ := fits_pos hfits
      have hpace := headed_pace h
      generalize ha : a.pace = x at hpace
      generalize hb : b.pace = y at hpace
      cases hpace with
      | stop hstop =>
        rw [walk_of_stop ha, walk_of_stop hb]
        rw [stops_of_stop ha, checks_cons_of_ne hahead] at hstop
        exact ⟨hstop.1, iters, Nat.le_refl _, _, hstop.2⟩
      | go hgo =>
        rw [stops_of_go ha, checks_cons_of_ne hahead] at hgo
        rw [walk_of_go ha, walk_of_go hb] at hfits ⊢
        exact walk_loop k hgo (by rw [(pace_untouched ha).2, hparts]) hfits.pred
  | k + 1, n, iters, later, a, b, .seam hA h hbehind, hparts, hfits => by
    have hremaining : a.remaining? = some (s :: Q) := by
      obtain ⟨hp, hprogram, _, _⟩ := h
      rw [remaining?, hp, Option.map_some, hprogram.remaining.1]
    obtain ⟨a', cursors, hpace, hat, hbehind'⟩ := seam_pace hs h hbehind hparts
    have hparts' : a'.parts.program = true := by rw [(pace_untouched hpace).2, hparts]
    rw [stops_of_go hpace, checks_cons_of_eq hremaining, List.cons_append] at hA
    rw [walk_of_go hpace] at hfits ⊢
    cases hf : f a.view with
    | true =>
      rw [hf] at hA hat
      obtain ⟨left, rfl, hA'⟩ := hA.again
      have hjoined : Abreast (Joined (Tallies Q R left (checks f (s :: Q) (a'.stops k) ++ later))
          (s :: Q) (iterations left body R)) cursors a' b := hat.mono fun hseam =>
        Or.inr ⟨hA', body, by rw [hseam.1, if_pos rfl, List.append_assoc]; rfl,
          by rw [hseam.2, iterations_succ]⟩
      obtain ⟨houtcome, left', hle, hrest⟩ :=
        walk_loop k (near_of_joined hjoined hbehind') hparts' hfits.spend
      exact ⟨houtcome, left', Nat.le_succ_of_le hle, hrest⟩
    | false =>
      rw [hf] at hA hat
      obtain ⟨rfl, rfl⟩ := hA.over
      have hsame : Abreast (· = ·) cursors a' b := hat.mono fun hseam => by
        rw [hseam.1, hseam.2, if_neg Bool.false_ne_true]
        rfl
      obtain ⟨houtcome, cursors, hwalk⟩ := walk_same hsame hfits.spend
      exact ⟨houtcome, 0, Nat.le_refl _, cursors, hwalk.mono headed_joined_of_eq⟩

/-- A tick comes out the same. -/
theorem tickOn_loop {k n iters : Nat} {later : List Bool} {a b : Engine} {m : Moment}
    (h : Between (Tallies Q R iters (checks f (s :: Q) (a.stopsOn k m) ++ later)) (s :: Q)
      (iterations iters body R) a b)
    (hparts : a.parts.program = true)
    (hfits : Fits (iters + 1) k n (a.tickOn k m).1 (b.tickOn n m).1) :
    (a.tickOn k m).1 = (b.tickOn n m).1 ∧
      ∃ left ≤ iters, Between (Tallies Q R left later) (s :: Q) (iterations left body R)
        (a.tickOn k m).2 (b.tickOn n m).2 := by
  rcases h.tickOn_cases m k n with ⟨hstill, hresult, hnext⟩ | ⟨hwalks, hwalks', hnear⟩
  · rw [stopsOn_of_not_walks hstill] at hnext
    exact ⟨hresult, iters, Nat.le_refl _, hnext⟩
  · rw [stopsOn_of_walks hwalks] at hnear
    rw [hwalks.tickOn_eq, hwalks'.tickOn_eq] at hfits ⊢
    obtain ⟨houtcome, left, hle, _, hengine⟩ := walk_loop hs k hnear
      (by rw [(a.meet m).beginTick.classify_untouched.parts]; exact hparts) hfits
    exact ⟨houtcome, left, hle, .headed hengine.beginTick⟩

/-- Runs come out the same, tick by tick. -/
theorem run_loop {k n : Nat} : ∀ (ms : List Moment) {iters : Nat} {a b : Engine},
    Between (Tallies Q R iters (checks f (s :: Q) (a.visited k ms))) (s :: Q)
      (iterations iters body R) a b →
    a.parts.program = true →
    ((k ≤ n ∧ ∀ r ∈ (a.run k ms).1, r ≠ .error .overrun) ∨
      (n + (iters + 1) ≤ k ∧ ∀ r ∈ (b.run n ms).1, r ≠ .error .overrun)) →
    (a.run k ms).1 = (b.run n ms).1 ∧
      ∀ ticks, SameEffects (a.run k (ms.take ticks)).2 (b.run n (ms.take ticks)).2
  | [], _, _, _, h, _, _ => ⟨rfl, fun ticks => by rw [List.take_nil]; exact h.sameEffects⟩
  | m :: rest, iters, a, b, h, hparts, hends => by
    rw [visited, checks_append] at h
    rw [run_cons, run_cons] at hends ⊢
    have hfits : Fits (iters + 1) k n (a.tickOn k m).1 (b.tickOn n m).1 :=
      hends.imp (And.imp_right fun hall => hall _ List.mem_cons_self)
        (And.imp_right fun hall => hall _ List.mem_cons_self)
    obtain ⟨hresult, left, hle, hnext⟩ := tickOn_loop hs h hparts hfits
    obtain ⟨hresults, heffects⟩ := run_loop rest hnext (by rw [tickOn_parts, hparts])
      (hends.imp (And.imp_right fun hall r hr => hall r (List.mem_cons_of_mem _ hr))
        (And.imp (fun hkn => by omega) fun hall r hr => hall r (List.mem_cons_of_mem _ hr)))
    refine ⟨List.cons_eq_cons.mpr ⟨hresult, hresults⟩, fun ticks => ?_⟩
    cases ticks with
    | zero => exact h.sameEffects
    | succ ticks =>
      rw [List.take_succ_cons, run_cons, run_cons]
      exact heffects ticks

end

/-! ## Where a loop is checked -/

/-- The engine stands in a program of which these steps are the last, behind some others. -/
def Awaits (e : Engine) (before l : List Step) : Prop :=
  ∃ p, e.StandsIn p ∧ p.remaining = before ++ l

/-- The steps are not next. -/
def StandsBefore (e : Engine) (l : List Step) : Prop := ∃ z zs, e.Awaits (z :: zs) l

section

variable {e e' : Engine} {before l zs : List Step} {z : Step} {p : Program}

theorem Awaits.remaining? (h : e.Awaits before l) : e.remaining? = some (before ++ l) := by
  obtain ⟨p, hstands, hp⟩ := h
  rw [Engine.remaining?, hstands.program, Option.map_some, hp]

theorem StandsBefore.remaining?_ne (h : e.StandsBefore l) : e.remaining? ≠ some l := by
  obtain ⟨z, zs, h⟩ := h
  rw [h.remaining?]
  intro heq
  have hlength := congrArg List.length (Option.some.inj heq)
  rw [List.length_append, List.length_cons] at hlength
  omega

theorem Awaits.same (h : e.Awaits before l) (hprogram : e'.program = e.program)
    (hprobe : e'.probe = e.probe) : e'.Awaits before l := by
  obtain ⟨p, hstands, hp⟩ := h
  exact ⟨p, ⟨hprogram.trans hstands.program, hstands.cursor, hprobe ▸ hstands.origin⟩, hp⟩

/-- Conditions do not touch what is behind the step at the cursor. -/
theorem StandsIn.standsBefore {log : List Event} (h : e.StandsIn p)
    (hp : p.remaining = z :: zs ++ l) (hextends : Extends p log e') : e'.StandsBefore l := by
  obtain ⟨q, hstands, hfollows⟩ := hextends.standsIn h.cursor
  obtain ⟨z', fresh, hq⟩ := hfollows.remaining hp
  exact ⟨z', fresh ++ zs, q, hstands, hq.trans (congrArg _ (List.append_assoc ..).symm)⟩

theorem StandsBefore.classify (h : e.StandsBefore l) : e.classify.2.StandsBefore l := by
  obtain ⟨z, zs, p, hstands, hp⟩ := h
  exact hstands.standsBefore hp (classify_extends hstands)

/-- Where the walk stops, the steps are not next; otherwise it may come to them. -/
theorem StandsBefore.pace (h : e.StandsBefore l) :
    (∀ r, e.pace = .inl r → r.2.StandsBefore l) ∧
      ∀ e', e.pace = .inr e' → ∃ before, e'.Awaits before l := by
  obtain ⟨z, zs, p, hstands, hp⟩ := h
  have hcurrent : p.current? = some z := p.current?_of_remaining hp
  have hpaces := e.paces_pace
  generalize e.pace = x at hpaces ⊢
  cases hpaces with
  | idle hnone => cases hstands.program.symm.trans hnone
  | ended hp' hend =>
    cases hstands.program.symm.trans hp'
    cases hcurrent.symm.trans hend
  | @failed p' step f hp' =>
    cases hstands.program.symm.trans hp'
    refine ⟨?_, ?_⟩ <;> rintro _ ⟨⟩
    exact hstands.standsBefore hp (afterTurn_extends hstands step)
  | @held p' step hp' =>
    cases hstands.program.symm.trans hp'
    refine ⟨?_, ?_⟩ <;> rintro _ ⟨⟩
    exact hstands.standsBefore hp ((afterTurn_extends hstands step).same rfl rfl rfl)
  | @left p' step v hp' =>
    cases hstands.program.symm.trans hp'
    refine ⟨?_, ?_⟩ <;> rintro _ ⟨⟩
    obtain ⟨z', zs', q, hstands', hq⟩ :=
      hstands.standsBefore hp (afterTurn_extends hstands step)
    refine ⟨zs', q.advance, hstands'.advance (Program.cursor_lt hq) _, ?_⟩
    rw [Program.remaining_advance, hq]
    rfl

end

section

variable {f : Player → Bool} {body Q : List Step} {s : Step} {e : Engine}
  (hs : s.Inserts fun p => if f p then body ++ [s] else [])

include hs

/-- A check costs nothing, and the walk goes on with what it inserted. -/
theorem pace_check (hparts : e.parts.program = true) (h : e.remaining? = some (s :: Q)) :
    ∃ e', e.pace = .inr e' ∧ SameEffects e e' ∧
      e'.remaining? = some (if f e.view then body ++ s :: Q else Q) := by
  obtain ⟨p, hp, hremaining⟩ := Option.map_eq_some_iff.mp h
  obtain ⟨q, seen, log, hpace, -, hq, -⟩ := inserts_pace hs hparts hp hremaining
  refine ⟨_, hpace, ⟨rfl, rfl, rfl, rfl, rfl, rfl, rfl, rfl⟩, ?_⟩
  rw [remaining?, Option.map_some, hq]
  split
  · rw [List.append_assoc]
    rfl
  · rfl

theorem Awaits.check (hparts : e.parts.program = true) (h : e.Awaits [] (s :: Q))
    (hf : f e.view = true) : ∃ e', e.pace = .inr e' ∧ e'.Awaits body (s :: Q) := by
  obtain ⟨e', hpace, -, hremaining⟩ := pace_check hs hparts h.remaining?
  obtain ⟨p, hstands, -⟩ := h
  obtain ⟨q, hstands', -⟩ := stage_pace hstands
  rw [hpace, afterPace] at hstands'
  rw [if_pos hf, Engine.remaining?, hstands'.program] at hremaining
  exact ⟨e', hpace, q, hstands', Option.some.inj hremaining⟩

/-- A walk on which no check fails stops before the loop. -/
theorem walk_standsBefore : ∀ (k : Nat) {e : Engine} {before : List Step},
    e.Awaits before (s :: Q) → e.parts.program = true → (e.walk k).1 ≠ .error .overrun →
    false ∉ checks f (s :: Q) (e.stops k) → (e.walk k).2.StandsBefore (s :: Q)
  | 0, _, _, _, _, hends, _ => absurd rfl hends
  | k + 1, e, [], h, hparts, hends, hholds => by
    have hat : e.remaining? = some (s :: Q) := h.remaining?
    have hcheck := checks_cons_of_eq (f := f) hat
    have hf : f e.view = true := by
      cases hf : f e.view with
      | true => rfl
      | false =>
        rw [stops, hcheck, hf] at hholds
        exact absurd List.mem_cons_self hholds
    obtain ⟨e', hpace, hnext⟩ := h.check hs hparts hf
    rw [stops_of_go hpace, hcheck] at hholds
    rw [walk_of_go hpace] at hends ⊢
    exact walk_standsBefore k hnext (by rw [(pace_untouched hpace).2, hparts]) hends
      fun hmem => hholds (List.mem_cons_of_mem _ hmem)
  | k + 1, e, z :: zs, h, hparts, hends, hholds => by
    have hbefore : e.StandsBefore (s :: Q) := ⟨z, zs, h⟩
    obtain ⟨hstop, hgo⟩ := hbefore.pace
    cases hpace : e.pace with
    | inl r =>
      rw [walk_of_stop hpace]
      exact hstop r hpace
    | inr e' =>
      obtain ⟨before, hnext⟩ := hgo e' hpace
      rw [stops_of_go hpace, checks_cons_of_ne hbefore.remaining?_ne] at hholds
      rw [walk_of_go hpace] at hends ⊢
      exact walk_standsBefore k hnext (by rw [(pace_untouched hpace).2, hparts]) hends hholds

/-- After a tick on which no check fails, the loop is not next, unless it was next before and
nothing was walked. -/
theorem tickOn_awaits {k : Nat} {m : Moment} {before : List Step} (h : e.Awaits before (s :: Q))
    (hprobe : before = [] → e.probe = none) (hparts : e.parts.program = true)
    (hends : (e.tickOn k m).1 ≠ .error .overrun)
    (hholds : false ∉ checks f (s :: Q) (e.stopsOn k m)) :
    (e.tickOn k m).2.StandsBefore (s :: Q) ∨
      (before = [] ∧ e.stopsOn k m = [] ∧ (e.tickOn k m).2.Awaits [] (s :: Q) ∧
        (e.tickOn k m).2.probe = none) := by
  have hstill : ∀ e' : Engine, ¬e.Walks m → e'.program = e.program → e'.probe = e.probe →
      (e'.StandsBefore (s :: Q) ∨
        (before = [] ∧ e.stopsOn k m = [] ∧ e'.Awaits [] (s :: Q) ∧ e'.probe = none)) := by
    intro e' hwalks hprogram hsame
    cases before with
    | nil =>
      exact Or.inr ⟨rfl, stopsOn_of_not_walks hwalks k, h.same hprogram hsame,
        hsame.trans (hprobe rfl)⟩
    | cons z zs => exact Or.inl ⟨z, zs, h.same hprogram hsame⟩
  rcases e.tickOn_cases k m with ⟨hfrozen, htick⟩ | ⟨-, hactive, htick⟩ | ⟨hgoing, hinactive, htick⟩
  · rw [htick]
    refine hstill _ (fun hwalks => ?_) rfl rfl
    rw [hwalks.going] at hfrozen
    cases hfrozen
  · rw [htick]
    refine hstill _ (fun hwalks => ?_) rfl rfl
    rw [hwalks.inactive] at hactive
    cases hactive
  · have hbegin : (e.meet m).beginTick.Awaits before (s :: Q) := h.same rfl rfl
    refine Or.inl ?_
    by_cases hgoes : e.GoesOn m
    · have hwalks : e.Walks m := ⟨hgoing, hinactive, hgoes⟩
      have hstart : ∃ before, (e.meet m).beginTick.classify.2.Awaits before (s :: Q) := by
        cases before with
        | nil =>
          rw [classify_of_none (e := (e.meet m).beginTick) (hprobe rfl)]
          exact ⟨[], hbegin⟩
        | cons z zs =>
          obtain ⟨z', zs', hclassify⟩ := StandsBefore.classify ⟨z, zs, hbegin⟩
          exact ⟨z' :: zs', hclassify⟩
      obtain ⟨before', hstart⟩ := hstart
      rw [hwalks.tickOn_eq] at hends ⊢
      rw [stopsOn_of_walks hwalks] at hholds
      exact walk_standsBefore hs k hstart
        (by rw [(e.meet m).beginTick.classify_untouched.parts]; exact hparts) hends hholds
    · cases before with
      | nil =>
        have hnone : (e.meet m).beginTick.probe = none := hprobe rfl
        exact absurd (congrArg Prod.fst (classify_of_none hnone)) hgoes
      | cons z zs =>
        have hclassify := StandsBefore.classify ⟨z, zs, hbegin⟩
        rw [htick, play]
        split
        · next heq => simpa only [heq] using hclassify
        · next heq => simpa only [heq] using hclassify
        · next heq => exact absurd (congrArg Prod.fst heq) hgoes

/-- As long as no check failed, the loop is not next between two ticks, unless nothing was
walked. -/
theorem run_awaits {k : Nat} : ∀ (ms : List Moment) {e : Engine} {before : List Step},
    e.Awaits before (s :: Q) → (before = [] → e.probe = none) → e.parts.program = true →
    (∀ r ∈ (e.run k ms).1, r ≠ .error .overrun) →
    false ∉ checks f (s :: Q) (e.visited k ms) →
    (e.run k ms).2.StandsBefore (s :: Q) ∨ (before = [] ∧ e.visited k ms = [])
  | [], _, [], _, _, _, _, _ => Or.inr ⟨rfl, rfl⟩
  | [], _, z :: zs, h, _, _, _, _ => Or.inl ⟨z, zs, h⟩
  | m :: rest, e, before, h, hprobe, hparts, hends, hholds => by
    rw [run_cons] at hends ⊢
    rw [visited, checks_append, List.mem_append, not_or] at hholds
    have hends' : ∀ r ∈ ((e.tickOn k m).2.run k rest).1, r ≠ .error .overrun :=
      fun r hr => hends r (List.mem_cons_of_mem _ hr)
    have hparts' : (e.tickOn k m).2.parts.program = true := by rw [tickOn_parts, hparts]
    rcases tickOn_awaits hs h hprobe hparts (hends _ List.mem_cons_self) hholds.1 with
      ⟨z, zs, hnext⟩ | ⟨hbefore, hstops, hnext, hnone⟩
    · rcases run_awaits rest hnext nofun hparts' hends' hholds.2 with hlast | ⟨hnil, -⟩
      · exact Or.inl hlast
      · cases hnil
    · rcases run_awaits rest hnext (fun _ => hnone) hparts' hends' hholds.2 with hlast | ⟨-, hrest⟩
      · exact Or.inl hlast
      · exact Or.inr ⟨hbefore, by rw [visited, hstops, hrest, List.append_nil]⟩

end

/-- A walk comes to each of its engines from one before, but for the first. -/
theorem mem_stops : ∀ (k : Nat) {e x : Engine}, x ∈ e.stops k →
    x = e ∨ ∃ y ∈ e.stops k, y.pace = .inr x
  | 0, _, _, hx => absurd hx List.not_mem_nil
  | k + 1, e, x, hx => by
    cases hpace : e.pace with
    | inl r =>
      rw [stops_of_stop hpace, List.mem_singleton] at hx
      exact Or.inl hx
    | inr e' =>
      rw [stops_of_go hpace] at hx ⊢
      rcases List.mem_cons.mp hx with rfl | hx'
      · exact Or.inl rfl
      · rcases mem_stops k hx' with rfl | ⟨y, hy, hxy⟩
        · exact Or.inr ⟨e, List.mem_cons_self, hpace⟩
        · exact Or.inr ⟨y, List.mem_cons_of_mem _ hy, hxy⟩

/-! ## The statement -/

/-- Two runs have the same outcomes and leave the same behind on every tick, as long as the
walks of one of them end. The first one may need some steps of a walk more. -/
def RunsAlike (spare budget : Nat) (ms : List Moment) (a b : Engine) : Prop :=
  ∀ n, ((budget ≤ n ∧ ∀ r ∈ (a.run budget ms).1, r ≠ .error .overrun) ∨
      (n + spare ≤ budget ∧ ∀ r ∈ (b.run n ms).1, r ≠ .error .overrun)) →
    (a.run budget ms).1 = (b.run n ms).1 ∧
      ∀ ticks, SameEffects (a.run budget (ms.take ticks)).2 (b.run n (ms.take ticks)).2

/-- A loop is its unrolling. A program with a loop whose condition glances, and whose check
succeeds so many times and then fails, runs like the program that has so many iterations in
place of it. While no check failed, it runs like every program with enough iterations,
whatever follows them. A check costs nothing: the walk goes on behind it. It takes place on the
tick on which the step before the loop is left, unless nothing is before the loop and nothing
was walked. -/
theorem loop_is_unrolling {c : Condition} {f : Player → Bool} (hc : c.Glances f) (i : Inputs)
    (others : List Arg) (P body Q : List Step) (e : Engine) (hparts : e.parts.program = true)
    (hprobe : P = [] → e.probe = none) (budget : Nat) (ms : List Moment) :
    let loop := Step.mk i
      (.call (Builtin.expand .loop).name (.condition c :: .steps body :: others))
    let start := e.load (some (P ++ loop :: Q))
    let unrolled := fun n rest => e.load (some (P ++ iterations n body rest))
    let answers := checks f (loop :: Q) (start.visited budget ms)
    (∀ k, List.replicate k true ++ [false] <+: answers →
      RunsAlike (k + 1) budget ms start (unrolled k Q)) ∧
    (∀ j, answers = List.replicate j true → ∀ k ≥ j, ∀ rest,
      RunsAlike (k + 1) budget ms start (unrolled k rest)) ∧
    (∀ x : Engine, x.parts.program = true → x.remaining? = some (loop :: Q) →
      ∃ x', x.pace = .inr x' ∧ SameEffects x x' ∧
        x'.remaining? = some (if f x.view then body ++ loop :: Q else Q)) ∧
    ((∀ r ∈ (start.run budget ms).1, r ≠ .error .overrun) → false ∉ answers →
      ∀ m, ∀ x ∈ (start.run budget ms).2.stopsOn budget m, x.remaining? = some (loop :: Q) →
        (∃ y ∈ (start.run budget ms).2.stopsOn budget m, y.pace = .inr x) ∨
          (P = [] ∧ start.visited budget ms = [])) := by
  intro loop start unrolled answers
  have hloop : loop.Inserts fun p => if f p then body ++ [loop] else [] :=
    hc.inserts_loop i body others rfl
  have halike : ∀ {k rest}, Tallies Q rest k answers →
      RunsAlike (k + 1) budget ms start (unrolled k rest) := fun htallies n hends =>
    run_loop hloop ms (load_between_of htallies e P hprobe) hparts hends
  refine ⟨fun k hprefix => halike (Or.inr ⟨rfl, hprefix⟩),
    fun j hholds k hk rest => halike (Or.inl ⟨j, hk, hholds⟩),
    fun x hparts hx => pace_check hloop hparts hx, ?_⟩
  intro hends hholds m x hx hat
  have hstart : start.Awaits P (loop :: Q) := ⟨_, e.load_standsIn _, rfl⟩
  have hclosed : P = [] → start.probe = none := fun hP => forgetSteps_probe_of_none (hprobe hP)
  by_cases hwalks : (start.run budget ms).2.Walks m
  · rw [stopsOn_of_walks hwalks] at hx ⊢
    rcases mem_stops budget hx with rfl | hbefore
    · rcases run_awaits hloop ms hstart hclosed hparts hends hholds with hlast | hnothing
      · obtain ⟨z, zs, hlast⟩ := hlast
        have hbegin : ((start.run budget ms).2.meet m).beginTick.StandsBefore (loop :: Q) :=
          ⟨z, zs, hlast.same rfl rfl⟩
        exact absurd hat hbegin.classify.remaining?_ne
      · exact Or.inr hnothing
    · exact Or.inl hbefore
  · rw [stopsOn_of_not_walks hwalks] at hx
    cases hx

/-- A loop that goes on while the player is on the ground or climbs, with one iteration. -/
theorem loop_is_unrolling_once :
    let c := Condition.call (Builtin.expand .anyOf).name
      [.condition (.call (Builtin.check .onGround).name []),
        .condition (.call (Builtin.check .climbing).name [])]
    let body := [Step.mk (.ofKeys .directions) (.countdown 1)]
    let loop := Step.mk .none
      (.call (Builtin.expand .loop).name (.condition c :: .steps body :: []))
    let ms : List Moment := [{ player := { onGround := true } }, { player := {} }]
    (((default : Engine).load (some ([] ++ loop :: []))).run 3 ms).1 =
      (((default : Engine).load (some ([] ++ iterations 1 body []))).run 3 ms).1 := by
  intro c body loop ms
  have hguards : ∀ g ∈ [(Condition.call (Builtin.check .onGround).name [], Check.onGround.sees),
      (Condition.call (Builtin.check .climbing).name [], Check.climbing.sees)],
      g.1.Glances g.2 := by
    simp only [List.forall_mem_cons]
    exact ⟨Check.onGround.glances nofun [], Check.climbing.glances nofun [], nofun⟩
  have hc : c.Glances fun p => p.onGround || (p.climbing || false) :=
    Condition.Glances.anyOf hguards
  refine ((loop_is_unrolling hc .none [] [] body [] default rfl (fun _ => rfl) 3 ms).1 1 ?_ 3
    (Or.inl ⟨Nat.le_refl 3, ?_⟩)).1
  · obtain ⟨a₁, a₂, b₁, b₂, b₃, hvisited, ha₁, hview₁, ha₂, hb₁, hb₂, hview₂⟩ :
        ∃ a₁ a₂ b₁ b₂ b₃, ((default : Engine).load (some ([] ++ loop :: []))).visited 3 ms =
            [a₁, a₂, b₁, b₂, b₃] ∧
          a₁.remaining? = some [loop] ∧ a₁.view = { onGround := true } ∧
          a₂.remaining?.map List.length = some 2 ∧ b₁.remaining?.map List.length = some 2 ∧
          b₂.remaining? = some [loop] ∧ b₂.view = {} :=
      ⟨_, _, _, _, _, rfl, rfl, rfl, rfl, rfl, rfl, rfl⟩
    have hne : ∀ x : Engine, x.remaining?.map List.length = some 2 →
        x.remaining? ≠ some [loop] := by
      intro x hlength hx
      rw [hx] at hlength
      cases hlength
    rw [hvisited, checks_cons_of_eq ha₁, checks_cons_of_ne (hne a₂ ha₂),
      checks_cons_of_ne (hne b₁ hb₁), checks_cons_of_eq hb₂, hview₁, hview₂]
    exact List.prefix_append [true, false] _
  · have hrun : (((default : Engine).load (some ([] ++ loop :: []))).run 3 ms).1 =
        [.ok ⟨.committed, .ofKeys .directions⟩, .ok ⟨.exhausted, .none⟩] := rfl
    intro r hr
    rw [hrun] at hr
    rcases List.mem_cons.mp hr with rfl | hr
    · nofun
    · rw [List.mem_singleton.mp hr]
      nofun

end Engine

end TickScript
