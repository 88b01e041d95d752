import Mathlib.Order.Monotone.Basic
import TickScript.Proofs.Untouched

/-!
# Steps that were not reached

Conditions insert steps behind the step at the cursor and change conditions up to it, and the
walk moves the cursor by one step. So the steps that were loaded and not reached come last in
the program, as they were loaded, however often others are inserted in front of them.

A step is told from its copies by where it stands. `Engine.stages` lists the engines that a run
goes through, from one operation on the program to the next, and `Engine.placeAfter` follows a
step from place to place.

* `Program.Follows`: what becomes of a program while its cursor stays.
* `Engine.stage_classify`, `Engine.stage_pace`: what one stage does.
* `Engine.pending_steps_kept`: no loaded step is lost, reordered or changed before it is
  reached, and no step is left twice.
-/

namespace TickScript

/-- The position of the step that was left. -/
def Event.left? : Event → Option Nat
  | .left cursor _ _ => some cursor
  | _ => none

/-- Steps may be inserted behind the step at the cursor; those that follow are the same. -/
structure Program.Follows (p q : Program) : Prop where
  cursor : q.cursor = p.cursor
  size : p.size ≤ q.size
  behind : q.steps.drop (p.cursor + 1 + (q.size - p.size)) = p.pending

namespace Program

/-- Where a step of `p` stands in `q`, if steps were inserted behind the cursor only. -/
def placeIn (p q : Program) (i : Nat) : Nat :=
  if i ≤ p.cursor then i else i + (q.size - p.size)

variable {p q r : Program}

theorem Follows.refl (p : Program) : p.Follows p :=
  ⟨rfl, Nat.le_refl _, by rw [Nat.sub_self]; rfl⟩

theorem Follows.trans (h : p.Follows q) (g : q.Follows r) : p.Follows r := by
  refine ⟨g.cursor.trans h.cursor, Nat.le_trans h.size g.size, ?_⟩
  have hsize : p.cursor + 1 + (r.size - p.size) =
      q.cursor + 1 + (r.size - q.size) + (q.size - p.size) := by
    have hpq := h.size
    have hqr := g.size
    have hcursor := h.cursor
    omega
  rw [hsize, ← List.drop_drop, g.behind, Program.pending, List.drop_drop, h.cursor, h.behind]

theorem follows_splice (p : Program) (fresh : List Step) : p.Follows (p.splice fresh) := by
  have hsize := p.size_splice fresh
  refine ⟨rfl, by omega, ?_⟩
  have hfresh : (p.splice fresh).size - p.size = fresh.length := by omega
  rw [hfresh, splice]
  by_cases hle : p.cursor + 1 ≤ p.steps.length
  · have hfront : (p.steps.take (p.cursor + 1) ++ fresh).length = p.cursor + 1 + fresh.length := by
      rw [List.length_append, List.length_take, Nat.min_eq_left hle]
    exact List.drop_left' hfront
  · -- Nothing follows the step at the cursor, and nothing does afterwards.
    have hnone : p.pending = [] := List.drop_eq_nil_of_le (by omega)
    rw [hnone, List.append_nil, List.drop_eq_nil_of_le]
    rw [List.length_append, List.length_take]
    omega

/-- Up to the cursor, conditions may change. -/
theorem follows_modify {index : Nat} (h : index ≤ p.cursor) (f : Step → Step) :
    p.Follows { p with steps := p.steps.modify index f } := by
  have hsize : ({ p with steps := p.steps.modify index f } : Program).size = p.size :=
    List.length_modify ..
  refine ⟨rfl, Nat.le_of_eq hsize.symm, ?_⟩
  rw [hsize, Nat.sub_self]
  exact List.drop_modify_of_lt f index (p.cursor + 1) p.steps (by omega)

/-- A step behind the cursor is the same in its new place. -/
theorem Follows.getElem? (h : p.Follows q) {i : Nat} (hi : p.cursor < i) :
    q.steps[p.placeIn q i]? = p.steps[i]? := by
  obtain ⟨k, rfl⟩ : ∃ k, i = p.cursor + 1 + k := ⟨i - (p.cursor + 1), by omega⟩
  have hold : p.steps[p.cursor + 1 + k]? = p.pending[k]? := by
    rw [Program.pending, List.getElem?_drop]
  have hplace : p.placeIn q (p.cursor + 1 + k) = p.cursor + 1 + (q.size - p.size) + k := by
    rw [placeIn, if_neg (by omega)]
    omega
  rw [hold, hplace, ← h.behind, List.getElem?_drop]

theorem placeIn_strictMono (p q : Program) : StrictMono (p.placeIn q) := by
  intro i j hij
  unfold placeIn
  split <;> split <;> omega

end Program

/-- A place is at a step up to the cursor, or a watched condition. -/
def Root.UpTo (cursor : Nat) : Root → Prop
  | .step index => index ≤ cursor
  | .watch _ => True

namespace Engine

/-- What conditions may do to a program and to the log, from the cursor of a program on. -/
structure Extends (p : Program) (log : List Event) (e : Engine) : Prop where
  program : ∃ q, e.program = some q ∧ p.Follows q
  log : ∃ since, e.log = log ++ since ∧ since.filterMap Event.left? = []
  origin : ∀ probe place, e.probe = some probe → probe.origin = some place →
    place.root.UpTo p.cursor

namespace Extends

variable {p : Program} {log : List Event} {e : Engine}

theorem same {e' : Engine} (h : Extends p log e) (hprogram : e'.program = e.program)
    (hlog : e'.log = e.log) (hprobe : e'.probe = e.probe) : Extends p log e' :=
  ⟨by rw [hprogram]; exact h.program, by rw [hlog]; exact h.log, by rw [hprobe]; exact h.origin⟩

theorem look (h : Extends p log e) : Extends p log e.look.2 := by
  rw [look_snd]
  exact h.same rfl rfl rfl

theorem lookOverlay (h : Extends p log e) : Extends p log e.lookOverlay.2 := by
  obtain ⟨_, _, _, hlook⟩ := e.lookOverlay_snd
  rw [hlook]
  exact h.same rfl rfl rfl

theorem expand (h : Extends p log e) (steps : List Step) : Extends p log (e.expand steps).2 := by
  obtain ⟨q, hq, hfollows⟩ := h.program
  unfold Engine.expand splice
  split
  · rw [hq]
    exact ⟨⟨_, rfl, hfollows.trans (q.follows_splice steps)⟩, h.log, h.origin⟩
  · exact h

theorem withProbe (h : Extends p log e) {probe : Option Probe}
    (horigin : ∀ x place, probe = some x → x.origin = some place → place.root.UpTo p.cursor) :
    Extends p log (e.withProbe probe) := ⟨h.program, h.log, horigin⟩

theorem startSearch (h : Extends p log e) {place : Option Place}
    (hplace : ∀ x, place = some x → x.root.UpTo p.cursor) (args : List Arg) :
    Extends p log (e.startSearch args place).2 := by
  apply startSearch_leads (P := Extends p log) (Q := Extends p log) id
  · exact fun h _ => h.same rfl rfl rfl
  · exact fun h => h.same rfl rfl rfl
  · exact fun h _ _ => h.expand _
  · intro e h probe hread
    refine h.withProbe ?_
    rintro _ x ⟨⟩ hx
    rw [readProbe_origin hread] at hx
    exact hplace x hx
  · exact h

theorem setAt (h : Extends p log e) (place : Place) (hplace : place.root.UpTo p.cursor)
    (c : Condition) : Extends p log (e.setAt place c) := by
  obtain ⟨q, hq, hfollows⟩ := h.program
  obtain ⟨⟨index⟩ | ⟨name⟩, path⟩ := place
  · have hindex : index ≤ q.cursor := by
      rw [hfollows.cursor]
      exact hplace
    exact ⟨⟨_, congrArg (Option.map _) hq, hfollows.trans (Program.follows_modify hindex _)⟩,
      h.log, h.origin⟩
  · exact h.same rfl rfl rfl

end Extends

/-- Conditions at places up to the cursor extend the program. -/
theorem kept_extends (p : Program) (log : List Event) :
    Kept (Extends p log) (fun place => ∀ x, place = some x → x.root.UpTo p.cursor) where
  nowhere := nofun
  inside := by
    rintro (_ | place) hplace i x hx
    · cases hx
    · cases hx
      exact hplace place rfl
  toggle h _ := h.same rfl rfl rfl
  setRandom h _ := h.same rfl rfl rfl
  look h := h.look
  lookOverlay h := h.lookOverlay
  expand h steps := h.expand steps
  loadScript := by
    intro e h entries
    obtain ⟨since, hlog, hleft⟩ := h.log
    refine ⟨h.program, ⟨since ++ [.queued (e.script.load entries).queue.length], ?_, ?_⟩, h.origin⟩
    · rw [← List.append_assoc, ← hlog]
      rfl
    · rw [List.filterMap_append, hleft]
      rfl
  startSearch h hplace args := h.startSearch hplace args
  clearRecord h := h.same rfl rfl rfl

/-! ## Stages -/

/-- An engine stands in a program, and an open probe belongs to no step behind the cursor. -/
structure StandsIn (e : Engine) (p : Program) : Prop where
  program : e.program = some p
  cursor : p.cursor ≤ p.size
  origin : ∀ probe place, e.probe = some probe → probe.origin = some place →
    place.root.UpTo p.cursor

/-- What one stage does: the program is extended, and the step at the cursor may be left. -/
inductive Stage (p : Program) (e : Engine) (q : Program) (e' : Engine) : Prop
  | stays (h : p.Follows q) (hlog : ∃ since, e'.log = e.log ++ since ∧
      since.filterMap Event.left? = [])
  | leaves {r : Program} (h : p.Follows r) (hcursor : p.cursor < p.size) (hq : q = r.advance)
      (hlog : ∃ since, e'.log = e.log ++ since ∧ since.filterMap Event.left? = [p.cursor])

section

variable {p : Program} {e e' : Engine}

theorem StandsIn.extends (h : e.StandsIn p) : Extends p e.log e :=
  ⟨⟨p, h.program, .refl p⟩, ⟨[], (List.append_nil _).symm, rfl⟩, h.origin⟩

theorem Extends.standsIn {log : List Event} (h : Extends p log e') (hcursor : p.cursor ≤ p.size) :
    ∃ q, e'.StandsIn q ∧ p.Follows q := by
  obtain ⟨q, hq, hfollows⟩ := h.program
  refine ⟨q, ⟨hq, ?_, ?_⟩, hfollows⟩
  · rw [hfollows.cursor]
    exact Nat.le_trans hcursor hfollows.size
  · rw [hfollows.cursor]
    exact h.origin

theorem Extends.stage (h : Extends p e.log e') (hcursor : p.cursor ≤ p.size) :
    ∃ q, e'.StandsIn q ∧ Stage p e q e' := by
  obtain ⟨q, hstands, hfollows⟩ := h.standsIn hcursor
  exact ⟨q, hstands, .stays hfollows h.log⟩

/-- What the outside brings along is no part of the program. -/
theorem stage_same (h : e.StandsIn p) (hprogram : e'.program = e.program) (hlog : e'.log = e.log)
    (hprobe : e'.probe = e.probe) : ∃ q, e'.StandsIn q ∧ Stage p e q e' :=
  (h.extends.same hprogram hlog hprobe).stage h.cursor

theorem keepInPlace_extends {log : List Event} (h : Extends p log e) {probe : Probe}
    (hprobe : ∀ place, probe.origin = some place → place.root.UpTo p.cursor) :
    Extends p log (e.keepInPlace probe) := by
  unfold keepInPlace
  split
  · exact h
  · next place horigin =>
    have hplace := hprobe place horigin
    exact ((h.setAt (place.arg 2) hplace _).setAt (place.arg 3) hplace _).setAt
      (place.arg 4) hplace _

theorem settle_extends {log : List Event} (h : Extends p log e) {probe : Probe}
    (hprobe : ∀ place, probe.origin = some place → place.root.UpTo p.cursor)
    (outcome : Except Fault (Option Outcome)) : Extends p log (e.settle probe outcome).2 := by
  have hopen : Extends p log (e.withProbe (some (e.probe.getD probe))) := by
    refine h.withProbe ?_
    rintro _ place ⟨⟩ hplace
    cases hcurrent : e.probe with
    | none =>
      rw [hcurrent] at hplace
      exact hprobe place hplace
    | some q =>
      rw [hcurrent] at hplace
      exact h.origin q place hcurrent hplace
  unfold settle
  split
  · exact hopen
  · exact hopen
  · split
    · exact hopen
    · have hclosed : Extends p log (e.withProbe none) := h.withProbe nofun
      exact hclosed.same rfl rfl rfl

/-- The outcome check inserts steps at most. -/
theorem classify_extends (h : e.StandsIn p) : Extends p e.log e.classify.2 := by
  cases hprobe : e.probe with
  | none =>
    rw [classify_of_none hprobe]
    exact h.extends
  | some probe =>
    have haside : Extends p e.log (e.withProbe none) := h.extends.withProbe nofun
    have hplace : ∀ place, ((e.withProbe none).judge probe).2.1.origin = some place →
        place.root.UpTo p.cursor := by
      rw [judge_origin]
      exact fun place => h.origin probe place hprobe
    have hjudged := (kept_extends p e.log).judge haside probe
    rw [classify_of_probe hprobe]
    exact settle_extends (keepInPlace_extends hjudged hplace) hplace _

theorem stage_classify (h : e.StandsIn p) :
    ∃ q, e.classify.2.StandsIn q ∧ Stage p e q e.classify.2 :=
  (classify_extends h).stage h.cursor

theorem afterTurn_extends (h : e.StandsIn p) (step : Step) :
    Extends p e.log (e.afterTurn p step) := by
  have hplace : ∀ x : Place, some ⟨.step p.cursor, []⟩ = some x → x.root.UpTo p.cursor := by
    rintro _ ⟨⟩
    exact Nat.le_refl _
  have hturn : Extends p e.log (e.turnAt p step).engine :=
    step.condition.evaluate_kept (kept_extends p e.log) hplace h.extends
  exact hturn.setAt ⟨.step p.cursor, []⟩ (Nat.le_refl _) _

theorem StandsIn.advance (h : e.StandsIn p) (hcursor : p.cursor < p.size) (event : Event) :
    (e.note event).advance.StandsIn p.advance := by
  refine ⟨congrArg (Option.map Program.advance) h.program, hcursor, ?_⟩
  intro probe place hprobe hplace
  have hupTo := h.origin probe place hprobe hplace
  obtain ⟨⟨index⟩ | ⟨name⟩, path⟩ := place
  · exact Nat.le_succ_of_le hupTo
  · trivial

/-- The step at the cursor is left, and the cursor goes on. -/
theorem stage_leave (h : e.StandsIn p) {step : Step} (hcurrent : p.current? = some step)
    (v : Verdict) : ∃ q, (e.leave p step v).StandsIn q ∧ Stage p e q (e.leave p step v) := by
  have hafter := afterTurn_extends h step
  obtain ⟨r, hr, hfollows⟩ := hafter.standsIn h.cursor
  obtain ⟨since, hlog, hleft⟩ := hafter.log
  have hlt : p.cursor < p.size := (List.getElem?_eq_some_iff.mp hcurrent).1
  have hlt' : r.cursor < r.size := by
    rw [hfollows.cursor]
    exact Nat.lt_of_lt_of_le hlt hfollows.size
  refine ⟨r.advance, hr.advance hlt' _,
    .leaves hfollows hlt rfl ⟨since ++ [.left p.cursor (e.turnAt p step).rest v], ?_, ?_⟩⟩
  · rw [← List.append_assoc, ← hlog]
    rfl
  · rw [List.filterMap_append, hleft]
    rfl

/-- The engine after one step of the walk. -/
def afterPace : (Except Fault TickOutcome × Engine) ⊕ Engine → Engine
  | .inl result => result.2
  | .inr e => e

theorem stage_pace (h : e.StandsIn p) :
    ∃ q, (afterPace e.pace).StandsIn q ∧ Stage p e q (afterPace e.pace) := by
  have hpaces := e.paces_pace
  generalize e.pace = x at hpaces
  cases hpaces with
  | idle => exact stage_same h rfl rfl rfl
  | ended => exact stage_same h rfl rfl rfl
  | @failed p' step f hp' =>
    cases h.program.symm.trans hp'
    exact (afterTurn_extends h step).stage h.cursor
  | @held p' step hp' =>
    cases h.program.symm.trans hp'
    have hafter := afterTurn_extends h step
    exact Extends.stage (hafter.same rfl rfl rfl) h.cursor
  | @left p' step v hp' hcurrent =>
    cases h.program.symm.trans hp'
    exact stage_leave h hcurrent v

end

/-! ## Runs -/

/-- The engines that a walk comes to. -/
def walkStages : Nat → Engine → List Engine
  | 0, _ => []
  | budget + 1, e =>
    match e.pace with
    | .inl result => [result.2]
    | .inr e' => e' :: e'.walkStages budget

/-- The engines that the program's part of a tick comes to. -/
def playStages (budget : Nat) (e : Engine) : List Engine :=
  match e.classify with
  | (.ok none, e') => e' :: e'.walkStages budget
  | (_, e') => [e']

def tickStages (budget : Nat) (e : Engine) (m : Moment) : List Engine :=
  if isPlayed (e.tickOn budget m).1 then
    (e.meet m).beginTick :: (e.meet m).beginTick.playStages budget
  else [(e.tickOn budget m).2]

/-- The engines that a run comes to. -/
def stages (budget : Nat) : List Moment → Engine → List Engine
  | [], _ => []
  | m :: rest, e => e.tickStages budget m ++ (e.tickOn budget m).2.stages budget rest

/-- One engine leads to another through a list of stages. -/
inductive Passes : Engine → List Engine → Engine → Prop
  | nil (e : Engine) : Passes e [] e
  | cons {e e' last : Engine} {es : List Engine}
      (hstage : ∀ p, e.StandsIn p → ∃ q, e'.StandsIn q ∧ Stage p e q e')
      (hrest : Passes e' es last) : Passes e (e' :: es) last

theorem Passes.append {a b c : Engine} {xs ys : List Engine} (h : Passes a xs b)
    (g : Passes b ys c) : Passes a (xs ++ ys) c := by
  induction h with
  | nil => exact g
  | cons hstage _ ih => exact .cons hstage (ih g)

theorem walk_passes : ∀ (budget : Nat) (e : Engine),
    Passes e (e.walkStages budget) (e.walk budget).2
  | 0, e => .nil e
  | budget + 1, e => by
    have hpace := fun p h => stage_pace (e := e) (p := p) h
    rw [walk_succ, walkStages]
    cases hresult : e.pace with
    | inl result =>
      rw [hresult] at hpace
      exact .cons hpace (.nil _)
    | inr e' =>
      rw [hresult] at hpace
      exact .cons hpace (walk_passes budget e')

theorem play_passes (budget : Nat) (e : Engine) :
    Passes e (e.playStages budget) (e.play budget).2 := by
  have hclassify := fun p h => stage_classify (e := e) (p := p) h
  unfold play playStages
  generalize e.classify = result at hclassify ⊢
  rcases result with ⟨f | _ | report, e'⟩
  · exact .cons hclassify (.nil _)
  · exact .cons hclassify (walk_passes budget e')
  · exact .cons hclassify (.nil _)

theorem tick_passes (budget : Nat) (e : Engine) (m : Moment) :
    Passes e (e.tickStages budget m) (e.tickOn budget m).2 := by
  rcases e.tickOn_cases budget m with ⟨-, htick⟩ | ⟨-, -, htick⟩ | ⟨-, -, htick⟩
  · rw [tickStages, htick]
    exact .cons (fun p h => stage_same h rfl rfl rfl) (.nil _)
  · rw [tickStages, htick]
    exact .cons (fun p h => stage_same h rfl rfl rfl) (.nil _)
  · have hplayed := ((e.meet m).beginTick.play_played budget).isPlayed
    rw [tickStages, htick, if_pos hplayed]
    exact .cons (fun p h => stage_same h rfl rfl rfl) (play_passes budget _)

theorem run_passes (budget : Nat) (ms : List Moment) (e : Engine) :
    Passes e (e.stages budget ms) (e.run budget ms).2 := by
  induction ms generalizing e with
  | nil => exact .nil e
  | cons m rest ih =>
    rw [run_cons, stages]
    exact (tick_passes budget e m).append (ih _)

/-! ## Places -/

/-- Where a step of one engine stands in the next one. -/
def placeIn (e e' : Engine) (i : Nat) : Nat :=
  match e.program, e'.program with
  | some p, some q => p.placeIn q i
  | _, _ => i

/-- Where a step stands at the end of some stages. -/
def placeThrough : Engine → List Engine → Nat → Nat
  | _, [], i => i
  | e, e' :: es, i => e'.placeThrough es (e.placeIn e' i)

/-- Where a step that stands at an index stands after some moments. -/
def placeAfter (budget : Nat) (ms : List Moment) (e : Engine) (i : Nat) : Nat :=
  e.placeThrough (e.stages budget ms) i

/-- Loaded steps that were not reached stand at the end of the program, and every step up to the
cursor was left once. -/
structure Tracks (loaded : List Step) (log : List Event) (place : Nat → Nat) (p : Program)
    (e : Engine) : Prop where
  mono : StrictMono place
  ahead : ∀ k < loaded.length, p.cursor < place k →
    place k + loaded.length = p.size + k ∧ p.steps[place k]? = loaded[k]?
  left : ∃ since, e.log = log ++ since ∧ since.filterMap Event.left? = List.range p.cursor

variable {loaded : List Step} {log : List Event} {place : Nat → Nat} {p q : Program}
  {e e' : Engine}

theorem Tracks.stage (h : Tracks loaded log place p e) (hstage : Stage p e q e') :
    Tracks loaded log (fun k => p.placeIn q (place k)) q e' := by
  have key : ∀ r : Program, p.Follows r → ∀ k < loaded.length, p.cursor < p.placeIn r (place k) →
      p.placeIn r (place k) + loaded.length = r.size + k ∧
        r.steps[p.placeIn r (place k)]? = loaded[k]? := by
    intro r hfollows k hk hplace
    have hahead : p.cursor < place k := by
      unfold Program.placeIn at hplace
      split at hplace <;> omega
    obtain ⟨hsum, hstep⟩ := h.ahead k hk hahead
    refine ⟨?_, (hfollows.getElem? hahead).trans hstep⟩
    have hsize := hfollows.size
    rw [Program.placeIn, if_neg (by omega)]
    omega
  obtain ⟨before, hlog, hbefore⟩ := h.left
  cases hstage with
  | stays hfollows hsince =>
    obtain ⟨since, hsince, hleft⟩ := hsince
    refine ⟨(p.placeIn_strictMono q).comp h.mono, ?_, before ++ since, ?_, ?_⟩
    · rw [hfollows.cursor]
      exact key q hfollows
    · rw [hsince, hlog, List.append_assoc]
    · rw [List.filterMap_append, hbefore, hleft, List.append_nil, hfollows.cursor]
  | @leaves r hfollows _ hq hsince =>
    obtain ⟨since, hsince, hleft⟩ := hsince
    subst hq
    have hcursor : r.advance.cursor = p.cursor + 1 := congrArg (· + 1) hfollows.cursor
    refine ⟨(p.placeIn_strictMono r.advance).comp h.mono, ?_, before ++ since, ?_, ?_⟩
    · -- What `advance` changes is the cursor alone, so every step keeps its place.
      intro k hk hplace
      change r.advance.cursor < p.placeIn r (place k) at hplace
      exact key r hfollows k hk (by omega)
    · rw [hsince, hlog, List.append_assoc]
    · rw [List.filterMap_append, hbefore, hleft, hcursor, List.range_succ]

theorem Stage.le (h : Stage p e q e') : p.cursor ≤ q.cursor ∧ p.size ≤ q.size := by
  cases h with
  | stays hfollows => exact ⟨Nat.le_of_eq hfollows.cursor.symm, hfollows.size⟩
  | @leaves r hfollows _ hq =>
    subst hq
    refine ⟨?_, hfollows.size⟩
    change p.cursor ≤ r.cursor + 1
    rw [hfollows.cursor]
    exact Nat.le_succ _

/-- What is known of the loaded steps is known at the end of the stages, too. -/
theorem Passes.tracks {last : Engine} {es : List Engine} (h : Passes e es last)
    (hstands : e.StandsIn p) (htracks : Tracks loaded log place p e) :
    ∃ q, last.StandsIn q ∧ Tracks loaded log (fun k => e.placeThrough es (place k)) q last := by
  induction h generalizing p place with
  | nil => exact ⟨p, hstands, htracks⟩
  | @cons e e' last es hstage _ ih =>
    obtain ⟨q, hq, hone⟩ := hstage p hstands
    obtain ⟨r, hr, hrest⟩ := ih hq (htracks.stage hone)
    refine ⟨r, hr, ?_⟩
    have hplace : ∀ i, e.placeIn e' i = p.placeIn q i := by
      intro i
      rw [placeIn, hstands.program, hq.program]
    simpa only [placeThrough, hplace] using hrest

/-- The cursor and the length never decrease, and what is not behind the cursor stays in place. -/
theorem Passes.grows {last : Engine} {es : List Engine} (h : Passes e es last)
    (hstands : e.StandsIn p) : ∃ q, last.StandsIn q ∧ p.cursor ≤ q.cursor ∧ p.size ≤ q.size ∧
      ∀ i ≤ p.cursor, e.placeThrough es i = i := by
  induction h generalizing p with
  | nil => exact ⟨p, hstands, Nat.le_refl _, Nat.le_refl _, fun _ _ => rfl⟩
  | @cons e e' last es hstage _ ih =>
    obtain ⟨q, hq, hone⟩ := hstage p hstands
    obtain ⟨r, hr, hcursor, hsize, hplaces⟩ := ih hq
    have hle := hone.le
    refine ⟨r, hr, Nat.le_trans hle.1 hcursor, Nat.le_trans hle.2 hsize, ?_⟩
    intro i hi
    have hplace : e.placeIn e' i = i := by
      rw [placeIn, hstands.program, hq.program]
      exact if_pos hi
    rw [placeThrough, hplace]
    exact hplaces i (Nat.le_trans hi hle.1)

/-! ## The loaded steps -/

/-- Steps are reached in their order. -/
theorem exists_reached {place : Nat → Nat} (hmono : StrictMono place) (cursor : Nat) :
    ∀ count, ∃ reached ≤ count, ∀ k < count, k < reached ↔ place k ≤ cursor
  | 0 => ⟨0, Nat.le_refl _, nofun⟩
  | count + 1 => by
    by_cases hlast : place count ≤ cursor
    · refine ⟨count + 1, Nat.le_refl _, fun k hk => iff_of_true hk ?_⟩
      exact Nat.le_trans (hmono.monotone (Nat.le_of_lt_succ hk)) hlast
    · obtain ⟨reached, hle, hreached⟩ := exists_reached hmono cursor count
      refine ⟨reached, Nat.le_succ_of_le hle, fun k hk => ?_⟩
      obtain hk | rfl := Nat.lt_or_eq_of_le (Nat.le_of_lt_succ hk)
      · exact hreached k hk
      · exact iff_of_false (by omega) hlast

/-- The loaded steps from the first one on that was not reached are the end of the program. -/
theorem Tracks.suffix (h : Tracks loaded log place p e) {reached : Nat}
    (hle : reached ≤ loaded.length)
    (hreached : ∀ k < loaded.length, k < reached ↔ place k ≤ p.cursor) :
    ∃ passed, p.steps = passed ++ loaded.drop reached ∧
      (reached < loaded.length → p.cursor < passed.length) ∧
      ∀ k, reached ≤ k → k < loaded.length → place k = passed.length + (k - reached) := by
  obtain rfl | hlt := Nat.eq_or_lt_of_le hle
  · refine ⟨p.steps, ?_, fun h => absurd h (Nat.lt_irrefl _), fun k hk hk' => by omega⟩
    rw [List.drop_length, List.append_nil]
  · have hahead : ∀ k, reached ≤ k → k < loaded.length →
        place k + loaded.length = p.size + k ∧ p.steps[place k]? = loaded[k]? := by
      intro k hk hk'
      have hnot := mt (hreached k hk').mpr (Nat.not_lt.mpr hk)
      exact h.ahead k hk' (Nat.lt_of_not_le hnot)
    have hfirst := (hahead reached (Nat.le_refl _) hlt).1
    have hcursor : p.cursor < place reached :=
      Nat.lt_of_not_le (mt (hreached reached hlt).mpr (Nat.lt_irrefl _))
    have hsize : place reached ≤ p.steps.length := by
      change place reached ≤ p.size
      omega
    have htake : (p.steps.take (place reached)).length = place reached :=
      (List.length_take ..).trans (Nat.min_eq_left hsize)
    refine ⟨p.steps.take (place reached), ?_, fun _ => by omega, fun k hk hk' => ?_⟩
    · have hdrop : p.steps.drop (place reached) = loaded.drop reached := by
        apply List.ext_getElem?
        intro i
        rw [List.getElem?_drop, List.getElem?_drop]
        by_cases hi : reached + i < loaded.length
        · obtain ⟨hsum, hstep⟩ := hahead (reached + i) (Nat.le_add_right _ _) hi
          have hplace : place reached + i = place (reached + i) := by omega
          rw [hplace, hstep]
        · have hend : p.steps.length ≤ place reached + i := by
            change p.size ≤ _
            omega
          rw [List.getElem?_eq_none hend, List.getElem?_eq_none (Nat.le_of_not_lt hi)]
      rw [← hdrop, List.take_append_drop]
    · have hsum := (hahead k hk hk').1
      omega

/-- When a program is loaded, no open probe belongs to one of its steps. -/
theorem forgetSteps_upTo (e : Engine) {probe : Probe} {place : Place}
    (hprobe : e.forgetSteps.probe = some probe) (hplace : probe.origin = some place)
    (cursor : Nat) : place.root.UpTo cursor := by
  obtain ⟨name, hroot⟩ := e.forgetSteps_origin hprobe hplace
  rw [hroot]
  trivial

theorem load_standsIn (e : Engine) (steps : List Step) :
    (e.load (some steps)).StandsIn (.ofSteps steps) :=
  ⟨rfl, Nat.zero_le _, fun _ _ hprobe hplace => e.forgetSteps_upTo hprobe hplace 0⟩

theorem load_tracks (e : Engine) (steps : List Step) :
    Tracks steps (e.load (some steps)).log id (.ofSteps steps) (e.load (some steps)) :=
  ⟨strictMono_id, fun k _ _ => ⟨Nat.add_comm k _, rfl⟩, [], (List.append_nil _).symm, rfl⟩

/-- After any moments, the loaded steps that were not reached are the end of the program, as
they were loaded and in their order. Every step up to the cursor was left once, no other one
was, and those up to the cursor stay where they are on the next tick. -/
theorem pending_steps_kept (e₀ : Engine) (loaded : List Step) (budget : Nat) (ms : List Moment) :
    let start := e₀.load (some loaded)
    let e := (start.run budget ms).2
    let place := start.placeAfter budget ms
    ∃ p, e.program = some p ∧ p.cursor ≤ p.size ∧
      (∃ reached ≤ loaded.length, (∀ k < loaded.length, k < reached ↔ place k ≤ p.cursor) ∧
        ∃ passed, p.steps = passed ++ loaded.drop reached ∧
          (reached < loaded.length → p.cursor < passed.length) ∧
          ∀ k, reached ≤ k → k < loaded.length → place k = passed.length + (k - reached)) ∧
      (∃ since, e.log = start.log ++ since ∧ since.filterMap Event.left? = List.range p.cursor) ∧
      ∀ m, ∃ q, (e.tickOn budget m).2.program = some q ∧ p.cursor ≤ q.cursor ∧ p.size ≤ q.size ∧
        ∀ i ≤ p.cursor, e.placeAfter budget [m] i = i := by
  intro start e place
  obtain ⟨p, hstands, htracks⟩ :=
    (run_passes budget ms start).tracks (e₀.load_standsIn loaded) (e₀.load_tracks loaded)
  refine ⟨p, hstands.program, hstands.cursor, ?_, htracks.left, fun m => ?_⟩
  · obtain ⟨reached, hle, hreached⟩ := exists_reached htracks.mono p.cursor loaded.length
    exact ⟨reached, hle, hreached, htracks.suffix hle hreached⟩
  · obtain ⟨q, hq, hcursor, hsize, hplaces⟩ := (run_passes budget [m] e).grows hstands
    exact ⟨q, hq.program, hcursor, hsize, hplaces⟩

end Engine

end TickScript
