import Mathlib
import TickScript.Proofs.SearchCourse
import TickScript.Proofs.Trials

/-!
# Candidates are numbers of ticks

The record of a search goes on from attempt to attempt, also after the search has come to its end,
and with outcomes that need not fit together. As long as it does not happen that holding an input
for no tick at all is too long, bounds and candidates stay nonnegative
(`Engine.Reached.nonneg`), and the step that a start inserts is held for as many ticks as its
candidate says (`Engine.probe_holds_candidate`). A negative number would be counted down for ever
(`Engine.countdown_committed`).

* `SearchRecord.Nonneg`: bounds and candidate are numbers of ticks.
* `Engine.Reached`: the records that starts and outcomes lead to.
* `Engine.Lasts`: nothing interferes for so many ticks.
-/

namespace TickScript

namespace SearchRecord

variable {r r' : SearchRecord}

/-- The bounds and the latest candidate are numbers of ticks, as far as they are known. -/
structure Nonneg (r : SearchRecord) : Prop where
  low : ∀ n, r.low = some n → 0 ≤ n
  high : ∀ n, r.high = some n → 0 ≤ n
  middle : ∀ n, r.middle = some n → 0 ≤ n

/-- If no tick at all was probed, that is not too long. -/
def SparesZero (r : SearchRecord) (outcome : Outcome) : Prop :=
  r.middle = some 0 → outcome ≠ .tooHigh

theorem nonneg_fresh (now : String) : (fresh now).Nonneg := ⟨nofun, nofun, nofun⟩

namespace Nonneg

theorem lowest (h : r.Nonneg) : 0 ≤ r.low.getD 0 := by
  cases hlow : r.low with
  | none => exact Int.le_refl 0
  | some n => exact h.low n hlow

theorem next (h : r.Nonneg) (mode : Mode) : 0 ≤ r.next mode := by
  have hlow := h.lowest
  unfold SearchRecord.next
  split
  · rw [doubled]
    omega
  · next high hhigh =>
    have hhigh := h.high high hhigh
    cases mode with
    | lo =>
      dsimp only
      omega
    | hi =>
      dsimp only
      omega

theorem stamped (h : r.Nonneg) (stamp : String) : { r with lastSaved := stamp }.Nonneg :=
  ⟨h.low, h.high, h.middle⟩

theorem withLow (h : r.Nonneg) {low : Int} (hlow : 0 ≤ low) :
    { r with low := some low }.Nonneg := by
  refine ⟨?_, h.high, h.middle⟩
  rintro _ ⟨⟩
  exact hlow

theorem probed (h : r.Nonneg) (mode : Mode) : (r.probed mode).Nonneg := by
  refine ⟨h.low, h.high, ?_⟩
  rintro _ ⟨⟩
  exact h.next mode

/-- An outcome keeps bounds and candidate nonnegative, unless no tick at all is too long. -/
theorem apply (h : r.Nonneg) {mode : Mode} {outcome : Outcome} (hspares : r.SparesZero outcome)
    (happly : r.apply mode outcome = .ok r') : r'.Nonneg := by
  obtain ⟨low, high, middle, history, lastSaved⟩ := r
  cases outcome with
  | tooLow =>
    cases high with
    | none =>
      cases happly
      exact h.withLow (by rw [doubled]; omega)
    | some _ =>
      cases middle with
      | none => cases happly
      | some m =>
        cases happly
        have hnonneg := h.middle m rfl
        exact h.withLow (by omega)
  | tooHigh =>
    cases middle with
    | none => cases happly
    | some m =>
      cases happly
      have hnonneg := h.middle m rfl
      have hne : m ≠ 0 := by
        rintro rfl
        exact hspares rfl rfl
      refine ⟨h.low, ?_, h.middle⟩
      rintro _ ⟨⟩
      omega
  | withinRange =>
    cases mode with
    | lo =>
      cases happly
      exact ⟨h.low, h.middle, h.middle⟩
    | hi =>
      cases happly
      exact ⟨h.middle, h.high, h.middle⟩

end Nonneg

end SearchRecord

namespace Engine

/-! ## Starts and outcomes -/

/-- The bounds among the arguments of a search, if there are any, are numbers of ticks. -/
structure NonnegBounds (args : List Arg) : Prop where
  low : ∀ n, boundAt? args 5 = .ok (some n) → 0 ≤ n
  high : ∀ n, boundAt? args 6 = .ok (some n) → 0 ≤ n

/-- The records of a search, which begins without any knowledge: searches are started, whether that
fails or not, and probes are settled, by outcomes of a certain kind. -/
inductive Reached (kind : SearchRecord → Outcome → Prop) : SearchRecord → Prop
  | fresh (now : String) : Reached kind (.fresh now)
  | started {e : Engine} {args : List Arg} (h : Reached kind e.record)
      (hargs : NonnegBounds args) (place : Option Place) :
      Reached kind (e.startSearch args place).2.record
  | settled {e : Engine} {outcome : Outcome} (h : Reached kind e.record)
      (hkind : kind e.record outcome) (p : Probe) :
      Reached kind (e.settle p (.ok (some outcome))).2.record

variable {r low high : SearchRecord} {args : List Arg} {place : Option Place} {e e' : Engine}
  {candidate : Int}

theorem nonneg_seedLow (h : r.Nonneg) (hargs : NonnegBounds args)
    (hlow : seedLow r args = .ok low) : low.Nonneg := by
  unfold seedLow at hlow
  split at hlow
  · cases hlow
    exact h
  · cases hbound : boundAt? args 5 with
    | error f =>
      rw [hbound] at hlow
      cases hlow
    | ok bound =>
      rw [hbound] at hlow
      cases hlow
      refine h.withLow ?_
      cases bound with
      | none => exact Int.le_refl 0
      | some n => exact hargs.low n hbound

theorem nonneg_seedHigh (h : r.Nonneg) (hargs : NonnegBounds args)
    (hhigh : seedHigh r args = .ok high) : high.Nonneg := by
  unfold seedHigh at hhigh
  split at hhigh
  · cases hhigh
    exact h
  · cases hbound : boundAt? args 6 with
    | error f =>
      rw [hbound] at hhigh
      cases hhigh
    | ok bound =>
      rw [hbound] at hhigh
      cases hhigh
      refine ⟨h.low, ?_, h.middle⟩
      rintro n hn
      exact hargs.high n (hbound.trans (congrArg _ hn))

theorem nonneg_startSearch (h : e.record.Nonneg) (hargs : NonnegBounds args)
    (place : Option Place) : (e.startSearch args place).2.record.Nonneg := by
  have hcases := e.startSearch_cases args place
  generalize e.startSearch args place = result at hcases ⊢
  cases hcases with
  | missing | unread | noLow => exact h
  | noHigh hlow => exact nonneg_seedLow h hargs hlow
  | @opened probe low high _ _ hlow hhigh =>
    have hprobed : (high.probed probe.mode).Nonneg :=
      (nonneg_seedHigh (nonneg_seedLow h hargs hlow) hargs hhigh).probed probe.mode
    rcases e.openProbe_cases probe high with ⟨p, -, hopen⟩ | ⟨-, f, hopen⟩
    · rw [hopen]
      exact hprobed.stamped e.now
    · rw [hopen]
      exact hprobed.stamped e.now

theorem nonneg_settle (h : e.record.Nonneg) {outcome : Outcome}
    (hspares : e.record.SparesZero outcome) (p : Probe) :
    (e.settle p (.ok (some outcome))).2.record.Nonneg := by
  have hsettles := e.settles_settle p (.ok (some outcome))
  generalize e.settle p (.ok (some outcome)) = result at hsettles ⊢
  cases hsettles with
  | jammed => exact h
  | settled happly => exact (h.apply hspares happly).stamped e.now

/-- Unless no tick at all is too long, a search only ever knows numbers of ticks. -/
theorem Reached.nonneg (h : Reached SearchRecord.SparesZero r) : r.Nonneg := by
  induction h with
  | fresh now => exact SearchRecord.nonneg_fresh now
  | started _ hargs place ih => exact nonneg_startSearch ih hargs place
  | settled _ hspares p ih => exact nonneg_settle ih hspares p

/-! ## The step of a probe -/

/-- Behind the step that starts the search, the walk comes to the step of the probe. -/
theorem stands_of_opens {probe : Probe} (hstart : e.startSearch args place = (.ok candidate, e'))
    (hread : readProbe args place = .ok probe) (hopens : e.Opens args probe candidate e')
    (hoverride : e.override.isActive = false) {p : Program} (hp : e.program = some p)
    (hcurrent : p.cursor < p.steps.length)
    (hplace : ∀ path, place ≠ some ⟨.step (p.cursor + 1), path⟩) :
    Stands e.view (p.cursor + 1) (.mk probe.inputs (.countdown candidate)) e'.advance := by
  have huntouched := e.startSearch_untouched args place
  rw [hstart] at huntouched
  obtain ⟨q, hq, hinserted⟩ := hopens.inserted
  cases hp.symm.trans hq
  refine ⟨huntouched.view, ?_, ?_, ?_⟩
  · exact (congrArg Override.isActive huntouched.override).trans hoverride
  · refine ⟨_, congrArg (Option.map Program.advance) hinserted, rfl, p.pending, ?_⟩
    rw [Program.remaining_advance,
      p.remaining_splice (p.remaining_of_current? (List.getElem?_eq_getElem hcurrent))]
    rfl
  · intro probe' hprobe' path
    cases hopens.isOpen.symm.trans hprobe'
    rw [readProbe_origin hread]
    exact hplace path

section

variable {moments : Nat → Moment} {t k budget n : Nat} {i : Inputs}

/-- No override and no pause interferes after tick `t`, and neither does the outcome check of an
open probe on so many ticks. -/
structure Lasts (budget : Nat) (moments : Nat → Moment) (t : Nat) (e : Engine) (ticks : Nat) :
    Prop where
  quiet : ∀ n, t < n → (moments n).Quiet
  goesOn : ∀ n < ticks, (ticksFrom budget moments t e n).2.GoesOn (moments (t + n + 1))

theorem Lasts.mono {ticks : Nat} (h : Lasts budget moments t e ticks) (hn : n ≤ ticks) :
    Lasts budget moments t e n :=
  ⟨h.quiet, fun m hm => h.goesOn m (Nat.lt_of_lt_of_le hm hn)⟩

/-- A countdown holds its input on each tick before it is due; a negative one is never due. -/
theorem countdown_committed
    (h : Stands (moments t).player k (.mk i (.countdown candidate)) e)
    (hlasts : Lasts (budget + 1) moments t e n) (hn : candidate < 0 ∨ n < candidate) :
    (ticksFrom (budget + 1) moments t e n).1 = .ok ⟨.committed, i⟩ ∧
      (ticksFrom (budget + 1) moments t e n).2.commits = e.commits + n + 1 := by
  let w : Wait := .countdown candidate
  have hstands : Stands (moments t).player k (.mk i w.toCondition) e := h
  have hdue : ((t + n : Nat) : ℕ∞) < w.due (shown moments) t := by
    rw [Wait.due]
    split
    · exact Nat.cast_lt.mpr (by omega)
    · exact ENat.natCast_lt_top _
  obtain ⟨a, ha, hstands', hcommits, -⟩ :=
    ticksFrom_stands hstands hlasts.quiet n (le_of_lt hdue) hlasts.goesOn
  obtain ⟨b, hwalk, hholds⟩ := walk_waiting hstands' budget (w.after_waits (shown moments) hdue)
  rw [ha, hwalk]
  exact ⟨rfl, by rw [hholds.commits, hcommits]⟩

/-- A countdown is satisfied after as many ticks as it says. -/
theorem countdown_left {ticks : Nat}
    (h : Stands (moments t).player k (.mk i (.countdown ticks)) e)
    (hlasts : Lasts (budget + 1) moments t e ticks) :
    ∃ (c : Condition) (a : Engine), ticksFrom (budget + 1) moments t e ticks = a.walk budget ∧
      a.program.map Program.cursor = some (k + 1) ∧ a.commits = e.commits + ticks ∧
      a.log.getLast? = some (.left k c .satisfied) := by
  let w : Wait := .countdown ticks
  have hstands : Stands (moments t).player k (.mk i w.toCondition) e := h
  have hdue : w.due (shown moments) t = (t + ticks : Nat) := by
    rw [Wait.due, if_pos (Int.natCast_nonneg ticks), Int.toNat_natCast]
  obtain ⟨a, ha, hstands', hcommits, -⟩ :=
    ticksFrom_stands hstands hlasts.quiet ticks (le_of_eq hdue.symm) hlasts.goesOn
  obtain ⟨b, hwalk, hleaves⟩ := walk_over hstands' budget (w.after_over (shown moments) hdue)
  rw [ha, hwalk]
  exact ⟨_, b, rfl, hleaves.cursor, by rw [hleaves.commits, hcommits], hleaves.log⟩

/-- What a search knows was found by starts whose arguments bound it by numbers of ticks, if at all,
and by outcomes that never call no tick at all too long. Then every start that inserts a step does
so for a number of ticks. It is the step that comes next, and wherever the walk comes to such a
step, unless something interferes, its input is held for exactly so many ticks before the walk goes
on. -/
theorem probe_holds_candidate (hreached : Reached SearchRecord.SparesZero e.record)
    (hargs : NonnegBounds args) (hstart : e.startSearch args place = (.ok candidate, e')) :
    ∃ (ticks : Nat) (p : Program) (i : Inputs), candidate = ticks ∧ e.program = some p ∧
      e'.program = some (p.splice [.mk i (.countdown candidate)]) ∧
      (e.override.isActive = false → p.cursor < p.steps.length →
        (∀ path, place ≠ some ⟨.step (p.cursor + 1), path⟩) →
        Stands e.view (p.cursor + 1) (.mk i (.countdown candidate)) e'.advance) ∧
      ∀ {moments : Nat → Moment} {t k budget : Nat} {a : Engine},
        Stands (moments t).player k (.mk i (.countdown candidate)) a →
        Lasts (budget + 1) moments t a ticks →
        (∀ n < ticks, (ticksFrom (budget + 1) moments t a n).1 = .ok ⟨.committed, i⟩ ∧
          (ticksFrom (budget + 1) moments t a n).2.commits = a.commits + n + 1) ∧
        ∃ (c : Condition) (b : Engine),
          ticksFrom (budget + 1) moments t a ticks = b.walk budget ∧
          b.program.map Program.cursor = some (k + 1) ∧ b.commits = a.commits + ticks ∧
          b.log.getLast? = some (.left k c .satisfied) := by
  obtain ⟨probe, hread, hopens⟩ := opens_of_startSearch hstart
  obtain ⟨low, high, hlow, hhigh, hnext, -⟩ := hopens.seeded
  have hnonneg : 0 ≤ candidate := by
    rw [hnext]
    exact (nonneg_seedHigh (nonneg_seedLow hreached.nonneg hargs hlow) hargs hhigh).next probe.mode
  obtain ⟨ticks, rfl⟩ := Int.eq_ofNat_of_zero_le hnonneg
  obtain ⟨p, hp, hinserted⟩ := hopens.inserted
  refine ⟨ticks, p, probe.inputs, rfl, hp, hinserted, ?_, ?_⟩
  · intro hoverride hcurrent hplace
    exact stands_of_opens hstart hread hopens hoverride hp hcurrent hplace
  · intro moments t k budget a hstands hlasts
    refine ⟨fun n hn => ?_, countdown_left hstands hlasts⟩
    exact countdown_committed hstands (hlasts.mono (Nat.le_of_lt hn)) (.inr (by omega))

/-- Nothing is known, and the first candidate is one tick. -/
theorem probe_holds_candidate_of_one_tick :
    let never : Condition := .native ⟨"never", fun _ => .inl false⟩ ""
    let finished : Condition := .native ⟨"finished", .inl⟩ ""
    let args : List Arg := [.inputs (.ofKeys (.ofList [.right])), .raw (.text "LO"),
      .condition never, .condition finished, .condition never]
    let e := (default : Engine).load (some [.mk .none (.call "optimize" args)])
    let started := e.startSearch args (some ⟨.step 0, []⟩)
    Reached SearchRecord.SparesZero e.record ∧ NonnegBounds args ∧ started.1 = .ok 1 ∧
      ∃ (c : Condition) (b : Engine),
        ticksFrom 2 (fun _ => { player := default }) 0 started.2.advance 1 = b.walk 1 ∧
          b.log.getLast? = some (.left 1 c .satisfied) := by
  intro never finished args e started
  have hreached : Reached SearchRecord.SparesZero e.record := .fresh _
  have hargs : NonnegBounds args := ⟨nofun, nofun⟩
  have hstart : e.startSearch args (some ⟨.step 0, []⟩) = (.ok 1, started.2) := by
    have hok : started.1 = .ok 1 := by cbv
    rw [← hok]
  obtain ⟨ticks, p, i, hticks, hp, -, hnext, hholds⟩ :=
    probe_holds_candidate hreached hargs hstart
  obtain rfl : ticks = 1 := by omega
  cases hp
  have hlasts : Lasts 2 (fun _ => { player := default }) 0 started.2.advance 1 := by
    refine ⟨fun _ _ => ⟨rfl, rfl⟩, fun n hn => ?_⟩
    obtain rfl : n = 0 := by omega
    cbv
  obtain ⟨-, c, b, hleft, -, -, hlog⟩ :=
    hholds (hnext rfl (by decide) (fun _ hplace => by cases hplace)) hlasts
  exact ⟨hreached, hargs, congrArg Prod.fst hstart, c, b, hleft, hlog⟩

/-- An attempt without bounds among the arguments, whose probe has an outcome. -/
theorem settle_of_five {probe : Probe} (hgiven : missingSearchArgument? args = none)
    (hlength : args.length = 5) (hread : readProbe args none = .ok probe)
    (hparts : e.parts.program = true) {p : Program} (hp : e.program = some p)
    (outcome : Outcome) :
    let after := ((e.startSearch args none).2.settle probe (.ok (some outcome))).2
    (e.startSearch args none).1 = .ok (e.record.next probe.mode) ∧
      after.record = { e.record.tried probe.mode outcome with lastSaved := e.now } ∧
      after.parts = e.parts ∧ after.now = e.now ∧ ∃ q, after.program = some q := by
  have horigin : { probe with origin := none } = probe := by
    rw [← readProbe_origin hread]
  rw [startSearch_of_five hgiven hlength hread, openProbe_of_program hparts hp, horigin]
  refine ⟨rfl, ?_⟩
  generalize hopened : ({ e with
      record := e.record.seeded.probed probe.mode
      program := some (p.splice [.mk probe.inputs (.countdown (e.record.seeded.next probe.mode))])
    }.saveRecord).withProbe (some probe) = opened
  have hopenedRecord : opened.record =
      { e.record.seeded.probed probe.mode with lastSaved := e.now } := by
    rw [← hopened]
    rfl
  have hsettles := opened.settles_settle probe (.ok (some outcome))
  generalize opened.settle probe (.ok (some outcome)) = result at hsettles ⊢
  have happly := e.record.apply_probed probe.mode outcome e.now
  rw [← hopenedRecord] at happly
  cases hsettles with
  | jammed hjams =>
    rw [happly] at hjams
    cases hjams
  | settled hsettled =>
    rw [happly] at hsettled
    cases hsettled
    subst hopened
    exact ⟨rfl, rfl, rfl, _, rfl⟩

/-- Two probes of a search are too long, the second one although it was no tick at all. The next
start inserts a negative countdown, which holds its input for ever. -/
theorem candidate_below_zero :
    let never : Condition := .native ⟨"never", fun _ => .inl false⟩ ""
    let finished : Condition := .native ⟨"finished", .inl⟩ ""
    let args : List Arg := [.inputs (.ofKeys (.ofList [.right])), .raw (.text "LO"),
      .condition never, .condition finished, .condition never]
    let probe : Probe := ⟨.ofKeys (.ofList [.right]), .lo, never, finished, never, none⟩
    let e := (default : Engine).load (some [.mk .none (.call "optimize" args)])
    let first := ((e.startSearch args none).2.settle probe (.ok (some .tooHigh))).2
    let second := ((first.startSearch args none).2.settle probe (.ok (some .tooHigh))).2
    Reached (fun _ _ => True) second.record ∧ NonnegBounds args ∧
      second.record.exhausted = true ∧ (second.startSearch args none).1 = .ok (-1) ∧
      ∀ {moments : Nat → Moment} {t k budget : Nat} {i : Inputs} {a : Engine},
        Stands (moments t).player k (.mk i (.countdown (-1))) a →
        (∀ n, Lasts (budget + 1) moments t a n) →
        ∀ n, (ticksFrom (budget + 1) moments t a n).1 = .ok ⟨.committed, i⟩ := by
  intro never finished args probe e first second
  have hargs : NonnegBounds args := ⟨nofun, nofun⟩
  have hempty : Reached (fun _ _ => True) e.record := .fresh _
  have hfirst : Reached (fun _ _ => True) first.record :=
    (hempty.started hargs none).settled trivial probe
  have hsecond : Reached (fun _ _ => True) second.record :=
    (hfirst.started hargs none).settled trivial probe
  have hread : readProbe args none = .ok probe := rfl
  obtain ⟨-, hone, hparts, hnow, p, hp⟩ := settle_of_five (e := e) rfl rfl hread rfl rfl .tooHigh
  obtain ⟨-, htwo, hparts', -, q, hq⟩ :=
    settle_of_five (e := first) rfl rfl hread (congrArg Parts.program hparts) hp .tooHigh
  have hrecord : second.record = ⟨some 0, some (-1), some 0, [1, 0], ""⟩ := by
    refine htwo.trans ?_
    rw [hone, hnow]
    rfl
  obtain ⟨hthree, -⟩ := settle_of_five (e := second) rfl rfl hread
    (congrArg Parts.program (hparts'.trans hparts)) hq .tooHigh
  rw [hrecord] at hthree
  refine ⟨hsecond, hargs, by rw [hrecord]; rfl, hthree, ?_⟩
  intro moments t k budget i a hstands hlasts n
  exact (countdown_committed hstands (hlasts n) (.inl (by decide))).1

end

end Engine

end TickScript
