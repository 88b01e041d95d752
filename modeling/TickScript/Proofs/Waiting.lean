import TickScript.Proofs.Agreement
import TickScript.Proofs.Probing
import TickScript.Proofs.Remaining
import TickScript.Proofs.Runs
import TickScript.Proofs.Untouched
import TickScript.Proofs.Waits

/-!
# Steps that wait

A step whose condition is a wait holds its input up to the tick on which the wait is due,
and is left on that tick (`Engine.step_waits`). The wait begins on the tick on which the
walk comes to the step, in the middle of which the engine is when it stands there.

Between two ticks the conditions of an open probe are looked at. They may insert steps and
turn over flags, but the step at the cursor and its condition are out of their reach
(`Engine.classify_stands`), unless they are arguments of that very step.
-/

namespace TickScript

/-- The players that a stream of moments shows. -/
def shown (moments : Nat → Moment) (t : Nat) : Player := (moments t).player

namespace Engine

variable {player : Player} {k : Nat} {s : Step}

/-- The engine sees a player and stands at a step, without an override. The conditions of an
open probe, if there is one, do not belong to this step. -/
structure Stands (player : Player) (k : Nat) (s : Step) (e : Engine) : Prop where
  player : e.view = player
  override : e.override.isActive = false
  step : ∃ p, e.program = some p ∧ p.cursor = k ∧ ∃ rest, p.remaining = s :: rest
  probe : ∀ q, e.probe = some q → ∀ path, q.origin ≠ some ⟨.step k, path⟩

/-! ## Between two ticks -/

theorem look_stands {e : Engine} (h : Stands player k s e) : Stands player k s e.look.2 := by
  unfold look
  split
  · exact h
  · next hseen =>
    refine ⟨?_, h.override, h.step, h.probe⟩
    have hplayer := h.player
    rw [view, hseen] at hplayer
    exact hplayer

theorem Looked.stands {a b : Engine} (h : Looked a b) (ha : Stands player k s a) :
    Stands player k s b := by
  rcases h with rfl | rfl
  · exact ha
  · exact look_stands ha

theorem lookOverlay_stands {e : Engine} (h : Stands player k s e) :
    Stands player k s e.lookOverlay.2 := by
  obtain ⟨_, _, _, hlook⟩ := e.lookOverlay_snd
  rw [hlook]
  exact ⟨h.player, h.override, h.step, h.probe⟩

theorem expand_stands {e : Engine} (h : Stands player k s e) (fresh : List Step) :
    Stands player k s (e.expand fresh).2 := by
  unfold expand splice
  split
  · split
    · next p hp =>
      obtain ⟨p', hp', hcursor, rest, hrest⟩ := h.step
      rw [hp] at hp'
      cases hp'
      exact ⟨h.player, h.override, ⟨_, rfl, hcursor, _, p.remaining_splice hrest fresh⟩, h.probe⟩
    · exact h
  · exact h

theorem withProbe_stands {e : Engine} (h : Stands player k s e) {q : Option Probe}
    (hq : ∀ p, q = some p → ∀ path, p.origin ≠ some ⟨.step k, path⟩) :
    Stands player k s (e.withProbe q) := ⟨h.player, h.override, h.step, hq⟩

theorem startSearch_stands {e : Engine} (h : Stands player k s e) (args : List Arg) :
    Stands player k s (e.startSearch args none).2 := by
  apply startSearch_leads (P := Stands player k s) (Q := Stands player k s) id
  · exact fun h _ => ⟨h.player, h.override, h.step, h.probe⟩
  · exact fun h => ⟨h.player, h.override, h.step, h.probe⟩
  · exact fun h _ _ => expand_stands h _
  · intro e h p hread
    refine withProbe_stands h ?_
    rintro _ ⟨⟩ path
    rw [readProbe_origin hread]
    exact nofun
  · exact h

theorem kept_stands (player : Player) (k : Nat) (s : Step) :
    Kept (Stands player k s) (· = none) where
  nowhere := rfl
  inside := by
    rintro _ rfl _
    rfl
  toggle h _ := ⟨h.player, h.override, h.step, h.probe⟩
  setRandom h _ := ⟨h.player, h.override, h.step, h.probe⟩
  look := look_stands
  lookOverlay := lookOverlay_stands
  expand := expand_stands
  loadScript h _ := ⟨h.player, h.override, h.step, h.probe⟩
  startSearch := by
    rintro e _ h rfl args
    exact startSearch_stands h args
  clearRecord h := ⟨h.player, h.override, h.step, h.probe⟩

/-- A condition at another place is none of the step's business. -/
theorem setAt_stands {e : Engine} (h : Stands player k s e) {place : Place}
    (hplace : place.root ≠ .step k) (c : Condition) : Stands player k s (e.setAt place c) := by
  obtain ⟨p, hp, hcursor, rest, hrest⟩ := h.step
  obtain ⟨root, path⟩ := place
  cases root with
  | step index =>
    have hindex : index ≠ p.cursor := by
      rintro rfl
      exact hplace (congrArg Root.step hcursor)
    refine ⟨h.player, h.override, ⟨_, congrArg (Option.map _) hp, hcursor, ?_⟩, h.probe⟩
    rw [Program.remaining_modify]
    split
    · exact ⟨rest, hrest⟩
    · obtain ⟨n, hn⟩ : ∃ n, index - p.cursor = n + 1 := ⟨index - p.cursor - 1, by omega⟩
      rw [hrest, hn]
      exact ⟨_, rfl⟩
  | watch name => exact ⟨h.player, h.override, h.step, h.probe⟩

theorem keepInPlace_stands {e : Engine} (h : Stands player k s e) {p : Probe}
    (hp : ∀ path, p.origin ≠ some ⟨.step k, path⟩) : Stands player k s (e.keepInPlace p) := by
  unfold keepInPlace
  split
  · exact h
  · next place horigin =>
    have hroot : ∀ i, (place.arg i).root ≠ .step k := by
      intro i hroot
      obtain ⟨root, path⟩ := place
      exact hp path (by rw [horigin, show root = .step k from hroot])
    exact setAt_stands (setAt_stands (setAt_stands h (hroot 2) _) (hroot 3) _) (hroot 4) _

/-- The outcome check of a probe leaves the step at the cursor alone. -/
theorem classify_stands {e : Engine} (h : Stands player k s e) :
    Stands player k s e.classify.2 := by
  cases hprobe : e.probe with
  | none =>
    rw [classify_of_none hprobe]
    exact h
  | some p =>
    have hp := h.probe p hprobe
    have hjudge := (kept_stands player k s).judge (withProbe_stands (q := none) h (by simp)) p
    rw [← judge_origin (e.withProbe none) p] at hp
    have hkept := keepInPlace_stands hjudge hp
    rw [classify_of_probe hprobe]
    generalize ((e.withProbe none).judge p).2.2.keepInPlace ((e.withProbe none).judge p).2.1 = a
      at hkept ⊢
    generalize ((e.withProbe none).judge p).2.1 = q at hp ⊢
    have hopen : Stands player k s (a.withProbe (some (a.probe.getD q))) := by
      refine withProbe_stands hkept ?_
      rintro _ ⟨⟩
      cases ha : a.probe with
      | none => exact hp
      | some q' => exact hkept.probe q' ha
    unfold settle
    split
    · exact hopen
    · exact hopen
    · split
      · exact hopen
      · exact ⟨hkept.player, hkept.override, hkept.step, by rintro _ ⟨⟩⟩

/-! ## At the step -/

theorem setAt_step_stands {e : Engine} (h : Stands player k s e) (c : Condition) :
    Stands player k (s.withCondition c) (e.setAt ⟨.step k, []⟩ c) := by
  obtain ⟨p, hp, rfl, rest, hrest⟩ := h.step
  refine ⟨h.player, h.override, ⟨_, congrArg (Option.map _) hp, rfl, ?_⟩, h.probe⟩
  rw [Program.remaining_modify, if_neg (Nat.lt_irrefl _), Nat.sub_self, hrest]
  cases s.condition with
  | call name args => exact ⟨rest, rfl⟩
  | _ => exact ⟨rest, rfl⟩

variable {i : Inputs} {w : Wait}

theorem Looked.probe {a b : Engine} (h : Looked a b) : b.probe = a.probe := by
  rcases h with rfl | rfl
  · rfl
  · unfold Engine.look
    split <;> rfl

theorem Looked.commits {a b : Engine} (h : Looked a b) : b.commits = a.commits := by
  rcases h with rfl | rfl
  · rfl
  · exact (look_untouched a).commits

/-- Evaluating the wait of the step changes nothing but the wait. -/
theorem turnAt_wait {e : Engine} (h : Stands player k (.mk i w.toCondition) e) {p : Program}
    (hcursor : p.cursor = k) : ∃ e', e.Looked e' ∧
      e.turnAt p (.mk i w.toCondition) =
        ⟨.ok (.ofBool (w.step player).1), (w.step player).2.toCondition, e'⟩ ∧
      e.afterTurn p (.mk i w.toCondition) =
        e'.setAt ⟨.step k, []⟩ (w.step player).2.toCondition := by
  obtain ⟨e', hlooked, hturn⟩ := w.evaluateWith_eq Condition.evaluateRead (some ⟨.step k, []⟩) e
  rw [e.look_fst, h.player] at hturn
  have hat : e.turnAt p (.mk i w.toCondition) =
      ⟨.ok (.ofBool (w.step player).1), (w.step player).2.toCondition, e'⟩ := by
    rw [turnAt, hcursor]
    exact hturn
  refine ⟨e', hlooked, hat, ?_⟩
  rw [afterTurn, hat, hcursor]

/-- The walk ends at the step and holds its input. -/
structure Holds (player : Player) (k : Nat) (s : Step) (e a : Engine) : Prop where
  stands : Stands player k s a
  commits : a.commits = e.commits + 1
  probe : a.probe = e.probe

/-- The walk goes on behind the step. -/
structure Leaves (k : Nat) (c : Condition) (e a : Engine) : Prop where
  cursor : a.program.map Program.cursor = some (k + 1)
  commits : a.commits = e.commits
  log : a.log.getLast? = some (.left k c .satisfied)

/-- As long as the wait is not over, the walk ends at the step. -/
theorem walk_waiting {e : Engine} (h : Stands player k (.mk i w.toCondition) e) (budget : Nat)
    (hwaits : (w.step player).1 = false) :
    ∃ a, e.walk (budget + 1) = (.ok ⟨.committed, i⟩, a) ∧
      Holds player k (.mk i (w.step player).2.toCondition) e a := by
  obtain ⟨p, hp, hcursor, rest, hrest⟩ := h.step
  obtain ⟨e', hlooked, hturn, hafter⟩ := turnAt_wait h hcursor
  have houtcome : (e.turnAt p (.mk i w.toCondition)).outcome = .ok .waiting := by
    rw [hturn, hwaits]
    rfl
  have hstands := setAt_step_stands (hlooked.stands h) (w.step player).2.toCondition
  have hpaces := Paces.held hp (p.current?_of_remaining hrest) houtcome
  refine ⟨_, walk_of_stop hpaces.eq budget, ?_, ?_, ?_⟩
  · rw [hafter]
    exact ⟨hstands.player, hstands.override, hstands.step, hstands.probe⟩
  · rw [hafter]
    exact congrArg (· + 1) hlooked.commits
  · rw [hafter]
    exact hlooked.probe

/-- On the tick on which the wait is over, the walk leaves the step. -/
theorem walk_over {e : Engine} (h : Stands player k (.mk i w.toCondition) e) (budget : Nat)
    (hover : (w.step player).1 = true) :
    ∃ a, e.walk (budget + 1) = a.walk budget ∧ Leaves k (w.step player).2.toCondition e a := by
  obtain ⟨p, hp, hcursor, rest, hrest⟩ := h.step
  obtain ⟨e', hlooked, hturn, hafter⟩ := turnAt_wait h hcursor
  have houtcome : (e.turnAt p (.mk i w.toCondition)).outcome = .ok .satisfied := by
    rw [hturn, hover]
    rfl
  have hleave : e.leave p (.mk i w.toCondition) .satisfied =
      ((e'.setAt ⟨.step k, []⟩ (w.step player).2.toCondition).note
        (.left k (w.step player).2.toCondition .satisfied)).advance := by
    rw [leave, hafter, hturn, hcursor]
  have hstands := setAt_step_stands (hlooked.stands h) (w.step player).2.toCondition
  obtain ⟨q, hq, hqcursor, _⟩ := hstands.step
  have hpaces := Paces.left hp (p.current?_of_remaining hrest) houtcome rfl
  refine ⟨_, walk_of_go hpaces.eq budget, ?_⟩
  rw [hleave]
  refine ⟨?_, hlooked.commits, List.getLast?_concat⟩
  rw [advance, note]
  dsimp only
  rw [hq, ← hqcursor]
  rfl

/-! ## Tick by tick -/

/-- From the middle of a walk on: the tick that the walk belongs to, and the ticks that
follow it. -/
def ticksFrom (budget : Nat) (moments : Nat → Moment) (t : Nat) (e : Engine) :
    Nat → Except Fault TickOutcome × Engine
  | 0 => e.walk budget
  | n + 1 => (ticksFrom budget moments t e n).2.tickOn budget (moments (t + n + 1))

theorem classify_no_probe {e : Engine} (h : e.probe = none) : e.classify.2.probe = none := by
  rw [classify_of_none h]
  exact h

theorem tickOn_stands {e : Engine} (h : Stands player k s e) {m : Moment} (hm : m.Quiet)
    (hgoes : e.GoesOn m) (budget : Nat) :
    ∃ a, e.tickOn budget m = a.walk budget ∧ Stands m.player k s a ∧ a.commits = e.commits ∧
      (e.probe = none → a.probe = none) := by
  have hinactive : (e.meet m).override.isActive = false := by
    rw [meet_override hm.overrides]
    exact h.override
  have hbegin : Stands m.player k s (e.meet m).beginTick := ⟨rfl, hinactive, h.step, h.probe⟩
  refine ⟨(e.meet m).beginTick.classify.2, ?_, classify_stands hbegin,
    (classify_untouched _).commits, classify_no_probe (e := (e.meet m).beginTick)⟩
  rw [tickOn_quiet hm h.override, play_of_goesOn hgoes]

section

variable {moments : Nat → Moment} {t : Nat} {budget : Nat} {e : Engine}

/-- On each tick up to the one on which the wait is due, the walk stands at the step. -/
theorem ticksFrom_stands (h : Stands (moments t).player k (.mk i w.toCondition) e)
    (hquiet : ∀ n, t < n → (moments n).Quiet) :
    ∀ n : Nat, ((t + n : Nat) : ℕ∞) ≤ w.due (shown moments) t →
      (∀ m < n, (ticksFrom (budget + 1) moments t e m).2.GoesOn (moments (t + m + 1))) →
      ∃ a, ticksFrom (budget + 1) moments t e n = a.walk (budget + 1) ∧
        Stands (moments (t + n)).player k (.mk i (w.after (shown moments) t n).toCondition) a ∧
        a.commits = e.commits + n ∧ (e.probe = none → a.probe = none)
  | 0, _, _ => ⟨e, rfl, h, rfl, id⟩
  | n + 1, hn, hgoes => by
    have hlt : ((t + n : Nat) : ℕ∞) < w.due (shown moments) t :=
      lt_of_lt_of_le (Nat.cast_lt.mpr (by omega)) hn
    obtain ⟨a, ha, hstands, hcommits, hprobe⟩ :=
      ticksFrom_stands h hquiet n (le_of_lt hlt) fun m hm => hgoes m (by omega)
    obtain ⟨a', hwalk, hholds⟩ :=
      walk_waiting hstands budget (w.after_waits (shown moments) hlt)
    have htick : (ticksFrom (budget + 1) moments t e n).2 = a' := by rw [ha, hwalk]
    have hgo := hgoes n (Nat.lt_succ_self n)
    rw [htick] at hgo
    obtain ⟨b, hb, hbstands, hbcommits, hbprobe⟩ :=
      tickOn_stands hholds.stands (hquiet (t + n + 1) (by omega)) hgo (budget + 1)
    refine ⟨b, ?_, hbstands, ?_, ?_⟩
    · rw [ticksFrom, htick, hb]
    · rw [hbcommits, hholds.commits, hcommits]
      omega
    · intro hnone
      exact hbprobe (hholds.probe.trans (hprobe hnone))

/-- Without a probe, no outcome check interferes as long as the step waits. -/
theorem ticksFrom_goesOn (h : Stands (moments t).player k (.mk i w.toCondition) e)
    (hquiet : ∀ n, t < n → (moments n).Quiet) (hprobe : e.probe = none) :
    ∀ n : Nat, ((t + n : Nat) : ℕ∞) ≤ w.due (shown moments) t →
      ∀ m < n, (ticksFrom (budget + 1) moments t e m).2.GoesOn (moments (t + m + 1))
  | 0, _, m, hm => absurd hm (Nat.not_lt_zero m)
  | n + 1, hn, m, hm => by
    have hlt : ((t + n : Nat) : ℕ∞) < w.due (shown moments) t :=
      lt_of_lt_of_le (Nat.cast_lt.mpr (by omega)) hn
    have ih := ticksFrom_goesOn h hquiet hprobe n (le_of_lt hlt)
    rcases Nat.lt_succ_iff_lt_or_eq.mp hm with hlt' | rfl
    · exact ih m hlt'
    · obtain ⟨a, ha, hstands, _, hnone⟩ := ticksFrom_stands h hquiet m (le_of_lt hlt) ih
      obtain ⟨a', hwalk, hholds⟩ :=
        walk_waiting hstands budget (w.after_waits (shown moments) hlt)
      have hprobe' : ((ticksFrom (budget + 1) moments t e m).2.meet
          (moments (t + m + 1))).beginTick.probe = none := by
        rw [ha, hwalk]
        exact hholds.probe.trans (hnone hprobe)
      rw [GoesOn, classify_of_none hprobe']

/-- A step that waits. It is come to on tick `t`, in the middle of a walk, and no pause and
no override interferes later. If a probe is open, its outcome check lets the program go on
meanwhile. Then the input is held on each tick before the one on which the condition is due,
and on that tick the walk leaves the step. All the while the condition is what one evaluation
after the other leaves of it; in a row of conditions each evaluation reaches the first one
only, which is dropped once it holds. -/
theorem step_waits (w : Wait) (h : Stands (moments t).player k (.mk i w.toCondition) e)
    (hquiet : ∀ n, t < n → (moments n).Quiet)
    (hgoes : e.probe = none ∨ ∀ n : Nat, ((t + n : Nat) : ℕ∞) < w.due (shown moments) t →
      (ticksFrom (budget + 1) moments t e n).2.GoesOn (moments (t + n + 1))) :
    (∀ n : Nat, ((t + n : Nat) : ℕ∞) < w.due (shown moments) t →
      (ticksFrom (budget + 1) moments t e n).1 = .ok ⟨.committed, i⟩ ∧
        (ticksFrom (budget + 1) moments t e n).2.commits = e.commits + n + 1 ∧
        Stands (moments (t + n)).player k
          (.mk i (w.after (shown moments) t (n + 1)).toCondition)
          (ticksFrom (budget + 1) moments t e n).2) ∧
    (∀ n : Nat, w.due (shown moments) t = (t + n : Nat) →
      ∃ a : Engine, ticksFrom (budget + 1) moments t e n = a.walk budget ∧
        a.program.map Program.cursor = some (k + 1) ∧ a.commits = e.commits + n ∧
        ∃ c, a.log.getLast? = some (.left k c .satisfied)) ∧
    (∀ (late : Late) (a : Arg) (rest : List Arg) (e : Engine),
      (evaluateInOrder late (a :: rest) e).engine = (a.evaluateWith late none e).engine ∧
        ((a.evaluateWith late none e).Passes →
          (evaluateInOrder late (a :: rest) e).rest = rest) ∧
        (¬(a.evaluateWith late none e).Passes →
          (evaluateInOrder late (a :: rest) e).rest =
            (a.evaluateWith late none e).rest :: rest)) := by
  have hbefore : ∀ n : Nat, ((t + n : Nat) : ℕ∞) ≤ w.due (shown moments) t →
      ∀ m < n, (ticksFrom (budget + 1) moments t e m).2.GoesOn (moments (t + m + 1)) := by
    intro n hn m hm
    rcases hgoes with hnone | hgoes
    · exact ticksFrom_goesOn h hquiet hnone n hn m hm
    · exact hgoes m (lt_of_lt_of_le (Nat.cast_lt.mpr (by omega)) hn)
  refine ⟨?_, ?_, evaluateInOrder_cons⟩
  · intro n hn
    obtain ⟨a, ha, hstands, hcommits, _⟩ :=
      ticksFrom_stands h hquiet n (le_of_lt hn) (hbefore n (le_of_lt hn))
    obtain ⟨a', hwalk, hholds⟩ :=
      walk_waiting hstands budget (w.after_waits (shown moments) hn)
    rw [ha, hwalk]
    exact ⟨rfl, by rw [hholds.commits, hcommits], hholds.stands⟩
  · intro n hn
    obtain ⟨a, ha, hstands, hcommits, _⟩ :=
      ticksFrom_stands h hquiet n (le_of_eq hn.symm) (hbefore n (le_of_eq hn.symm))
    obtain ⟨b, hwalk, hleaves⟩ := walk_over hstands budget (w.after_over (shown moments) hn)
    rw [ha, hwalk]
    exact ⟨b, rfl, hleaves.cursor, by rw [hleaves.commits, hcommits], _, hleaves.log⟩

/-- One tick and then none: the first countdown takes the ticks 0 and 1, and the second one
is over on tick 2. -/
theorem step_waits_twice :
    (ticksFrom 1 (fun _ => { player := default }) 0
        { (default : Engine) with
          program := some ⟨[.mk .none (Wait.inOrder [.countdown 1, .countdown 0]).toCondition], 0⟩ }
        1).1 = .ok ⟨.committed, .none⟩ := by
  have hdue : (Wait.inOrder [.countdown 1, .countdown 0]).due
      (shown fun _ => { player := default }) 0 = (2 : Nat) := by
    simp [Wait.due, Wait.dueAll, Wait.afterwards]
  have hstands : Stands default 0
      (.mk .none (Wait.inOrder [.countdown 1, .countdown 0]).toCondition)
      { (default : Engine) with
        program :=
          some ⟨[.mk .none (Wait.inOrder [.countdown 1, .countdown 0]).toCondition], 0⟩ } :=
    ⟨rfl, rfl, ⟨_, rfl, rfl, [], rfl⟩, by rintro _ ⟨⟩⟩
  have hquiet : ∀ n, 0 < n → ((fun _ => { player := default } : Nat → Moment) n).Quiet :=
    fun _ _ => ⟨rfl, rfl⟩
  refine ((step_waits _ hstands hquiet (Or.inl rfl)).1 1 ?_).1
  rw [hdue]
  exact Nat.cast_lt.mpr (by omega)

end

end Engine

end TickScript
