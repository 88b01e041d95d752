import TickScript.Session
import TickScript.Proofs.RecordingFile
import TickScript.Proofs.Waiting

/-!
# Playing runs back

A program whose steps are the runs of a log writes the log, one entry on each tick
(`Engine.tickWith_plays`). A run that is over is left on the tick after its last one, so within
one tick at most two steps are looked at. Behind the last run nothing is held, as on the ticks
that were cut off when the recording was saved.
-/

namespace TickScript.Engine

/-! ## One tick -/

/-- Nothing but the program writes. -/
structure Calm (e : Engine) : Prop where
  override : e.override.isActive = false
  probe : e.probe = none
  script : e.script.queue = []

/-- What remains of the program is the log, up to ticks at its end on which nothing is held. The
run at the cursor may be over. -/
def Plays (e : Engine) (log : List KeySet) : Prop :=
  ∃ (p : Program) (runs : TickScript.Runs) (n : Nat),
    e.program = some p ∧ p.remaining = runs.steps ∧ (∀ r ∈ runs.tail, 0 < r.2) ∧
      log = runs.toLog ++ List.replicate n .empty

variable {e : Engine} {keys : KeySet} {log : List KeySet} {runs : TickScript.Runs}

/-- A program that was just loaded plays what its runs stand for. -/
theorem plays_load (h : runs.StandFor log) (e : Engine) : (e.load (some runs.steps)).Plays log := by
  obtain ⟨n, hlog⟩ := h.idle
  exact ⟨_, runs, n, rfl, rfl, fun r hr => h.pos r (List.mem_of_mem_tail hr), hlog⟩

/-- The walk of a tick writes one entry of the log, if the run at the cursor is not over. -/
theorem walk_of_pos {p : Program} {n : Nat} (hp : e.program = some p)
    (h : p.remaining = runs.steps) (hpos : ∀ r ∈ runs, 0 < r.2)
    (hlog : keys :: log = runs.toLog ++ List.replicate n .empty) (k : Nat) :
    ∃ outcome e', e.walk (k + 1) = (.ok outcome, e') ∧ e'.Plays log ∧
      e'.simulation = e.simulation.write (.ofKeys keys) ∧ (e.Calm → e'.Calm) := by
  cases runs with
  | nil =>
    cases n with
    | zero => cases hlog
    | succ n =>
      obtain ⟨rfl, rfl⟩ := List.cons.inj hlog
      refine ⟨_, _, walk_of_stop (pace_nil hp h) k, ⟨p, [], n, hp, h, List.forall_mem_nil _, rfl⟩,
        rfl, fun hcalm => ⟨hcalm.override, hcalm.probe, hcalm.script⟩⟩
  | cons r runs =>
    obtain ⟨held, count⟩ := r
    cases count with
    | zero => exact absurd (hpos _ List.mem_cons_self) (Nat.lt_irrefl 0)
    | succ count =>
      have hne : ((count + 1 : Nat) : Int) ≠ 0 := by omega
      have hcount : ((count + 1 : Nat) : Int) - 1 = count := by omega
      obtain ⟨p', hremaining, -, hpace⟩ := pace_countdown_of_ne hne hp h
      rw [hcount] at hremaining
      obtain ⟨rfl, rfl⟩ := List.cons.inj hlog
      refine ⟨_, _, walk_of_stop hpace k, ⟨p', (keys, count) :: runs, n, rfl, hremaining,
        fun r hr => hpos r (List.mem_cons_of_mem _ hr), rfl⟩, rfl,
        fun hcalm => ⟨hcalm.override, hcalm.probe, hcalm.script⟩⟩

/-- One tick writes one entry of the log. -/
theorem tickWith_plays (hcalm : e.Calm) (h : e.Plays (keys :: log)) (k : Nat) :
    ∃ outcome e', e.tickWith (k + 2) false = (.ok outcome, e') ∧ e'.Calm ∧ e'.Plays log ∧
      e'.simulation = e.simulation.write (.ofKeys keys) := by
  have hcalm' : e.beginTick.Calm := ⟨hcalm.override, hcalm.probe, hcalm.script⟩
  have hplay : e.tickWith (k + 2) false = e.beginTick.walk (k + 2) := by
    rw [tickWith_play _ rfl hcalm.override, play, classify_of_none hcalm'.probe]
  obtain ⟨p, runs, n, hp, hremaining, hpos, hlog⟩ := h
  have hp' : e.beginTick.program = some p := hp
  rw [hplay]
  -- a run that is over is left first
  by_cases hover : ∃ held rest, runs = (held, 0) :: rest
  · obtain ⟨held, rest, rfl⟩ := hover
    obtain ⟨p', log', hremaining', -, hpace⟩ := pace_countdown_zero hp' hremaining
    obtain ⟨outcome, e', hwalk, hplays, hwritten, hkept⟩ :=
      walk_of_pos (e := { e.beginTick with program := some p', log := log' }) rfl hremaining' hpos
        hlog k
    refine ⟨outcome, e', ?_, hkept ⟨hcalm.override, hcalm.probe, hcalm.script⟩, hplays, hwritten⟩
    rw [walk_of_go hpace, hwalk]
  · have hall : ∀ r ∈ runs, 0 < r.2 := by
      cases runs with
      | nil => exact List.forall_mem_nil _
      | cons r rest =>
        have hr : 0 < r.2 := Nat.pos_of_ne_zero fun hzero => hover ⟨r.1, rest, by rw [← hzero]⟩
        exact List.forall_mem_cons.mpr ⟨hr, hpos⟩
    obtain ⟨outcome, e', hwalk, hplays, hwritten, hkept⟩ :=
      walk_of_pos hp' hremaining hall hlog (k + 1)
    exact ⟨outcome, e', hwalk, hkept hcalm', hplays, hwritten⟩

end TickScript.Engine
