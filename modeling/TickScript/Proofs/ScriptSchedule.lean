import Mathlib
import TickScript.Engine.Basic

/-!
# The schedule of a script

A script that is loaded plays its entries on a clock that counts the ticks that are not paused. Its
first play is due after the initial delay, and from then on one play follows the other after each
interval (`ScriptQueue.dueTick`). Which entry has its turn on a play follows from the numbers of
times that the entries are repeated (`HasTurn`).

What else happens to the engine from one tick of the script to the next does not matter, as long as
the script is left alone. `ScriptQueue.OnSchedule` describes the script by the ticks and the plays
that it has behind it, and `ScriptQueue.OnSchedule.tick` is the step from one tick to the next;
`Engine.script_plays_on_schedule` then tells what each tick does.
-/

namespace TickScript

/-! ## Entries and turns -/

/-- How many plays the entries are good for. -/
def playCount (entries : List (Inputs × Int)) : Nat := (entries.map fun e => e.2.toNat).sum

/-- The entry with these inputs has its turn on the play with this number, counted from 0. -/
def HasTurn (entries : List (Inputs × Int)) (k : Nat) (i : Inputs) : Prop :=
  ∃ before n after, entries = before ++ (i, n) :: after ∧ playCount before ≤ k ∧
    k < playCount before + n.toNat

/-- The inputs that are played, in their order. -/
def plays (entries : List (Inputs × Int)) : List Inputs :=
  entries.flatMap fun e => List.replicate e.2.toNat e.1

@[simp] theorem playCount_cons (entry : Inputs × Int) (entries : List (Inputs × Int)) :
    playCount (entry :: entries) = entry.2.toNat + playCount entries := by
  simp [playCount]

@[simp] theorem plays_cons (entry : Inputs × Int) (entries : List (Inputs × Int)) :
    plays (entry :: entries) = List.replicate entry.2.toNat entry.1 ++ plays entries := rfl

@[simp] theorem length_plays (entries : List (Inputs × Int)) :
    (plays entries).length = playCount entries := by
  simp [plays, playCount, List.length_flatMap]

/-- What is dropped when a script is loaded has no turn. -/
theorem plays_filter (entries : List (Inputs × Int)) :
    plays (entries.filter fun e => 0 < e.2) = plays entries := by
  induction entries with
  | nil => rfl
  | cons entry entries ih =>
    by_cases hpos : 0 < entry.2
    · rw [List.filter_cons_of_pos (by simpa using hpos), plays_cons, plays_cons, ih]
    · have hzero : entry.2.toNat = 0 := by omega
      rw [List.filter_cons_of_neg (by simpa using hpos), plays_cons, hzero, ih]
      rfl

theorem hasTurn_of_plays {entries : List (Inputs × Int)} {k : Nat} {i : Inputs}
    (h : (plays entries)[k]? = some i) : HasTurn entries k i := by
  induction entries generalizing k with
  | nil => simp [plays] at h
  | cons entry entries ih =>
    obtain ⟨j, n⟩ := entry
    rw [plays_cons] at h
    by_cases hk : k < n.toNat
    · rw [List.getElem?_append_left (by simpa using hk), List.getElem?_replicate_of_lt hk] at h
      cases h
      exact ⟨[], n, entries, rfl, Nat.zero_le k, by simpa [playCount] using hk⟩
    · rw [List.getElem?_append_right (by simpa using hk), List.length_replicate] at h
      obtain ⟨before, m, after, rfl, hle, hlt⟩ := ih h
      refine ⟨(j, n) :: before, m, after, rfl, ?_, ?_⟩ <;> rw [playCount_cons] <;> omega

namespace ScriptQueue

variable {q : ScriptQueue} {entries : List (Inputs × Int)} {n k : Nat}

/-! ## The clock -/

/-- The tick on which a play is due, counted from 1 from the loading on without the ticks that are
paused. -/
def dueTick (q : ScriptQueue) (k : Nat) : Int :=
  max q.initialDelay 0 + 1 + k * max q.interval 1

theorem dueTick_succ (q : ScriptQueue) (k : Nat) :
    q.dueTick (k + 1) = q.dueTick k + max q.interval 1 := by
  unfold dueTick
  push_cast
  rw [Int.add_mul, Int.one_mul]
  omega

theorem dueTick_lt (q : ScriptQueue) {j k : Nat} (h : j < k) : q.dueTick j < q.dueTick k := by
  induction h with
  | refl =>
    rw [dueTick_succ]
    omega
  | step _ ih =>
    rw [dueTick_succ]
    omega

/-- A script that was loaded with these entries, `n` ticks and `k` plays ago. -/
structure OnSchedule (entries : List (Inputs × Int)) (n k : Nat) (q : ScriptQueue) : Prop where
  left : plays q.queue = (plays entries).drop k
  positive : ∀ entry ∈ q.queue, 0 < entry.2
  played : k ≤ playCount entries
  past : ∀ j < k, q.dueTick j ≤ n
  next : q.queue ≠ [] → n + max q.timer 0 + 1 = q.dueTick k

namespace OnSchedule

theorem load (q : ScriptQueue) (entries : List (Inputs × Int)) :
    OnSchedule entries 0 0 (q.load entries) where
  left := plays_filter entries
  positive entry h := by simpa using (List.mem_filter.mp h).2
  played := Nat.zero_le _
  past j hj := absurd hj (Nat.not_lt_zero j)
  next _ := by simp [ScriptQueue.load, dueTick]

/-- As long as there are plays to come, there is an entry to be played. -/
theorem queue_eq_nil_iff (h : OnSchedule entries n k q) :
    q.queue = [] ↔ k = playCount entries := by
  have hlength := congrArg List.length h.left
  rw [length_plays, List.length_drop, length_plays] at hlength
  have hplayed := h.played
  constructor
  · intro hnil
    rw [hnil] at hlength
    have hzero : playCount [] = 0 := rfl
    omega
  · intro hk
    cases hqueue : q.queue with
    | nil => rfl
    | cons entry rest =>
      have hpos := h.positive entry (hqueue ▸ List.mem_cons_self)
      rw [hqueue, playCount_cons] at hlength
      omega

/-- The play that comes next is not due before the next tick. -/
theorem lt_dueTick (h : OnSchedule entries n k q) (hk : k < playCount entries) :
    (n : Int) < q.dueTick k := by
  have hnext := h.next fun hnil => hk.ne (h.queue_eq_nil_iff.mp hnil)
  omega

/-- Only the play that comes next can be due on the next tick. -/
theorem eq_of_due (h : OnSchedule entries n k q) {j : Nat} (hj : j < playCount entries)
    (hdue : (n : Int) + 1 = q.dueTick j) : j = k := by
  rcases Nat.lt_trichotomy j k with hlt | heq | hlt
  · have hpast := h.past j hlt
    omega
  · exact heq
  · have hnext := h.lt_dueTick (hlt.trans hj)
    have hlater := q.dueTick_lt hlt
    omega

/-- Ticks after the last play. -/
theorem rest (h : OnSchedule entries n k q) (hnil : q.queue = []) :
    OnSchedule entries (n + 1) k q where
  left := h.left
  positive := h.positive
  played := h.played
  past j hj := by
    have hpast := h.past j hj
    push_cast
    omega
  next hne := absurd hnil hne

end OnSchedule

/-! ## One tick -/

/-- A tick of a script that plays an entry, for the last time or not. -/
structure PlaysNext (q : ScriptQueue) (i : Inputs) : Prop where
  played : q.tick.played = some i
  queue : plays q.queue = i :: plays q.tick.rest.queue
  positive : (∀ entry ∈ q.queue, 0 < entry.2) → ∀ entry ∈ q.tick.rest.queue, 0 < entry.2
  timer : q.tick.rest.timer = q.interval - 1
  settings : ∀ k, q.tick.rest.dueTick k = q.dueTick k

theorem playsNext_of_timer {i : Inputs} {repeats : Int} {rest : List (Inputs × Int)}
    (hqueue : q.queue = (i, repeats) :: rest) (hpos : 0 < repeats) (htimer : q.timer ≤ 0) :
    PlaysNext q i := by
  by_cases hlast : repeats ≤ 1
  · have htick : q.tick = ⟨some i, true, { q with queue := rest, timer := q.interval - 1 }⟩ := by
      simp [tick, hqueue, htimer, hlast]
    have hone : repeats.toNat = 1 := by omega
    refine ⟨by rw [htick], ?_, ?_, by rw [htick], fun k => by rw [htick]; rfl⟩
    · rw [htick, hqueue, plays_cons, hone]
      rfl
    · intro hall entry hentry
      rw [htick] at hentry
      exact hall entry (hqueue ▸ List.mem_cons_of_mem _ hentry)
  · have htick : q.tick = ⟨some i, false,
        { q with queue := (i, repeats - 1) :: rest, timer := q.interval - 1 }⟩ := by
      simp [tick, hqueue, htimer, hlast]
    have hsucc : repeats.toNat = (repeats - 1).toNat + 1 := by omega
    refine ⟨by rw [htick], ?_, ?_, by rw [htick], fun k => by rw [htick]; rfl⟩
    · rw [htick, hqueue, plays_cons, plays_cons, hsucc, List.replicate_succ]
      rfl
    · intro hall entry hentry
      rw [htick] at hentry
      rcases List.mem_cons.mp hentry with rfl | hrest
      · change 0 < repeats - 1
        omega
      · exact hall entry (hqueue ▸ List.mem_cons_of_mem _ hrest)

/-- A script whose clock is still running only counts down. -/
theorem tick_of_timer (hqueue : q.queue ≠ []) (htimer : 0 < q.timer) :
    q.tick = ⟨none, false, { q with timer := q.timer - 1 }⟩ := by
  unfold tick
  split
  · next hnil => exact absurd hnil hqueue
  · rw [if_neg (by omega)]

theorem tick_of_nil (hqueue : q.queue = []) : q.tick = ⟨none, false, q⟩ := by
  unfold tick
  rw [hqueue]

/-- What a tick of a script does that has `n` ticks and `k` plays behind it. -/
inductive Beats (entries : List (Inputs × Int)) (n k : Nat) (q : ScriptQueue) : Prop
  /-- Nothing is left to be played. -/
  | emptied (hqueue : q.queue = []) (htick : q.tick = ⟨none, false, q⟩)
      (hnext : OnSchedule entries (n + 1) k q)
  | counts (hk : k < playCount entries) (hearly : (n : Int) + 1 < q.dueTick k)
      (htick : q.tick = ⟨none, false, { q with timer := q.timer - 1 }⟩)
      (hnext : OnSchedule entries (n + 1) k q.tick.rest)
  | plays {i : Inputs} (hdue : (n : Int) + 1 = q.dueTick k) (hturn : HasTurn entries k i)
      (htick : PlaysNext q i) (hnext : OnSchedule entries (n + 1) (k + 1) q.tick.rest)

/-- One tick that is not paused. -/
theorem OnSchedule.tick (h : OnSchedule entries n k q) : Beats entries n k q := by
  cases hqueue : q.queue with
  | nil => exact .emptied hqueue (tick_of_nil hqueue) (h.rest hqueue)
  | cons entry queue =>
    obtain ⟨i, repeats⟩ := entry
    have hne : q.queue ≠ [] := by simp [hqueue]
    have hk : k < playCount entries :=
      Nat.lt_of_le_of_ne h.played fun hk => hne (h.queue_eq_nil_iff.mpr hk)
    have hnext := h.next hne
    by_cases htimer : q.timer ≤ 0
    · have hdue : (n : Int) + 1 = q.dueTick k := by omega
      have hplays := playsNext_of_timer hqueue (h.positive _ (hqueue ▸ List.mem_cons_self)) htimer
      have hdrop : (TickScript.plays entries).drop k = i :: TickScript.plays q.tick.rest.queue := by
        rw [← h.left, hplays.queue]
      refine .plays hdue (hasTurn_of_plays ?_) hplays ⟨?_, hplays.positive h.positive, hk, ?_, ?_⟩
      · rw [← List.head?_drop, hdrop, List.head?_cons]
      · rw [← List.tail_drop, hdrop, List.tail_cons]
      · intro j hj
        rw [hplays.settings]
        rcases Nat.lt_succ_iff_lt_or_eq.mp hj with hlt | rfl
        · have hpast := h.past j hlt
          push_cast
          omega
        · exact hdue.ge
      · intro _
        rw [hplays.settings, hplays.timer, dueTick_succ]
        push_cast
        omega
    · have htick := tick_of_timer hne (by omega)
      refine .counts hk (by omega) htick ?_
      rw [htick]
      refine ⟨h.left, h.positive, h.played, fun j hj => ?_, fun _ => ?_⟩
      · have hpast : q.dueTick j ≤ n := h.past j hj
        change q.dueTick j ≤ _
        push_cast
        omega
      · change _ + max (q.timer - 1) 0 + 1 = q.dueTick k
        push_cast
        omega

end ScriptQueue

namespace Engine

open ScriptQueue

variable {entries : List (Inputs × Int)} {engines : Nat → Engine} {paused : Nat → Bool}

/-! ## The engine -/

/-- The script plays an entry: for one tick, its inputs take the place of the directions of the
current step. Nothing else happens outside of the script and the log. -/
def PlaysEntry (i : Inputs) (a b : Engine) : Prop :=
  ∃ script log, b =
    { a with
      script, log
      override := ⟨(a.currentInputs.diff (.ofKeys .directions)).union i, 1⟩ }

theorem tickScript_paused (e : Engine) : e.tickScript true = e := rfl

theorem tickScript_script (e : Engine) : (e.tickScript false).script = e.script.tick.rest := by
  simp only [tickScript, Bool.false_eq_true, if_false]
  split
  · rfl
  · split <;> rfl

theorem tickScript_of_none {e : Engine} (h : e.script.tick.played = none) :
    e.tickScript false = { e with script := e.script.tick.rest } := by
  simp [tickScript, h]

theorem tickScript_of_some {e : Engine} {i : Inputs} (h : e.script.tick.played = some i) :
    PlaysEntry i e (e.tickScript false) := by
  simp only [tickScript, Bool.false_eq_true, if_false, h]
  split
  · exact ⟨_, _, rfl⟩
  · exact ⟨_, _, rfl⟩

/-- Ticks that follow one another as far as the script is concerned, whatever else happens between
them. -/
structure ScriptTicks (entries : List (Inputs × Int)) (q : ScriptQueue) (engines : Nat → Engine)
    (paused : Nat → Bool) : Prop where
  load : (engines 0).script = q.load entries
  tick : ∀ t, (engines (t + 1)).script = ((engines t).tickScript (paused t)).script

/-- The ticks before tick `t` that were not paused. -/
def unpausedBefore (paused : Nat → Bool) (t : Nat) : Nat := Nat.count (paused · = false) t

/-- The script keeps to its schedule, and to its settings. -/
theorem ScriptTicks.onSchedule {q : ScriptQueue} (h : ScriptTicks entries q engines paused) :
    ∀ t, ∃ k, OnSchedule entries (unpausedBefore paused t) k (engines t).script ∧
      ∀ j, (engines t).script.dueTick j = q.dueTick j
  | 0 => ⟨0, by rw [h.load]; exact .load q entries, fun j => by rw [h.load]; rfl⟩
  | t + 1 => by
    obtain ⟨k, hschedule, hsettings⟩ := h.onSchedule t
    rw [unpausedBefore, Nat.count_succ, h.tick t]
    cases paused t with
    | true => exact ⟨k, hschedule, hsettings⟩
    | false =>
      rw [tickScript_script, if_pos rfl]
      cases hschedule.tick with
      | emptied hqueue htick hnext =>
        rw [htick]
        exact ⟨k, hnext, hsettings⟩
      | counts hk hearly htick hnext =>
        refine ⟨k, hnext, fun j => ?_⟩
        rw [htick]
        exact hsettings j
      | plays hdue hturn htick hnext =>
        exact ⟨k + 1, hnext, fun j => (htick.settings j).trans (hsettings j)⟩

/-- A script plays on schedule. Counting the ticks that are not paused, a play takes place on the
ticks on which one is due, as many as the entries are repeated, and the entry whose turn it is is
played for one tick on top of the current step. All other ticks do no more than count down. The
script is over with the last play, and from then on, as on paused ticks, nothing changes. -/
theorem script_plays_on_schedule {q : ScriptQueue} (h : ScriptTicks entries q engines paused)
    (t : Nat) :
    let n := unpausedBefore paused t
    (paused t = true → (engines t).tickScript (paused t) = engines t) ∧
    (paused t = false → ∀ k < playCount entries, (n : Int) + 1 = q.dueTick k →
      ∃ i, HasTurn entries k i ∧ PlaysEntry i (engines t) ((engines t).tickScript (paused t))) ∧
    (paused t = false → (∀ k < playCount entries, (n : Int) + 1 ≠ q.dueTick k) →
      ∃ timer, (engines t).tickScript (paused t) =
        { engines t with script := { (engines t).script with timer } }) ∧
    ((engines t).script.queue = [] ↔
      playCount entries = 0 ∨ q.dueTick (playCount entries - 1) ≤ n) ∧
    ((engines t).script.queue = [] → (engines t).tickScript (paused t) = engines t) := by
  intro n
  obtain ⟨k, hschedule, hsettings⟩ := h.onSchedule t
  have hcases := hschedule.tick
  refine ⟨fun hpaused => by rw [hpaused, tickScript_paused], ?_, ?_, ?_, ?_⟩
  · intro hpaused j hj hdue
    rw [hpaused]
    rw [← hsettings] at hdue
    cases hschedule.eq_of_due hj hdue
    cases hcases with
    | emptied hqueue => exact absurd (hschedule.queue_eq_nil_iff.mp hqueue) hj.ne
    | counts _ hearly => exact absurd hdue hearly.ne
    | plays _ hturn htick => exact ⟨_, hturn, tickScript_of_some htick.played⟩
  · intro hpaused hidle
    rw [hpaused]
    cases hcases with
    | emptied hqueue htick =>
      exact ⟨(engines t).script.timer, by rw [tickScript_of_none (by rw [htick]), htick]⟩
    | counts hk hearly htick =>
      exact ⟨(engines t).script.timer - 1, by rw [tickScript_of_none (by rw [htick]), htick]⟩
    | plays hdue _ _ hnext =>
      exact absurd (hdue.trans (hsettings k)) (hidle k hnext.played)
  · rw [hschedule.queue_eq_nil_iff, ← hsettings]
    have hplayed := hschedule.played
    constructor
    · intro hk
      by_cases hzero : playCount entries = 0
      · exact Or.inl hzero
      · exact Or.inr (hschedule.past _ (by omega))
    · rintro (hzero | hlast)
      · omega
      · by_contra hk
        have hlt := hschedule.lt_dueTick (Nat.lt_of_le_of_ne hplayed hk)
        have hle : (engines t).script.dueTick k ≤
            (engines t).script.dueTick (playCount entries - 1) := by
          rcases Nat.lt_or_ge k (playCount entries - 1) with hlt' | hge
          · exact (dueTick_lt _ hlt').le
          · have heq : k = playCount entries - 1 := by omega
            rw [heq]
        omega
  · intro hqueue
    cases paused t with
    | true => rfl
    | false =>
      have htick := tick_of_nil hqueue
      rw [tickScript_of_none (by rw [htick]), htick]

/-- With a pause at first, an initial delay of one tick is over on the third tick. The entry that is
not repeated at all has no turn. -/
theorem script_plays_on_schedule_after_pause :
    let jump : Inputs := .ofKeys (.ofList [.jump])
    let q : ScriptQueue := { interval := 0, initialDelay := 1 }
    let engines : Nat → Engine := fun t =>
      t.rec { (default : Engine) with script := q.load [(.none, 0), (jump, 1)] }
        fun s e => e.tickScript (s == 0)
    ScriptTicks [(.none, 0), (jump, 1)] q engines (· == 0) ∧
      ∃ i, HasTurn [(.none, 0), (jump, 1)] 0 i ∧
        PlaysEntry i (engines 2) ((engines 2).tickScript false) := by
  intro jump q engines
  have h : ScriptTicks [(.none, 0), (jump, 1)] q engines (· == 0) := ⟨rfl, fun _ => rfl⟩
  have hdue : (unpausedBefore (· == 0) 2 : Int) + 1 = q.dueTick 0 := by decide
  exact ⟨h, (script_plays_on_schedule h 2).2.1 rfl 0 (by decide) hdue⟩

end Engine

end TickScript
