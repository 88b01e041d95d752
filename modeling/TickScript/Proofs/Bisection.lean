import TickScript.Proofs.SearchBounds

/-!
# Bounds under any outcomes

The outcomes of probes need not fit together, and the mode may change from one probe to the next.
Even so, a closed interval loses at least half of its width with every probe, and the bounds pass
each other by one at most (`SearchRecord.narrows_tried`). So after as many probes as the width has
binary digits they have met or passed each other, and once they have passed each other they stay so
(`SearchRecord.bisection_progresses`). The numbers may be negative.

* `SearchRecord.probes`: one probe after the other.
* `SearchRecord.probes_closed`: what is left of a closed interval.
-/

namespace TickScript.SearchRecord

variable {r : SearchRecord} {low high : Int}

/-- The next candidate is written down, and its outcome moves the bounds. -/
def probe (r : SearchRecord) (mode : Mode) (outcome : Outcome) : Except Fault SearchRecord :=
  (r.probed mode).apply mode outcome

/-- One probe after the other, each with its own mode and outcome. -/
def probes (r : SearchRecord) (tests : List (Mode × Outcome)) : Except Fault SearchRecord :=
  tests.foldlM (fun r t => r.probe t.1 t.2) r

/-- With a lower bound every probe moves the bounds. -/
theorem probe_eq (hlow : r.low = some low) (mode : Mode) (outcome : Outcome) :
    r.probe mode outcome = .ok (r.tried mode outcome) := by
  obtain ⟨_, high, middle, history, lastSaved⟩ := r
  cases hlow
  cases outcome with
  | tooLow => cases high <;> rfl
  | tooHigh => rfl
  | withinRange => cases mode <;> rfl

theorem probes_cons (hlow : r.low = some low) (t : Mode × Outcome) (rest : List (Mode × Outcome)) :
    r.probes (t :: rest) = (r.tried t.1 t.2).probes rest := by
  rw [probes, List.foldlM_cons, probe_eq hlow]
  rfl

/-! ## Closed intervals -/

/-- Bounds that are no farther apart than half of what they were, and stay passed if they were. -/
structure Narrows (low high low' high' : Int) : Prop where
  low_le : low ≤ high → low ≤ low'
  le_high : low ≤ high → high' ≤ high
  halves : low ≤ high → high' - low' ≤ (high - low) / 2
  le_succ : low ≤ high → low' ≤ high' + 1
  passed : high < low → high' < low'

/-- What a probe does to two bounds, whatever its outcome. -/
theorem narrows_tried (hlow : r.low = some low) (hhigh : r.high = some high) (mode : Mode)
    (outcome : Outcome) : ∃ low' high', (r.tried mode outcome).low = some low' ∧
      (r.tried mode outcome).high = some high' ∧ Narrows low high low' high' := by
  have hdown : r.next .lo = (low + high) / 2 := by rw [next_lo hhigh, lowest_of_low hlow]
  have hup : r.next .hi = -(-(low + high) / 2) := by rw [next_hi hhigh, lowest_of_low hlow]
  -- for a candidate that is itself left out, the direction of the rounding does not matter
  have hmiddle : r.next mode = (low + high) / 2 ∨ r.next mode = -(-(low + high) / 2) := by
    cases mode with
    | lo => exact .inl hdown
    | hi => exact .inr hup
  cases outcome with
  | tooLow =>
    refine ⟨r.next mode + 1, high, ?_, hhigh, ?_⟩
    · rw [tried, hhigh]
      rfl
    · constructor <;> omega
  | tooHigh =>
    refine ⟨low, r.next mode - 1, ?_, rfl, ?_⟩
    · rw [← lowest_of_low hlow]
      rfl
    · constructor <;> omega
  | withinRange =>
    cases mode with
    | lo =>
      refine ⟨low, r.next .lo, ?_, rfl, ?_⟩
      · rw [← lowest_of_low hlow]
        rfl
      · constructor <;> omega
    | hi =>
      refine ⟨r.next .hi, high, rfl, hhigh, ?_⟩
      constructor <;> omega

/-- What is left of a closed interval after some probes: the binary digits of its width go down by
one with each of them. -/
theorem probes_closed (tests : List (Mode × Outcome)) (hlow : r.low = some low)
    (hhigh : r.high = some high) : ∃ r' low' high', r.probes tests = .ok r' ∧
      r'.low = some low' ∧ r'.high = some high' ∧
      (high' - low').toNat.size ≤ (high - low).toNat.size - tests.length ∧
      (high < low → high' < low') := by
  induction tests generalizing r low high with
  | nil => exact ⟨r, low, high, rfl, hlow, hhigh, Nat.le_refl _, id⟩
  | cons t rest ih =>
    obtain ⟨low₁, high₁, hlow₁, hhigh₁, hnarrows⟩ := narrows_tried hlow hhigh t.1 t.2
    obtain ⟨r', low', high', hprobes, hlow', hhigh', hsize, hpassed⟩ := ih hlow₁ hhigh₁
    refine ⟨r', low', high', ?_, hlow', hhigh', ?_, fun h => hpassed (hnarrows.passed h)⟩
    · rw [probes_cons hlow, hprobes]
    · have hstep : (high₁ - low₁).toNat.size ≤ (high - low).toNat.size - 1 := by
        by_cases hapart : low < high
        · have hhalves := hnarrows.halves (Int.le_of_lt hapart)
          have hhalf : (high₁ - low₁).toNat.size + 1 ≤ (high - low).toNat.size :=
            size_half (by omega) (by omega)
          omega
        · have hnone : (high₁ - low₁).toNat = 0 := by
            have hhalves := hnarrows.halves
            have hpassed₁ := hnarrows.passed
            omega
          rw [hnone, Nat.size_zero]
          exact Nat.zero_le _
      rw [List.length_cons]
      omega

/-- Bounds without any width have met or passed each other. -/
theorem converged_or_exhausted (hlow : r.low = some low) (hhigh : r.high = some high)
    (hsize : (high - low).toNat.size = 0) : r.converged = true ∨ r.exhausted = true := by
  have hle : high ≤ low := by
    rw [Nat.size_eq_zero] at hsize
    omega
  rcases Int.lt_or_eq_of_le hle with hlt | rfl
  · refine .inr ?_
    rw [exhausted, hlow, hhigh]
    exact decide_eq_true hlt
  · refine .inl ?_
    rw [converged, hlow, hhigh]
    simp

theorem exhausted_iff : r.exhausted = true ↔
    ∃ low high, r.low = some low ∧ r.high = some high ∧ high < low := by
  unfold exhausted
  split
  · next low high hlow hhigh => simp [hlow, hhigh]
  · next hunknown =>
    refine iff_of_false Bool.false_ne_true ?_
    rintro ⟨low, high, hlow, hhigh, -⟩
    exact hunknown low high hlow hhigh

/-! ## Open intervals -/

/-- What a probe does to a lower bound alone: an upper bound that it finds is not below it. -/
theorem tried_open (hlow : r.low = some low) (hopen : r.high = none) (mode : Mode)
    (outcome : Outcome) : ∃ low', (r.tried mode outcome).low = some low' ∧ low ≤ low' ∧
      ∀ high', (r.tried mode outcome).high = some high' → low' ≤ high' := by
  have hnext : r.next mode = max (low * 2) 1 := by
    rw [next_open hopen, lowest_of_low hlow]
    rfl
  cases outcome with
  | tooLow =>
    refine ⟨max (low * 2) 1, ?_, by omega, ?_⟩
    · rw [tried, hopen, lowest_of_low hlow]
      rfl
    · intro high' hhigh'
      cases hopen.symm.trans hhigh'
  | tooHigh =>
    refine ⟨low, ?_, Int.le_refl low, ?_⟩
    · rw [← lowest_of_low hlow]
      rfl
    · intro high' hhigh'
      cases hhigh'
      omega
  | withinRange =>
    cases mode with
    | lo =>
      refine ⟨low, ?_, Int.le_refl low, ?_⟩
      · rw [← lowest_of_low hlow]
        rfl
      · intro high' hhigh'
        cases hhigh'
        omega
    | hi =>
      refine ⟨r.next .hi, rfl, by omega, ?_⟩
      intro high' hhigh'
      cases hopen.symm.trans hhigh'

/-- A lower bound does not go down as long as the bounds have not passed each other. -/
theorem low_le_tried (hlow : r.low = some low) (hexhausted : r.exhausted = false) (mode : Mode)
    (outcome : Outcome) : ∃ low', (r.tried mode outcome).low = some low' ∧ low ≤ low' := by
  cases hhigh : r.high with
  | none =>
    obtain ⟨low', hlow', hle, -⟩ := tried_open hlow hhigh mode outcome
    exact ⟨low', hlow', hle⟩
  | some high =>
    obtain ⟨low', high', hlow', -, hnarrows⟩ := narrows_tried hlow hhigh mode outcome
    refine ⟨low', hlow', hnarrows.low_le (Int.not_lt.mp fun hlt => ?_)⟩
    have hpassed := exhausted_iff.mpr ⟨low, high, hlow, hhigh, hlt⟩
    rw [hexhausted] at hpassed
    cases hpassed

/-! ## Any course of probes -/

/-- Probes never fail once a lower bound is known, and keep it known. -/
theorem probes_low (tests : List (Mode × Outcome)) (hlow : r.low = some low) :
    ∃ r' low', r.probes tests = .ok r' ∧ r'.low = some low' := by
  induction tests generalizing r low with
  | nil => exact ⟨r, low, rfl, hlow⟩
  | cons t rest ih =>
    rw [probes_cons hlow]
    exact ih (low_tried r t.1 t.2)

/-- From any lower bound on, which is 0 if none is given, any course of probes leads to a record of
which all of this is true. A candidate lies between the bounds. A probe of a closed interval keeps
to it, leaves at most half of its width and lets the bounds pass each other by one at most, so that
they have met or passed each other after as many probes as the width has binary digits. An upper
bound that is found is not below the lower one, and this one never goes down before the bounds have
passed each other. From then on they stay passed. -/
theorem bisection_progresses (r₀ : SearchRecord) (tests : List (Mode × Outcome)) :
    ∃ r low, r₀.seeded.probes tests = .ok r ∧ r.low = some low ∧
      (∀ high mode, r.high = some high → low ≤ high →
        low ≤ r.next mode ∧ r.next mode ≤ high) ∧
      (∀ high, r.high = some high → low < high →
        (∀ mode outcome, ∃ r' low' high', r.probe mode outcome = .ok r' ∧ r'.low = some low' ∧
          r'.high = some high' ∧ low ≤ low' ∧ high' ≤ high ∧
          high' - low' ≤ (high - low) / 2 ∧ low' ≤ high' + 1) ∧
        ∀ more : List (Mode × Outcome), (high - low).toNat.size ≤ more.length →
          ∃ r', r.probes more = .ok r' ∧ (r'.converged = true ∨ r'.exhausted = true)) ∧
      (∀ mode outcome, ∃ r' low', r.probe mode outcome = .ok r' ∧ r'.low = some low' ∧
        (r.high = none → ∀ high', r'.high = some high' → low' ≤ high') ∧
        (r.exhausted = false → low ≤ low')) ∧
      (r.exhausted = true → ∀ more : List (Mode × Outcome),
        ∃ r', r.probes more = .ok r' ∧ r'.exhausted = true) := by
  obtain ⟨r, low, hprobes, hlow⟩ := probes_low tests (r := r₀.seeded) rfl
  refine ⟨r, low, hprobes, hlow, ?_, ?_, ?_, ?_⟩
  · intro high mode hhigh hle
    exact next_between hlow hhigh hle mode
  · intro high hhigh hlt
    refine ⟨?_, ?_⟩
    · intro mode outcome
      obtain ⟨low', high', hlow', hhigh', hnarrows⟩ := narrows_tried hlow hhigh mode outcome
      have hle := Int.le_of_lt hlt
      exact ⟨_, low', high', probe_eq hlow mode outcome, hlow', hhigh', hnarrows.low_le hle,
        hnarrows.le_high hle, hnarrows.halves hle, hnarrows.le_succ hle⟩
    · intro more hmore
      obtain ⟨r', low', high', hmoved, hlow', hhigh', hsize, -⟩ := probes_closed more hlow hhigh
      exact ⟨r', hmoved, converged_or_exhausted hlow' hhigh' (by omega)⟩
  · intro mode outcome
    refine ⟨_, _, probe_eq hlow mode outcome, low_tried r mode outcome, ?_, ?_⟩
    · intro hopen high' hhigh'
      obtain ⟨low', hlow', -, hfound⟩ := tried_open hlow hopen mode outcome
      rw [lowest_of_low hlow']
      exact hfound high' hhigh'
    · intro hexhausted
      obtain ⟨low', hlow', hle⟩ := low_le_tried hlow hexhausted mode outcome
      rw [lowest_of_low hlow']
      exact hle
  · intro hexhausted more
    obtain ⟨low₁, high₁, hlow₁, hhigh₁, hlt⟩ := exhausted_iff.mp hexhausted
    obtain ⟨r', low', high', hmoved, hlow', hhigh', -, hpassed⟩ := probes_closed more hlow₁ hhigh₁
    exact ⟨r', hmoved, exhausted_iff.mpr ⟨low', high', hlow', hhigh', hpassed hlt⟩⟩

end TickScript.SearchRecord
