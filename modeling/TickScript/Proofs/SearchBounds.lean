import Mathlib.Data.Nat.Size
import TickScript.Proofs.Probing

/-!
# The bounds of a search

Holding an input for less than `a` ticks is too short and for more than `b` ticks too long.
The duration that is looked for is `a` or `b`, depending on the mode (`Mode.target`).

A record brackets a duration if it lies between its bounds. Every probe keeps it between
them (`SearchRecord.Moved.brackets`), and `SearchRecord.probesLeft`, a bound on the number of
probes, goes down with every probe that does not make the bounds meet
(`SearchRecord.Moved.probesLeft_lt`): an open interval doubles its lower bound, and a closed one
loses at least half of its width.
-/

namespace TickScript

/-- The outcome of holding an input for so many ticks. -/
def Outcome.ofTicks (a b ticks : Nat) : Outcome :=
  if ticks < a then .tooLow else if b < ticks then .tooHigh else .withinRange

/-- The duration that is looked for. -/
def Mode.target (mode : Mode) (a b : Nat) : Nat :=
  match mode with
  | .lo => a
  | .hi => b

namespace SearchRecord

variable {a b t : Nat} {mode : Mode} {r : SearchRecord}

/-- The lower bound, which is 0 if none is known. -/
def lowest (r : SearchRecord) : Int := r.low.getD 0

/-- A duration lies between the bounds, as far as they are known. -/
structure Brackets (r : SearchRecord) (t : Nat) : Prop where
  nonneg : 0 ≤ r.lowest
  le : r.lowest ≤ t
  ge : ∀ high, r.high = some high → t ≤ high

/-- The record with a lower bound. -/
def seeded (r : SearchRecord) : SearchRecord := { r with low := some r.lowest }

/-- The record after a probe with the given outcome. -/
def tried (r : SearchRecord) (mode : Mode) (outcome : Outcome) : SearchRecord :=
  match outcome, mode with
  | .tooLow, _ =>
    { r.seeded.probed mode with
      low := some (r.high.elim (doubled r.lowest) fun _ => r.next mode + 1) }
  | .tooHigh, _ => { r.seeded.probed mode with high := some (r.next mode - 1) }
  | .withinRange, .lo => { r.seeded.probed mode with high := some (r.next mode) }
  | .withinRange, .hi => { r.seeded.probed mode with low := some (r.next mode) }

theorem next_seeded (r : SearchRecord) (mode : Mode) : r.seeded.next mode = r.next mode := rfl

theorem apply_probed (r : SearchRecord) (mode : Mode) (outcome : Outcome) (stamp : String) :
    { r.seeded.probed mode with lastSaved := stamp }.apply mode outcome =
      .ok { r.tried mode outcome with lastSaved := stamp } := by
  obtain ⟨low, high, middle, history, lastSaved⟩ := r
  cases outcome with
  | tooLow => cases high <;> rfl
  | tooHigh => rfl
  | withinRange => cases mode <;> rfl

theorem history_tried (r : SearchRecord) (mode : Mode) (outcome : Outcome) :
    (r.tried mode outcome).history = r.history ++ [r.next mode] := by
  cases outcome <;> cases mode <;> rfl

theorem middle_tried (r : SearchRecord) (mode : Mode) (outcome : Outcome) :
    (r.tried mode outcome).middle = some (r.next mode) := by
  cases outcome <;> cases mode <;> rfl

/-! ## Candidates -/

theorem next_open (h : r.high = none) (mode : Mode) : r.next mode = doubled r.lowest := by
  unfold next
  rw [h]
  rfl

theorem next_lo {high : Int} (h : r.high = some high) :
    r.next .lo = (r.lowest + high) / 2 := by
  unfold next
  rw [h]
  rfl

theorem next_hi {high : Int} (h : r.high = some high) :
    r.next .hi = -(-(r.lowest + high) / 2) := by
  unfold next
  rw [h]
  rfl

theorem lowest_of_low {low : Int} (hlow : r.low = some low) : r.lowest = low := by
  rw [lowest, hlow]
  rfl

/-- A candidate lies between the bounds. -/
theorem next_between {low high : Int} (hlow : r.low = some low) (hhigh : r.high = some high)
    (hle : low ≤ high) (mode : Mode) : low ≤ r.next mode ∧ r.next mode ≤ high := by
  cases mode with
  | lo =>
    rw [next_lo hhigh, lowest_of_low hlow]
    omega
  | hi =>
    rw [next_hi hhigh, lowest_of_low hlow]
    omega

/-- A candidate is a number of ticks. -/
theorem Brackets.exists_next (h : r.Brackets t) (mode : Mode) : ∃ n : Nat, r.next mode = n := by
  have hnonneg : 0 ≤ r.next mode := by
    have hlow := h.nonneg
    cases hhigh : r.high with
    | none =>
      rw [next_open hhigh, doubled]
      omega
    | some high =>
      have hge := h.ge high hhigh
      cases mode with
      | lo =>
        rw [next_lo hhigh]
        omega
      | hi =>
        rw [next_hi hhigh]
        omega
  exact ⟨(r.next mode).toNat, (Int.toNat_of_nonneg hnonneg).symm⟩

/-! ## What a probe does to the bounds -/

/-- How far apart the bounds may be after a probe that leaves both of them known. -/
def room (r : SearchRecord) : Int :=
  match r.high with
  | none => max r.lowest 1
  | some high => (high - r.lowest) / 2

/-- The bounds after a probe: the interval is still open and its lower bound was doubled, or
it is closed, narrow, and holds the duration. -/
inductive Moved (r : SearchRecord) (t : Nat) (r' : SearchRecord) : Prop
  | doubled (hopen : r.high = none) (hhigh : r'.high = none)
      (hlow : r'.low = some (doubled r.lowest)) (hle : SearchRecord.doubled r.lowest ≤ t)
  | closed (low high : Int) (hlow : r'.low = some low) (hhigh : r'.high = some high)
      (hnonneg : 0 ≤ low) (hle : low ≤ t) (hge : t ≤ high) (hroom : high - low ≤ r.room)

/-- The interval stays open until a candidate is too long, or long enough for the shortest
duration. -/
theorem moved_open (hab : a ≤ b) (h : r.Brackets (mode.target a b)) (hopen : r.high = none)
    {n : Nat} (hn : r.next mode = n) :
    r.Moved (mode.target a b) (r.tried mode (.ofTicks a b n)) := by
  obtain ⟨hnonneg, hle, -⟩ := h
  have hroom : r.room = max r.lowest 1 := by rw [room, hopen]
  have hdoubled : doubled r.lowest = n := by rw [← hn, next_open hopen]
  have hvalue : max (r.lowest * 2) 1 = n := hdoubled
  have hta : a ≤ mode.target a b := by cases mode <;> simp only [Mode.target] <;> omega
  have htb : mode.target a b ≤ b := by cases mode <;> simp only [Mode.target] <;> omega
  unfold Outcome.ofTicks
  split
  · next hlow =>
    refine .doubled hopen hopen ?_ (by omega)
    simp only [tried, hopen, Option.elim_none]
  · next hlow =>
    split
    · next hhigh =>
      exact .closed r.lowest (r.next mode - 1) rfl rfl hnonneg hle (by omega)
        (by omega)
    · next hhigh =>
      cases mode with
      | lo =>
        have ht : Mode.lo.target a b = a := rfl
        exact .closed r.lowest (r.next .lo) rfl rfl hnonneg hle (by omega)
          (by omega)
      | hi =>
        have ht : Mode.hi.target a b = b := rfl
        refine .doubled hopen hopen ?_ (by omega)
        rw [hdoubled, ← hn]
        rfl

/-- A closed interval loses at least half of its width. -/
theorem moved_closed (hab : a ≤ b) (h : r.Brackets (mode.target a b)) {high : Int}
    (hclosed : r.high = some high) {n : Nat} (hn : r.next mode = n) :
    r.Moved (mode.target a b) (r.tried mode (.ofTicks a b n)) := by
  obtain ⟨hnonneg, hle, hge⟩ := h
  have hge := hge high hclosed
  have hroom : r.room = (high - r.lowest) / 2 := by rw [room, hclosed]
  unfold Outcome.ofTicks
  split
  · next hlow =>
    refine .closed (r.next mode + 1) high ?_ ?_ (by omega) ?_ hge ?_
    · simp only [tried, hclosed, Option.elim_some]
    · exact hclosed
    · cases mode <;> simp only [Mode.target] <;> omega
    · cases mode with
      | lo =>
        rw [next_lo hclosed]
        omega
      | hi =>
        rw [next_hi hclosed]
        omega
  · next hlow =>
    split
    · next hhigh =>
      refine .closed r.lowest (r.next mode - 1) rfl rfl hnonneg hle ?_ ?_
      · cases mode <;> simp only [Mode.target] <;> omega
      · cases mode with
        | lo =>
          rw [next_lo hclosed]
          omega
        | hi =>
          rw [next_hi hclosed]
          omega
    · next hhigh =>
      cases mode with
      | lo =>
        have ht : Mode.lo.target a b = a := rfl
        have hnext := next_lo hclosed
        exact .closed r.lowest (r.next .lo) rfl rfl hnonneg hle (by omega)
          (by omega)
      | hi =>
        have ht : Mode.hi.target a b = b := rfl
        have hnext := next_hi hclosed
        exact .closed (r.next .hi) high rfl hclosed (by omega) (by omega) hge
          (by omega)

/-- What a probe does to bounds that bracket the duration. -/
theorem moved_tried (hab : a ≤ b) (h : r.Brackets (mode.target a b)) {n : Nat}
    (hn : r.next mode = n) : r.Moved (mode.target a b) (r.tried mode (.ofTicks a b n)) := by
  cases hhigh : r.high with
  | none => exact moved_open hab h hhigh hn
  | some high => exact moved_closed hab h hhigh hn

theorem Moved.brackets {r' : SearchRecord} (hmoved : r.Moved t r') : r'.Brackets t := by
  cases hmoved with
  | doubled hopen hhigh hlow hle =>
    have hlowest : r'.lowest = SearchRecord.doubled r.lowest := by rw [lowest, hlow]; rfl
    refine ⟨?_, ?_, ?_⟩
    · rw [hlowest, SearchRecord.doubled]
      omega
    · rw [hlowest]
      exact hle
    · intro high heq
      rw [hhigh] at heq
      cases heq
  | closed low high hlow hhigh hnonneg hle hge hroom =>
    have hlowest : r'.lowest = low := by rw [lowest, hlow]; rfl
    refine ⟨?_, ?_, ?_⟩
    · rw [hlowest]
      exact hnonneg
    · rw [hlowest]
      exact hle
    · intro high' heq
      rw [hhigh] at heq
      cases heq
      exact hge

/-! ## The number of probes -/

/-- A bound on the number of probes until the bounds meet. -/
def probesLeft (r : SearchRecord) (t : Nat) : Nat :=
  match r.high with
  | none => max 2 (2 * t.size + 1 - r.lowest.toNat.size)
  | some high => max 1 (high - r.lowest).toNat.size

theorem probesLeft_pos (r : SearchRecord) (t : Nat) : 0 < r.probesLeft t := by
  rw [probesLeft]
  split <;> omega

theorem size_half {v w : Nat} (hw : 0 < w) (h : v ≤ w / 2) : v.size + 1 ≤ w.size := by
  have hpos : 0 < w.size := Nat.size_pos.mpr hw
  have hlt := w.lt_size_self
  have hpow : 2 ^ w.size = 2 * 2 ^ (w.size - 1) := by
    rw [← Nat.pow_succ', Nat.succ_eq_add_one, Nat.sub_add_cancel hpos]
  have hv : v.size ≤ w.size - 1 := Nat.size_le.mpr (by omega)
  omega

theorem size_doubled {low : Int} (h : 0 ≤ low) :
    (doubled low).toNat.size = low.toNat.size + 1 := by
  rcases Int.eq_ofNat_of_zero_le h with ⟨n, rfl⟩
  have hn : (n : Int).toNat = n := Int.toNat_natCast n
  rw [hn]
  rcases Nat.eq_zero_or_pos n with rfl | hpos
  · rfl
  · have htwice : Nat.bit false n = 2 * n := Nat.bit_false_apply n
    have hdoubled : (doubled n).toNat = Nat.bit false n := by
      rw [htwice, doubled]
      omega
    rw [hdoubled, Nat.size_bit (by omega)]

/-- A probe after which the bounds have not met leaves fewer probes. -/
theorem Moved.probesLeft_lt {r' : SearchRecord} (h : r.Brackets t) (hmoved : r.Moved t r')
    (hapart : r'.high ≠ some r'.lowest) : r'.probesLeft t + 1 ≤ r.probesLeft t := by
  cases hmoved with
  | doubled hopen hhigh hlow hle =>
    have hlowest : r'.lowest = SearchRecord.doubled r.lowest := by rw [lowest, hlow]; rfl
    have hsize := size_doubled h.nonneg
    have hmono : (SearchRecord.doubled r.lowest).toNat.size ≤ t.size :=
      Nat.size_le_size (Int.toNat_le.mpr hle)
    rw [probesLeft, probesLeft, hopen, hhigh, hlowest]
    dsimp only
    omega
  | closed low high hlow hhigh hnonneg hle hge hroom =>
    have hlowest : r'.lowest = low := by rw [lowest, hlow]; rfl
    have hne : high ≠ low := by
      rintro rfl
      exact hapart (hhigh.trans (congrArg some hlowest.symm))
    have hpos : 0 < (high - low).toNat.size := Nat.size_pos.mpr (by omega)
    have hleft : r'.probesLeft t = (high - low).toNat.size := by
      rw [probesLeft, hhigh, hlowest]
      dsimp only
      omega
    rw [hleft]
    cases hbefore : r.high with
    | none =>
      rw [probesLeft, hbefore]
      dsimp only
      have hwide : r.room = max r.lowest 1 := by rw [room, hbefore]
      have hlow_size : r.lowest.toNat.size ≤ t.size :=
        Nat.size_le_size (Int.toNat_le.mpr h.le)
      rcases Int.lt_or_le 0 r.lowest with hpositive | hzero
      · have hsize : (high - low).toNat.size ≤ r.lowest.toNat.size :=
          Nat.size_le_size (by omega)
        omega
      · have hsize : (high - low).toNat.size ≤ 1 := Nat.size_le.mpr (by omega)
        omega
    | some before =>
      rw [probesLeft, hbefore]
      dsimp only
      have hwide : r.room = (before - r.lowest) / 2 := by rw [room, hbefore]
      have hhalf : (high - low).toNat.size + 1 ≤ (before - r.lowest).toNat.size :=
        size_half (by omega) (by omega)
      omega

/-! ## Reports -/

theorem low_tried (r : SearchRecord) (mode : Mode) (outcome : Outcome) :
    (r.tried mode outcome).low = some (r.tried mode outcome).lowest := by
  cases outcome <;> cases mode <;> rfl

/-- Bounds that have met are the duration itself. -/
theorem report_of_met (h : r.Brackets t) (hlow : r.low = some r.lowest)
    (hmet : r.high = some r.lowest) (outcome : Outcome) :
    (r.report outcome).reason = .converged ∧ (r.report outcome).value = some (t : Int) := by
  have hconverged : r.converged = true := by
    rw [converged, hmet, hlow]
    simp
  have ht : r.lowest = t := Int.le_antisymm h.le (h.ge r.lowest hmet)
  rw [report, if_pos hconverged]
  exact ⟨rfl, hlow.trans (congrArg some ht)⟩

/-- Bounds that bracket a duration never pass each other. -/
theorem report_of_apart (h : r.Brackets t) (hlow : r.low = some r.lowest)
    (hapart : r.high ≠ some r.lowest) (outcome : Outcome) :
    (r.report outcome).reason = .probed := by
  have hconverged : ¬r.converged = true := by
    intro hconverged
    rw [converged, Bool.and_eq_true, beq_iff_eq] at hconverged
    exact hapart (hconverged.2.symm.trans hlow)
  have hexhausted : ¬r.exhausted = true := by
    rw [exhausted, hlow]
    cases hhigh : r.high with
    | none => exact Bool.false_ne_true
    | some high =>
      have hle : r.lowest ≤ high := Int.le_trans h.le (h.ge high hhigh)
      simp only [decide_eq_true_eq]
      omega
  rw [report, if_neg hconverged, if_neg hexhausted]

end SearchRecord

end TickScript
