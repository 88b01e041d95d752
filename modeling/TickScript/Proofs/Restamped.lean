import TickScript.Proofs.Saving

/-!
# Time has no part in a search

The time of saving is written into the record and read by nobody. Two engines that differ in
nothing but the time, the time of the latest saving and the files (`Engine.Restamped`) answer
alike, tick by tick, and go on to differ in nothing else.

* `Engine.restamped_agreement`: conditions cannot tell the two apart.
* `Engine.Restamped.tickOn`: neither can a tick.
-/

namespace TickScript

namespace SearchRecord

def restamp (r : SearchRecord) (saved : String) : SearchRecord := { r with lastSaved := saved }

theorem apply_restamp (r : SearchRecord) (saved : String) (mode : Mode) (outcome : Outcome) :
    (r.restamp saved).apply mode outcome = (r.apply mode outcome).map (·.restamp saved) := by
  obtain ⟨low, high, middle, history, lastSaved⟩ := r
  cases outcome with
  | tooLow => cases high <;> cases middle <;> rfl
  | tooHigh => cases middle <;> rfl
  | withinRange => cases mode <;> rfl

end SearchRecord

namespace Engine

/-- The engine at another time, with other files. -/
def restamp (e : Engine) (saved : String) (files : Files) (now : String) : Engine :=
  { e with record := e.record.restamp saved, files, now }

def Restamped (a b : Engine) : Prop := ∃ saved files now, b = a.restamp saved files now

variable {a b : Engine}

/-! ## Conditions -/

theorem seedLow_restamp (r : SearchRecord) (saved : String) (args : List Arg) :
    seedLow (r.restamp saved) args = (seedLow r args).map (·.restamp saved) := by
  obtain ⟨low, high, middle, history, lastSaved⟩ := r
  cases low with
  | some low => rfl
  | none =>
    simp only [seedLow, SearchRecord.restamp]
    cases boundAt? args 5 <;> rfl

theorem seedHigh_restamp (r : SearchRecord) (saved : String) (args : List Arg) :
    seedHigh (r.restamp saved) args = (seedHigh r args).map (·.restamp saved) := by
  obtain ⟨low, high, middle, history, lastSaved⟩ := r
  cases high with
  | some high => rfl
  | none =>
    simp only [seedHigh, SearchRecord.restamp]
    cases boundAt? args 6 <;> rfl

namespace Restamped

theorem saveRecord (h : Restamped a b) : Restamped a.saveRecord b.saveRecord := by
  obtain ⟨saved, files, now, rfl⟩ := h
  exact ⟨now, _, now, rfl⟩

theorem withProbe (h : Restamped a b) (p : Option Probe) :
    Restamped (a.withProbe p) (b.withProbe p) := by
  obtain ⟨saved, files, now, rfl⟩ := h
  exact ⟨saved, files, now, rfl⟩

theorem expand (h : Restamped a b) (steps : List Step) :
    Alike Restamped (a.expand steps) (b.expand steps) := by
  obtain ⟨saved, files, now, rfl⟩ := h
  have hsame : Restamped a (a.restamp saved files now) := ⟨saved, files, now, rfl⟩
  have hsplice : Alike Restamped (a.splice steps) ((a.restamp saved files now).splice steps) := by
    refine splice_alike hsame rfl ?_ steps
    intro p q hp hq steps
    cases hp.symm.trans hq
    exact ⟨saved, files, now, rfl⟩
  unfold Engine.expand
  split
  · next hparts => rwa [if_pos (show (a.restamp saved files now).parts.program = true from hparts)]
  · next hparts =>
    rw [if_neg (show ¬(a.restamp saved files now).parts.program = true from hparts)]
    exact ⟨rfl, hsame⟩

theorem openProbe (h : Restamped a b) (probe : Probe) (record : SearchRecord) (saved : String) :
    Alike Restamped (a.openProbe probe record) (b.openProbe probe (record.restamp saved)) := by
  have hset : Restamped { a with record := record.probed probe.mode }
      { b with record := (record.restamp saved).probed probe.mode } := by
    obtain ⟨_, files, now, rfl⟩ := h
    exact ⟨saved, files, now, rfl⟩
  have hnext : (record.restamp saved).next probe.mode = record.next probe.mode := rfl
  obtain ⟨hresult, hexpand⟩ :=
    hset.saveRecord.expand [.mk probe.inputs (.countdown (record.next probe.mode))]
  unfold Engine.openProbe
  rw [hnext]
  rcases ha : Engine.expand _ _ with ⟨f | _, a'⟩ <;>
    rcases hb : Engine.expand (Engine.saveRecord { b with record := _ }) _ with ⟨g | _, b'⟩ <;>
    rw [ha, hb] at hresult hexpand <;> cases hresult
  · exact ⟨rfl, hexpand⟩
  · exact ⟨rfl, hexpand.withProbe _⟩

theorem startSearch (h : Restamped a b) (args : List Arg) (place : Option Place) :
    Alike Restamped (a.startSearch args place) (b.startSearch args place) := by
  obtain ⟨saved, files, now, rfl⟩ := h
  have hrecord : (a.restamp saved files now).record = a.record.restamp saved := rfl
  have hsame : Restamped a (a.restamp saved files now) := ⟨saved, files, now, rfl⟩
  unfold Engine.startSearch
  split
  · exact ⟨rfl, hsame⟩
  · split
    · exact ⟨rfl, hsame⟩
    · next probe _ =>
      rw [hrecord, seedLow_restamp]
      cases seedLow a.record args with
      | error f => exact ⟨rfl, hsame⟩
      | ok low =>
        have hlow : Restamped { a with record := low }
            { a.restamp saved files now with record := low.restamp saved } :=
          ⟨saved, files, now, rfl⟩
        simp only [Except.map, seedHigh_restamp]
        cases seedHigh low args with
        | error f => exact ⟨rfl, hlow⟩
        | ok high => exact hlow.openProbe probe high saved

end Restamped

theorem restamped_agreement : Agreement Restamped fun p q => p = q where
  nowhere := rfl
  inside hpq i := by rw [hpq]
  script := by
    rintro a _ ⟨saved, files, now, rfl⟩
    rfl
  search := by
    rintro a _ ⟨saved, files, now, rfl⟩
    rfl
  messageBox := by
    rintro a _ ⟨saved, files, now, rfl⟩
    rfl
  exhausted := by
    rintro a _ ⟨saved, files, now, rfl⟩
    rfl
  inputs := by
    rintro a _ ⟨saved, files, now, rfl⟩
    rfl
  random := by
    rintro a _ ⟨saved, files, now, rfl⟩
    rfl
  toggle := by
    rintro a _ ⟨saved, files, now, rfl⟩ f
    exact ⟨saved, files, now, rfl⟩
  setRandom := by
    rintro a _ ⟨saved, files, now, rfl⟩ r
    exact ⟨saved, files, now, rfl⟩
  look := by
    rintro a _ ⟨saved, files, now, rfl⟩
    exact look_alike ⟨saved, files, now, rfl⟩ rfl rfl ⟨saved, files, now, rfl⟩
  lookOverlay := by
    rintro a _ ⟨saved, files, now, rfl⟩
    exact lookOverlay_alike ⟨saved, files, now, rfl⟩ rfl rfl rfl rfl ⟨saved, files, now, rfl⟩
      (fun _ => ⟨saved, files, now, rfl⟩) fun _ => ⟨saved, files, now, rfl⟩
  expand := Restamped.expand
  loadScript := by
    rintro a _ ⟨saved, files, now, rfl⟩ entries
    exact ⟨saved, files, now, rfl⟩
  startSearch := by
    rintro a b p _ hab rfl args
    exact hab.startSearch args p
  clearRecord := by
    rintro a _ ⟨saved, files, now, rfl⟩
    exact ⟨now, _, now, rfl⟩

theorem Restamped.evaluate (h : Restamped a b) (c : Condition) (place : Option Place) :
    Turn.Alike Restamped (c.evaluate place a) (c.evaluate place b) :=
  c.evaluate_alike restamped_agreement rfl h

/-! ## The outcome check -/

namespace Restamped

theorem setAt (h : Restamped a b) (place : Place) (c : Condition) :
    Restamped (a.setAt place c) (b.setAt place c) := by
  obtain ⟨saved, files, now, rfl⟩ := h
  unfold Engine.setAt
  split <;> exact ⟨saved, files, now, rfl⟩

theorem keepInPlace (h : Restamped a b) (p : Probe) :
    Restamped (a.keepInPlace p) (b.keepInPlace p) := by
  unfold Engine.keepInPlace
  split
  · exact h
  · exact ((h.setAt _ _).setAt _ _).setAt _ _

theorem judge (h : Restamped a b) (p : Probe) :
    (a.judge p).1 = (b.judge p).1 ∧ (a.judge p).2.1 = (b.judge p).2.1 ∧
      Restamped (a.judge p).2.2 (b.judge p).2.2 := by
  obtain ⟨hlow, hlow', hengine⟩ := h.evaluate p.failLow none
  obtain ⟨hhigh, hhigh', hengine'⟩ := hengine.evaluate p.failHigh none
  obtain ⟨hwithin, hwithin', hengine''⟩ := hengine'.evaluate p.success none
  unfold Engine.judge
  dsimp only
  rw [hlow, hlow']
  split
  · exact ⟨rfl, rfl, hengine⟩
  · split
    · exact ⟨rfl, rfl, hengine⟩
    · rw [hhigh, hhigh']
      split
      · exact ⟨rfl, rfl, hengine'⟩
      · split
        · exact ⟨rfl, rfl, hengine'⟩
        · rw [hwithin, hwithin']
          split
          · exact ⟨rfl, rfl, hengine''⟩
          · exact ⟨rfl, rfl, hengine''⟩

theorem settle (h : Restamped a b) (p : Probe) (judged : Except Fault (Option Outcome)) :
    Alike Restamped (a.settle p judged) (b.settle p judged) := by
  obtain ⟨saved, files, now, rfl⟩ := h
  have hrecord : (a.restamp saved files now).record = a.record.restamp saved := rfl
  unfold Engine.settle
  split
  · exact ⟨rfl, saved, files, now, rfl⟩
  · exact ⟨rfl, saved, files, now, rfl⟩
  · rw [hrecord, SearchRecord.apply_restamp]
    cases a.record.apply p.mode _ with
    | error f => exact ⟨rfl, saved, files, now, rfl⟩
    | ok record => exact ⟨rfl, now, _, now, rfl⟩

theorem classify (h : Restamped a b) : Alike Restamped a.classify b.classify := by
  have hprobe : b.probe = a.probe := by
    obtain ⟨saved, files, now, rfl⟩ := h
    rfl
  cases hp : a.probe with
  | none =>
    rw [classify_of_none hp, classify_of_none (hprobe.trans hp)]
    exact ⟨rfl, h⟩
  | some p =>
    obtain ⟨houtcome, hrest, hjudge⟩ := (h.withProbe none).judge p
    rw [classify_of_probe hp, classify_of_probe (hprobe.trans hp), houtcome, hrest]
    exact (hjudge.keepInPlace _).settle _ _

/-! ## Ticks -/

theorem pace (h : Restamped a b) :
    (∃ x y, a.pace = .inl x ∧ b.pace = .inl y ∧ Alike Restamped x y) ∨
      ∃ a' b', a.pace = .inr a' ∧ b.pace = .inr b' ∧ Restamped a' b' := by
  have hprogram : b.program = a.program := by
    obtain ⟨saved, files, now, rfl⟩ := h
    rfl
  unfold Engine.pace
  rw [hprogram]
  cases a.program with
  | none => exact .inl ⟨_, _, rfl, rfl, rfl, h⟩
  | some p =>
    dsimp only
    cases p.current? with
    | none =>
      obtain ⟨saved, files, now, rfl⟩ := h
      exact .inl ⟨_, _, rfl, rfl, rfl, saved, files, now, rfl⟩
    | some step =>
      have hturn : Turn.Alike Restamped (a.turnAt p step) (b.turnAt p step) := h.evaluate _ _
      have hafter : Restamped (a.afterTurn p step) (b.afterTurn p step) := by
        rw [afterTurn, afterTurn, hturn.rest]
        exact hturn.engine.setAt _ _
      have hleave : ∀ v, Restamped (a.leave p step v) (b.leave p step v) := by
        intro v
        unfold leave
        rw [hturn.rest]
        obtain ⟨saved, files, now, hstamp⟩ := hafter
        rw [hstamp]
        exact ⟨saved, files, now, rfl⟩
      dsimp only
      rw [hturn.outcome]
      cases (b.turnAt p step).outcome with
      | error f => exact .inl ⟨_, _, rfl, rfl, rfl, hafter⟩
      | ok v =>
        cases v with
        | waiting =>
          obtain ⟨saved, files, now, hstamp⟩ := hafter
          refine .inl ⟨_, _, rfl, rfl, rfl, ?_⟩
          rw [hstamp]
          exact ⟨saved, files, now, rfl⟩
        | satisfied | expanded => exact .inr ⟨_, _, rfl, rfl, hleave _⟩

theorem walk : ∀ (budget : Nat) {a b : Engine}, Restamped a b →
    Alike Restamped (a.walk budget) (b.walk budget)
  | 0, _, _, h => ⟨rfl, h⟩
  | budget + 1, a, b, h => by
    rw [walk_succ, walk_succ]
    rcases h.pace with ⟨x, y, ha, hb, hxy⟩ | ⟨a', b', ha, hb, hab⟩
    · rw [ha, hb]
      exact hxy
    · rw [ha, hb]
      exact walk budget hab

/-- Ticks have the same outcome, whatever the time. -/
theorem tickOn (h : Restamped a b) (budget : Nat) (m : Moment) :
    Alike Restamped (a.tickOn budget m) (b.tickOn budget m) := by
  have hmeet : Restamped (a.meet m) (b.meet m) := by
    obtain ⟨saved, files, now, rfl⟩ := h
    exact ⟨saved, files, now, rfl⟩
  have hbegin : Restamped (a.meet m).beginTick (b.meet m).beginTick := by
    obtain ⟨saved, files, now, rfl⟩ := h
    exact ⟨saved, files, now, rfl⟩
  have hfrozen : (b.meet m).isFrozen m.paused = a.isFrozen m.paused := by
    obtain ⟨saved, files, now, rfl⟩ := h
    rfl
  have hoverride : (b.meet m).override = (a.meet m).override := by
    obtain ⟨saved, files, now, rfl⟩ := h
    rfl
  rcases a.tickOn_cases budget m with ⟨hcold, htick⟩ | ⟨hwarm, hactive, htick⟩ |
    ⟨hwarm, hactive, htick⟩
  · rw [htick, Engine.tickOn, tickWith_frozen budget (hfrozen.trans hcold)]
    exact ⟨rfl, hmeet⟩
  · rw [htick, Engine.tickOn, tickWith_override budget (hfrozen.trans hwarm)
      (by rw [hoverride]; exact hactive), hoverride]
    obtain ⟨saved, files, now, rfl⟩ := h
    exact ⟨rfl, saved, files, now, rfl⟩
  · rw [htick, Engine.tickOn, tickWith_play budget (hfrozen.trans hwarm)
      (by rw [hoverride]; exact hactive)]
    obtain ⟨hresult, hclassify⟩ := hbegin.classify
    unfold play
    rcases ha : (a.meet m).beginTick.classify with ⟨f | _ | r, a'⟩ <;>
      rcases hb : (b.meet m).beginTick.classify with ⟨g | _ | s, b'⟩ <;>
      rw [ha, hb] at hresult hclassify <;> cases hresult
    · exact ⟨rfl, hclassify⟩
    · exact hclassify.walk budget
    · exact ⟨rfl, hclassify⟩

end Restamped

end Engine

end TickScript
