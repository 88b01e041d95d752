import TickScript.Proofs.Lockstep
import TickScript.Proofs.Runs

/-!
# Pauses and overrides are transparent

A paused tick and a tick under an override do not reach the program. This file makes the
statement precise in three parts, which `Engine.pauses_and_overrides_transparent` puts
together:

* `Engine.tickOn_law`: what one tick writes, and what a paused or an overridden tick leaves;
* `Engine.thawed_override`: how many ticks an override lasts;
* `Engine.run_twin`: a run has the outcomes, and leaves the program, of the run in which
  all other ticks are left out.

The two runs of the last part are in lockstep as long as the program plays
(`Engine.walking_dressed`). What they may differ in is the override, the keys that were
written, and what was seen on ticks that are over.
-/

namespace TickScript

/-- What is left of a moment when nothing interferes with the program. -/
def Moment.bare (m : Moment) : Moment := { m with paused := false, overrides := [] }

namespace Engine

/-- The results of a run that belong to the program, each with its moment. -/
def played (budget : Nat) (ms : List Moment) (e : Engine) :
    List (Except Fault TickOutcome × Moment) :=
  ((e.run budget ms).1.zip ms).filter fun t => isPlayed t.1

/-- The results of a run on the ticks that do not count as paused. -/
def thawed (budget : Nat) (ms : List Moment) (e : Engine) : List (Except Fault TickOutcome) :=
  (e.run budget ms).1.filter fun result => kindOf result ≠ some .paused

/-! ## One tick -/

/-- What holds of each tick, as far as pauses, overrides and written keys go. -/
structure TickLaw (budget : Nat) (e : Engine) (m : Moment) : Prop where
  written : (e.tickOn budget m).2.simulation.written =
    e.simulation.written ++ writesOf (e.tickOn budget m).1
  paused_iff : kindOf (e.tickOn budget m).1 = some .paused ↔ e.isFrozen m.paused = true
  overridden_iff : kindOf (e.tickOn budget m).1 = some .overridden ↔
    e.isFrozen m.paused = false ∧ (e.meet m).override.isActive = true
  paused : kindOf (e.tickOn budget m).1 = some .paused →
    e.tickOn budget m = (.ok ⟨.paused, .none⟩, e.meet m)
  overridden : kindOf (e.tickOn budget m).1 = some .overridden →
    e.tickOn budget m =
      (.ok ⟨.overridden, (e.meet m).override.content⟩,
        ((e.meet m).beginTick.write (e.meet m).override.content).withOverride
          (e.meet m).override.tick.2)

theorem tickOn_law (budget : Nat) (e : Engine) (m : Moment) : TickLaw budget e m := by
  have hfreezes : kindOf (e.tickOn budget m).1 = some .paused ↔ e.isFrozen m.paused = true :=
    tickWith_paused_iff budget (e.meet m) m.paused
  rcases e.tickOn_cases budget m with ⟨hfrozen, htick⟩ | ⟨hfrozen, hactive, htick⟩ |
    ⟨hfrozen, hactive, htick⟩
  · have hkind : kindOf (e.tickOn budget m).1 = some .paused := hfreezes.mpr hfrozen
    refine ⟨?_, hfreezes, ?_, fun _ => htick, ?_⟩
    · rw [htick]
      exact (List.append_nil _).symm
    · rw [hkind, hfrozen]
      simp
    · intro hoverridden
      rw [hkind] at hoverridden
      cases hoverridden
  · have hkind : kindOf (e.tickOn budget m).1 = some .overridden := by rw [htick]; rfl
    refine ⟨?_, hfreezes, ?_, ?_, fun _ => htick⟩
    · rw [htick]
      rfl
    · exact iff_of_true hkind ⟨hfrozen, hactive⟩
    · intro hpaused
      rw [hkind] at hpaused
      cases hpaused
  · have hplayed := (e.meet m).beginTick.play_played budget
    rw [← htick] at hplayed
    obtain ⟨hpaused, hoverridden⟩ := kindOf_of_isPlayed hplayed.isPlayed
    refine ⟨hplayed.written, hfreezes, ?_, fun h => absurd h hpaused,
      fun h => absurd h hoverridden⟩
    rw [hactive]
    exact iff_of_false hoverridden fun h => Bool.false_ne_true h.2

/-! ## The time of an override -/

theorem thawed_cons (budget : Nat) (m : Moment) (rest : List Moment) (e : Engine) :
    e.thawed budget (m :: rest) =
      if kindOf (e.tickOn budget m).1 = some .paused then (e.tickOn budget m).2.thawed budget rest
      else (e.tickOn budget m).1 :: (e.tickOn budget m).2.thawed budget rest := by
  unfold thawed
  rw [run_cons]
  by_cases hpaused : kindOf (e.tickOn budget m).1 = some .paused
  · rw [if_pos hpaused, List.filter_cons_of_neg (by simp [hpaused])]
  · rw [if_neg hpaused, List.filter_cons_of_pos (by simp [hpaused])]

/-- An override that is left alone lasts for its ticks, pauses not counted. -/
theorem thawed_override (budget : Nat) : ∀ (ms : List Moment) (e : Engine),
    (∀ m ∈ ms, m.overrides = []) →
      (e.thawed budget ms).take e.override.remaining.toNat =
          List.replicate (min e.override.remaining.toNat (e.thawed budget ms).length)
            (.ok ⟨.overridden, e.override.content⟩) ∧
        ∀ result ∈ (e.thawed budget ms).drop e.override.remaining.toNat,
          kindOf result ≠ some .overridden
  | [], e, _ => ⟨by simp [thawed, run], by simp [thawed, run]⟩
  | m :: rest, e, hms => by
    have hm := meet_override (hms m List.mem_cons_self) e
    have ih := thawed_override budget rest (e.tickOn budget m).2
      fun n hn => hms n (List.mem_cons_of_mem m hn)
    rw [thawed_cons]
    rcases e.tickOn_cases budget m with ⟨_, htick⟩ | ⟨_, hactive, htick⟩ | ⟨_, hactive, htick⟩
    · have hoverride : (e.tickOn budget m).2.override = e.override := by rw [htick, hm]
      rw [hoverride] at ih
      rw [if_pos (by rw [htick]; rfl)]
      exact ih
    · rw [hm] at hactive htick
      have hremaining : 0 < e.override.remaining := of_decide_eq_true hactive
      have hoverride : (e.tickOn budget m).2.override = e.override.tick.2 := by rw [htick]; rfl
      have hresult : (e.tickOn budget m).1 = .ok ⟨.overridden, e.override.content⟩ := by rw [htick]
      rw [hoverride] at ih
      rw [hresult, if_neg (by simp [kindOf])]
      generalize (e.tickOn budget m).2.thawed budget rest = results at ih ⊢
      by_cases hlast : e.override.remaining ≤ 1
      · -- The last tick of the override clears it.
        have hone : e.override.remaining.toNat = 1 := by omega
        have hcleared : e.override.tick.2 = .cleared := if_pos hlast
        rw [hcleared] at ih
        rw [hone]
        refine ⟨?_, ?_⟩
        · rw [List.length_cons, Nat.min_eq_left (by omega)]
          rfl
        · exact ih.2
      · have hnext : e.override.tick.2 = ⟨e.override.content, e.override.remaining - 1⟩ :=
          if_neg hlast
        have hsucc : e.override.remaining.toNat = (e.override.remaining - 1).toNat + 1 := by omega
        rw [hnext] at ih
        rw [hsucc]
        refine ⟨?_, ih.2⟩
        rw [List.take_succ_cons, ih.1, List.length_cons, Nat.succ_min_succ, List.replicate_succ]
    · rw [hm] at hactive
      have hzero : e.override.remaining.toNat = 0 := by
        have hinactive : ¬0 < e.override.remaining := of_decide_eq_false hactive
        omega
      have hplayed := (e.meet m).beginTick.play_played budget
      rw [← htick] at hplayed
      have hoverride : (e.tickOn budget m).2.override = e.override := by
        rw [hplayed.override]
        exact hm
      rw [hoverride, hzero] at ih
      obtain ⟨hpaused, hoverridden⟩ := kindOf_of_isPlayed hplayed.isPlayed
      rw [hzero, if_neg hpaused]
      refine ⟨by simp, ?_⟩
      intro result hresult
      rcases List.mem_cons.mp hresult with rfl | hrest
      · exact hoverridden
      · exact ih.2 result hrest

/-! ## The rest of the ticks -/

/-- The engine with another override, another log and other written keys. -/
def dressed (e : Engine) (o : Override) (log : List Event) (written : List Inputs)
    (current : Inputs) : Engine :=
  { e with override := o, log, simulation := { e.simulation with written, current } }

/-- The second engine is the first one up to what is out of the program's reach. -/
def Dressed (_ : Unit) (a b : Engine) : Prop :=
  ∃ o log written current, b = a.dressed o log written current

/-- Engines that are dressed differently play in lockstep. -/
theorem walking_dressed : Lockstep.Walking Dressed (fun _ => (· = ·)) (fun _ => (· = ·)) where
  inside h n := by rw [h]
  origin h := h
  originInside h n := by rw [h]
  parts := by
    intro _ a _ hab
    obtain ⟨o, log, w, c, rfl⟩ := hab
    rfl
  messageBox := by
    intro _ a _ hab
    obtain ⟨o, log, w, c, rfl⟩ := hab
    rfl
  program := by
    intro _ a _ hab
    obtain ⟨o, log, w, c, rfl⟩ := hab
    have hprogram : (a.dressed o log w c).program = a.program := rfl
    rw [hprogram]
    cases a.program with
    | none => exact .none
    | some p => exact .some ⟨rfl, rfl⟩
  random := by
    intro _ a _ hab
    obtain ⟨o, log, w, c, rfl⟩ := hab
    rfl
  record := by
    intro _ a _ hab
    obtain ⟨o, log, w, c, rfl⟩ := hab
    rfl
  now := by
    intro _ a _ hab
    obtain ⟨o, log, w, c, rfl⟩ := hab
    rfl
  probe := by
    intro _ a _ hab
    obtain ⟨o, log, w, c, rfl⟩ := hab
    exact probe_alike_refl a.probe
  toggle := by
    intro _ a _ hab f
    obtain ⟨o, log, w, c, rfl⟩ := hab
    exact ⟨o, log, w, c, rfl⟩
  setRandom := by
    intro _ a _ hab r
    obtain ⟨o, log, w, c, rfl⟩ := hab
    exact ⟨o, log, w, c, rfl⟩
  look := by
    intro _ a _ hab
    obtain ⟨o, log, w, c, rfl⟩ := hab
    exact look_alike ⟨o, log, w, c, rfl⟩ rfl rfl ⟨o, log, w, c, rfl⟩
  lookOverlay := by
    intro _ a _ hab
    obtain ⟨o, log, w, c, rfl⟩ := hab
    exact lookOverlay_alike ⟨o, log, w, c, rfl⟩ rfl rfl rfl rfl ⟨o, log, w, c, rfl⟩
      (fun _ => ⟨o, log, w, c, rfl⟩) fun _ => ⟨o, log, w, c, rfl⟩
  splice := by
    intro _ a _ hab steps
    obtain ⟨o, log, w, c, rfl⟩ := hab
    refine splice_alike (R := Dressed ()) ⟨o, log, w, c, rfl⟩ rfl ?_ steps
    intro p q hp hq _
    have hpq : p = q := Option.some.inj (hp.symm.trans hq)
    rw [hpq]
    exact ⟨o, log, w, c, rfl⟩
  loadScript := by
    intro _ a _ hab entries
    obtain ⟨o, log, w, c, rfl⟩ := hab
    exact ⟨o, _, w, c, rfl⟩
  setRecord := by
    intro _ a _ hab r
    obtain ⟨o, log, w, c, rfl⟩ := hab
    exact ⟨o, log, w, c, rfl⟩
  saveRecord := by
    intro _ a _ hab
    obtain ⟨o, log, w, c, rfl⟩ := hab
    exact ⟨o, log, w, c, rfl⟩
  setProbe := by
    intro _ a _ hab p q hpq
    obtain ⟨o, log, w, c, rfl⟩ := hab
    rw [eq_of_probe_alike hpq]
    exact ⟨o, log, w, c, rfl⟩
  setAt := by
    rintro _ a _ ⟨o, log, w, c, rfl⟩ x _ rfl condition
    obtain ⟨root, path⟩ := x
    cases root with
    | step index => exact ⟨o, log, w, c, rfl⟩
    | watch name => exact ⟨o, log, w, c, rfl⟩
  endRun := by
    intro _ a _ hab report
    obtain ⟨o, log, w, c, rfl⟩ := hab
    exact ⟨o, log, w, c, rfl⟩
  write := by
    intro _ a _ hab i
    obtain ⟨o, log, w, c, rfl⟩ := hab
    exact ⟨o, log, _, i, rfl⟩
  commit := by
    intro _ a _ hab i
    obtain ⟨o, log, w, c, rfl⟩ := hab
    exact ⟨o, log, _, i, rfl⟩
  leave := by
    intro _ a _ hab _ x y
    obtain ⟨o, log, w, c, rfl⟩ := hab
    exact ⟨(), o, _, w, c, rfl⟩

/-- Between two ticks, the second engine may also have seen something else. -/
def Twin (a b : Engine) : Prop :=
  ∃ o log w c player overlay messageBox seen overlaySeen,
    b = { a.dressed o log w c with
      messageBox, seen, overlaySeen
      simulation := { (a.dressed o log w c).simulation with player, overlay } }

theorem Dressed.twin {a b : Engine} (h : Dressed () a b) : Twin a b := by
  obtain ⟨o, log, w, c, rfl⟩ := h
  exact ⟨o, log, w, c, _, _, _, _, _, rfl⟩

/-- Whatever was seen before, it is forgotten when the next tick begins. -/
theorem Twin.meet {a b : Engine} (h : Twin a b) (m : Moment) :
    Dressed () (a.meet m).beginTick (b.meet m.bare).beginTick := by
  obtain ⟨o, log, w, c, player, overlay, messageBox, seen, overlaySeen, rfl⟩ := h
  exact ⟨o, log, w, c, rfl⟩

/-- What a tick shows and what is written on it makes no difference later. -/
theorem Twin.frozen {a b : Engine} (h : Twin a b) (m : Moment) : Twin (a.meet m) b := by
  obtain ⟨o, log, w, c, player, overlay, messageBox, seen, overlaySeen, rfl⟩ := h
  exact ⟨o, log, w, c, player, overlay, messageBox, seen, overlaySeen, rfl⟩

theorem Twin.overridden {a b : Engine} (h : Twin a b) (i : Inputs) (o' : Override) :
    Twin ((a.beginTick.write i).withOverride o') b := by
  obtain ⟨o, log, w, c, player, overlay, messageBox, seen, overlaySeen, rfl⟩ := h
  exact ⟨o, log, w, c, player, overlay, messageBox, seen, overlaySeen, rfl⟩

theorem played_cons (budget : Nat) (m : Moment) (rest : List Moment) (e : Engine) :
    e.played budget (m :: rest) =
      if isPlayed (e.tickOn budget m).1 = true then
        ((e.tickOn budget m).1, m) :: (e.tickOn budget m).2.played budget rest
      else (e.tickOn budget m).2.played budget rest := by
  unfold played
  rw [run_cons, List.zip_cons_cons]
  by_cases hplayed : isPlayed (e.tickOn budget m).1 = true
  · rw [if_pos hplayed, List.filter_cons, if_pos hplayed]
  · rw [if_neg hplayed, List.filter_cons, if_neg hplayed]

/-- The run with the other ticks left out has the same outcomes, and ends alike. -/
theorem run_twin (budget : Nat) : ∀ (ms : List Moment) {a b : Engine}, Twin a b →
    b.override.isActive = false →
      (b.run budget ((a.played budget ms).map fun t => t.2.bare)).1 =
          (a.played budget ms).map Prod.fst ∧
        Twin (a.run budget ms).2 (b.run budget ((a.played budget ms).map fun t => t.2.bare)).2
  | [], a, b, hab, _ => ⟨rfl, hab⟩
  | m :: rest, a, b, hab, hb => by
    rw [played_cons, run_cons]
    rcases a.tickOn_cases budget m with ⟨_, htick⟩ | ⟨_, _, htick⟩ | ⟨hfrozen, hactive, htick⟩
    · have hpaused : ¬isPlayed (a.tickOn budget m).1 = true := by
        rw [htick]
        exact Bool.false_ne_true
      have htwin : Twin (a.tickOn budget m).2 b := by
        rw [htick]
        exact hab.frozen m
      rw [if_neg hpaused]
      exact run_twin budget rest htwin hb
    · have hoverridden : ¬isPlayed (a.tickOn budget m).1 = true := by
        rw [htick]
        exact Bool.false_ne_true
      have htwin : Twin (a.tickOn budget m).2 b := by
        rw [htick]
        exact (hab.frozen m).overridden _ _
      rw [if_neg hoverridden]
      exact run_twin budget rest htwin hb
    · have hplayed : isPlayed (a.tickOn budget m).1 = true := by
        rw [htick]
        exact (play_played budget _).isPlayed
      have htick' : b.tickOn budget m.bare = (b.meet m.bare).beginTick.play budget :=
        tickWith_play budget rfl hb
      obtain ⟨hresult, _, hdressed⟩ := walking_dressed.play budget (hab.meet m)
      rw [← htick, ← htick'] at hresult hdressed
      have hinactive : (b.tickOn budget m.bare).2.override.isActive = false := by
        rw [htick', (play_played budget _).override]
        exact hb
      obtain ⟨hrest, htwin⟩ := run_twin budget rest hdressed.twin hinactive
      rw [if_pos hplayed, List.map_cons, List.map_cons, run_cons]
      exact ⟨List.cons_eq_cons.mpr ⟨hresult.symm, hrest⟩, htwin⟩

/-! ## The statement -/

/-- Two engines have come equally far with the same program. -/
structure SameProgress (a b : Engine) : Prop where
  program : a.program = b.program
  commits : a.commits = b.commits
  flags : a.flags = b.flags
  random : a.random = b.random
  record : a.record = b.record
  probe : a.probe = b.probe
  script : a.script = b.script
  files : a.files = b.files
  reports : a.simulation.reports = b.simulation.reports

theorem Twin.sameProgress {a b : Engine} (h : Twin a b) : SameProgress a b := by
  obtain ⟨o, log, w, c, player, overlay, messageBox, seen, overlaySeen, rfl⟩ := h
  exact ⟨rfl, rfl, rfl, rfl, rfl, rfl, rfl, rfl, rfl⟩

/-- The override that was set last is the one that counts. -/
theorem meet_of_last {m : Moment} {earlier : List Override} {o : Override}
    (h : m.overrides = earlier ++ [o]) (e : Engine) :
    e.meet m = (e.withOverride o).meet { m with overrides := [] } := by
  unfold meet
  rw [h, List.foldl_append]
  rfl

theorem thawed_of_last (budget : Nat) {m : Moment} {earlier : List Override} {o : Override}
    (h : m.overrides = earlier ++ [o]) (rest : List Moment) (e : Engine) :
    e.thawed budget (m :: rest) =
      (e.withOverride o).thawed budget ({ m with overrides := [] } :: rest) := by
  have htick : e.tickOn budget m =
      (e.withOverride o).tickOn budget { m with overrides := [] } := by
    unfold tickOn
    rw [meet_of_last h]
  rw [thawed_cons, thawed_cons, htick]

/-- Pauses and overrides are transparent to the program. Each tick writes the keys of its
outcome; a paused tick changes nothing, and a tick under an override changes the override
only. An override that was set for `d` ticks and not replaced takes the next `d` ticks that
are not paused. The other ticks, and the program that is left, are those of a run in which
only these other ticks take place, without overrides and pauses. -/
theorem pauses_and_overrides_transparent (budget : Nat) :
    (∀ (e : Engine) (m : Moment), TickLaw budget e m) ∧
    (∀ (e : Engine) (m : Moment) (rest : List Moment) (earlier : List Override)
      (content : Inputs) (d : Int), m.overrides = earlier ++ [⟨content, d⟩] →
      (∀ n ∈ rest, n.overrides = []) →
        (e.thawed budget (m :: rest)).take d.toNat =
            List.replicate (min d.toNat (e.thawed budget (m :: rest)).length)
              (.ok ⟨.overridden, content⟩) ∧
          ∀ result ∈ (e.thawed budget (m :: rest)).drop d.toNat,
            kindOf result ≠ some .overridden) ∧
    (∀ (e : Engine) (ms : List Moment),
      ((e.withOverride .cleared).run budget ((e.played budget ms).map fun t => t.2.bare)).1 =
          (e.played budget ms).map Prod.fst ∧
        SameProgress (e.run budget ms).2
          ((e.withOverride .cleared).run budget
            ((e.played budget ms).map fun t => t.2.bare)).2) := by
  refine ⟨tickOn_law budget, ?_, ?_⟩
  · intro e m rest earlier content d hlast hrest
    rw [thawed_of_last budget hlast]
    apply thawed_override budget ({ m with overrides := [] } :: rest)
      (e.withOverride ⟨content, d⟩)
    intro n hn
    rcases List.mem_cons.mp hn with rfl | hn
    · rfl
    · exact hrest n hn
  · intro e ms
    have hdressed : Dressed () e (e.withOverride .cleared) :=
      ⟨.cleared, e.log, e.simulation.written, e.simulation.current, rfl⟩
    obtain ⟨hresults, hend⟩ := run_twin budget ms hdressed.twin rfl
    exact ⟨hresults, hend.sameProgress⟩

/-- An override for two ticks, set in place of another one, and a pause between them. -/
theorem pauses_and_overrides_transparent_twice :
    ((default : Engine).thawed 1
        [{ player := default, overrides := [⟨.none, 7⟩, ⟨.ofKeys .directions, 2⟩] },
          { player := default, paused := true }, { player := default }]).take (2 : Int).toNat =
      List.replicate
        (min (2 : Int).toNat ((default : Engine).thawed 1
          [{ player := default, overrides := [⟨.none, 7⟩, ⟨.ofKeys .directions, 2⟩] },
            { player := default, paused := true }, { player := default }]).length)
        (.ok ⟨.overridden, .ofKeys .directions⟩) :=
  ((pauses_and_overrides_transparent 1).2.1 default _ _ [⟨.none, 7⟩] (.ofKeys .directions) 2
    rfl (by simp)).1

end Engine

end TickScript
