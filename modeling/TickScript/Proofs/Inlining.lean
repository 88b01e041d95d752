import TickScript.Proofs.Seams

/-!
# Expansion is inlining

A step whose condition inserts steps and is left at once may be replaced by the steps that
it inserts (`Engine.expansion_is_inlining`). The two programs differ in their lengths and
cursors from then on, whatever else is inserted by other steps.

The branches of a condition depend on the player. Which of them is to be put in place is
settled on the tick on which the walk comes to the step (`Engine.Selects`). Nothing is left
to settle where the player does not matter (`Engine.selects_const`).
-/

namespace TickScript

namespace Engine

variable {A : Prop} {S T : List Step} {a b : Engine} {m : Moment}

/-- The walk on the tick of a moment comes to where these steps remain. -/
def Reaches (e : Engine) (m : Moment) (l : List Step) : Prop :=
  e.isFrozen m.paused = false ∧ (e.meet m).override.isActive = false ∧ e.GoesOn m ∧
    ∃ a, (e.meet m).beginTick.classify.2.Comes a ∧ a.remaining? = some l

/-- If the run comes to where these steps remain, the player on that tick makes the choice. -/
def Selects (budget : Nat) (l : List Step) (choice : Player → List Step) (body : List Step) :
    List Moment → Engine → Prop
  | [], _ => True
  | m :: rest, e =>
    (e.Reaches m l → choice m.player = body) ∧
      (¬e.Reaches m l → Selects budget l choice body rest (e.tickOn budget m).2)

/-- A choice that does not depend on the player is always made. -/
theorem selects_const (budget : Nat) (l body : List Step) : ∀ (ms : List Moment) (e : Engine),
    Selects budget l (fun _ => body) body ms e
  | [], _ => trivial
  | _ :: rest, _ => ⟨fun _ => rfl, fun _ => selects_const budget l body rest _⟩

/-! ## Ticks -/

/-- Engines between two ticks, of which what was seen is of no account. -/
inductive Between (A : Prop) (S T : List Step) (a b : Engine) : Prop
  | headed {cursors : Nat × Nat}
      (h : Abreast (Headed (Joined A S T)) cursors a.beginTick b.beginTick)
  | seam {cursors : Nat × Nat} (hA : A) (h : Abreast (AtSeam S T) cursors a.beginTick b.beginTick)
      (hleft : a.probe = none) (hright : b.probe = none)

section

variable {J : List Step → List Step → Prop} {cursors : Nat × Nat}

theorem Abreast.beginTick (h : Abreast J cursors a b) :
    Abreast J cursors a.beginTick b.beginTick := by
  obtain ⟨hp, hprogram, hprobe, _⟩ := h
  exact .mk hp hprogram hprobe rfl

theorem Abreast.meet (h : Abreast J cursors a b) (m : Moment) :
    Abreast J cursors (a.meet m).beginTick (b.meet m).beginTick := by
  obtain ⟨hp, hprogram, hprobe, _⟩ := h
  exact .mk hp hprogram hprobe rfl

theorem Abreast.overridden (h : Abreast J cursors a b) (i : Inputs) (o : Override) :
    Abreast J cursors ((a.write i).withOverride o).beginTick
      ((b.write i).withOverride o).beginTick := by
  obtain ⟨hp, hprogram, hprobe, _⟩ := h
  exact .mk hp hprogram hprobe rfl

/-- The parts of an engine in which engines abreast agree. -/
structure SameEffects (a b : Engine) : Prop where
  flags : a.flags = b.flags
  random : a.random = b.random
  simulation : a.simulation = b.simulation
  commits : a.commits = b.commits
  override : a.override = b.override
  script : a.script = b.script
  record : a.record = b.record
  files : a.files = b.files

theorem Abreast.sameEffects (h : Abreast J cursors a.beginTick b.beginTick) :
    SameEffects a b := by
  have key : ∀ x y, Abreast J cursors x y → SameEffects x y := by
    intro x _ hab
    obtain ⟨_, _, _, _⟩ := hab
    exact ⟨rfl, rfl, rfl, rfl, rfl, rfl, rfl, rfl⟩
  have hxy := key _ _ h
  exact ⟨hxy.flags, hxy.random, hxy.simulation, hxy.commits, hxy.override, hxy.script, hxy.record,
    hxy.files⟩

end

namespace Between

theorem sameEffects (h : Between A S T a b) : SameEffects a b := by
  cases h with
  | headed h => exact h.sameEffects
  | seam _ h => exact h.sameEffects

theorem meet (h : Between A S T a b) (m : Moment) : Between A S T (a.meet m) (b.meet m) := by
  cases h with
  | headed h => exact .headed (h.meet m)
  | seam hA h hleft hright => exact .seam hA (h.meet m) hleft hright

theorem overridden (h : Between A S T a b) (i : Inputs) (o : Override) :
    Between A S T ((a.beginTick.write i).withOverride o)
      ((b.beginTick.write i).withOverride o) := by
  cases h with
  | headed h => exact .headed (h.overridden i o)
  | seam hA h hleft hright => exact .seam hA (h.overridden i o) hleft hright

/-- The outcome check comes out the same. If it lets the program go on, the walks begin near
each other; otherwise the tick is over. -/
theorem classify (h : Between A S T a b) :
    a.beginTick.classify.1 = b.beginTick.classify.1 ∧
      (a.beginTick.classify.1 ≠ .ok none →
        Between A S T a.beginTick.classify.2 b.beginTick.classify.2) ∧
      (a.beginTick.classify.1 = .ok none →
        Near A S T a.beginTick.classify.2 b.beginTick.classify.2) := by
  cases h with
  | headed h =>
    obtain ⟨hresult, hengine⟩ := (lockstep_abreast (insertable_joined A S T)).classify h
    exact ⟨hresult, fun _ => .headed hengine.beginTick, fun _ => .headed hengine⟩
  | @seam cursors hA h hleft hright =>
    have ha : a.beginTick.probe = none := hleft
    have hb : b.beginTick.probe = none := hright
    have hbehind : Behind cursors a.beginTick b.beginTick := by
      rw [Behind, ha, hb]
      exact .none
    rw [classify_of_none ha, classify_of_none hb]
    exact ⟨rfl, fun hne => absurd rfl hne, fun _ => .seam hA h hbehind⟩

end Between

theorem tickOn_parts (budget : Nat) (e : Engine) (m : Moment) :
    (e.tickOn budget m).2.parts = e.parts := by
  rcases e.tickOn_cases budget m with ⟨_, htick⟩ | ⟨_, _, htick⟩ | ⟨_, _, htick⟩
  · rw [htick]
    rfl
  · rw [htick]
    rfl
  · rw [htick, ((e.meet m).beginTick.play_played budget).parts]
    rfl

/-- The tick of a moment is a walk. -/
structure Walks (e : Engine) (m : Moment) : Prop where
  going : e.isFrozen m.paused = false
  inactive : (e.meet m).override.isActive = false
  goesOn : e.GoesOn m

theorem Walks.tickOn_eq {e : Engine} (h : e.Walks m) (budget : Nat) :
    e.tickOn budget m = (e.meet m).beginTick.classify.2.walk budget :=
  (tickWith_play (e := e.meet m) budget h.going h.inactive).trans (play_of_goesOn h.goesOn budget)

/-- The tick of a moment either is no walk and comes out the same, or both ticks are walks that
begin near each other. -/
theorem Between.tickOn_cases (h : Between A S T a b) (m : Moment) (k n : Nat) :
    (¬a.Walks m ∧ (a.tickOn k m).1 = (b.tickOn n m).1 ∧
      Between A S T (a.tickOn k m).2 (b.tickOn n m).2) ∨
    (a.Walks m ∧ b.Walks m ∧
      Near A S T (a.meet m).beginTick.classify.2 (b.meet m).beginTick.classify.2) := by
  have hmeet := h.meet m
  have hfrozen : b.isFrozen m.paused = a.isFrozen m.paused := by
    rw [isFrozen, isFrozen, h.sameEffects.flags]
  have hoverride : (b.meet m).override = (a.meet m).override := hmeet.sameEffects.override.symm
  rcases a.tickOn_cases k m with ⟨ha, htick⟩ | ⟨ha, hactive, htick⟩ | ⟨ha, hactive, htick⟩
  · have htick' : b.tickOn n m = (.ok ⟨.paused, .none⟩, b.meet m) :=
      tickWith_frozen n (hfrozen.trans ha)
    rw [htick, htick']
    refine Or.inl ⟨fun hwalks => ?_, rfl, hmeet⟩
    rw [hwalks.going] at ha
    cases ha
  · have hactive' : (b.meet m).override.isActive = true := by rw [hoverride, hactive]
    have htick' := tickWith_override (e := b.meet m) n (hfrozen.trans ha) hactive'
    rw [hoverride] at htick'
    rw [htick, tickOn, htick']
    refine Or.inl ⟨fun hwalks => ?_, rfl, hmeet.overridden _ _⟩
    rw [hwalks.inactive] at hactive
    cases hactive
  · have hactive' : (b.meet m).override.isActive = false := by rw [hoverride, hactive]
    have htick' : b.tickOn n m = (b.meet m).beginTick.play n :=
      tickWith_play n (hfrozen.trans ha) hactive'
    obtain ⟨hresult, hstop, hgo⟩ := hmeet.classify
    by_cases hnone : (a.meet m).beginTick.classify.1 = .ok none
    · exact Or.inr ⟨⟨ha, hactive, hnone⟩,
        ⟨hfrozen.trans ha, hactive', hresult.symm.trans hnone⟩, hgo hnone⟩
    · refine Or.inl ⟨fun hwalks => hnone hwalks.goesOn, ?_⟩
      have hengine := hstop hnone
      rw [htick, htick']
      unfold play
      rcases ha : (a.meet m).beginTick.classify with ⟨f | _ | r, a'⟩ <;>
        rcases hb : (b.meet m).beginTick.classify with ⟨g | _ | r', b'⟩ <;>
        rw [ha, hb] at hresult hengine <;> cases hresult
      · exact ⟨rfl, hengine⟩
      · rw [ha] at hnone
        exact absurd rfl hnone
      · exact ⟨rfl, hengine⟩

section

variable {s : Step} {choice : Player → List Step} (hs : s.Inserts choice) {body Q : List Step}
  {k n : Nat}

include hs

/-- A tick comes out the same. The seam is still ahead only if the walk did not come to it. -/
theorem tickOn_between (h : Between A (s :: Q) (body ++ Q) a b) (hparts : a.parts.program = true)
    (hbody : A → a.Reaches m (s :: Q) → choice m.player = body)
    (hfits : Fits 1 k n (a.tickOn k m).1 (b.tickOn n m).1) :
    (a.tickOn k m).1 = (b.tickOn n m).1 ∧
      ∃ B : Prop, (B → A ∧ ¬a.Reaches m (s :: Q)) ∧
        Between B (s :: Q) (body ++ Q) (a.tickOn k m).2 (b.tickOn n m).2 := by
  rcases h.tickOn_cases m k n with ⟨hstill, hresult, hnext⟩ | ⟨hwalks, hwalks', hnear⟩
  · refine ⟨hresult, A, fun hA => ⟨hA, ?_⟩, hnext⟩
    rintro ⟨hgoing, hinactive, hgoes, -⟩
    exact hstill ⟨hgoing, hinactive, hgoes⟩
  · have hclassify := (a.meet m).beginTick.classify_untouched
    have hview : (a.meet m).beginTick.classify.2.view = m.player := hclassify.view
    have hparts' : (a.meet m).beginTick.classify.2.parts.program = true := by
      rw [hclassify.parts]
      exact hparts
    rw [hwalks.tickOn_eq, hwalks'.tickOn_eq] at hfits ⊢
    obtain ⟨houtcome, B, hB, _, hengine⟩ := walk_near hs n k hnear hparts'
      (fun hA a' hcomes hremaining => by
        rw [hview]
        exact hbody hA
          ⟨hwalks.going, hwalks.inactive, hwalks.goesOn, a', hcomes, hremaining⟩) hfits
    refine ⟨houtcome, B, fun hBtrue => ⟨(hB hBtrue).1, ?_⟩, .headed hengine.beginTick⟩
    rintro ⟨_, _, _, a', hcomes, hremaining⟩
    exact (hB hBtrue).2 a' hcomes hremaining

end

/-! ## Runs -/

section

variable {s : Step} {choice : Player → List Step} (hs : s.condition.Inlines choice)
  {body Q : List Step} {k n : Nat}

include hs

/-- Runs come out the same. -/
theorem run_between : ∀ (ms : List Moment) {A : Prop} {a b : Engine},
    Between A (s :: Q) (body ++ Q) a b → a.parts.program = true →
    (A → a.Selects k (s :: Q) choice body ms) →
    ((k = n ∧ ∀ r ∈ (a.run k ms).1, r ≠ .error .overrun) ∨
      (k = n + 1 ∧ ∀ r ∈ (b.run n ms).1, r ≠ .error .overrun)) →
    (a.run k ms).1 = (b.run n ms).1 ∧
      ∃ B : Prop, Between B (s :: Q) (body ++ Q) (a.run k ms).2 (b.run n ms).2
  | [], A, a, b, h, _, _, _ => ⟨rfl, A, h⟩
  | m :: rest, A, a, b, h, hparts, hselects, hends => by
    rw [run_cons, run_cons] at hends ⊢
    have hfits : Fits 1 k n (a.tickOn k m).1 (b.tickOn n m).1 := by
      rcases hends with ⟨hkn, hends⟩ | ⟨hkn, hends⟩
      · exact Or.inl ⟨Nat.le_of_eq hkn, hends _ List.mem_cons_self⟩
      · exact Or.inr ⟨Nat.le_of_eq hkn.symm, hends _ List.mem_cons_self⟩
    obtain ⟨hresult, B, hB, hnext⟩ :=
      tickOn_between hs.inserts h hparts (fun hA => (hselects hA).1) hfits
    have hparts' : (a.tickOn k m).2.parts.program = true := by
      rw [tickOn_parts, hparts]
    obtain ⟨hresults, hengine⟩ := run_between rest hnext hparts'
      (fun hBtrue => (hselects (hB hBtrue).1).2 (hB hBtrue).2) (by
        rcases hends with ⟨hkn, hends⟩ | ⟨hkn, hends⟩
        · exact Or.inl ⟨hkn, fun r hr => hends r (List.mem_cons_of_mem _ hr)⟩
        · exact Or.inr ⟨hkn, fun r hr => hends r (List.mem_cons_of_mem _ hr)⟩)
    exact ⟨List.cons_eq_cons.mpr ⟨hresult, hresults⟩, hengine⟩

end

/-! ## The statement -/

theorem forgetSteps_alike (e : Engine) (cursors : Nat × Nat) :
    Option.Rel (Probe.Alike (Place.Abreast cursors)) e.forgetSteps.probe e.forgetSteps.probe := by
  unfold forgetSteps
  dsimp only
  cases e.probe with
  | none => exact .none
  | some p =>
    refine .some ⟨rfl, rfl, rfl, rfl, rfl, ?_⟩
    obtain ⟨inputs, mode, failLow, failHigh, success, origin⟩ := p
    rcases origin with _ | ⟨_ | _, path⟩
    · exact .none
    · exact .none
    · exact .some ⟨trivial, rfl⟩

theorem load_abreast {J : List Step → List Step → Prop} (e : Engine) {xs ys : List Step}
    (h : J xs ys) :
    Abreast J (0, 0) (e.load (some xs)).beginTick (e.load (some ys)).beginTick :=
  .mk rfl ⟨rfl, rfl, Nat.zero_le _, Nat.zero_le _, h⟩ (e.forgetSteps_alike (0, 0)) rfl

theorem forgetSteps_probe_of_none {e : Engine} (h : e.probe = none) :
    e.forgetSteps.probe = none := by
  unfold forgetSteps
  dsimp only
  rw [h]
  rfl

theorem load_between_of (hA : A) (e : Engine) (P : List Step) (hprobe : P = [] → e.probe = none) :
    Between A S T (e.load (some (P ++ S))) (e.load (some (P ++ T))) := by
  cases P with
  | nil =>
    have hnone : e.forgetSteps.probe = none := forgetSteps_probe_of_none (hprobe rfl)
    exact .seam hA (e.load_abreast ⟨rfl, rfl⟩) hnone hnone
  | cons s P => exact .headed (e.load_abreast (.cons s (Or.inr ⟨hA, P, rfl, rfl⟩)))

theorem load_between (e : Engine) (P : List Step) (hprobe : P = [] → e.probe = none) :
    Between True S T (e.load (some (P ++ S))) (e.load (some (P ++ T))) :=
  load_between_of trivial e P hprobe

/-- Expansion is inlining. A program with a step that inserts steps and is left at once, and
the program that has these steps in place of it, have the same outcomes and errors on every
tick and leave the same behind, whatever pauses, overrides and players the ticks bring
along, as long as the walks of one of the programs end. The first program may need one step
of a walk more. -/
theorem expansion_is_inlining {s : Step} {choice : Player → List Step}
    (hs : s.condition.Inlines choice) (P Q body : List Step) (e : Engine)
    (hparts : e.parts.program = true) (hprobe : P = [] → e.probe = none) (budget : Nat)
    (ms : List Moment) :
    (Selects budget (s :: Q) choice body ms (e.load (some (P ++ s :: Q))) →
      (∀ r ∈ ((e.load (some (P ++ s :: Q))).run budget ms).1, r ≠ .error .overrun) →
        ((e.load (some (P ++ s :: Q))).run budget ms).1 =
            ((e.load (some (P ++ (body ++ Q)))).run budget ms).1 ∧
          SameEffects ((e.load (some (P ++ s :: Q))).run budget ms).2
            ((e.load (some (P ++ (body ++ Q)))).run budget ms).2) ∧
    (Selects (budget + 1) (s :: Q) choice body ms (e.load (some (P ++ s :: Q))) →
      (∀ r ∈ ((e.load (some (P ++ (body ++ Q)))).run budget ms).1, r ≠ .error .overrun) →
        ((e.load (some (P ++ s :: Q))).run (budget + 1) ms).1 =
            ((e.load (some (P ++ (body ++ Q)))).run budget ms).1 ∧
          SameEffects ((e.load (some (P ++ s :: Q))).run (budget + 1) ms).2
            ((e.load (some (P ++ (body ++ Q)))).run budget ms).2) := by
  have hstart := e.load_between P hprobe (S := s :: Q) (T := body ++ Q)
  refine ⟨?_, ?_⟩
  · intro hselects hends
    obtain ⟨hresults, _, hend⟩ :=
      run_between hs ms hstart hparts (fun _ => hselects) (Or.inl ⟨rfl, hends⟩)
    exact ⟨hresults, hend.sameEffects⟩
  · intro hselects hends
    obtain ⟨hresults, _, hend⟩ :=
      run_between hs ms hstart hparts (fun _ => hselects) (Or.inr ⟨rfl, hends⟩)
    exact ⟨hresults, hend.sameEffects⟩

/-- A step that inserts another one on the ground, behind a step that is left at once. -/
theorem expansion_is_inlining_on_ground :
    (((default : Engine).load (some ([.mk .none (.countdown 0)] ++
        .mk .none (.call (Builtin.expand .onlyIf).name
          [.condition (.call (Builtin.check .onGround).name []),
            .steps [.mk (.ofKeys .directions) (.countdown 1)]]) :: []))).run 4
        [{ player := { onGround := true } }]).1 =
      (((default : Engine).load (some ([.mk .none (.countdown 0)] ++
        ([.mk (.ofKeys .directions) (.countdown 1)] ++ [])))).run 4
        [{ player := { onGround := true } }]).1 := by
  have hs : (Step.mk .none (.call (Builtin.expand .onlyIf).name
      [.condition (.call (Builtin.check .onGround).name []),
        .steps [.mk (.ofKeys .directions) (.countdown 1)]])).condition.Inlines _ :=
    .onlyIf (Check.onGround.glances nofun []) _ []
  refine ((expansion_is_inlining hs [.mk .none (.countdown 0)] []
    [.mk (.ofKeys .directions) (.countdown 1)] default rfl (fun h => nomatch h) 4
    [{ player := { onGround := true } }]).1 ⟨fun _ => rfl, fun _ => trivial⟩ ?_).1
  intro r hr
  have hrun : (((default : Engine).load (some ([.mk .none (.countdown 0)] ++
      .mk .none (.call (Builtin.expand .onlyIf).name
        [.condition (.call (Builtin.check .onGround).name []),
          .steps [.mk (.ofKeys .directions) (.countdown 1)]]) :: []))).run 4
      [{ player := { onGround := true } }]).1 = [.ok ⟨.committed, .ofKeys .directions⟩] := rfl
  rw [hrun, List.mem_singleton] at hr
  rw [hr]
  exact nofun

end Engine

end TickScript
