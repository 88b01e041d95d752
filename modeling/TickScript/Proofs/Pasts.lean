import TickScript.Proofs.Lockstep

/-!
# Engines with different pasts

What an engine once told its simulation is never looked at again, and neither are its log, the
number of its commits and the conditions that are watched by name. So two engines that differ in
these play alike, and tell their simulations the same things from then on (`Engine.Aside`,
`Engine.walking_aside`).

Between two ticks, engines may also differ in what they see: it is forgotten when the next tick
begins (`Engine.Apart`). If both are shown the same, they have the same tick
(`Engine.Alongside.tickWith`).
-/

namespace TickScript

/-! ## What a simulation is told -/

/-- What a simulation is told: the keys that are written, the ends of runs, and how often the
overlay is opened. -/
structure Told where
  written : List Inputs := []
  reports : List Report := []
  overlayLoads : Nat := 0

namespace Told

/-- First the one, and then the other. -/
def append (x y : Told) : Told :=
  ⟨x.written ++ y.written, x.reports ++ y.reports, x.overlayLoads + y.overlayLoads⟩

instance : Append Told := ⟨append⟩

theorem append_def (x y : Told) : x ++ y =
    ⟨x.written ++ y.written, x.reports ++ y.reports, x.overlayLoads + y.overlayLoads⟩ := rfl

theorem append_assoc (x y z : Told) : x ++ y ++ z = x ++ (y ++ z) := by
  simp only [append_def, List.append_assoc, Nat.add_assoc]

theorem append_nothing (x : Told) : x ++ ({} : Told) = x := by
  simp only [append_def, List.append_nil, Nat.add_zero]

end Told

namespace Simulation

def told (s : Simulation) : Told := ⟨s.written, s.reports, s.overlayLoads⟩

/-- The simulation, had it been told something else. -/
def retold (s : Simulation) (t : Told) : Simulation :=
  { s with written := t.written, reports := t.reports, overlayLoads := t.overlayLoads }

/-- The simulation without what it was told. -/
def shown (s : Simulation) : Simulation := s.retold {}

theorem retold_of_shown {s t : Simulation} (h : t.shown = s.shown) : t = s.retold t.told :=
  congrArg (·.retold t.told) h

/-- A change that tells the simulation some news, and does not depend on what it was told. -/
def Tells (f : Simulation → Simulation) (news : Told) : Prop :=
  ∀ s t, f (s.retold t) = (f s).retold (t ++ news)

theorem tells_write (i : Inputs) : Tells (·.write i) ⟨[i], [], 0⟩ := by
  intro s t
  simp only [Told.append_def, List.append_nil, Nat.add_zero]
  rfl

theorem tells_endRun (r : Report) : Tells (·.endRun r) ⟨[], [r], 0⟩ := by
  intro s t
  simp only [Told.append_def, List.append_nil, Nat.add_zero]
  rfl

theorem tells_overlay :
    Tells (fun s => { s with overlayLoads := s.overlayLoads + 1 }) ⟨[], [], 1⟩ := by
  intro s t
  simp only [Told.append_def, List.append_nil]
  rfl

theorem Tells.told {f : Simulation → Simulation} {news : Told} (h : Tells f news)
    (s : Simulation) : (f s).told = s.told ++ news :=
  congrArg Simulation.told (h s s.told)

end Simulation

namespace Engine

variable {x y : Told} {a b : Engine}

/-! ## While a tick goes on -/

/-- Two engines that were told the same news since they had told `x` and `y`, and that differ in
nothing else that matters. -/
inductive Aside (x y : Told) (a : Engine) : Engine → Prop
  | mk {new : Told} {log : List Event} {commits : Nat} {watches : List (String × Condition)}
      (h : a.simulation.told = x ++ new) :
      Aside x y a
        { a with simulation := a.simulation.retold (y ++ new), log, commits, watches }

/-- Both simulations are told the same. -/
theorem Aside.tell (hab : Aside x y a b) {f : Simulation → Simulation} {news : Told}
    (hf : Simulation.Tells f news) :
    Aside x y { a with simulation := f a.simulation } { b with simulation := f b.simulation } := by
  obtain @⟨new, log, commits, watches, h⟩ := hab
  have htold : (f a.simulation).told = x ++ (new ++ news) := by
    rw [hf.told, h, Told.append_assoc]
  rw [hf, Told.append_assoc]
  exact .mk (a := { a with simulation := f a.simulation }) htold

theorem Aside.opened (hab : Aside x y a b) :
    Aside x y { a with overlayOpen := true } { b with overlayOpen := true } := by
  obtain ⟨h⟩ := hab
  exact .mk h

theorem Aside.seeing (hab : Aside x y a b) (o : Option Overlay) :
    Aside x y { a with overlaySeen := o } { b with overlaySeen := o } := by
  obtain ⟨h⟩ := hab
  exact .mk h

theorem Aside.committed (hab : Aside x y a b) (m n : Nat) :
    Aside x y { a with commits := m } { b with commits := n } := by
  obtain ⟨h⟩ := hab
  exact .mk h

theorem Aside.withOverride (hab : Aside x y a b) (o : Override) :
    Aside x y (a.withOverride o) (b.withOverride o) := by
  obtain ⟨h⟩ := hab
  exact .mk h

/-- Engines with different pasts play in lockstep. -/
theorem walking_aside (x y : Told) :
    Lockstep.Walking (fun _ : Unit => Aside x y) (fun _ => (· = ·)) (fun _ => (· = ·)) where
  inside h n := by rw [h]
  origin h := h
  originInside h n := by rw [h]
  parts := by
    intro _ a _ hab
    obtain ⟨_⟩ := hab
    rfl
  messageBox := by
    intro _ a _ hab
    obtain ⟨_⟩ := hab
    rfl
  program := by
    intro _ a _ hab
    obtain ⟨_⟩ := hab
    cases a.program with
    | none => exact .none
    | some p => exact .some ⟨rfl, rfl⟩
  random := by
    intro _ a _ hab
    obtain ⟨_⟩ := hab
    rfl
  record := by
    intro _ a _ hab
    obtain ⟨_⟩ := hab
    rfl
  now := by
    intro _ a _ hab
    obtain ⟨_⟩ := hab
    rfl
  probe := by
    intro _ a _ hab
    obtain ⟨_⟩ := hab
    exact probe_alike_refl a.probe
  toggle := by
    intro _ a _ hab f
    obtain ⟨h⟩ := hab
    exact .mk h
  setRandom := by
    intro _ a _ hab r
    obtain ⟨h⟩ := hab
    exact .mk h
  look := by
    intro _ a _ hab
    obtain ⟨h⟩ := hab
    exact look_alike (.mk h) rfl rfl (.mk h)
  lookOverlay := by
    intro _ a b hab
    have hload : Aside x y a.withOverlay b.withOverlay :=
      (hab.tell Simulation.tells_overlay).opened
    have hload' := fun o => hload.seeing o
    obtain ⟨h⟩ := hab
    exact lookOverlay_alike (.mk h) rfl rfl rfl rfl hload (fun _ => .mk h) hload'
  splice := by
    intro _ a _ hab steps
    obtain ⟨h⟩ := hab
    refine splice_alike (R := Aside x y) (.mk h) rfl ?_ steps
    intro p q hp hq _
    have hpq : p = q := Option.some.inj (hp.symm.trans hq)
    rw [hpq]
    exact .mk h
  loadScript := by
    intro _ a _ hab entries
    obtain ⟨h⟩ := hab
    exact .mk h
  setRecord := by
    intro _ a _ hab r
    obtain ⟨h⟩ := hab
    exact .mk h
  saveRecord := by
    intro _ a _ hab
    obtain ⟨h⟩ := hab
    exact .mk h
  setProbe := by
    intro _ a _ hab p q hpq
    obtain ⟨h⟩ := hab
    rw [eq_of_probe_alike hpq]
    exact .mk h
  setAt := by
    rintro _ a _ ⟨h⟩ ⟨root, path⟩ _ rfl condition
    cases root with
    | step index => exact .mk h
    | watch name => exact .mk h
  endRun hab report := hab.tell (Simulation.tells_endRun report)
  write hab i := hab.tell (Simulation.tells_write i)
  commit hab i := (hab.tell (Simulation.tells_write i)).committed _ _
  leave := by
    intro _ a _ hab _ _ _
    obtain ⟨h⟩ := hab
    exact ⟨(), .mk h⟩

/-! ## Between two ticks -/

/-- What is left of an engine when its run is cancelled. -/
def dropped (e : Engine) : Engine := { e.clear with script := e.script.cleared, probe := none }

/-- Between two ticks, the engines may also have seen something else, and the simulations may
show something else. -/
inductive Apart (x y : Told) (a : Engine) : Engine → Prop
  | mk {new : Told} {simulation : Simulation} {seen : Option Player} {overlaySeen : Option Overlay}
      {log : List Event} {commits : Nat} {watches : List (String × Condition)}
      (ha : a.simulation.told = x ++ new) (hb : simulation.told = y ++ new)
      (hname : simulation.name = a.simulation.name)
      (hseeds : simulation.seeds = a.simulation.seeds) :
      Apart x y a { a with simulation, seen, overlaySeen, log, commits, watches }

namespace Apart

theorem program (h : Apart x y a b) : b.program = a.program := by
  obtain ⟨_⟩ := h
  rfl

theorem load (h : Apart x y a b) (steps : Option (List Step)) :
    Apart x y (a.load steps) (b.load steps) := by
  obtain ⟨ha, hb, hname, hseeds⟩ := h
  cases steps with
  | none => exact .mk ha hb hname hseeds
  | some steps => exact .mk ha hb hname hseeds

theorem dropped (h : Apart x y a b) : Apart x y a.dropped b.dropped := by
  obtain ⟨ha, hb, hname, hseeds⟩ := h
  exact .mk (a := a.dropped) ha hb hname hseeds

theorem tickScript (h : Apart x y a b) (paused : Bool) :
    Apart x y (a.tickScript paused) (b.tickScript paused) := by
  obtain ⟨ha, hb, hname, hseeds⟩ := h
  unfold Engine.tickScript
  split
  · exact .mk ha hb hname hseeds
  · dsimp only
    split
    · exact .mk ha hb hname hseeds
    · split
      · exact .mk ha hb hname hseeds
      · exact .mk ha hb hname hseeds

theorem withOverride (h : Apart x y a b) (o : Override) :
    Apart x y (a.withOverride o) (b.withOverride o) := by
  obtain ⟨ha, hb, hname, hseeds⟩ := h
  exact .mk ha hb hname hseeds

theorem withMessageBox (h : Apart x y a b) (messageBox : Bool) :
    Apart x y { a with messageBox } { b with messageBox } := by
  obtain ⟨ha, hb, hname, hseeds⟩ := h
  exact .mk ha hb hname hseeds

theorem withFlags (h : Apart x y a b) (flags : Flags) :
    Apart x y { a with flags } { b with flags } := by
  obtain ⟨ha, hb, hname, hseeds⟩ := h
  exact .mk ha hb hname hseeds

theorem modifyOverride (h : Apart x y a b) (subtract add : Inputs) (duration : Int) :
    Apart x y (a.modifyOverride subtract add duration)
      (b.modifyOverride subtract add duration) := by
  obtain ⟨ha, hb, hname, hseeds⟩ := h
  exact .mk ha hb hname hseeds

theorem endRun (h : Apart x y a b) (r : Report) :
    Apart x y { a with simulation := a.simulation.endRun r }
      { b with simulation := b.simulation.endRun r } := by
  obtain @⟨new, simulation, _, _, _, _, _, ha, hb, hname, hseeds⟩ := h
  have htold : ∀ {s : Simulation} {z : Told}, s.told = z ++ new →
      (s.endRun r).told = z ++ (new ++ ⟨[], [r], 0⟩) := by
    intro s z hs
    rw [(Simulation.tells_endRun r).told, hs, Told.append_assoc]
  exact .mk (htold ha) (htold hb) hname hseeds

end Apart

/-- Both simulations show the same. -/
structure Alongside (x y : Told) (a b : Engine) : Prop where
  apart : Apart x y a b
  shown : b.simulation.shown = a.simulation.shown

theorem Aside.alongside (h : Aside x y a b) : Alongside x y a b := by
  obtain ⟨h⟩ := h
  exact ⟨.mk h rfl rfl rfl, rfl⟩

namespace Alongside

/-- What was seen before is forgotten when the next tick begins. -/
theorem beginTick (h : Alongside x y a b) : Aside x y a.beginTick b.beginTick := by
  obtain ⟨⟨ha, hb, -, -⟩, hshown⟩ := h
  have hsimulation := Simulation.retold_of_shown hshown
  dsimp only at hsimulation
  rw [hb] at hsimulation
  rw [hsimulation]
  exact .mk ha

/-- Engines that are apart have the same tick if they are shown the same. -/
theorem tickWith (h : Alongside x y a b) (budget : Nat) (paused : Bool) :
    (b.tickWith budget paused).1 = (a.tickWith budget paused).1 ∧
      Alongside x y (a.tickWith budget paused).2 (b.tickWith budget paused).2 := by
  have hflags : b.isFrozen paused = a.isFrozen paused := by
    obtain ⟨⟨_⟩, -⟩ := h
    rfl
  have hoverride : b.override = a.override := by
    obtain ⟨⟨_⟩, -⟩ := h
    rfl
  have hbegin := h.beginTick
  rcases a.tickWith_cases budget paused with ⟨hfrozen, htick⟩ | ⟨hthawed, hactive, htick⟩ |
    ⟨hthawed, hactive, htick⟩
  · rw [htick, tickWith_frozen budget (hflags.trans hfrozen)]
    exact ⟨rfl, h⟩
  · rw [htick, tickWith_override budget (hflags.trans hthawed) (hoverride ▸ hactive), hoverride]
    have hwrite := hbegin.tell (Simulation.tells_write a.override.content)
    exact ⟨rfl, (hwrite.withOverride _).alongside⟩
  · rw [htick, tickWith_play budget (hflags.trans hthawed) (hoverride ▸ hactive)]
    obtain ⟨hresult, -, hplay⟩ := (walking_aside x y).play budget (i := ()) hbegin
    exact ⟨hresult.symm, hplay.alongside⟩

end Alongside

end Engine

end TickScript
