import TickScript.Proofs.Lockstep

/-!
# Programs abreast

Two engines are abreast if they agree in everything but their programs, and the steps that
remain of their programs are related. What was passed does not matter: the cursors may
differ, and with them the places that an open probe remembers (`Root.Abreast`).

If the remaining steps begin with the same step, and what follows is related by a relation
that tolerates insertions in front, the engines are in lockstep (`Engine.lockstep_abreast`);
if all remaining steps are the same, they walk alike (`Engine.walking_abreast`).
-/

namespace TickScript

/-! ## Places -/

/-- The same step at the cursor, two steps that were passed, or two watched conditions. -/
def Root.Abreast (cursors : Nat × Nat) : Root → Root → Prop
  | .step m, .step n => (m = cursors.1 ∧ n = cursors.2) ∨ (m < cursors.1 ∧ n < cursors.2)
  | .watch _, .watch _ => True
  | _, _ => False

/-- The same without the step at the cursor. -/
def Root.Passed (cursors : Nat × Nat) : Root → Root → Prop
  | .step m, .step n => m < cursors.1 ∧ n < cursors.2
  | .watch _, .watch _ => True
  | _, _ => False

namespace Place

/-- The same condition of the step at the cursor. -/
def AtCursor (cursors : Nat × Nat) (x y : Place) : Prop :=
  x.root = .step cursors.1 ∧ y.root = .step cursors.2 ∧ x.path = y.path

def Abreast (cursors : Nat × Nat) (x y : Place) : Prop :=
  x.root.Abreast cursors y.root ∧ x.path = y.path

def Passed (cursors : Nat × Nat) (x y : Place) : Prop :=
  x.root.Passed cursors y.root ∧ x.path = y.path

theorem AtCursor.abreast {cursors : Nat × Nat} {x y : Place} (h : AtCursor cursors x y) :
    Abreast cursors x y := by
  obtain ⟨hx, hy, hpath⟩ := h
  refine ⟨?_, hpath⟩
  rw [hx, hy]
  exact Or.inl ⟨rfl, rfl⟩

theorem Passed.abreast {cursors : Nat × Nat} {x y : Place} (h : Passed cursors x y) :
    Abreast cursors x y := by
  obtain ⟨⟨_ | _, xpath⟩, ⟨_ | _, ypath⟩⟩ := x, y <;> obtain ⟨hroot, hpath⟩ := h
  · exact ⟨Or.inr hroot, hpath⟩
  · exact hroot.elim
  · exact hroot.elim
  · exact ⟨trivial, hpath⟩

theorem Passed.mono {m n m' n' : Nat} {x y : Place} (h : Passed (m, n) x y) (hm : m ≤ m')
    (hn : n ≤ n') : Passed (m', n') x y := by
  obtain ⟨⟨_ | _, xpath⟩, ⟨_ | _, ypath⟩⟩ := x, y <;> obtain ⟨hroot, hpath⟩ := h
  · exact ⟨⟨Nat.lt_of_lt_of_le hroot.1 hm, Nat.lt_of_lt_of_le hroot.2 hn⟩, hpath⟩
  · exact hroot.elim
  · exact hroot.elim
  · exact ⟨trivial, hpath⟩

/-- When both programs move on, the step at the cursor is one of those that were passed. -/
theorem Abreast.passed {m n : Nat} {x y : Place} (h : Abreast (m, n) x y) :
    Passed (m + 1, n + 1) x y := by
  obtain ⟨⟨_ | _, xpath⟩, ⟨_ | _, ypath⟩⟩ := x, y <;> obtain ⟨hroot, hpath⟩ := h
  · refine ⟨?_, hpath⟩
    rcases hroot with ⟨hm, hn⟩ | ⟨hm, hn⟩
    · exact ⟨Nat.lt_succ_of_le (Nat.le_of_eq hm), Nat.lt_succ_of_le (Nat.le_of_eq hn)⟩
    · exact ⟨Nat.lt_succ_of_lt hm, Nat.lt_succ_of_lt hn⟩
  · exact hroot.elim
  · exact hroot.elim
  · exact ⟨trivial, hpath⟩

end Place

/-! ## Programs -/

/-- Two programs with their cursors, and how their remaining steps are related. -/
structure Program.Abreast (J : List Step → List Step → Prop) (cursors : Nat × Nat)
    (p q : Program) : Prop where
  left : p.cursor = cursors.1
  right : q.cursor = cursors.2
  leftLe : p.cursor ≤ p.steps.length
  rightLe : q.cursor ≤ q.steps.length
  remaining : J p.remaining q.remaining

/-- The same first step, and related steps behind it. -/
inductive Headed (J : List Step → List Step → Prop) : List Step → List Step → Prop
  | nil : Headed J [] []
  | cons (s : Step) {xs ys : List Step} (h : J xs ys) : Headed J (s :: xs) (s :: ys)

/-- A relation that tolerates insertions in front. -/
structure Insertable (J : List Step → List Step → Prop) : Prop where
  refl : ∀ xs, J xs xs
  prepend : ∀ {xs ys}, J xs ys → ∀ fresh, J (fresh ++ xs) (fresh ++ ys)

theorem Insertable.headed {J : List Step → List Step → Prop} (hJ : Insertable J)
    (xs : List Step) : Headed J xs xs := by
  cases xs with
  | nil => exact .nil
  | cons s xs => exact .cons s (hJ.refl xs)

theorem insertable_eq : Insertable (· = ·) where
  refl _ := rfl
  prepend h fresh := by rw [h]

theorem eq_of_headed {xs ys : List Step} (h : Headed (· = ·) xs ys) : xs = ys := by
  cases h with
  | nil => rfl
  | cons s h => rw [h]

namespace Program.Abreast

variable {J : List Step → List Step → Prop} {cursors : Nat × Nat} {p q : Program}

/-- Either both programs are at their end, or both stand at the same step. -/
theorem ends_or_stands (h : Abreast (Headed J) cursors p q) :
    (p.remaining = [] ∧ q.remaining = []) ∨
      ∃ s xs ys, p.remaining = s :: xs ∧ q.remaining = s :: ys ∧ J xs ys := by
  have hremaining := h.remaining
  generalize p.remaining = xs at hremaining ⊢
  generalize q.remaining = ys at hremaining ⊢
  cases hremaining with
  | nil => exact Or.inl ⟨rfl, rfl⟩
  | cons s hJ => exact Or.inr ⟨s, _, _, rfl, rfl, hJ⟩

theorem current? (h : Abreast (Headed J) cursors p q) : p.current? = q.current? := by
  rw [p.current?_eq_head?, q.current?_eq_head?]
  rcases h.ends_or_stands with ⟨hp, hq⟩ | ⟨s, xs, ys, hp, hq, _⟩
  · rw [hp, hq]
  · rw [hp, hq, List.head?_cons, List.head?_cons]

theorem splice (hJ : Insertable J) (h : Abreast (Headed J) cursors p q) (fresh : List Step) :
    Abreast (Headed J) cursors (p.splice fresh) (q.splice fresh) := by
  refine ⟨h.left, h.right, ?_, ?_, ?_⟩
  · exact Nat.le_trans h.leftLe (length_le_splice p fresh)
  · exact Nat.le_trans h.rightLe (length_le_splice q fresh)
  · rcases h.ends_or_stands with ⟨hp, hq⟩ | ⟨s, xs, ys, hp, hq, hrest⟩
    · rw [remaining_splice_nil hp h.leftLe, remaining_splice_nil hq h.rightLe]
      exact hJ.headed fresh
    · rw [remaining_splice hp, remaining_splice hq]
      exact .cons s (hJ.prepend hrest fresh)

/-- The step at the cursor is changed in both programs, or steps that were passed are. -/
theorem modify (h : Abreast (Headed J) cursors p q) {m n : Nat}
    (hindex : Root.Abreast cursors (.step m) (.step n)) (f : Step → Step) :
    Abreast (Headed J) cursors { p with steps := p.steps.modify m f }
      { q with steps := q.steps.modify n f } := by
  refine ⟨h.left, h.right, ?_, ?_, ?_⟩
  · rw [List.length_modify]
    exact h.leftLe
  · rw [List.length_modify]
    exact h.rightLe
  · rw [remaining_modify, remaining_modify, h.left, h.right]
    rcases hindex with ⟨rfl, rfl⟩ | ⟨hm, hn⟩
    · rw [if_neg (Nat.lt_irrefl _), if_neg (Nat.lt_irrefl _), Nat.sub_self, Nat.sub_self]
      rcases h.ends_or_stands with ⟨hp, hq⟩ | ⟨s, xs, ys, hp, hq, hrest⟩
      · rw [hp, hq]
        exact .nil
      · rw [hp, hq]
        exact .cons (f s) hrest
    · rw [if_pos hm, if_pos hn]
      exact h.remaining

/-- Both programs leave their step. -/
theorem advance {m n : Nat} (h : Abreast (Headed J) (m, n) p q)
    (hlt : p.cursor < p.steps.length) : Abreast J (m + 1, n + 1) p.advance q.advance := by
  rcases h.ends_or_stands with ⟨hp, _⟩ | ⟨s, xs, ys, hp, hq, hrest⟩
  · have hlength := congrArg List.length hp
    rw [Program.remaining, List.length_drop, List.length_nil] at hlength
    omega
  · refine ⟨congrArg (· + 1) h.left, congrArg (· + 1) h.right, cursor_lt hp, cursor_lt hq, ?_⟩
    rw [remaining_advance, remaining_advance, hp, hq]
    exact hrest

end Program.Abreast

/-! ## Engines -/

/-- Two engines that agree in everything that matters but their programs, which are abreast.
One of them may have looked at the player already when the other one has not. -/
inductive Engine.Abreast (J : List Step → List Step → Prop) (cursors : Nat × Nat) (a : Engine) :
    Engine → Prop
  | mk {p q : Program} {probe : Option Probe} {log : List Event}
      {watches : List (String × Condition)} {seen : Option Player} (hp : a.program = some p)
      (hprogram : p.Abreast J cursors q)
      (hprobe : Option.Rel (Probe.Alike (Place.Abreast cursors)) a.probe probe)
      (hseen : seen.getD a.simulation.player = a.view) :
      Abreast J cursors a { a with program := some q, probe, log, watches, seen }

namespace Engine

variable {J : List Step → List Step → Prop}

theorem Abreast.mono {J' : List Step → List Step → Prop} (hJ : ∀ {xs ys}, J xs ys → J' xs ys)
    {cursors : Nat × Nat} {a b : Engine} (h : Abreast J cursors a b) : Abreast J' cursors a b := by
  obtain ⟨hp, hprogram, hprobe, hseen⟩ := h
  exact .mk hp { hprogram with remaining := hJ hprogram.remaining } hprobe hseen

theorem Abreast.headed {cursors : Nat × Nat} {a b : Engine} (h : Abreast (· = ·) cursors a b) :
    Abreast (Headed (· = ·)) cursors a b :=
  h.mono fun heq => heq ▸ insertable_eq.headed _

/-- Engines abreast that stand at the same step are in lockstep. -/
theorem lockstep_abreast (hJ : Insertable J) :
    Lockstep (Abreast (Headed J)) Place.AtCursor Place.Abreast where
  inside := by
    intro _ x y hab n
    obtain ⟨hx, hy, hpath⟩ := hab
    exact ⟨hx, hy, congrArg (· ++ [n]) hpath⟩
  origin := Place.AtCursor.abreast
  originInside := by
    intro _ x y hab n
    obtain ⟨hroot, hpath⟩ := hab
    exact ⟨hroot, congrArg (· ++ [n]) hpath⟩
  parts := by
    intro _ a _ hab
    obtain ⟨_, _, _, _⟩ := hab
    rfl
  messageBox := by
    intro _ a _ hab
    obtain ⟨_, _, _, _⟩ := hab
    rfl
  program := by
    intro _ a _ hab
    obtain ⟨hp, hprogram, _, _⟩ := hab
    rw [hp]
    exact .some ⟨hprogram.current?,
      congrArg Root.step hprogram.left, congrArg Root.step hprogram.right, rfl⟩
  random := by
    intro _ a _ hab
    obtain ⟨_, _, _, _⟩ := hab
    rfl
  record := by
    intro _ a _ hab
    obtain ⟨_, _, _, _⟩ := hab
    rfl
  now := by
    intro _ a _ hab
    obtain ⟨_, _, _, _⟩ := hab
    rfl
  probe := by
    intro _ a _ hab
    obtain ⟨_, _, hprobe, _⟩ := hab
    exact hprobe
  toggle := by
    intro _ a _ hab f
    obtain ⟨hp, hprogram, hprobe, hseen⟩ := hab
    exact .mk hp hprogram hprobe hseen
  setRandom := by
    intro _ a _ hab r
    obtain ⟨hp, hprogram, hprobe, hseen⟩ := hab
    exact .mk hp hprogram hprobe hseen
  look := by
    intro _ a _ hab
    obtain ⟨hp, hprogram, hprobe, hseen⟩ := hab
    refine ⟨?_, ?_⟩
    · rw [look_fst, look_fst]
      exact hseen.symm
    · rw [look_snd, look_snd]
      exact .mk hp hprogram hprobe hseen
  lookOverlay := by
    intro _ a _ hab
    obtain ⟨hp, hprogram, hprobe, hseen⟩ := hab
    exact lookOverlay_alike (.mk hp hprogram hprobe hseen) rfl rfl rfl rfl
      (.mk hp hprogram hprobe hseen) (fun _ => .mk hp hprogram hprobe hseen)
      fun _ => .mk hp hprogram hprobe hseen
  splice := by
    intro _ a _ hab steps
    obtain ⟨hp, hprogram, hprobe, hseen⟩ := hab
    unfold splice
    rw [hp]
    exact ⟨rfl, .mk rfl (hprogram.splice hJ steps) hprobe hseen⟩
  loadScript := by
    intro _ a _ hab entries
    obtain ⟨hp, hprogram, hprobe, hseen⟩ := hab
    exact .mk hp hprogram hprobe hseen
  setRecord := by
    intro _ a _ hab r
    obtain ⟨hp, hprogram, hprobe, hseen⟩ := hab
    exact .mk hp hprogram hprobe hseen
  saveRecord := by
    intro _ a _ hab
    obtain ⟨hp, hprogram, hprobe, hseen⟩ := hab
    exact .mk hp hprogram hprobe hseen
  setProbe := by
    intro _ a _ hab x y hxy
    obtain ⟨hp, hprogram, _, hseen⟩ := hab
    exact .mk hp hprogram hxy hseen
  setAt := by
    intro _ a _ hab x y hxy c
    obtain ⟨hp, hprogram, hprobe, hseen⟩ := hab
    obtain ⟨⟨m | m, xpath⟩, ⟨n | n, ypath⟩⟩ := x, y <;> obtain ⟨hroot, hpath⟩ := hxy
    · cases hpath
      exact .mk (congrArg (Option.map _) hp) (hprogram.modify hroot _) hprobe hseen
    · exact hroot.elim
    · exact hroot.elim
    · exact .mk hp hprogram hprobe hseen
  endRun := by
    intro _ a _ hab report
    obtain ⟨hp, hprogram, hprobe, hseen⟩ := hab
    exact .mk hp hprogram hprobe hseen
  write := by
    intro _ a _ hab i
    obtain ⟨hp, hprogram, hprobe, hseen⟩ := hab
    exact .mk hp hprogram hprobe hseen
  commit := by
    intro _ a _ hab i
    obtain ⟨hp, hprogram, hprobe, hseen⟩ := hab
    exact .mk hp hprogram hprobe hseen

/-- The conditions of an open probe belong to steps that were passed. -/
def Behind (cursors : Nat × Nat) (a b : Engine) : Prop :=
  Option.Rel (Probe.Alike (Place.Passed cursors)) a.probe b.probe

/-- When the step is left, what remains is related as it was behind the step. -/
theorem Abreast.leave {cursors : Nat × Nat} {a b : Engine} (h : Abreast (Headed J) cursors a b)
    (hlt : ∀ p, a.program = some p → p.cursor < p.steps.length) (x y : Event) :
    ∃ cursors, Abreast J cursors (a.note x).advance (b.note y).advance ∧
      Behind cursors (a.note x).advance (b.note y).advance := by
  obtain ⟨m, n⟩ := cursors
  obtain ⟨hp, hprogram, hprobe, hseen⟩ := h
  have hbehind := option_rel_mono (fun _ _ hpq => hpq.mono fun _ _ hxy => hxy.passed) hprobe
  exact ⟨(m + 1, n + 1), .mk (congrArg (Option.map _) hp) (hprogram.advance (hlt _ hp))
    (option_rel_mono (fun _ _ hpq => hpq.mono fun _ _ hxy => hxy.abreast) hbehind) hseen, hbehind⟩

/-- Engines abreast that have all steps in common go on in lockstep. -/
theorem walking_abreast :
    Lockstep.Walking (Abreast (Headed (· = ·))) Place.AtCursor Place.Abreast where
  toLockstep := lockstep_abreast insertable_eq
  leave h hlt x y := by
    obtain ⟨cursors, hleave, _⟩ := h.leave hlt x y
    exact ⟨cursors, hleave.headed⟩

end Engine

end TickScript
