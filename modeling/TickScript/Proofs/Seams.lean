import TickScript.Proofs.Abreast
import TickScript.Proofs.Inserting

/-!
# Programs with a seam

Two programs begin with the same steps, up to a seam. There the first program has a step
whose condition inserts some steps and is left at once, and the second one has these steps
in place. Before the seam is reached, what remains of both programs begins with the same
step; afterwards all that remains is the same (`Joined`).

Walks through both programs meet (`Engine.walk_near`). One step more is needed at the seam,
where the first program still has to insert what the second one has in place
(`Engine.seam_pace`), so one of the two budgets may have to be larger (`Fits`).
-/

namespace TickScript

/-! ## The seam -/

/-- The same steps, or, as long as `A` holds, the same steps up to a seam. -/
def Joined (A : Prop) (S T xs ys : List Step) : Prop :=
  xs = ys ∨ (A ∧ ∃ zs, xs = zs ++ S ∧ ys = zs ++ T)

theorem insertable_joined (A : Prop) (S T : List Step) : Insertable (Joined A S T) where
  refl _ := Or.inl rfl
  prepend h fresh := by
    rcases h with rfl | ⟨hA, zs, rfl, rfl⟩
    · exact Or.inl rfl
    · exact Or.inr ⟨hA, fresh ++ zs, (List.append_assoc ..).symm, (List.append_assoc ..).symm⟩

theorem headed_joined_of_eq {A : Prop} {S T xs ys : List Step} (h : Headed (· = ·) xs ys) :
    Headed (Joined A S T) xs ys := by
  rw [eq_of_headed h]
  exact (insertable_joined A S T).headed ys

/-- The first steps are at the seam. -/
def AtSeam (S T xs ys : List Step) : Prop := xs = S ∧ ys = T

/-- The budgets of two walks, of which the first may need some steps more; the one whose end
is asked for ends. -/
def Fits (spare k n : Nat) (x y : Except Fault TickOutcome) : Prop :=
  (k ≤ n ∧ x ≠ .error .overrun) ∨ (n + spare ≤ k ∧ y ≠ .error .overrun)

section

variable {spare k n : Nat} {x y : Except Fault TickOutcome}

theorem Fits.pred (h : Fits spare (k + 1) (n + 1) x y) : Fits spare k n x y := by
  rcases h with ⟨hkn, hends⟩ | ⟨hkn, hends⟩
  · exact Or.inl ⟨by omega, hends⟩
  · exact Or.inr ⟨by omega, hends⟩

/-- A step that only the first walk takes is one of those that it may need more. -/
theorem Fits.spend (h : Fits (spare + 1) (k + 1) n x y) : Fits spare k n x y := by
  rcases h with ⟨hkn, hends⟩ | ⟨hkn, hends⟩
  · exact Or.inl ⟨by omega, hends⟩
  · exact Or.inr ⟨by omega, hends⟩

end

namespace Engine

variable {A : Prop} {S T : List Step} {a b : Engine}

/-- What remains of the program. -/
def remaining? (e : Engine) : Option (List Step) := e.program.map Program.remaining

/-- The walk from the first engine comes to the second one. -/
inductive Comes : Engine → Engine → Prop
  | here (e : Engine) : Comes e e
  | next {e e' a : Engine} (h : e.pace = .inr e') (hcomes : Comes e' a) : Comes e a

/-- Engines that stand at the same step, or the first one of which is still to insert what
the second one has in place. -/
inductive Near (A : Prop) (S T : List Step) (a b : Engine) : Prop
  | headed {cursors : Nat × Nat} (h : Abreast (Headed (Joined A S T)) cursors a b)
  | seam {cursors : Nat × Nat} (hA : A) (h : Abreast (AtSeam S T) cursors a b)
      (hbehind : Behind cursors a b)

/-- When a step is left, the engines stand at the same step again, or at the seam. -/
theorem near_of_joined {cursors : Nat × Nat} (h : Abreast (Joined A S T) cursors a b)
    (hbehind : Behind cursors a b) : Near A S T a b := by
  obtain ⟨hp, hprogram, hprobe, hseen⟩ := h
  rcases hprogram.remaining with heq | ⟨hA, zs, hxs, hys⟩
  · refine .headed (.mk hp { hprogram with remaining := ?_ } hprobe hseen)
    rw [heq]
    exact (insertable_joined A S T).headed _
  · cases zs with
    | nil => exact .seam hA (.mk hp { hprogram with remaining := ⟨hxs, hys⟩ } hprobe hseen) hbehind
    | cons s zs =>
      refine .headed (.mk hp { hprogram with remaining := ?_ } hprobe hseen)
      rw [hxs, hys]
      exact .cons s (Or.inr ⟨hA, zs, rfl, rfl⟩)

/-- Engines that stand at the same step have all steps in common, or the first one is not at
the seam. -/
theorem headed_cases {cursors : Nat × Nat}
    (h : Abreast (Headed (Joined A S T)) cursors a b) :
    Abreast (· = ·) cursors a b ∨ (A ∧ a.remaining? ≠ some S) := by
  obtain ⟨hp, hprogram, hprobe, hseen⟩ := h
  rcases hprogram.ends_or_stands with ⟨hxs, hys⟩ | ⟨s, xs, ys, hxs, hys, heq | ⟨hA, zs, rfl, rfl⟩⟩
  · exact Or.inl (.mk hp { hprogram with remaining := hxs.trans hys.symm } hprobe hseen)
  · refine Or.inl (.mk hp { hprogram with remaining := ?_ } hprobe hseen)
    rw [hxs, hys, heq]
  · refine Or.inr ⟨hA, ?_⟩
    rw [remaining?, hp, Option.map_some, hxs]
    intro hS
    have hlength := congrArg List.length (Option.some.inj hS)
    rw [List.length_cons, List.length_append] at hlength
    omega

/-! ## Walks -/

theorem pace_untouched {e e' : Engine} (h : e.pace = .inr e') :
    e'.view = e.view ∧ e'.parts = e.parts := by
  have hpaces := e.paces_pace
  rw [h] at hpaces
  cases hpaces with
  | @left p step v _ _ _ _ =>
    have hturn := e.afterTurn_untouched p step
    exact ⟨hturn.view, hturn.parts⟩

/-- A step that inserts others is left at once, and they are next. -/
theorem inserts_pace {s : Step} {choice : Player → List Step} (hs : s.Inserts choice)
    {e : Engine} {p : Program} {Q : List Step} (hparts : e.parts.program = true)
    (hp : e.program = some p) (h : p.remaining = s :: Q) :
    ∃ q seen log, e.pace = .inr { e with program := some q, seen, log } ∧
      seen.getD e.simulation.player = e.view ∧ q.remaining = choice e.view ++ Q ∧
      q.cursor = p.cursor + 1 ∧ q.cursor ≤ q.steps.length := by
  obtain ⟨houtcome, e', hlooked, q', hengine, hinserted, hcursor⟩ :=
    hs (some ⟨.step p.cursor, []⟩) hparts hp h
  have hview : e'.view = e.view := by rw [← look_fst, ← look_fst, hlooked.player]
  obtain ⟨seen', rfl⟩ := hlooked.exists_seen
  rw [look_fst] at hinserted
  have hq' : q'.cursor = p.cursor := hcursor p hp
  have hpaces := Paces.left hp (p.current?_of_remaining h) houtcome rfl
  generalize hrest : (e.turnAt p s).rest = c
  have hleave : e.leave p s .expanded =
      { e with
        seen := seen'
        program := some { q' with
          steps := q'.steps.modify p.cursor fun s =>
            s.withCondition (Condition.setAt c [] s.condition) }.advance
        log := e.log ++ [.left p.cursor c .expanded] } := by
    rw [leave, afterTurn, hrest, turnAt, hengine]
    rfl
  rw [hleave] at hpaces
  refine ⟨_, _, _, hpaces.eq, hview, ?_, congrArg (· + 1) hq', ?_⟩
  · rw [Program.remaining_advance, Program.remaining_modify, hq', if_neg (Nat.lt_irrefl _),
      Nat.sub_self, hinserted]
    rfl
  · have hlength : (q'.steps.modify p.cursor fun s =>
        s.withCondition (Condition.setAt c [] s.condition)).length = q'.steps.length :=
      List.length_modify ..
    exact Nat.le_of_lt_succ (Nat.succ_lt_succ (hlength ▸ Program.cursor_lt hinserted))

/-- At the seam the first engine inserts its steps, and they are next. -/
theorem seam_pace {s : Step} {choice : Player → List Step} (hs : s.Inserts choice)
    {Q : List Step} {cursors : Nat × Nat} (h : Abreast (AtSeam (s :: Q) T) cursors a b)
    (hbehind : Behind cursors a b) (hparts : a.parts.program = true) :
    ∃ a' cursors, a.pace = .inr a' ∧ Abreast (AtSeam (choice a.view ++ Q) T) cursors a' b ∧
      Behind cursors a' b := by
  obtain ⟨m, n⟩ := cursors
  obtain ⟨hp, hprogram, _, hseen⟩ := h
  obtain ⟨hxs, hys⟩ := hprogram.remaining
  obtain ⟨q, seen, log, hpace, hview, hremaining, hcursor, hle⟩ := inserts_pace hs hparts hp hxs
  have hbehind' := option_rel_mono (fun _ _ hpq => hpq.mono fun _ _ hxy =>
    hxy.mono (Nat.le_succ m) (Nat.le_refl n)) hbehind
  refine ⟨_, (m + 1, n), hpace, ?_, hbehind'⟩
  refine .mk rfl ⟨?_, hprogram.right, hle, hprogram.rightLe, hremaining, hys⟩ ?_ ?_
  · rw [hcursor, hprogram.left]
  · exact option_rel_mono (fun _ _ hpq => hpq.mono fun _ _ hxy => hxy.abreast) hbehind'
  · exact hseen.trans hview.symm

/-- Engines that stand at the same step take it alike, and are near each other behind it. -/
theorem headed_pace {cursors : Nat × Nat} (h : Abreast (Headed (Joined A S T)) cursors a b) :
    PaceAlike (Abreast (Headed (Joined A S T)) cursors) (Near A S T) a.pace b.pace :=
  (lockstep_abreast (insertable_joined A S T)).pace h fun h hlt x y => by
    obtain ⟨_, hleave, hbehind⟩ := h.leave hlt x y
    exact near_of_joined hleave hbehind

/-- The results of two walks that began near each other: the same outcome, and engines that
stand at the same step. The seam is still ahead only if the walk did not come to it. -/
structure Met (A : Prop) (S T : List Step) (a : Engine) (x y : Except Fault TickOutcome × Engine) :
    Prop where
  outcome : x.1 = y.1
  engine : ∃ B : Prop, (B → A ∧ ∀ a', a.Comes a' → a'.remaining? ≠ some S) ∧
    ∃ cursors, Abreast (Headed (Joined B S T)) cursors x.2 y.2

theorem met_of_same {cursors : Nat × Nat} {x y : Except Fault TickOutcome × Engine}
    (houtcome : x.1 = y.1) (h : Abreast (Headed (· = ·)) cursors x.2 y.2) : Met A S T a x y := by
  exact ⟨houtcome, False, False.elim, cursors, h.mono headed_joined_of_eq⟩

section

variable {spare k n : Nat}

/-- With all steps in common, the walks are the same under both budgets. -/
theorem walk_same {cursors : Nat × Nat} (h : Abreast (· = ·) cursors a b)
    (hfits : Fits spare k n (a.walk k).1 (b.walk n).1) :
    (a.walk k).1 = (b.walk n).1 ∧
      ∃ cursors, Abreast (Headed (· = ·)) cursors (a.walk k).2 (b.walk n).2 := by
  rcases hfits with ⟨hle, hends⟩ | ⟨hle, hends⟩
  · have hwalk := walking_abreast.walk k h.headed
    rw [hwalk.1] at hends
    rw [walk_mono hle hends]
    exact hwalk
  · have hwalk := walking_abreast.walk n h.headed
    rw [← hwalk.1] at hends
    rw [walk_mono (Nat.le_of_add_right_le hle) hends]
    exact hwalk

/-- A walk that ends takes a step at least. -/
theorem fits_pos (h : Fits spare k n (a.walk k).1 (b.walk n).1) :
    ∃ k' n', k = k' + 1 ∧ n = n' + 1 := by
  have hpos : 0 < k ∧ 0 < n := by
    rcases h with ⟨hle, hends⟩ | ⟨hle, hends⟩
    · have hk : k ≠ 0 := by
        rintro rfl
        exact hends rfl
      omega
    · have hn : n ≠ 0 := by
        rintro rfl
        exact hends rfl
      omega
  exact ⟨k - 1, n - 1, by omega, by omega⟩

end

section

variable {s : Step} {choice : Player → List Step} (hs : s.Inserts choice) {body Q : List Step}

include hs

/-- From the seam on, the walks are the same. -/
theorem walk_seam {cursors : Nat × Nat} (h : Abreast (AtSeam (s :: Q) (body ++ Q)) cursors a b)
    (hbehind : Behind cursors a b) (hparts : a.parts.program = true)
    (hbody : choice a.view = body) {k n : Nat} (hfits : Fits 1 k n (a.walk k).1 (b.walk n).1) :
    Met A (s :: Q) (body ++ Q) a (a.walk k) (b.walk n) := by
  obtain ⟨a', cursors, hpace, hat, -⟩ := seam_pace hs h hbehind hparts
  obtain ⟨k, n, rfl, rfl⟩ := fits_pos hfits
  rw [walk_of_go hpace] at hfits ⊢
  have hsame : Abreast (· = ·) cursors a' b := hat.mono fun ⟨hxs, hys⟩ => by rw [hxs, hys, hbody]
  obtain ⟨houtcome, cursors, hwalk⟩ := walk_same hsame hfits.spend
  exact met_of_same houtcome hwalk

/-- Walks that begin near each other meet. -/
theorem walk_near : ∀ (n k : Nat) {a b : Engine}, Near A (s :: Q) (body ++ Q) a b →
    a.parts.program = true →
    (A → ∀ a', a.Comes a' → a'.remaining? = some (s :: Q) → choice a.view = body) →
    Fits 1 k n (a.walk k).1 (b.walk n).1 → Met A (s :: Q) (body ++ Q) a (a.walk k) (b.walk n)
  | n, k, a, b, .seam hA h hbehind, hparts, hbody, hfits => by
    have hremaining : a.remaining? = some (s :: Q) := by
      obtain ⟨hp, hprogram, _, _⟩ := h
      rw [remaining?, hp, Option.map_some, hprogram.remaining.1]
    exact walk_seam hs h hbehind hparts (hbody hA a (.here a) hremaining) hfits
  | n, k, a, b, .headed h, hparts, hbody, hfits => by
    rcases headed_cases h with hsame | ⟨hA, hahead⟩
    · obtain ⟨houtcome, _, hwalk⟩ := walk_same hsame hfits
      exact met_of_same houtcome hwalk
    · obtain ⟨k, n, rfl, rfl⟩ := fits_pos hfits
      have hpace := headed_pace h
      generalize ha : a.pace = x at hpace
      generalize hb : b.pace = y at hpace
      cases hpace with
      | stop hstop =>
        rw [walk_of_stop ha, walk_of_stop hb]
        refine ⟨hstop.1, A, fun _ => ⟨hA, ?_⟩, _, hstop.2⟩
        intro a' hcomes
        cases hcomes with
        | here => exact hahead
        | next hnext =>
          rw [ha] at hnext
          cases hnext
      | @go a' b' hgo =>
        obtain ⟨hview, hparts'⟩ := pace_untouched ha
        rw [walk_of_go ha, walk_of_go hb] at hfits ⊢
        have hbody' : A → ∀ e, a'.Comes e → e.remaining? = some (s :: Q) →
            choice a'.view = body := by
          intro hA e hcomes hremaining
          rw [hview]
          exact hbody hA e (.next ha hcomes) hremaining
        obtain ⟨houtcome, B, hB, hengine⟩ :=
          walk_near n k hgo (by rw [hparts', hparts]) hbody' hfits.pred
        refine ⟨houtcome, B, fun h => ⟨hA, ?_⟩, hengine⟩
        intro e hcomes
        cases hcomes with
        | here => exact hahead
        | next hnext hcomes =>
          rw [ha] at hnext
          cases hnext
          exact (hB h).2 e hcomes

end

end Engine

end TickScript
