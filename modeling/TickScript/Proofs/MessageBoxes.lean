import Mathlib
import TickScript.Proofs.SessionEvents
import TickScript.Proofs.Untouched

/-!
# How long a message box is seen

A message box raises a mark, which the conditions of an update look at. The update takes the mark
away when it comes to its end, and nothing else does: an update that finds the player dead for good
leaves it, and so do one that fails and the start of a level (`Session.handle_messageBox`).

So a message box is seen by the next update only, as long as that update comes to its end and the
level does not start in between (`Session.message_box_seen_once`).

* `Session.Boxed`: a message box was shown, and only certain events happened since.
* `Engine.Visits`: the engines in which the walk of an update evaluates a step.
-/

namespace TickScript

/-! ## During an update -/

namespace Engine

/-- A step of the walk leaves the mark of a message box alone. -/
theorem pace_messageBox (e : Engine) : (e.pace.elim Prod.snd id).messageBox = e.messageBox := by
  have hpaces := e.paces_pace
  generalize e.pace = x at hpaces ⊢
  cases hpaces with
  | idle | ended => rfl
  | failed | held | left => exact (e.afterTurn_untouched _ _).messageBox

theorem messageBox_of_pace {e a : Engine} (hpace : e.pace = .inr a) :
    a.messageBox = e.messageBox := by
  have hkept := e.pace_messageBox
  rw [hpace] at hkept
  exact hkept

theorem walk_messageBox : ∀ (budget : Nat) (e : Engine),
    (e.walk budget).2.messageBox = e.messageBox
  | 0, _ => rfl
  | budget + 1, e => by
    have hkept := e.pace_messageBox
    rw [walk_succ]
    cases hpace : e.pace with
    | inl result =>
      rw [hpace] at hkept
      exact hkept
    | inr a => exact (walk_messageBox budget a).trans (messageBox_of_pace hpace)

theorem tickWith_messageBox (budget : Nat) (e : Engine) (paused : Bool) :
    (e.tickWith budget paused).2.messageBox = e.messageBox := by
  rcases e.tickWith_cases budget paused with ⟨-, htick⟩ | ⟨-, -, htick⟩ | ⟨-, -, htick⟩
  · rw [htick]
  · rw [htick]
    rfl
  · have hclassify := e.beginTick.classify_untouched.messageBox
    rw [htick, play]
    split
    · next heq =>
      rw [heq] at hclassify
      exact hclassify
    · next heq =>
      rw [heq] at hclassify
      exact hclassify
    · next heq =>
      rw [heq] at hclassify
      exact (walk_messageBox budget _).trans hclassify

/-- The walk comes from one engine to another. -/
inductive Visits : Engine → Engine → Prop
  | here (e : Engine) : Visits e e
  | next {e a b : Engine} (hpace : e.pace = .inr a) (hrest : Visits a b) : Visits e b

theorem Visits.messageBox {e a : Engine} (h : Visits e a) : a.messageBox = e.messageBox := by
  induction h with
  | here => rfl
  | next hpace _ ih => exact ih.trans (messageBox_of_pace hpace)

end Engine

/-- The condition that a message box was shown. -/
def Condition.messageBox : Condition := .call (Builtin.check .messageBox).name []

theorem Condition.evaluate_messageBox (place : Option Place) (e : Engine) :
    (Condition.messageBox.evaluate place e).outcome = .ok (.ofBool e.messageBox) := by
  rw [evaluate, messageBox, evaluateWith, Builtin.ofName?_name]
  rfl

namespace Session

variable {s : Session} {budget : Nat}

theorem met_messageBox (s : Session) : s.met.engine.messageBox = s.engine.messageBox := by
  obtain ⟨_, _, _, _, _, _, hmet, -⟩ := s.met_cases
  rw [hmet]

/-- The update comes to its end: the player is not dead for good, and the tick does not fail. -/
def finishes (budget : Nat) (s : Session) : HostEvent → Prop
  | .update v => (s.see v).isOver = false ∧ ((s.see v).updateWith budget).1.isOk = true
  | _ => False

theorem updateWith_messageBox (budget : Nat) (s : Session) :
    (s.updateWith budget).2.engine.messageBox = true ↔ s.engine.messageBox = true ∧
      ¬(s.isOver = false ∧ (s.updateWith budget).1.isOk = true) := by
  have hnote : ∀ (t : Session) (sectionId : Int) (outcome : Option TickOutcome),
      (t.noteTick sectionId outcome).engine.messageBox = false := by
    intro t sectionId outcome
    rw [noteTick_engine]
  rcases s.update_kinds with hover | ⟨hover, hskips⟩ | ⟨hover, howned, hprogram⟩
  · rw [updateWith_over hover, met_messageBox, hover]
    simp
  · rw [updateWith_skips hover hskips, hnote, hover]
    simp [Except.isOk, Except.toBool]
  · have htick := s.met.engine.tickWith_messageBox budget s.engine.simulation.paused
    rw [updateWith_program hover howned hprogram, hover]
    rw [met_messageBox] at htick
    generalize s.met.engine.tickWith budget s.engine.simulation.paused = t at htick ⊢
    obtain ⟨f | outcome, e⟩ := t
    · dsimp only at htick ⊢
      rw [htick]
      simp [Except.isOk, Except.toBool]
    · dsimp only
      rw [hnote]
      simp [Except.isOk, Except.toBool]

/-! ## Events -/

/-- The mark is there after an event if a message box was shown, or if it was there and the event is
no update that comes to its end. -/
theorem handle_messageBox (budget : Nat) (s : Session) (event : HostEvent) :
    (s.handle budget event).2.engine.messageBox = true ↔
      event = .showMessageBox ∨ s.engine.messageBox = true ∧ ¬s.finishes budget event := by
  by_cases hbox : event = .showMessageBox
  · subst hbox
    exact iff_of_true rfl (.inl rfl)
  by_cases hupdate : ∃ v, event = .update v
  · obtain ⟨v, rfl⟩ := hupdate
    rw [or_iff_right nofun]
    exact (s.see v).updateWith_messageBox budget
  · have hunfinished : ¬s.finishes budget event := by
      intro hfinishes
      cases event with
      | update v => exact hupdate ⟨v, rfl⟩
      | _ => exact hfinishes
    obtain ⟨_, _, _, _, _, _, _, _, _, _, hengine, -, hkept⟩ :=
      s.handle_engine budget (not_exists.mp hupdate)
    rw [hengine, or_iff_right hbox, and_iff_left hunfinished]
    exact Bool.eq_iff_iff.mp (hkept hbox)

/-! ## Runs -/

/-- A message box was shown, and each event since was of a certain kind, which may depend on the
events before it. -/
def Boxed (kind : List HostEvent → HostEvent → Prop) (events : List HostEvent) : Prop :=
  ∃ earlier later, events = earlier ++ .showMessageBox :: later ∧
    ∀ before event after, later = before ++ event :: after →
      kind (earlier ++ .showMessageBox :: before) event

variable {kind : List HostEvent → HostEvent → Prop}

theorem not_boxed_nil : ¬Boxed kind [] := by
  rintro ⟨earlier, later, hnil, -⟩
  exact List.append_ne_nil_of_right_ne_nil earlier (List.cons_ne_nil _ _) hnil.symm

theorem boxed_concat {events : List HostEvent} {event : HostEvent} :
    Boxed kind (events ++ [event]) ↔
      event = .showMessageBox ∨ Boxed kind events ∧ kind events event := by
  constructor
  · rintro ⟨earlier, later, heq, hlater⟩
    rcases List.eq_nil_or_concat later with rfl | ⟨later, last, rfl⟩
    · exact .inl (List.singleton_inj.mp (List.append_inj' heq rfl).2)
    · rw [List.concat_eq_append, ← List.cons_append, ← List.append_assoc] at heq
      obtain ⟨rfl, hlast⟩ := List.append_inj' heq rfl
      cases hlast
      refine .inr ⟨⟨earlier, later, rfl, ?_⟩, hlater later event [] List.concat_eq_append⟩
      intro before event' after hsplit
      refine hlater before event' (after ++ [event]) ?_
      rw [hsplit, List.concat_eq_append, List.append_assoc, List.cons_append]
  · rintro (rfl | ⟨⟨earlier, later, rfl, hlater⟩, hkind⟩)
    · exact ⟨events, [], rfl, fun before _ _ hnil => by simp at hnil⟩
    · refine ⟨earlier, later ++ [event], by simp, ?_⟩
      intro before event' after hsplit
      rcases List.eq_nil_or_concat after with rfl | ⟨after, last, rfl⟩
      · obtain ⟨rfl, hlast⟩ := List.append_inj' hsplit rfl
        cases hlast
        exact hkind
      · rw [List.concat_eq_append, ← List.cons_append, ← List.append_assoc] at hsplit
        exact hlater before event' after (List.append_inj' hsplit rfl).1

/-- The event neither starts the level nor asks for an update. -/
def liesBetween (event : HostEvent) : Prop := event ≠ .start ∧ ∀ v, event ≠ .update v

/-- While a message box is there to be seen, the level does not start, and an update comes to its
end. -/
def Undisturbed (budget : Nat) (s : Session) (events : List HostEvent) : Prop :=
  ∀ before event after, events = before ++ event :: after →
    Boxed (fun _ => liesBetween) before →
    event ≠ .start ∧ ∀ v, event = .update v → (s.run budget before).2.finishes budget event

theorem Undisturbed.of_concat {events : List HostEvent} {event : HostEvent}
    (h : s.Undisturbed budget (events ++ [event])) : s.Undisturbed budget events := by
  intro before event' after hsplit
  refine h before event' (after ++ [event]) ?_
  rw [hsplit, List.append_assoc, List.cons_append]

/-- The mark is there as long as no update came to its end since a message box was shown. -/
theorem run_messageBox (hnew : s.engine.messageBox = false) (events : List HostEvent) :
    (s.run budget events).2.engine.messageBox = true ↔
      Boxed (fun before event => ¬(s.run budget before).2.finishes budget event) events := by
  induction events using List.reverseRecOn with
  | nil => exact iff_of_false (hnew ▸ Bool.false_ne_true) not_boxed_nil
  | append_singleton events event ih =>
    rw [run_concat, handle_messageBox, ih, boxed_concat]

theorem run_messageBox_undisturbed (hnew : s.engine.messageBox = false)
    (events : List HostEvent) (h : s.Undisturbed budget events) :
    (s.run budget events).2.engine.messageBox = true ↔ Boxed (fun _ => liesBetween) events := by
  induction events using List.reverseRecOn with
  | nil => exact iff_of_false (hnew ▸ Bool.false_ne_true) not_boxed_nil
  | append_singleton events event ih =>
    rw [run_concat, handle_messageBox, ih h.of_concat, boxed_concat]
    -- with a message box to be seen, an update finishes and the level does not start, and there the
    -- two kinds of events are the same
    refine or_congr_right (and_congr_right fun hboxed => ?_)
    obtain ⟨hstart, hfinishes⟩ := h events event [] rfl hboxed
    constructor
    · exact fun hunfinished => ⟨hstart, fun v hv => hunfinished (hfinishes v hv)⟩
    · rintro ⟨-, hupdate⟩ hfinished
      cases event with
      | update v => exact hupdate v rfl
      | _ => exact hfinished

/-- The mark of a message box is there as long as no update came to its end since it was shown. So
if no message box is met by a start or by an update that does not come to its end, the mark is
there if and only if a message box was shown since the latest update and the level did not start in
between. Whether it is there when an update begins is what the conditions of that update see, all
the way through. -/
theorem message_box_seen_once (budget : Nat) (hnew : s.engine.messageBox = false)
    (events : List HostEvent) :
    let mark := (s.run budget events).2.engine.messageBox
    (mark = true ↔
      Boxed (fun before event => ¬(s.run budget before).2.finishes budget event) events) ∧
    (s.Undisturbed budget events → (mark = true ↔ Boxed (fun _ => liesBetween) events)) ∧
    ∀ (v : View) (e : Engine) (place : Option Place),
      Engine.Visits ((s.run budget events).2.see v).met.engine.beginTick.classify.2 e →
        (Condition.messageBox.evaluate place e).outcome = .ok (.ofBool mark) := by
  refine ⟨run_messageBox hnew events, run_messageBox_undisturbed hnew events, ?_⟩
  intro v e place hvisits
  rw [Condition.evaluate_messageBox, hvisits.messageBox,
    (Engine.classify_untouched _).messageBox]
  exact congrArg _ (congrArg _ (met_messageBox _))

/-- A message box is shown, and the next tick takes the mark away. -/
theorem message_box_seen_by_one_tick :
    let s : Session :=
      { engine := (default : Engine).load (some [.mk (.ofKeys (.ofList [.right])) (.countdown 9)])
        level := "stage.lvlx", config := {}, backupName := "latest.rec.bak", seed := 7 }
    s.Undisturbed 4 [.showMessageBox, .update { player := {} }] ∧
      (s.run 4 [.showMessageBox]).2.engine.messageBox = true ∧
      (s.run 4 [.showMessageBox, .update { player := {} }]).2.engine.messageBox = false := by
  intro s
  have hshown : Boxed (fun _ => liesBetween) ([] ++ [.showMessageBox]) :=
    boxed_concat.mpr (.inl rfl)
  have hticked : ¬Boxed (fun _ => liesBetween) [.showMessageBox, .update { player := {} }] := by
    rw [← List.singleton_append, boxed_concat]
    rintro (hbox | ⟨-, -, hupdate⟩)
    · cases hbox
    · exact hupdate _ rfl
  have hundisturbed : s.Undisturbed 4 [.showMessageBox, .update { player := {} }] := by
    rintro (_ | ⟨_, _ | ⟨_, before⟩⟩) event after hsplit hboxed
    · exact absurd hboxed not_boxed_nil
    · cases hsplit
      refine ⟨nofun, fun v hv => ?_⟩
      cases hv
      exact ⟨rfl, by cbv⟩
    · simp at hsplit
  have hbefore : s.Undisturbed 4 [.showMessageBox] :=
    Undisturbed.of_concat hundisturbed
  have honce := message_box_seen_once (s := s) 4 rfl
  refine ⟨hundisturbed, ((honce _).2.1 hbefore).mpr hshown, ?_⟩
  exact Bool.not_eq_true _ ▸ mt ((honce _).2.1 hundisturbed).mp hticked

/-- A program waits for a message box. One that was shown before the death of the player, or before
the level started, satisfies it on a later tick. -/
theorem message_box_outlives_update : ∃ s : Session, s.engine.messageBox = false ∧
    let dying : List HostEvent := [.start, .showMessageBox, .update { player := { dead := true } }]
    let restarting : List HostEvent := [.showMessageBox, .start]
    ¬Boxed (fun _ => liesBetween) dying ∧ (s.run 4 dying).2.engine.messageBox = true ∧
      (s.run 4 (dying ++ [.update { player := {} }])).2.engine.simulation.written =
        [.ofKeys (.ofList [.jump])] ∧
      ¬Boxed (fun _ => liesBetween) restarting ∧
      (s.run 4 restarting).2.engine.messageBox = true ∧
      (s.run 4 (restarting ++ [.update { player := {} }])).2.engine.simulation.written =
        [.ofKeys (.ofList [.jump])] := by
  let text := "\x7b\"sections\": \x7b\"0\": [\"r\", \"mb\", \"j\", 100]\x7d\x7d"
  let s : Session :=
    { engine := { (default : Engine) with files := ⟨[(["__runs", "stage.json"], text)]⟩ }
      level := "stage.lvlx", config := {}, backupName := "latest.rec.bak", seed := 7 }
  let p : LevelProgram :=
    { sections := [(0, [.mk (.ofKeys (.ofList [.right])) .messageBox,
        .mk (.ofKeys (.ofList [.jump])) (.countdown 100)])]
      seed := 8675309, legacySeed := 8675309 }
  obtain ⟨random, seeds, seed, hstart⟩ :=
    start_of_compiled (s := s) (p := p) (q := p) (t := { s.reset with program := some p })
      (by cbv) rfl rfl rfl
  obtain ⟨random', seeds', seed', hrestart⟩ :=
    start_of_compiled (s := s.showMessageBox) (p := p) (q := p)
      (t := { s.showMessageBox.reset with program := some p }) (by cbv) rfl rfl rfl
  have hdying : ¬Boxed (fun _ => liesBetween)
      [.start, .showMessageBox, .update { player := { dead := true } }] := by
    rw [← List.dropLast_concat_getLast (List.cons_ne_nil _ _), boxed_concat]
    rintro (hbox | ⟨-, -, hupdate⟩)
    · cases hbox
    · exact hupdate _ rfl
  have hrestarting : ¬Boxed (fun _ => liesBetween) [.showMessageBox, .start] := by
    rw [← List.singleton_append, boxed_concat]
    rintro (hbox | ⟨-, hrestarts, -⟩)
    · cases hbox
    · exact hrestarts rfl
  refine ⟨s, rfl, hdying, ?_, ?_, hrestarting, ?_, ?_⟩
  · rw [run_cons, handle, hstart]
    cbv
  · rw [List.cons_append, run_cons, handle, hstart]
    cbv
  · rw [run_cons, handle, run_cons, handle, hrestart]
    cbv
  · rw [List.cons_append, run_cons, handle, List.cons_append, run_cons, handle, hrestart]
    cbv

end Session

end TickScript
