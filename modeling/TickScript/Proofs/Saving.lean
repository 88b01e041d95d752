import TickScript.Proofs.Glances
import TickScript.Proofs.SearchCourse

/-!
# Saving what is known

The store of a search is changed by a start, by a clearing and by the outcome of a probe. Each
of these saves the record before it returns, unless it fails: a start that fails may leave a
lower bound behind that no file has.

A property of the store that everything keeps which does not fail (`Engine.Secure`) is kept by
evaluation, by the outcome check of a probe and by a tick, unless they fail
(`Secure.evaluate`, `Secure.classify`, `Secure.tickOn`). One such property is that the file has
what is known (`Engine.Saved`).
-/

namespace TickScript

/-! ## What does not touch the store -/

namespace Engine

theorem Looked.search {a b : Engine} (h : Looked a b) : SameSearch a b := by
  rcases h with rfl | rfl
  · exact .refl _
  · exact look_search _

theorem read_search (e : Engine) (r : Reading) : SameSearch e (e.read r).2 := by
  cases r with
  | x | y | speedX | speedY => exact look_search e
  | overlayX | overlayY | overlayState => exact lookOverlay_search e

theorem compare_search (e : Engine) (r : Reading) (args : List Arg) :
    SameSearch e (e.compare r args).2 := by
  obtain hcompare | hcompare := e.compare_snd r args
  · rw [hcompare]
    exact .refl e
  · rw [hcompare]
    exact e.read_search r

theorem performInsert_search (e : Engine) (name : String) (args : List Arg) :
    SameSearch e (e.performInsert name args).engine := by
  unfold performInsert
  split
  · exact .refl e
  · exact expand_search e _

theorem performRepeated_search (e : Engine) (name : String) (args : List Arg) :
    SameSearch e (e.performRepeated name args).engine := by
  unfold performRepeated
  split
  · exact .refl e
  · split
    · exact .refl e
    · split
      · exact .refl e
      · exact expand_search e _

theorem setRandom_search (e : Engine) (random : Twister) :
    SameSearch e { e with random } := ⟨⟨rfl, rfl, rfl⟩, rfl, rfl, rfl⟩

theorem performRandom_search (e : Engine) (args : List Arg) :
    SameSearch e (e.performRandom args).engine := by
  unfold performRandom
  split
  · split
    · exact .refl e
    · exact .refl e
    · split
      · exact .refl e
      · dsimp only
        split
        · exact e.setRandom_search _
        · split
          · exact e.setRandom_search _
          · split
            · exact e.setRandom_search _
            · exact (e.setRandom_search _).trans (expand_search _ _)
  · exact .refl e

theorem performScript_search (e : Engine) (name : String) (args : List Arg) :
    SameSearch e (e.performScript name args).engine := by
  unfold performScript
  split
  · split
    · exact .refl e
    · split
      · exact .refl e
      · exact ⟨⟨rfl, rfl, rfl⟩, rfl, rfl, rfl⟩
  · exact .refl e

theorem finish_search (e : Engine) (m : Expander) (name : String) (args : List Arg)
    (bodies : List Step × List Step) (holds : Bool) :
    SameSearch e (m.finish name args bodies holds e).2 := by
  unfold Expander.finish
  dsimp only
  generalize (if holds then bodies.1 else bodies.2) = body
  by_cases hloop : m = .loop ∧ holds = true
  · rw [if_pos hloop]
    exact expand_search e _
  · rw [if_neg hloop]
    split
    · exact .refl e
    · exact expand_search e _

end Engine

/-! ## What is kept unless something fails -/

def Failed {α : Type} (result : Except Fault α) : Prop := ∃ f, result = .error f

theorem not_failed_ok {α : Type} {a : α} : ¬Failed (.ok a) := by
  rintro ⟨f, hfailed⟩
  cases hfailed

namespace Engine

/-- A property of the store that everything keeps which does not fail. -/
structure Secure (P : Engine → Prop) : Prop where
  same : ∀ {a b}, P a → SameStore a b → P b
  startSearch : ∀ {e e' args place candidate}, P e →
    e.startSearch args place = (.ok candidate, e') → P e'
  clearRecord : ∀ {e}, P e → P e.clearRecord
  settle : ∀ {e e' p outcome report}, P e →
    e.settle p (.ok (some outcome)) = (.ok (some report), e') → P e'

namespace Secure

variable {P : Engine → Prop} {late : Late} {e : Engine}

theorem search (h : Secure P) {a b : Engine} (ha : P a) (hab : SameSearch a b) : P b :=
  h.same ha hab.toSameStore

theorem performSearch (h : Secure P) (he : P e) (args : List Arg) (place : Option Place) :
    Failed (e.performSearch args place).outcome ∨ P (e.performSearch args place).engine := by
  unfold Engine.performSearch
  split
  · cases hstart : e.startSearch args place with
    | mk result e' =>
      cases result with
      | error f => exact .inl ⟨f, rfl⟩
      | ok candidate => exact .inr (h.startSearch he hstart)
  · exact .inl ⟨_, rfl⟩

theorem perform (h : Secure P) (he : P e) (m : Expander) (name : String) (args : List Arg)
    (place : Option Place) :
    Failed (e.perform m name args place).outcome ∨ P (e.perform m name args place).engine := by
  cases m with
  | insert => exact .inr (h.search he (e.performInsert_search name args))
  | repeated => exact .inr (h.search he (e.performRepeated_search name args))
  | randomInput => exact .inr (h.search he (e.performRandom_search args))
  | scriptedInput => exact .inr (h.search he (e.performScript_search name args))
  | optimize => exact h.performSearch he args place
  | clearSearch =>
    simp only [Engine.perform, Engine.performClear]
    split
    · exact .inr (h.clearRecord he)
    · exact .inr he
  | _ => exact .inr he

theorem conclude (h : Secure P) {t : Turn Arg} (ht : Failed t.outcome ∨ P t.engine)
    (m : Expander) (name : String) (args : List Arg) (bodies : List Step × List Step) :
    Failed (m.conclude name args bodies t).outcome ∨
      P (m.conclude name args bodies t).engine := by
  unfold Expander.conclude
  split
  · next f _ => exact .inl ⟨f, rfl⟩
  · next v hv =>
    have hengine : P t.engine := by
      rcases ht with ⟨f, hf⟩ | ht
      · rw [hv] at hf
        cases hf
      · exact ht
    exact .inr (h.search hengine (finish_search _ _ _ _ _ _))

end Secure

end Engine

/-- Conditions that are read on the spot keep the property, too. -/
def Engine.Secure.Covers (P : Engine → Prop) (late : Late) : Prop :=
  ∀ {e}, P e → ∀ place c, Failed (late place c e).outcome ∨ P (late place c e).engine

section

variable {P : Engine → Prop} {late : Late}

mutual

theorem Condition.evaluateWith_secure (h : Engine.Secure P) (hlate : Engine.Secure.Covers P late) :
    ∀ (c : Condition) (place : Option Place) {e : Engine}, P e →
      Failed (c.evaluateWith late place e).outcome ∨ P (c.evaluateWith late place e).engine
  | .countdown n, place, e, he => by
    rw [Condition.evaluateWith]
    exact .inr he
  | .toggle f, place, e, he => by
    rw [Condition.evaluateWith]
    exact .inr (h.same he ⟨rfl, rfl, rfl⟩)
  | .native test label, place, e, he => by
    rw [Condition.evaluateWith]
    exact .inr (h.search he (e.ask_looked test).search)
  | .call name args, place, e, he => by
    cases hname : Builtin.ofName? name with
    | none =>
      rw [Condition.evaluateWith, hname]
      exact .inl ⟨_, rfl⟩
    | some builtin =>
      cases builtin with
      | check c =>
        rw [Condition.evaluateWith, hname]
        exact .inr (h.search he (e.check_looked c).search)
      | compare r =>
        rw [Condition.evaluateWith, hname]
        exact .inr (h.search he (e.compare_search r args))
      | expand m =>
        rcases m.kinds with rfl | rfl | hm | hm
        · rw [Condition.evaluateWith, hname]
          exact evaluateInOrder_secure h hlate args he
        · rw [Condition.evaluateWith, hname]
          exact evaluateAnyOf_secure h hlate args place 0 he
        · cases args with
          | nil =>
            rw [Condition.evaluateWith, hname]
            cases m with
            | branch | onlyIf | onlyUnless | loop => exact .inl ⟨_, rfl⟩
            | _ => cases hm
          | cons guard others =>
            have hguard := Arg.evaluateWith_secure h hlate guard (place.map (·.arg 0)) he
            rw [Condition.evaluateWith_guarded hname hm]
            split
            · exact .inl ⟨_, rfl⟩
            · split
              · exact .inl ⟨_, rfl⟩
              · exact h.conclude hguard m name _ _
        · rw [Condition.evaluateWith_perform hname hm]
          exact h.perform he m name args place

theorem Arg.evaluateWith_secure (h : Engine.Secure P) (hlate : Engine.Secure.Covers P late) :
    ∀ (x : Arg) (place : Option Place) {e : Engine}, P e →
      Failed (x.evaluateWith late place e).outcome ∨ P (x.evaluateWith late place e).engine
  | .condition c, place, e, he => by
    rw [Arg.evaluateWith]
    exact Condition.evaluateWith_secure h hlate c place he
  | .raw v, place, e, he => by
    rw [Arg.evaluateWith]
    split
    · exact .inl ⟨_, rfl⟩
    · exact hlate he place _
  | .steps body, place, e, he => by
    simp only [Arg.evaluateWith]
    exact .inr he
  | .inputs i, place, e, he => by
    simp only [Arg.evaluateWith]
    exact .inr he
  | .choices list, place, e, he => by
    simp only [Arg.evaluateWith]
    exact .inr he
  | .script entries, place, e, he => by
    simp only [Arg.evaluateWith]
    exact .inr he

theorem evaluateInOrder_secure (h : Engine.Secure P) (hlate : Engine.Secure.Covers P late) :
    ∀ (args : List Arg) {e : Engine}, P e →
      Failed (evaluateInOrder late args e).outcome ∨ P (evaluateInOrder late args e).engine
  | [], e, he => by
    rw [evaluateInOrder]
    exact .inr he
  | x :: rest, e, he => by
    have hx := Arg.evaluateWith_secure h hlate x none he
    rw [evaluateInOrder]
    split
    · exact .inl ⟨_, rfl⟩
    · next v hv =>
      rw [hv] at hx
      have hengine := hx.resolve_left not_failed_ok
      split
      · exact .inr hengine
      · exact .inr hengine

theorem evaluateAnyOf_secure (h : Engine.Secure P) (hlate : Engine.Secure.Covers P late) :
    ∀ (args : List Arg) (place : Option Place) (index : Nat) {e : Engine}, P e →
      Failed (evaluateAnyOf late place index args e).outcome ∨
        P (evaluateAnyOf late place index args e).engine
  | [], place, index, e, he => by
    rw [evaluateAnyOf]
    exact .inr he
  | x :: rest, place, index, e, he => by
    have hx := Arg.evaluateWith_secure h hlate x (place.map (·.arg index)) he
    rw [evaluateAnyOf]
    dsimp only
    split
    · exact .inl ⟨_, rfl⟩
    · next v hv =>
      rw [hv] at hx
      have hengine := hx.resolve_left not_failed_ok
      split
      · exact .inr hengine
      · exact evaluateAnyOf_secure h hlate rest place (index + 1) hengine

end

end

namespace Engine

namespace Secure

variable {P : Engine → Prop} {e : Engine}

theorem evaluate (h : Secure P) (c : Condition) (place : Option Place) (he : P e) :
    Failed (c.evaluate place e).outcome ∨ P (c.evaluate place e).engine := by
  have hread : Covers P Condition.evaluateRead := fun he place c =>
    c.evaluateWith_secure h (fun he _ _ => .inr he) place he
  exact c.evaluateWith_secure h hread place he

theorem judge (h : Secure P) (he : P e) (p : Probe) :
    Failed (e.judge p).1 ∨ P (e.judge p).2.2 := by
  unfold Engine.judge
  dsimp only
  have hlow := h.evaluate p.failLow none he
  split
  · exact .inl ⟨_, rfl⟩
  · next v hv =>
    rw [hv] at hlow
    have hlow' := hlow.resolve_left not_failed_ok
    have hhigh := h.evaluate p.failHigh none hlow'
    split
    · exact .inr hlow'
    · split
      · exact .inl ⟨_, rfl⟩
      · next w hw =>
        rw [hw] at hhigh
        have hhigh' := hhigh.resolve_left not_failed_ok
        have hwithin := h.evaluate p.success none hhigh'
        split
        · exact .inr hhigh'
        · split
          · exact .inl ⟨_, rfl⟩
          · next u hu =>
            rw [hu] at hwithin
            exact .inr (hwithin.resolve_left not_failed_ok)

theorem settles (h : Secure P) (he : P e) (p : Probe)
    (judged : Except Fault (Option Outcome)) :
    Failed (e.settle p judged).1 ∨ P (e.settle p judged).2 := by
  have hsettles := e.settles_settle p judged
  generalize hresult : e.settle p judged = result at hsettles
  cases hsettles with
  | failed | jammed => exact .inl ⟨_, rfl⟩
  | goesOn => exact .inr (h.same he ⟨rfl, rfl, rfl⟩)
  | settled => exact .inr (h.settle he hresult)

theorem classify (h : Secure P) (he : P e) : Failed e.classify.1 ∨ P e.classify.2 := by
  cases hprobe : e.probe with
  | none =>
    rw [classify_of_none hprobe]
    exact .inr he
  | some p =>
    have haside : P (e.withProbe none) := h.same he ⟨rfl, rfl, rfl⟩
    rw [classify_of_probe hprobe]
    rcases h.judge haside p with ⟨f, hf⟩ | hjudge
    · rw [hf]
      exact .inl ⟨f, rfl⟩
    · exact h.settles (h.search hjudge (keepInPlace_search _ _)) _ _

theorem afterTurn (h : Secure P) (he : P e) (p : Program) (step : Step) :
    Failed (e.turnAt p step).outcome ∨ P (e.afterTurn p step) := by
  rcases h.evaluate step.condition (some ⟨.step p.cursor, []⟩) he with hfailed | hturn
  · exact .inl hfailed
  · exact .inr (h.search hturn (setAt_search _ _ _))

theorem walk (h : Secure P) : ∀ (budget : Nat) {e : Engine}, P e →
    Failed (e.walk budget).1 ∨ P (e.walk budget).2
  | 0, _, _ => .inl ⟨.overrun, rfl⟩
  | budget + 1, e, he => by
    have hpaces := e.paces_pace
    rw [walk_succ]
    cases hpace : e.pace with
    | inl result =>
      rw [hpace] at hpaces
      cases hpaces with
      | idle => exact .inr he
      | ended => exact .inr (h.same he ⟨rfl, rfl, rfl⟩)
      | failed => exact .inl ⟨_, rfl⟩
      | @held p step _ _ hturn =>
        have hafter := h.afterTurn he p step
        rw [hturn] at hafter
        exact .inr (h.same (hafter.resolve_left not_failed_ok) ⟨rfl, rfl, rfl⟩)
    | inr e' =>
      rw [hpace] at hpaces
      cases hpaces with
      | @left p step v _ _ hturn _ =>
        have hafter := h.afterTurn he p step
        rw [hturn] at hafter
        exact h.walk budget (h.search (hafter.resolve_left not_failed_ok) (leave_search _ _ _ _))

/-- A tick keeps the property unless it fails. -/
theorem tickOn (h : Secure P) (he : P e) (budget : Nat) (m : Moment) :
    Failed (e.tickOn budget m).1 ∨ P (e.tickOn budget m).2 := by
  have hmeet : P (e.meet m) := h.same he ⟨rfl, rfl, rfl⟩
  have hbegin : P (e.meet m).beginTick := h.same hmeet ⟨rfl, rfl, rfl⟩
  rcases e.tickOn_cases budget m with ⟨-, htick⟩ | ⟨-, -, htick⟩ | ⟨-, -, htick⟩
  · rw [htick]
    exact .inr hmeet
  · rw [htick]
    exact .inr (h.same hbegin ⟨rfl, rfl, rfl⟩)
  · have hclassified := h.classify hbegin
    rw [htick, Engine.play]
    split
    · exact .inl ⟨_, rfl⟩
    · next heq =>
      rw [heq] at hclassified
      exact .inr (hclassified.resolve_left not_failed_ok)
    · next heq =>
      rw [heq] at hclassified
      exact h.walk budget (hclassified.resolve_left not_failed_ok)

end Secure

/-! ## The file has what is known -/

end Engine

theorem SearchRecord.history_of_apply {r r' : SearchRecord} {mode : Mode} {outcome : Outcome}
    (h : r.apply mode outcome = .ok r') : r'.history = r.history := by
  obtain ⟨low, high, middle, history, lastSaved⟩ := r
  cases outcome with
  | tooLow => cases high <;> cases middle <;> cases h <;> rfl
  | tooHigh =>
    cases middle <;> cases h
    rfl
  | withinRange => cases mode <;> cases h <;> rfl

/-- What a deed makes of the history: an opened probe appends its candidate. -/
def Deed.onHistory (history : List Int) : Deed → List Int
  | .opened _ _ candidate => history ++ [candidate]
  | .cleared => []
  | _ => history

namespace Engine

/-- The store comes from that of another engine by deeds, each of which was saved. -/
def Saved (e₀ e : Engine) : Prop :=
  ∃ deeds, Course e₀ deeds e ∧
    e.record.history = deeds.foldl Deed.onHistory e₀.record.history ∧
    (deeds ≠ [] → e.files.read? e.recordPath = some e.record.write)

theorem Saved.refl (e : Engine) : Saved e e := ⟨[], .start, rfl, fun hne => absurd rfl hne⟩

theorem Saved.same {e₀ a b : Engine} (h : Saved e₀ a) (hab : SameStore a b) : Saved e₀ b := by
  obtain ⟨deeds, hcourse, hhistory, hfile⟩ := h
  refine ⟨deeds, hcourse.kept hab, ?_, ?_⟩
  · rw [hab.record, hhistory]
  · intro hne
    rw [hab.record, hab.files, hab.recordPath, hfile hne]

/-- One more deed, after which the record is saved. -/
theorem Saved.done {e₀ e e' : Engine} {d : Deed} (h : Saved e₀ e) (hdone : Does e d e')
    (hhistory : e'.record.history = d.onHistory e.record.history)
    (hfile : e'.files.read? e'.recordPath = some e'.record.write) : Saved e₀ e' := by
  obtain ⟨deeds, hcourse, hdeeds, -⟩ := h
  refine ⟨deeds ++ [d], hcourse.done hdone, ?_, fun _ => hfile⟩
  rw [hhistory, hdeeds, List.foldl_append]
  rfl

/-- What is saved in two parts is saved as a whole. -/
theorem Saved.trans {e₀ e e' : Engine} (h : Saved e₀ e) (g : Saved e e') : Saved e₀ e' := by
  obtain ⟨deeds, hcourse, hhistory, hfile⟩ := h
  obtain ⟨more, hcourse', hhistory', hfile'⟩ := g
  refine ⟨deeds ++ more, hcourse.trans hcourse', ?_, ?_⟩
  · rw [hhistory', hhistory, List.foldl_append]
  · intro hne
    by_cases hmore : more = []
    · subst hmore
      have hsame := hcourse'.of_nil
      rw [hsame.record, hsame.files, hsame.recordPath]
      exact hfile (by simpa using hne)
    · exact hfile' hmore

theorem read?_saveRecord (e : Engine) :
    e.saveRecord.files.read? e.saveRecord.recordPath = some e.saveRecord.record.write :=
  Files.read?_write _ _ _

/-- Whatever does not fail saves what it has changed. -/
theorem secure_saved (e₀ : Engine) : Secure (Saved e₀) where
  same := Saved.same
  startSearch := by
    intro e e' args place candidate h hstart
    obtain ⟨probe, hread, hopens⟩ := opens_of_startSearch hstart
    have hfile : e'.files.read? e'.recordPath = some e'.record.write := by
      rw [hopens.saved, hopens.recordPath]
      exact Files.read?_write _ _ _
    exact h.done (.opened hread hstart) hopens.history hfile
  clearRecord := by
    intro e h
    exact h.done .cleared rfl (read?_saveRecord _)
  settle := by
    intro e e' p outcome report h hsettle
    obtain ⟨record, happly, rfl, -⟩ := settled_of_settle hsettle
    have hhistory : record.history = e.record.history := SearchRecord.history_of_apply happly
    exact h.done (.settled hsettle) hhistory (read?_saveRecord _)

end Engine

end TickScript
