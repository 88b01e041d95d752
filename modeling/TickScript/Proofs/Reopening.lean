import TickScript.Session
import TickScript.Proofs.RecordFile
import TickScript.Proofs.Restamped
import TickScript.Proofs.Searching

/-!
# Searching through restarts

A search goes on from visit to visit, each with an engine of its own and a host that does with
it what it likes (`Act`). Either the store stays in memory, or each visit opens it again and
loads what the file has. The reader of the file is a parameter: it takes whole numbers up to a
length, or numbers of any size (`none`).

* `Engine.Secure.stay`, `Engine.Restamped.stay`: what an engine keeps through all that a host
  does.
* `Engine.restart_unseen`: the host cannot tell the two apart.
-/

namespace TickScript

/-! ## What a host does -/

inductive Act where
  | tick (m : Moment)
  | tickScript (paused : Bool)
  | load (program : Option (List Step))
  /-- A level starts: its random numbers begin anew. -/
  | seed (seed legacySeed : Int)
  | cancel
  /-- The simulation goes on by itself. -/
  | simulate (moves : Simulation → Simulation)

namespace Engine

/-- Aborts a run: drops the program, the override, the script and the open probe. -/
def cancel (e : Engine) : Engine := { e.clear with script := e.script.cleared, probe := none }

def seed (e : Engine) (seed legacySeed : Int) : Engine :=
  { e with
    random := .ofSeed seed
    simulation := { e.simulation with seeds := some (seed, legacySeed) } }

/-- What comes back to the host: the outcome of a tick, and the engine. -/
abbrev Return := Except Fault (Option TickOutcome) × Engine

def act (budget : Nat) (e : Engine) : Act → Return
  | .tick m => ((e.tickOn budget m).1.map some, (e.tickOn budget m).2)
  | .tickScript paused => (.ok none, e.tickScript paused)
  | .load program => (.ok none, e.load program)
  | .seed seed legacySeed => (.ok none, e.seed seed legacySeed)
  | .cancel => (.ok none, e.cancel)
  | .simulate moves => (.ok none, { e with simulation := moves e.simulation })

/-- What comes back from each act, and the engine that is left. -/
def stay (budget : Nat) : List Act → Engine → List Return × Engine
  | [], e => ([], e)
  | act :: rest, e =>
    (e.act budget act :: ((e.act budget act).2.stay budget rest).1,
      ((e.act budget act).2.stay budget rest).2)

theorem stay_cons (budget : Nat) (act : Act) (rest : List Act) (e : Engine) :
    e.stay budget (act :: rest) =
      (e.act budget act :: ((e.act budget act).2.stay budget rest).1,
        ((e.act budget act).2.stay budget rest).2) := rfl

theorem exists_return (budget : Nat) (act : Act) (rest : List Act) (e : Engine) :
    ∃ r ∈ (e.stay budget (act :: rest)).1, r.2 = (e.stay budget (act :: rest)).2 := by
  induction rest generalizing act e with
  | nil =>
    rw [stay_cons, stay]
    exact ⟨e.act budget act, List.mem_singleton.mpr rfl, rfl⟩
  | cons next rest ih =>
    obtain ⟨r, hr, hlast⟩ := ih next (e.act budget act).2
    rw [stay_cons]
    exact ⟨r, List.mem_cons_of_mem _ hr, hlast⟩

/-! ## Saved when control returns -/

section

variable {P : Engine → Prop} {e : Engine}

theorem load_store (e : Engine) (program : Option (List Step)) : SameStore e (e.load program) := by
  cases program <;> exact ⟨rfl, rfl, rfl⟩

theorem tickScript_store (e : Engine) (paused : Bool) : SameStore e (e.tickScript paused) := by
  unfold tickScript
  split
  · exact .refl e
  · dsimp only
    split
    · exact ⟨rfl, rfl, rfl⟩
    · split <;> exact ⟨rfl, rfl, rfl⟩

theorem simulate_store (e : Engine) (random : Twister) (simulation : Simulation) :
    SameStore e { e with random, simulation } := ⟨rfl, rfl, rfl⟩

theorem cancel_store (e : Engine) : SameStore e e.cancel := ⟨rfl, rfl, rfl⟩

theorem Secure.act (h : Secure P) (he : P e) (budget : Nat) (act : Act) :
    Failed (e.act budget act).1 ∨ P (e.act budget act).2 := by
  cases act with
  | tick m =>
    rcases h.tickOn he budget m with ⟨f, hf⟩ | htick
    · exact .inl ⟨f, by rw [Engine.act, hf]; rfl⟩
    · exact .inr htick
  | tickScript paused => exact .inr (h.same he (e.tickScript_store paused))
  | load program => exact .inr (h.same he (e.load_store program))
  | seed seed legacySeed => exact .inr (h.same he (e.simulate_store _ _))
  | cancel => exact .inr (h.same he e.cancel_store)
  | simulate moves => exact .inr (h.same he (e.simulate_store e.random _))

theorem Secure.stay (h : Secure P) (budget : Nat) (acts : List Act) (he : P e)
    (hok : ∀ r ∈ (e.stay budget acts).1, ¬Failed r.1) :
    (∀ r ∈ (e.stay budget acts).1, P r.2) ∧ P (e.stay budget acts).2 := by
  induction acts generalizing e with
  | nil =>
    rw [stay]
    exact ⟨fun r hr => absurd hr List.not_mem_nil, he⟩
  | cons act rest ih =>
    rw [stay_cons] at hok ⊢
    have hact : P (e.act budget act).2 :=
      (h.act he budget act).resolve_left (hok (e.act budget act) List.mem_cons_self)
    obtain ⟨hreturns, hlast⟩ := ih hact fun r hr => hok r (List.mem_cons_of_mem _ hr)
    refine ⟨?_, hlast⟩
    intro r hr
    rcases List.mem_cons.mp hr with rfl | hr
    · exact hact
    · exact hreturns r hr

end

/-- From return to return, what was done is saved. -/
theorem saved_chain (budget : Nat) (acts : List Act) (e : Engine)
    (hok : ∀ r ∈ (e.stay budget acts).1, ¬Failed r.1) {later : List Engine}
    (hlater : List.IsChain Saved ((e.stay budget acts).2 :: later)) :
    List.IsChain Saved (e :: ((e.stay budget acts).1.map (·.2) ++ later)) := by
  induction acts generalizing e with
  | nil => exact hlater
  | cons act rest ih =>
    rw [stay_cons] at hok hlater ⊢
    have hact : Saved e (e.act budget act).2 :=
      ((secure_saved e).act (.refl e) budget act).resolve_left
        (hok (e.act budget act) List.mem_cons_self)
    exact .cons_cons hact (ih _ (fun r hr => hok r (List.mem_cons_of_mem _ hr)) hlater)

/-! ## The same at another time -/

section

variable {a b : Engine}

theorem Restamped.simulate (h : Restamped a b) (random : Twister → Twister)
    (moves : Simulation → Simulation) :
    Restamped { a with random := random a.random, simulation := moves a.simulation }
      { b with random := random b.random, simulation := moves b.simulation } := by
  obtain ⟨saved, files, now, rfl⟩ := h
  exact ⟨saved, files, now, rfl⟩

theorem Restamped.act (h : Restamped a b) (budget : Nat) (act : Act) :
    Alike Restamped (a.act budget act) (b.act budget act) := by
  cases act with
  | tick m =>
    obtain ⟨hresult, htick⟩ := h.tickOn budget m
    exact ⟨congrArg (Except.map some) hresult, htick⟩
  | tickScript paused =>
    obtain ⟨saved, files, now, rfl⟩ := h
    refine ⟨rfl, ?_⟩
    simp only [Engine.act, tickScript]
    split
    · exact ⟨saved, files, now, rfl⟩
    · have hscript : (a.restamp saved files now).script = a.script := rfl
      rw [hscript]
      split
      · exact ⟨saved, files, now, rfl⟩
      · split <;> exact ⟨saved, files, now, rfl⟩
  | load program =>
    obtain ⟨saved, files, now, rfl⟩ := h
    cases program <;> exact ⟨rfl, saved, files, now, rfl⟩
  | seed seed legacySeed =>
    exact ⟨rfl, h.simulate (fun _ => .ofSeed seed) ({ · with seeds := some (seed, legacySeed) })⟩
  | cancel =>
    obtain ⟨saved, files, now, rfl⟩ := h
    exact ⟨rfl, saved, files, now, rfl⟩
  | simulate moves => exact ⟨rfl, h.simulate id moves⟩

theorem Restamped.stay (h : Restamped a b) (budget : Nat) (acts : List Act) :
    List.Forall₂ (Alike Restamped) (a.stay budget acts).1 (b.stay budget acts).1 ∧
      Restamped (a.stay budget acts).2 (b.stay budget acts).2 := by
  induction acts generalizing a b with
  | nil => exact ⟨.nil, h⟩
  | cons act rest ih =>
    have hact := h.act budget act
    obtain ⟨hreturns, hlast⟩ := ih hact.2
    rw [stay_cons, stay_cons]
    exact ⟨.cons hact hreturns, hlast⟩

end

end Engine

/-! ## Visits -/

/-- An engine as it comes, and what the host does with it. -/
structure Visit where
  engine : Engine
  acts : List Act

namespace Visit

/-- The engine on the store that the last visit has left in memory. -/
def keep (v : Visit) (now : String) (store : Engine) : Engine :=
  { v.engine with now }.onStore store

/-- The engine on a new store, loaded with what the file of the last visit has, by a reader that
takes whole numbers up to a length. -/
def reopen (length : Option Nat) (v : Visit) (now : String) (store : Engine) : Engine :=
  (({ v.engine with now }.onStore { store with record := .fresh now }).loadRecord length).2

end Visit

namespace Engine

/-- One visit after the other, each at its own time: what comes back to the host on each, and
the engine that is left at the end. -/
def visit (budget : Nat) (enter : Visit → String → Engine → Engine) (clock : Nat → String) :
    List Visit → Engine → List (List Return) × Engine
  | [], store => ([], store)
  | v :: rest, store =>
    let stayed := (enter v (clock rest.length) store).stay budget v.acts
    (stayed.1 :: (visit budget enter clock rest stayed.2).1,
      (visit budget enter clock rest stayed.2).2)

variable {length : Option Nat}

/-- The record in the file of one store is the one that another has in memory. -/
def Reloads (length : Option Nat) (store store' : Engine) : Prop :=
  ∀ now, ∃ saved, ((SearchRecord.fresh now).load store'.files store'.recordPath now length).2 =
    store.record.restamp saved

theorem Restamped.enter {store store' : Engine} (h : Restamped store store')
    (hreloads : Reloads length store store') (v : Visit) (now now' : String) :
    Restamped (v.keep now store) (v.reopen length now' store') := by
  obtain ⟨_, files, _, rfl⟩ := h
  obtain ⟨saved, hload⟩ := hreloads now'
  refine ⟨saved, files, now', ?_⟩
  change { v.engine with
    now := now'
    record := ((SearchRecord.fresh now').load files store.recordPath now' length).2
    files
    recordPath := store.recordPath } = _
  rw [show ((SearchRecord.fresh now').load files store.recordPath now' length).2 = _ from hload]
  rfl

/-- What was saved since the store was loaded is loaded from it again. -/
theorem Reloads.of_saved {e e' last last' : Engine} (h : Reloads length e e')
    (he : Restamped e e') (hlast : Restamped last last') (hsaved : Saved e' last')
    (hfits : last.record.Fits length) : Reloads length last last' := by
  intro now
  obtain ⟨deeds, hcourse, -, hfile⟩ := hsaved
  obtain ⟨saved, _, _, he'⟩ := he
  obtain ⟨saved', _, _, hlast'⟩ := hlast
  have hrecord : last'.record = last.record.restamp saved' := by
    rw [hlast']
    rfl
  by_cases hdeeds : deeds = []
  -- The file is the one that was loaded, at another time.
  · subst hdeeds
    have hsame := hcourse.of_nil
    obtain ⟨stamp, hload⟩ := h now
    have hstamped : e.record.restamp saved = last.record.restamp saved' := by
      rw [← hrecord, hsame.record, he']
      rfl
    refine ⟨stamp, ?_⟩
    rw [hsame.files, hsame.recordPath, hload]
    exact congrArg (·.restamp stamp) hstamped
  · have hfits' : last'.record.Fits length := by
      rw [hrecord]
      exact hfits
    refine ⟨saved', ?_⟩
    rw [SearchRecord.load_of_written hfits' _ (hfile hdeeds), hrecord]

theorem not_failed_of_alike {xs ys : List Return}
    (h : List.Forall₂ (Alike Restamped) xs ys) (hok : ∀ r ∈ xs, ¬Failed r.1) :
    ∀ r ∈ ys, ¬Failed r.1 := by
  induction h with
  | nil => exact hok
  | cons hxy _ ih =>
    intro r hr
    rcases List.mem_cons.mp hr with rfl | hr
    · rw [← hxy.1]
      exact hok _ List.mem_cons_self
    · exact ih (fun r hr => hok r (List.mem_cons_of_mem _ hr)) r hr

variable {budget : Nat} {clock clock' : Nat → String}

theorem visit_cons (enter : Visit → String → Engine → Engine) (v : Visit) (rest : List Visit)
    (store : Engine) :
    let stayed := (enter v (clock rest.length) store).stay budget v.acts
    visit budget enter clock (v :: rest) store =
      (stayed.1 :: (visit budget enter clock rest stayed.2).1,
        (visit budget enter clock rest stayed.2).2) := rfl

/-- Whatever is loaded from the file is what was kept in memory. -/
theorem visit_alike (visits : List Visit) {store store' : Engine} (h : Restamped store store')
    (hreloads : Reloads length store store')
    (hok : ∀ returns ∈ (visit budget Visit.keep clock visits store).1, ∀ r ∈ returns, ¬Failed r.1)
    (hfits : ∀ returns ∈ (visit budget Visit.keep clock visits store).1, ∀ r ∈ returns,
      r.2.record.Fits length) :
    List.Forall₂ (List.Forall₂ (Alike Restamped)) (visit budget Visit.keep clock visits store).1
        (visit budget (Visit.reopen length) clock' visits store').1 ∧
      Restamped (visit budget Visit.keep clock visits store).2
        (visit budget (Visit.reopen length) clock' visits store').2 := by
  induction visits generalizing store store' with
  | nil => exact ⟨.nil, h⟩
  | cons v rest ih =>
    rw [visit_cons] at hok hfits ⊢
    rw [visit_cons]
    let e := v.keep (clock rest.length) store
    let e' := v.reopen length (clock' rest.length) store'
    have he : Restamped e e' := h.enter hreloads v _ _
    obtain ⟨hreturns, hlast⟩ := he.stay budget v.acts
    have hentered : Reloads length e e' := hreloads
    have hok₁ := hok _ List.mem_cons_self
    have hreloads' : Reloads length (e.stay budget v.acts).2 (e'.stay budget v.acts).2 := by
      have hsaved := ((secure_saved e').stay budget v.acts (.refl e')
        (not_failed_of_alike hreturns hok₁)).2
      -- Without an act nothing comes back, and nothing is known of the length of the numbers.
      cases hacts : v.acts with
      | nil => exact hentered
      | cons act acts =>
        obtain ⟨r, hr, hrlast⟩ := exists_return budget act acts e
        rw [← hacts] at hr hrlast ⊢
        have hfits₁ : (e.stay budget v.acts).2.record.Fits length := by
          rw [← hrlast]
          exact hfits _ List.mem_cons_self r hr
        exact hentered.of_saved he hlast hsaved hfits₁
    obtain ⟨hrest, hlast'⟩ := ih hlast hreloads'
      (fun returns hr => hok returns (List.mem_cons_of_mem _ hr))
      fun returns hr => hfits returns (List.mem_cons_of_mem _ hr)
    exact ⟨.cons hreturns hrest, hlast'⟩

theorem saved_chain_visit (visits : List Visit) (store : Engine)
    (hok : ∀ returns ∈ (visit budget Visit.keep clock visits store).1, ∀ r ∈ returns,
      ¬Failed r.1) :
    List.IsChain Saved
      (store :: (visit budget Visit.keep clock visits store).1.flatten.map (·.2)) := by
  induction visits generalizing store with
  | nil => exact .singleton store
  | cons v rest ih =>
    rw [visit_cons] at hok ⊢
    have hrest := ih ((v.keep (clock rest.length) store).stay budget v.acts).2
      fun returns hr => hok returns (List.mem_cons_of_mem _ hr)
    have hchain := saved_chain budget v.acts _ (hok _ List.mem_cons_self) hrest
    have hstore : SameStore store (v.keep (clock rest.length) store) := ⟨rfl, rfl, rfl⟩
    rw [List.flatten_cons, List.map_append]
    generalize List.map _ _ ++ List.map _ _ = later at hchain ⊢
    cases hchain with
    | singleton => exact .singleton store
    | cons_cons hfirst hmore =>
      have hentered : Saved store (v.keep (clock rest.length) store) :=
        (Saved.refl store).same hstore
      exact .cons_cons (hentered.trans hfirst) hmore

/-! ## A visit that opens a probe -/

/-- A condition that opens a probe. -/
theorem turnAt_optimize {e e' : Engine} {args : List Arg} {candidate : Int} {p : Program}
    {i : Inputs} (hsearch : e.parts.search = true)
    (hstart : e.startSearch args (some ⟨.step p.cursor, []⟩) = (.ok candidate, e')) :
    e.turnAt p (.mk i (.call (Builtin.expand .optimize).name args)) =
      ⟨.ok .expanded, .call (Builtin.expand .optimize).name args, e'⟩ := by
  have hperform : e.perform .optimize (Builtin.expand .optimize).name args
      (some ⟨.step p.cursor, []⟩) = ⟨.ok .expanded, args, e'⟩ := by
    change e.performSearch args (some ⟨.step p.cursor, []⟩) = _
    unfold performSearch
    rw [if_pos hsearch, hstart]
    rfl
  change (Condition.call (Builtin.expand .optimize).name args).evaluateWith
    Condition.evaluateRead (some ⟨.step p.cursor, []⟩) e = _
  rw [Condition.evaluateWith_perform (Builtin.ofName?_name (.expand .optimize)) rfl, hperform]

/-- The first tick of a search holds the input, unless the candidate is 0. -/
theorem tickOn_optimize {e e' : Engine} {m : Moment} {i : Inputs} {args : List Arg}
    {candidate : Int} (hfresh : e.IsFresh) (hm : m.Quiet)
    (hprogram : e.program = some (.ofSteps [.mk i (.call (Builtin.expand .optimize).name args)]))
    (hstart : (e.meet m).beginTick.startSearch args (some ⟨.step 0, []⟩) = (.ok candidate, e'))
    (hne : candidate ≠ 0) (k : Nat) :
    ∃ outcome e'', e.tickOn (k + 2) m = (.ok outcome, e'') ∧ SameStore e' e'' := by
  let s : Step := .mk i (.call (Builtin.expand .optimize).name args)
  let a := (e.meet m).beginTick
  have hprogram' : a.program = some (.ofSteps [s]) := hprogram
  have ha : a.IsFresh := hfresh.meet hm
  obtain ⟨probe, -, hopens⟩ := opens_of_startSearch hstart
  let hold : Step := .mk probe.inputs (.countdown candidate)
  have hinserted : e'.program = some ((Program.ofSteps [s]).splice [hold]) := by
    obtain ⟨p, hp, hp'⟩ := hopens.inserted
    cases hprogram'.symm.trans hp
    exact hp'
  have hturn := turnAt_optimize (p := .ofSteps [s]) (i := i) ha.search hstart
  have hremaining : ((Program.ofSteps [s]).splice [hold]).remaining = [s, hold] :=
    (Program.ofSteps [s]).remaining_splice rfl [hold]
  obtain ⟨p, hafter, hp, -⟩ := setAt_current hinserted hremaining s.condition
  have hleave : a.pace = .inr (a.leave (.ofSteps [s]) s .expanded) :=
    (Paces.left hprogram' rfl (congrArg Turn.outcome hturn) rfl).eq
  have hleft : (a.leave (.ofSteps [s]) s .expanded).program = some p.advance := by
    have hat : a.afterTurn (.ofSteps [s]) s = { e' with program := some p } := by
      rw [afterTurn, hturn]
      exact hafter
    rw [leave, hat]
    rfl
  have hcurrent : p.advance.current? = some hold := by
    have hlast : p.advance.remaining = [hold] := by
      rw [p.remaining_advance, hp]
      rfl
    exact Program.current?_of_remaining hlast
  have hwaits : ((a.leave (.ofSteps [s]) s .expanded).turnAt p.advance hold).outcome =
      .ok .waiting := by
    change Except.ok (Verdict.ofBool (decide (candidate = 0))) = _
    rw [decide_eq_false hne]
    rfl
  have hheld := (Paces.held hleft hcurrent hwaits).eq
  have htick : e.tickOn (k + 2) m = a.walk (k + 2) := by
    rw [tickOn_quiet hm hfresh.override, play, classify_of_none ha.probe]
  refine ⟨_, _, by rw [htick, walk_of_go hleave, walk_of_stop hheld], ?_⟩
  have hstored : SameStore e' (a.leave (.ofSteps [s]) s .expanded) := by
    have hturned : SameStore e' (a.afterTurn (.ofSteps [s]) s) := by
      rw [afterTurn, hturn]
      exact (setAt_search _ _ _).toSameStore
    exact hturned.trans (leave_search _ _ _ _).toSameStore
  refine hstored.trans ?_
  have hset := setAt_search (a.leave (.ofSteps [s]) s .expanded) ⟨.step p.advance.cursor, []⟩
    (.countdown (candidate - 1))
  exact ⟨hset.record, hset.files, hset.recordPath⟩

/-! ## Searching from a bound -/

/-- Looks for the shortest duration, from a lower bound on. -/
def searchArgs (low : Int) : List Arg :=
  [.inputs (.ofKeys .directions), .raw (.int 0), .condition (.countdown 1),
    .condition (.countdown 1), .condition (.countdown 1), .raw (.int low)]

def searchStep (low : Int) : Step :=
  .mk .none (.call (Builtin.expand .optimize).name (searchArgs low))

/-- A host that searches for one tick. -/
def searchActs (low : Int) : List Act := [.load (some [searchStep low]), .tick { player := {} }]

/-- One candidate was opened above the lower bound. -/
def SearchedFrom (low : Int) (e e' : Engine) : Prop :=
  e'.record = ⟨some low, none, some (SearchRecord.doubled low),
    e.record.history ++ [SearchRecord.doubled low], e.now⟩

theorem startSearch_searchArgs {low : Int} {e : Engine} {p : Program}
    (hparts : e.parts.program = true) (hprogram : e.program = some p)
    (hlow : e.record.low.getD low = low) (hhigh : e.record.high = none) (place : Option Place) :
    ∃ e', e.startSearch (searchArgs low) place = (.ok (SearchRecord.doubled low), e') ∧
      SearchedFrom low e e' := by
  let probe : Probe :=
    ⟨.ofKeys .directions, .lo, .countdown 1, .countdown 1, .countdown 1, place⟩
  let record : SearchRecord := { e.record with low := some low }
  have hgiven : missingSearchArgument? (searchArgs low) = none := rfl
  have hread : readProbe (searchArgs low) place = .ok probe := rfl
  have hseedLow : seedLow e.record (searchArgs low) = .ok record := by
    unfold seedLow
    split
    · next known hknown =>
      have hsame : known = low := by
        rw [hknown] at hlow
        exact hlow
      simp only [record, ← hsame, ← hknown]
    · rfl
  have hseedHigh : seedHigh record (searchArgs low) = .ok record := by
    have hopen : record.high = none := hhigh
    unfold seedHigh
    rw [hopen]
    change Except.ok { record with high := none } = _
    rw [← hopen]
  have hnext : record.next probe.mode = SearchRecord.doubled low := by
    simp only [SearchRecord.next, record, hhigh]
    rfl
  have hstart : e.startSearch (searchArgs low) place = e.openProbe probe record := by
    unfold startSearch
    rw [hgiven]
    dsimp only
    rw [hread]
    dsimp only
    rw [hseedLow]
    dsimp only
    rw [hseedHigh]
    rfl
  rw [hstart, openProbe_of_program hparts hprogram, hnext]
  refine ⟨_, rfl, ?_⟩
  change { record.probed probe.mode with lastSaved := e.now } = _
  rw [SearchRecord.probed, hnext]
  simp only [record, hhigh]

theorem stay_search {low : Int} {e : Engine} (hfresh : e.IsFresh)
    (hlow : e.record.low.getD low = low) (hhigh : e.record.high = none) :
    ∃ outcome e', e.stay 2 (searchActs low) =
        ([(.ok none, e.load (some [searchStep low])), (.ok (some outcome), e')], e') ∧
      SearchedFrom low e e' := by
  have hquiet : Moment.Quiet { player := {} } := ⟨rfl, rfl⟩
  have hloaded : (e.load (some [searchStep low])).IsFresh := hfresh.load _
  have hne : SearchRecord.doubled low ≠ 0 := by
    unfold SearchRecord.doubled
    omega
  obtain ⟨e', hstart, hsearched⟩ := startSearch_searchArgs
    (hloaded.meet hquiet).program rfl hlow hhigh (some ⟨.step 0, []⟩)
  obtain ⟨outcome, e'', htick, hstore⟩ := tickOn_optimize hloaded hquiet rfl hstart hne 0
  refine ⟨outcome, e'', ?_, hstore.record.trans hsearched⟩
  simp only [searchActs, stay, act, htick]
  rfl

/-! ## Restarts -/

instance : Trans Saved Saved Saved := ⟨Saved.trans⟩

/-- Restarts do not change a search. Visits without a failure have the same outcomes, reports
and records, whether the store stays in memory or each visit loads it from the file, provided
that the file has the first record. The reader of the file must take the numbers that were
written; one without a limit takes them all (`SearchRecord.fits_none`). Whenever control returns
to the host, what was done since it returned last is saved, the history has the candidates that
were opened since the last clearing, and the file is read as the record unless nothing was ever
done to it. -/
theorem restart_unseen (length : Option Nat) (budget : Nat) (clock clock' : Nat → String)
    (visits : List Visit) (store : Engine) (hstore : Reloads length store store)
    (hok : ∀ returns ∈ (visit budget Visit.keep clock visits store).1, ∀ r ∈ returns, ¬Failed r.1)
    (hfits : ∀ returns ∈ (visit budget Visit.keep clock visits store).1, ∀ r ∈ returns,
      r.2.record.Fits length) :
    let kept := visit budget Visit.keep clock visits store
    let reopened := visit budget (Visit.reopen length) clock' visits store
    List.Forall₂ (List.Forall₂ (Alike Restamped)) kept.1 reopened.1 ∧
      Restamped kept.2 reopened.2 ∧
      List.IsChain Saved (store :: kept.1.flatten.map (·.2)) ∧
      ∀ returns ∈ kept.1, ∀ r ∈ returns, SameStore store r.2 ∨
        ∀ now, r.2.files.read? r.2.recordPath >>= (SearchRecord.read? now · length) =
          some r.2.record := by
  intro kept reopened
  obtain ⟨hreturns, hlast⟩ :=
    visit_alike visits ⟨store.record.lastSaved, store.files, store.now, rfl⟩ hstore hok hfits
  have hchain := saved_chain_visit visits store hok
  refine ⟨hreturns, hlast, hchain, ?_⟩
  intro returns hmem r hr
  have hengine : r.2 ∈ kept.1.flatten.map (·.2) :=
    List.mem_map.mpr ⟨r, List.mem_flatten.mpr ⟨returns, hmem, hr⟩, rfl⟩
  obtain ⟨deeds, hcourse, -, hfile⟩ := hchain.rel_cons hengine
  by_cases hdeeds : deeds = []
  · subst hdeeds
    exact .inl hcourse.of_nil
  · refine .inr fun now => ?_
    rw [hfile hdeeds, Option.bind_eq_bind, Option.bind_some]
    exact SearchRecord.read?_write (hfits returns hmem r hr) now

/-- Two visits that search from 3 ticks on open 6 ticks twice, and so do they with a restart
between them. -/
theorem restart_unseen_from_three :
    let store : Engine := { (default : Engine) with recordPath := ⟨"", ["optimization.json"]⟩ }
    let visits : List Visit := [⟨default, searchActs 3⟩, ⟨default, searchActs 3⟩]
    let kept := visit 2 Visit.keep (fun _ => "") visits store
    let reopened := visit 2 (Visit.reopen none) (fun n => toString n) visits store
    kept.2.record.history = [6, 6] ∧ Restamped kept.2 reopened.2 ∧
      List.IsChain Saved (store :: kept.1.flatten.map (·.2)) := by
  intro store visits kept reopened
  let v : Visit := ⟨default, searchActs 3⟩
  have hfresh : ∀ e, (v.keep "" e).IsFresh := fun _ => ⟨rfl, rfl, rfl, rfl, rfl⟩
  obtain ⟨o₁, e₁, hstay₁, h₁⟩ := @stay_search 3 _ (hfresh store) rfl rfl
  have hrecord : (v.keep "" e₁).record = ⟨some 3, none, some 6, [6], ""⟩ := h₁
  obtain ⟨o₂, e₂, hstay₂, h₂⟩ :=
    @stay_search 3 _ (hfresh e₁) (by rw [hrecord]; rfl) (by rw [hrecord])
  have hkept : kept = ([[(.ok none, (v.keep "" store).load (some [searchStep 3])),
      (.ok (some o₁), e₁)], [(.ok none, (v.keep "" e₁).load (some [searchStep 3])),
      (.ok (some o₂), e₂)]], e₂) := by
    simp only [kept, visits, visit]
    rw [hstay₁]
    dsimp only
    rw [hstay₂]
  have hstore : Reloads none store store := fun now => ⟨now, rfl⟩
  have hok : ∀ returns ∈ kept.1, ∀ r ∈ returns, ¬Failed r.1 := by
    rw [hkept]
    simp only [List.forall_mem_cons]
    exact ⟨⟨not_failed_ok, not_failed_ok, List.forall_mem_nil _⟩,
      ⟨not_failed_ok, not_failed_ok, List.forall_mem_nil _⟩, List.forall_mem_nil _⟩
  obtain ⟨-, hrestamped, hchain, -⟩ :=
    restart_unseen none 2 (fun _ => "") (fun n => toString n) visits store hstore hok
      fun _ _ r _ => r.2.record.fits_none
  refine ⟨?_, hrestamped, hchain⟩
  rw [hkept, show e₂.record = _ from h₂, hrecord]
  rfl

end Engine

end TickScript
