import TickScript.Engine.Tick

/-!
# Engines that answer alike

A condition reaches the engine through a few operations only: it looks at the player, the
overlay and the message box, turns flags over, draws random numbers, inserts steps, and
hands work to the script and to the search. A relation between engines that each of these
operations respects (`Agreement`) is therefore respected by evaluation as a whole
(`Condition.evaluate_alike`), whatever the condition: related engines give the same
verdict, leave the same rest of the condition and stay related.

A property of one engine that each operation keeps (`Kept`) is the case in which the two
engines are one (`Condition.evaluate_kept`).
-/

namespace TickScript

variable {R : Engine → Engine → Prop} {K : Option Place → Option Place → Prop}
variable {P : Engine → Prop} {L : Option Place → Prop} {late : Late}

/-- The same answer, and related engines. -/
def Alike {α : Type} (R : Engine → Engine → Prop) (x y : α × Engine) : Prop :=
  x.1 = y.1 ∧ R x.2 y.2

/-- The same verdict and the same rest, and related engines. -/
structure Turn.Alike {σ : Type} (R : Engine → Engine → Prop) (s t : Turn σ) : Prop where
  outcome : s.outcome = t.outcome
  rest : s.rest = t.rest
  engine : R s.engine t.engine

/-- What a condition cannot see: engines related by `R` show a condition the same, and stay
related under what a condition can do. The places at which a condition stands in the two
engines are related by `K`. -/
structure Agreement (R : Engine → Engine → Prop) (K : Option Place → Option Place → Prop) :
    Prop where
  nowhere : K none none
  inside : ∀ {p q}, K p q → ∀ i, K (p.map (·.arg i)) (q.map (·.arg i))
  script : ∀ {a b}, R a b → a.parts.script = b.parts.script
  search : ∀ {a b}, R a b → a.parts.search = b.parts.search
  messageBox : ∀ {a b}, R a b → a.messageBox = b.messageBox
  exhausted : ∀ {a b}, R a b → a.isExhausted = b.isExhausted
  inputs : ∀ {a b}, R a b → a.currentInputs = b.currentInputs
  random : ∀ {a b}, R a b → a.random = b.random
  toggle : ∀ {a b}, R a b → ∀ f,
    R { a with flags := a.flags.toggle f } { b with flags := b.flags.toggle f }
  setRandom : ∀ {a b}, R a b → ∀ r, R { a with random := r } { b with random := r }
  look : ∀ {a b}, R a b → Alike R a.look b.look
  lookOverlay : ∀ {a b}, R a b → Alike R a.lookOverlay b.lookOverlay
  expand : ∀ {a b}, R a b → ∀ steps, Alike R (a.expand steps) (b.expand steps)
  loadScript : ∀ {a b}, R a b → ∀ entries, R (a.loadScript entries) (b.loadScript entries)
  startSearch : ∀ {a b p q}, R a b → K p q → ∀ args,
    Alike R (a.startSearch args p) (b.startSearch args q)
  clearRecord : ∀ {a b}, R a b → R a.clearRecord b.clearRecord

/-! ## Looking -/

namespace Engine

/-- The engine with its overlay opened. -/
def withOverlay (e : Engine) : Engine :=
  { e with
    simulation := { e.simulation with overlayLoads := e.simulation.overlayLoads + 1 }
    overlayOpen := true }

theorem look_alike {a b : Engine} (hab : R a b) (hseen : a.seen = b.seen)
    (hplayer : a.simulation.player = b.simulation.player)
    (hset : R { a with seen := some a.simulation.player }
      { b with seen := some b.simulation.player }) : Alike R a.look b.look := by
  unfold look
  rw [hseen]
  split
  · exact ⟨rfl, hab⟩
  · exact ⟨hplayer, hset⟩

theorem openOverlay_of_open {e : Engine} (h : e.overlayOpen = true) :
    e.openOverlay = (.ok (), e) := by
  unfold openOverlay
  rw [if_pos h]

theorem openOverlay_of_some {e : Engine} (h : e.overlayOpen = false) {o : Overlay}
    (hoverlay : e.simulation.overlay = some o) : e.openOverlay = (.ok (), e.withOverlay) := by
  have hclosed : ¬e.overlayOpen = true := by
    rw [h]
    exact Bool.false_ne_true
  unfold openOverlay
  rw [if_neg hclosed]
  dsimp only
  split
  · rfl
  · next hnone =>
    rw [hoverlay] at hnone
    cases hnone

theorem openOverlay_of_none {e : Engine} (h : e.overlayOpen = false)
    (hoverlay : e.simulation.overlay = none) :
    e.openOverlay = (.error (.overlayUnavailable e.simulation.name), e) := by
  have hclosed : ¬e.overlayOpen = true := by
    rw [h]
    exact Bool.false_ne_true
  unfold openOverlay
  rw [if_neg hclosed]
  dsimp only
  rw [hoverlay]

/-- A look at the overlay opens it at most, and notes what was seen. -/
theorem lookOverlay_snd (e : Engine) : ∃ overlayLoads overlayOpen overlaySeen,
    e.lookOverlay.2 =
      { e with simulation := { e.simulation with overlayLoads }, overlayOpen, overlaySeen } := by
  have hopen : ∃ overlayLoads overlayOpen, e.openOverlay.2 =
      { e with simulation := { e.simulation with overlayLoads }, overlayOpen } := by
    unfold openOverlay
    split
    · exact ⟨_, _, rfl⟩
    · dsimp only
      split
      · exact ⟨_, _, rfl⟩
      · exact ⟨_, _, rfl⟩
  obtain ⟨overlayLoads, overlayOpen, hopen⟩ := hopen
  unfold lookOverlay
  split
  · next heq =>
    rw [heq] at hopen
    subst hopen
    exact ⟨_, _, _, rfl⟩
  · next heq =>
    rw [heq] at hopen
    subst hopen
    split
    · exact ⟨_, _, _, rfl⟩
    · exact ⟨_, _, _, rfl⟩

/-- Looking at the overlay is alike if each of its two steps is: opening the overlay, and
noting what was seen. -/
theorem lookOverlay_alike {a b : Engine} (hab : R a b) (hopen : a.overlayOpen = b.overlayOpen)
    (hseen : a.overlaySeen = b.overlaySeen) (hname : a.simulation.name = b.simulation.name)
    (hoverlay : a.simulation.overlay = b.simulation.overlay)
    (hload : R a.withOverlay b.withOverlay)
    (hset : ∀ o, R { a with overlaySeen := o } { b with overlaySeen := o })
    (hboth : ∀ o,
      R { a.withOverlay with overlaySeen := o } { b.withOverlay with overlaySeen := o }) :
    Alike R a.lookOverlay b.lookOverlay := by
  unfold lookOverlay
  cases hopened : b.overlayOpen with
  | true =>
    rw [openOverlay_of_open hopened, openOverlay_of_open (hopen.trans hopened)]
    dsimp only
    rw [hseen, hoverlay]
    split
    · exact ⟨rfl, hab⟩
    · exact ⟨rfl, hset _⟩
  | false =>
    have hclosed := hopen.trans hopened
    cases hv : b.simulation.overlay with
    | none =>
      rw [openOverlay_of_none hopened hv, openOverlay_of_none hclosed (hoverlay.trans hv), hname]
      exact ⟨rfl, hab⟩
    | some v =>
      have hseen' : a.withOverlay.overlaySeen = b.withOverlay.overlaySeen := hseen
      have hoverlay' : a.withOverlay.simulation.overlay = b.withOverlay.simulation.overlay :=
        hoverlay
      rw [openOverlay_of_some hopened hv, openOverlay_of_some hclosed (hoverlay.trans hv)]
      dsimp only
      rw [hseen', hoverlay']
      split
      · exact ⟨rfl, hload⟩
      · exact ⟨rfl, hboth _⟩

theorem splice_alike {a b : Engine} (hab : R a b) (hprogram : a.program.isSome = b.program.isSome)
    (hset : ∀ p q, a.program = some p → b.program = some q →
      ∀ steps, R { a with program := some (p.splice steps) }
        { b with program := some (q.splice steps) })
    (steps : List Step) : Alike R (a.splice steps) (b.splice steps) := by
  unfold splice
  cases ha : a.program with
  | none =>
    cases hb : b.program with
    | none => exact ⟨rfl, hab⟩
    | some q =>
      rw [ha, hb] at hprogram
      cases hprogram
  | some p =>
    cases hb : b.program with
    | none =>
      rw [ha, hb] at hprogram
      cases hprogram
    | some q => exact ⟨rfl, hset p q ha hb steps⟩

end Engine

namespace Agreement

/-! ## Predicates and comparisons -/

theorem check (h : Agreement R K) {a b : Engine} (hab : R a b) (c : Check) :
    Alike R (a.check c) (b.check c) := by
  obtain ⟨hplayer, hlook⟩ := h.look hab
  cases c with
  | always => exact ⟨rfl, hab⟩
  | messageBox => exact ⟨h.messageBox hab, hab⟩
  | _ => exact ⟨by simp only [Engine.check, hplayer], hlook⟩

theorem read (h : Agreement R K) {a b : Engine} (hab : R a b) (r : Reading) :
    Alike R (a.read r) (b.read r) := by
  obtain ⟨hplayer, hlook⟩ := h.look hab
  obtain ⟨hoverlay, hopen⟩ := h.lookOverlay hab
  cases r with
  | x | y | speedX | speedY => exact ⟨by simp only [Engine.read, hplayer], hlook⟩
  | overlayX | overlayY | overlayState => exact ⟨by simp only [Engine.read, hoverlay], hopen⟩

theorem compare (h : Agreement R K) {a b : Engine} (hab : R a b) (r : Reading)
    (args : List Arg) : Alike R (a.compare r args) (b.compare r args) := by
  unfold Engine.compare
  split
  · split
    · exact ⟨rfl, hab⟩
    · obtain ⟨hnumber, hread⟩ := h.read hab r
      rcases ha : a.read r with ⟨x | x, a'⟩ <;> rcases hb : b.read r with ⟨y | y, b'⟩ <;>
        rw [ha, hb] at hnumber hread <;> cases hnumber <;> exact ⟨rfl, hread⟩
  · exact ⟨rfl, hab⟩

theorem ask (h : Agreement R K) {a b : Engine} (hab : R a b) (t : Native) :
    Alike R (a.ask t) (b.ask t) := by
  obtain ⟨hplayer, hlook⟩ := h.look hab
  unfold Engine.ask
  rw [h.exhausted hab]
  split
  · exact ⟨rfl, hab⟩
  · exact ⟨by simp only [hplayer], hlook⟩

/-! ## Expanders -/

theorem expanded (h : Agreement R K) {a b : Engine} (hab : R a b) (steps : List Step)
    (args : List Arg) :
    Turn.Alike R (Engine.expanded (a.expand steps) args)
      (Engine.expanded (b.expand steps) args) := by
  obtain ⟨hresult, hexpand⟩ := h.expand hab steps
  exact ⟨congrArg (Except.map fun _ => Verdict.expanded) hresult, rfl, hexpand⟩

theorem performInsert (h : Agreement R K) {a b : Engine} (hab : R a b) (name : String)
    (args : List Arg) : Turn.Alike R (a.performInsert name args) (b.performInsert name args) := by
  unfold Engine.performInsert
  split
  · exact ⟨rfl, rfl, hab⟩
  · exact h.expanded hab _ _

theorem performRepeated (h : Agreement R K) {a b : Engine} (hab : R a b) (name : String)
    (args : List Arg) :
    Turn.Alike R (a.performRepeated name args) (b.performRepeated name args) := by
  unfold Engine.performRepeated
  split
  · exact ⟨rfl, rfl, hab⟩
  · split
    · exact ⟨rfl, rfl, hab⟩
    · split
      · exact ⟨rfl, rfl, hab⟩
      · exact h.expanded hab _ _

theorem performRandom (h : Agreement R K) {a b : Engine} (hab : R a b) (args : List Arg) :
    Turn.Alike R (a.performRandom args) (b.performRandom args) := by
  unfold Engine.performRandom
  split
  · split
    · exact ⟨rfl, rfl, hab⟩
    · exact ⟨rfl, rfl, hab⟩
    · split
      · exact ⟨rfl, rfl, hab⟩
      · dsimp only
        rw [h.random hab]
        split
        · exact ⟨rfl, rfl, h.setRandom hab _⟩
        · split
          · exact ⟨rfl, rfl, h.setRandom hab _⟩
          · split
            · exact ⟨rfl, rfl, h.setRandom hab _⟩
            · exact h.expanded (h.setRandom hab _) _ _
  · exact ⟨rfl, rfl, hab⟩

theorem performScript (h : Agreement R K) {a b : Engine} (hab : R a b) (name : String)
    (args : List Arg) : Turn.Alike R (a.performScript name args) (b.performScript name args) := by
  unfold Engine.performScript
  rw [h.script hab]
  split
  · split
    · exact ⟨rfl, rfl, hab⟩
    · split
      · exact ⟨rfl, rfl, hab⟩
      · exact ⟨rfl, rfl, h.loadScript hab _⟩
  · exact ⟨rfl, rfl, hab⟩

theorem performSearch (h : Agreement R K) {a b : Engine} (hab : R a b) {p q : Option Place}
    (hpq : K p q) (args : List Arg) :
    Turn.Alike R (a.performSearch args p) (b.performSearch args q) := by
  obtain ⟨hresult, hstart⟩ := h.startSearch hab hpq args
  unfold Engine.performSearch
  rw [h.search hab]
  split
  · exact ⟨congrArg (Except.map fun _ => Verdict.expanded) hresult, rfl, hstart⟩
  · exact ⟨rfl, rfl, hab⟩

theorem performClear (h : Agreement R K) {a b : Engine} (hab : R a b) (args : List Arg) :
    Turn.Alike R (a.performClear args) (b.performClear args) := by
  unfold Engine.performClear
  rw [h.search hab]
  split
  · exact ⟨rfl, rfl, h.clearRecord hab⟩
  · exact ⟨rfl, rfl, hab⟩

theorem perform (h : Agreement R K) {a b : Engine} (hab : R a b) {p q : Option Place}
    (hpq : K p q) (m : Expander) (name : String) (args : List Arg) :
    Turn.Alike R (a.perform m name args p) (b.perform m name args q) := by
  cases m with
  | insert => exact h.performInsert hab name args
  | repeated => exact h.performRepeated hab name args
  | randomInput => exact h.performRandom hab args
  | scriptedInput => exact h.performScript hab name args
  | optimize => exact h.performSearch hab hpq args
  | clearSearch => exact h.performClear hab args
  | _ => exact ⟨rfl, rfl, hab⟩

theorem finish (h : Agreement R K) {a b : Engine} (hab : R a b) (m : Expander) (name : String)
    (args : List Arg) (bodies : List Step × List Step) (holds : Bool) :
    Alike R (m.finish name args bodies holds a) (m.finish name args bodies holds b) := by
  have hbody : ∀ body : List Step, Alike R
      (if body.isEmpty then (.ok (), a) else a.expand body)
      (if body.isEmpty then (.ok (), b) else b.expand body) := by
    intro body
    split
    · exact ⟨rfl, hab⟩
    · exact h.expand hab body
  unfold Expander.finish
  rw [h.inputs hab]
  by_cases hloop : m = .loop ∧ holds = true
  · rw [if_pos hloop, if_pos hloop]
    exact h.expand hab _
  · rw [if_neg hloop, if_neg hloop]
    exact hbody _

end Agreement

/-! ## Guarded expanders -/

/-- What a guarded expander makes of the turn of its guard. -/
def Expander.conclude (m : Expander) (name : String) (args : List Arg)
    (bodies : List Step × List Step) (t : Turn Arg) : Turn Condition :=
  match t.outcome with
  | .error f => ⟨.error f, .call name (t.rest :: args.drop 1), t.engine⟩
  | .ok v =>
    let (result, e) := m.finish name (t.rest :: args.drop 1) bodies v.holds t.engine
    ⟨result.map fun _ => .expanded, .call name (t.rest :: args.drop 1), e⟩

theorem Condition.evaluateWith_guarded {m : Expander} {name : String}
    (hname : Builtin.ofName? name = some (.expand m)) (hm : m.isGuarded = true)
    (place : Option Place) (guard : Arg) (others : List Arg) (e : Engine) :
    (Condition.call name (guard :: others)).evaluateWith late place e =
      match guard.toCondition with
      | .error f => ⟨.error f, .call name (guard :: others), e⟩
      | .ok c =>
        match m.bodies name (.condition c :: others) with
        | (.error f, args) => ⟨.error f, .call name args, e⟩
        | (.ok bodies, args) =>
          m.conclude name args bodies (guard.evaluateWith late (place.map (·.arg 0)) e) := by
  rw [Condition.evaluateWith, hname]
  cases m with
  | branch | onlyIf | onlyUnless | loop => rfl
  | _ => cases hm

/-- Evaluates none of its arguments. -/
def Expander.isPlain : Expander → Bool
  | .insert | .repeated | .randomInput | .scriptedInput | .optimize | .clearSearch => true
  | _ => false

theorem Expander.kinds (m : Expander) :
    m = .inOrder ∨ m = .anyOf ∨ m.isGuarded = true ∨ m.isPlain = true := by
  cases m <;> decide

theorem Condition.evaluateWith_perform {m : Expander} {name : String}
    (hname : Builtin.ofName? name = some (.expand m)) (hm : m.isPlain = true)
    (place : Option Place) (args : List Arg) (e : Engine) :
    (Condition.call name args).evaluateWith late place e =
      ⟨(e.perform m name args place).outcome, .call name (e.perform m name args place).rest,
        (e.perform m name args place).engine⟩ := by
  rw [Condition.evaluateWith, hname]
  cases m with
  | inOrder | anyOf | branch | onlyIf | onlyUnless | loop => cases hm
  | _ => rfl

theorem Agreement.conclude (h : Agreement R K) {s t : Turn Arg} (hst : Turn.Alike R s t)
    (m : Expander) (name : String) (args : List Arg) (bodies : List Step × List Step) :
    Turn.Alike R (m.conclude name args bodies s) (m.conclude name args bodies t) := by
  obtain ⟨outcome, rest, engine⟩ := s
  obtain ⟨rfl, rfl, hengine⟩ := hst
  unfold Expander.conclude
  dsimp only at hengine ⊢
  split
  · exact ⟨rfl, rfl, hengine⟩
  · obtain ⟨hresult, hfinish⟩ := h.finish hengine m name (t.rest :: args.drop 1) bodies _
    exact ⟨congrArg (Except.map fun _ => Verdict.expanded) hresult, rfl, hfinish⟩

/-! ## Conditions -/

/-- Conditions that are read on the spot are evaluated alike, too. -/
def Agreement.Covers (R : Engine → Engine → Prop) (K : Option Place → Option Place → Prop)
    (late : Late) : Prop :=
  ∀ {a b p q}, R a b → K p q → ∀ c, Turn.Alike R (late p c a) (late q c b)

mutual

theorem Condition.evaluateWith_alike (h : Agreement R K) (hlate : Agreement.Covers R K late) :
    ∀ (c : Condition) {p q : Option Place} {a b : Engine}, K p q → R a b →
      Turn.Alike R (c.evaluateWith late p a) (c.evaluateWith late q b)
  | .countdown n, p, q, a, b, _, hab => by
    rw [Condition.evaluateWith, Condition.evaluateWith]
    exact ⟨rfl, rfl, hab⟩
  | .toggle f, p, q, a, b, _, hab => by
    rw [Condition.evaluateWith, Condition.evaluateWith]
    exact ⟨rfl, rfl, h.toggle hab f⟩
  | .native test label, p, q, a, b, _, hab => by
    obtain ⟨hanswer, hask⟩ := h.ask hab test
    rw [Condition.evaluateWith, Condition.evaluateWith]
    exact ⟨congrArg (fun answer => Except.ok (Verdict.ofBool answer)) hanswer, rfl, hask⟩
  | .call name args, p, q, a, b, hpq, hab => by
    cases hname : Builtin.ofName? name with
    | none =>
      rw [Condition.evaluateWith, Condition.evaluateWith, hname]
      exact ⟨rfl, rfl, hab⟩
    | some builtin =>
      cases builtin with
      | check c =>
        obtain ⟨hanswer, hcheck⟩ := h.check hab c
        rw [Condition.evaluateWith, Condition.evaluateWith, hname]
        exact ⟨congrArg (fun answer => Except.ok (Verdict.ofBool answer)) hanswer, rfl, hcheck⟩
      | compare r =>
        obtain ⟨hanswer, hcompare⟩ := h.compare hab r args
        rw [Condition.evaluateWith, Condition.evaluateWith, hname]
        exact ⟨congrArg (Except.map Verdict.ofBool) hanswer, rfl, hcompare⟩
      | expand m =>
        rcases m.kinds with rfl | rfl | hm | hm
        · obtain ⟨houtcome, hrest, hengine⟩ := evaluateInOrder_alike h hlate args hab
          rw [Condition.evaluateWith, Condition.evaluateWith, hname]
          exact ⟨houtcome, congrArg (Condition.call name) hrest, hengine⟩
        · obtain ⟨houtcome, hrest, hengine⟩ := evaluateAnyOf_alike h hlate args 0 hpq hab
          rw [Condition.evaluateWith, Condition.evaluateWith, hname]
          exact ⟨houtcome, congrArg (Condition.call name) hrest, hengine⟩
        · cases args with
          | nil =>
            rw [Condition.evaluateWith, Condition.evaluateWith, hname]
            cases m with
            | branch | onlyIf | onlyUnless | loop => exact ⟨rfl, rfl, hab⟩
            | _ => cases hm
          | cons guard others =>
            have hguard := Arg.evaluateWith_alike h hlate guard (h.inside hpq 0) hab
            rw [Condition.evaluateWith_guarded hname hm, Condition.evaluateWith_guarded hname hm]
            split
            · exact ⟨rfl, rfl, hab⟩
            · split
              · exact ⟨rfl, rfl, hab⟩
              · exact h.conclude hguard m name _ _
        · obtain ⟨houtcome, hrest, hengine⟩ := h.perform hab hpq m name args
          rw [Condition.evaluateWith_perform hname hm, Condition.evaluateWith_perform hname hm]
          exact ⟨houtcome, congrArg (Condition.call name) hrest, hengine⟩

theorem Arg.evaluateWith_alike (h : Agreement R K) (hlate : Agreement.Covers R K late) :
    ∀ (x : Arg) {p q : Option Place} {a b : Engine}, K p q → R a b →
      Turn.Alike R (x.evaluateWith late p a) (x.evaluateWith late q b)
  | .condition c, p, q, a, b, hpq, hab => by
    obtain ⟨houtcome, hrest, hengine⟩ := Condition.evaluateWith_alike h hlate c hpq hab
    rw [Arg.evaluateWith, Arg.evaluateWith]
    exact ⟨houtcome, congrArg Arg.condition hrest, hengine⟩
  | .raw v, p, q, a, b, hpq, hab => by
    rw [Arg.evaluateWith, Arg.evaluateWith]
    split
    · exact ⟨rfl, rfl, hab⟩
    · next c _ =>
      obtain ⟨houtcome, hrest, hengine⟩ := hlate hab hpq c
      exact ⟨houtcome, congrArg Arg.condition hrest, hengine⟩
  | .steps body, p, q, a, b, _, hab => by
    simp only [Arg.evaluateWith]
    exact ⟨rfl, rfl, hab⟩
  | .inputs i, p, q, a, b, _, hab => by
    simp only [Arg.evaluateWith]
    exact ⟨rfl, rfl, hab⟩
  | .choices list, p, q, a, b, _, hab => by
    simp only [Arg.evaluateWith]
    exact ⟨rfl, rfl, hab⟩
  | .script entries, p, q, a, b, _, hab => by
    simp only [Arg.evaluateWith]
    exact ⟨rfl, rfl, hab⟩

theorem evaluateInOrder_alike (h : Agreement R K) (hlate : Agreement.Covers R K late) :
    ∀ (args : List Arg) {a b : Engine}, R a b →
      Turn.Alike R (evaluateInOrder late args a) (evaluateInOrder late args b)
  | [], a, b, hab => by
    rw [evaluateInOrder, evaluateInOrder]
    exact ⟨rfl, rfl, hab⟩
  | x :: rest, a, b, hab => by
    obtain ⟨houtcome, hrest, hengine⟩ := Arg.evaluateWith_alike h hlate x h.nowhere hab
    rw [evaluateInOrder, evaluateInOrder, houtcome, hrest]
    split
    · exact ⟨rfl, rfl, hengine⟩
    · split
      · exact ⟨rfl, rfl, hengine⟩
      · exact ⟨rfl, rfl, hengine⟩

theorem evaluateAnyOf_alike (h : Agreement R K) (hlate : Agreement.Covers R K late) :
    ∀ (args : List Arg) (index : Nat) {p q : Option Place} {a b : Engine}, K p q → R a b →
      Turn.Alike R (evaluateAnyOf late p index args a) (evaluateAnyOf late q index args b)
  | [], index, p, q, a, b, _, hab => by
    rw [evaluateAnyOf, evaluateAnyOf]
    exact ⟨rfl, rfl, hab⟩
  | x :: rest, index, p, q, a, b, hpq, hab => by
    obtain ⟨houtcome, hrest, hengine⟩ :=
      Arg.evaluateWith_alike h hlate x (h.inside hpq index) hab
    rw [evaluateAnyOf, evaluateAnyOf]
    dsimp only
    rw [houtcome, hrest]
    split
    · exact ⟨rfl, rfl, hengine⟩
    · split
      · exact ⟨rfl, rfl, hengine⟩
      · obtain ⟨houtcome', hrest', hengine'⟩ :=
          evaluateAnyOf_alike h hlate rest (index + 1) hpq hengine
        exact ⟨houtcome', congrArg (List.cons _) hrest', hengine'⟩

end

theorem Agreement.covers_evaluateRead (h : Agreement R K) :
    Agreement.Covers R K Condition.evaluateRead :=
  fun hab hpq c => Condition.evaluateWith_alike h (fun hab _ _ => ⟨rfl, rfl, hab⟩) c hpq hab

/-- Conditions cannot tell engines apart that agree. -/
theorem Condition.evaluate_alike (h : Agreement R K) (c : Condition) {p q : Option Place}
    {a b : Engine} (hpq : K p q) (hab : R a b) :
    Turn.Alike R (c.evaluate p a) (c.evaluate q b) :=
  c.evaluateWith_alike h h.covers_evaluateRead hpq hab

/-! ## Properties that evaluation keeps -/

/-- A property that every operation of a condition keeps, as long as the condition stands at
a place with the property `L`. -/
structure Kept (P : Engine → Prop) (L : Option Place → Prop) : Prop where
  nowhere : L none
  inside : ∀ {p}, L p → ∀ i, L (p.map (·.arg i))
  toggle : ∀ {e}, P e → ∀ f, P { e with flags := e.flags.toggle f }
  setRandom : ∀ {e}, P e → ∀ r, P { e with random := r }
  look : ∀ {e}, P e → P e.look.2
  lookOverlay : ∀ {e}, P e → P e.lookOverlay.2
  expand : ∀ {e}, P e → ∀ steps, P (e.expand steps).2
  loadScript : ∀ {e}, P e → ∀ entries, P (e.loadScript entries)
  startSearch : ∀ {e p}, P e → L p → ∀ args, P (e.startSearch args p).2
  clearRecord : ∀ {e}, P e → P e.clearRecord

/-- A property that is kept is a relation of each engine that has it to itself. -/
theorem Kept.agreement (h : Kept P L) :
    Agreement (fun a b => a = b ∧ P a) (fun p q => p = q ∧ L p) where
  nowhere := ⟨rfl, h.nowhere⟩
  inside := by
    intro p _ hab i
    obtain ⟨rfl, hp⟩ := hab
    exact ⟨rfl, h.inside hp i⟩
  script := by
    intro a _ hab
    obtain ⟨rfl, _⟩ := hab
    rfl
  search := by
    intro a _ hab
    obtain ⟨rfl, _⟩ := hab
    rfl
  messageBox := by
    intro a _ hab
    obtain ⟨rfl, _⟩ := hab
    rfl
  exhausted := by
    intro a _ hab
    obtain ⟨rfl, _⟩ := hab
    rfl
  inputs := by
    intro a _ hab
    obtain ⟨rfl, _⟩ := hab
    rfl
  random := by
    intro a _ hab
    obtain ⟨rfl, _⟩ := hab
    rfl
  toggle := by
    intro a _ hab f
    obtain ⟨rfl, ha⟩ := hab
    exact ⟨rfl, h.toggle ha f⟩
  setRandom := by
    intro a _ hab r
    obtain ⟨rfl, ha⟩ := hab
    exact ⟨rfl, h.setRandom ha r⟩
  look := by
    intro a _ hab
    obtain ⟨rfl, ha⟩ := hab
    exact ⟨rfl, rfl, h.look ha⟩
  lookOverlay := by
    intro a _ hab
    obtain ⟨rfl, ha⟩ := hab
    exact ⟨rfl, rfl, h.lookOverlay ha⟩
  expand := by
    intro a _ hab steps
    obtain ⟨rfl, ha⟩ := hab
    exact ⟨rfl, rfl, h.expand ha steps⟩
  loadScript := by
    intro a _ hab entries
    obtain ⟨rfl, ha⟩ := hab
    exact ⟨rfl, h.loadScript ha entries⟩
  startSearch := by
    rintro a _ p _ ⟨rfl, ha⟩ ⟨rfl, hp⟩ args
    exact ⟨rfl, rfl, h.startSearch ha hp args⟩
  clearRecord := by
    intro a _ hab
    obtain ⟨rfl, ha⟩ := hab
    exact ⟨rfl, h.clearRecord ha⟩

/-- Evaluation keeps what each operation of a condition keeps. -/
theorem Condition.evaluate_kept (h : Kept P L) (c : Condition) {place : Option Place}
    (hplace : L place) {e : Engine} (he : P e) : P (c.evaluate place e).engine :=
  (c.evaluate_alike h.agreement ⟨rfl, hplace⟩ ⟨rfl, he⟩).engine.2

/-- Looking at the conditions of a probe keeps it, too. -/
theorem Kept.judge (h : Kept P L) {e : Engine} (he : P e) (p : Probe) : P (e.judge p).2.2 := by
  have hlow := p.failLow.evaluate_kept h h.nowhere he
  have hhigh := p.failHigh.evaluate_kept h h.nowhere hlow
  have hwithin := p.success.evaluate_kept h h.nowhere hhigh
  unfold Engine.judge
  dsimp only
  split
  · exact hlow
  · split
    · exact hlow
    · split
      · exact hhigh
      · split
        · exact hhigh
        · split
          · exact hwithin
          · exact hwithin

end TickScript
